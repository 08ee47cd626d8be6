import ProteiCov.PoolThreads

/-
  The workers of a pool that is stopped and started

  One pool that is not destroyed, and callers of `start`, `stop` and `add_task`.
  `stop` sets `waitForCompletion`; a worker whose call ends then breaks out of its
  loop if the queue is empty, and `start` brings no worker back.

  `inLoop_iff_along` says exactly when all of `getSize` workers are still there:
  when no worker that read `waitForCompletion` as set went on to find the queue
  empty.
-/

namespace ProteiCov.Threads

namespace WorkerExits
variable {α : Type}

open State Program

/-- A fresh pool of `n` workers. -/
def fresh (n : Nat) (es : List α) : State Unit α where
  pools := fun _ => Pool.fresh n 0
  queues := fun _ => es.map some
  callers := []
  taken := []

/-- Every call of `start`, `stop` and `add_task` may arrive. -/
abbrev pool (same : α → α → Bool) (limit : Nat) : Transition.System (State Unit α) (Step Unit α) :=
  system same limit (fun _ => true)

def getSize (s : State Unit α) : Nat := (s.pools ()).workers.length

/-- The number of workers still inside the loop of `run`. -/
def inLoop (s : State Unit α) : Nat := (s.pools ()).workers.countP (fun place => !place.isLeft)

/-- No worker that is about to test the queue after a `stop` finds it empty. -/
def Occupied (s : State Unit α) : Step Unit α → Prop
  | .worker _ i => (s.pools ()).workers[i]? = some .draining → s.slots () ≠ []
  | _ => True

theorem inLoop_eq_getSize {s : State Unit α} :
    inLoop s = getSize s ↔ ∀ place ∈ (s.pools ()).workers, place.isLeft = false := by
  unfold inLoop getSize
  rw [List.countP_eq_length]
  simp

/-- The pool is not stopped, and nobody is about to stop it. -/
structure Open (s : State Unit α) : Prop where
  stopped : (s.pools ()).stopped = false
  callers : ∀ prog ∈ s.callers, Instr.setStopped () true ∉ prog

theorem Open.goOn {s u : State Unit α} {k : Nat} {prog : Program Unit α} (hs : Open s)
    (hst : (u.pools ()).stopped = false) (hc : u.callers = s.callers)
    (hprog : Instr.setStopped () true ∉ prog) : Open (u.goOn k prog) := by
  refine ⟨hst, fun prog' hmem => ?_⟩
  rcases List.mem_or_eq_of_mem_set hmem with hmem | rfl
  · rw [hc] at hmem
    exact hs.callers prog' hmem
  · exact hprog

theorem Open.caller {same : α → α → Bool} {limit : Nat} {s t : State Unit α} {k choice : Nat}
    (hs : Open s) (h : s.stepCaller same limit k choice = some t) : Open t := by
  obtain ⟨instr, rest, hk, hstep⟩ := callerStep h
  have hprog := hs.callers _ (List.mem_of_getElem? hk)
  have hrest : Instr.setStopped () true ∉ rest := fun hmem => hprog (List.mem_cons_of_mem _ hmem)
  cases hstep with
  | idles _ => exact hs.goOn hs.stopped rfl hrest
  | starts _ => exact hs.goOn hs.stopped rfl (by simpa [startBlock] using hrest)
  | writes hw =>
    cases hw with
    | stopped p b =>
      -- only the destructor writes `true`, and no caller of the pool runs it
      cases b with
      | true => exact absurd List.mem_cons_self hprog
      | false => exact hs.goOn (by simp) rfl hrest
    | paused p b | waitForCompletion p b | task_queue p old =>
      exact hs.goOn (by simpa using hs.stopped) rfl hrest
  | locks _ | unlocks | wakesAll | wakes _ => exact hs.goOn (by simpa using hs.stopped) rfl hrest
  | pushes _ => exact hs.goOn hs.stopped rfl (by simpa using hrest)

theorem Open.worker {s t : State Unit α} {i : Nat} (hs : Open s) (h : WorkerStep s () i t) :
    Open t := by
  cases h with
  | stays _ _ | acquires _ _ _ | releases _ _ | front _ _ | pop _ _ =>
    exact ⟨by simpa using hs.stopped, hs.callers⟩

theorem Open.spurious {s t : State Unit α} {i : Nat} (hs : Open s)
    (h : s.stepSpurious () i = some t) : Open t := by
  obtain ⟨_, rfl⟩ := spuriousStep h
  exact ⟨by simpa using hs.stopped, hs.callers⟩

theorem Open.arrive {s : State Unit α} (hs : Open s) (c : Call Unit α) : Open (s.arrive c.program) := by
  refine ⟨hs.stopped, fun prog hmem => ?_⟩
  rcases List.mem_append.mp hmem with hmem | hmem
  · exact hs.callers prog hmem
  · rw [List.mem_singleton.mp hmem]
    cases c <;> simp [Call.program, Program.start, Program.stop, Program.add_task]

theorem Open.step {same : α → α → Bool} {limit : Nat} {s t : State Unit α} {e : Step Unit α}
    (hs : Open s) (h : (pool same limit).step s e = some t) : Open t := by
  cases e with
  | worker p i => exact hs.worker (workerStep h)
  | spurious p i => exact hs.spurious h
  | caller k choice => exact hs.caller h
  | call c =>
    cases h
    exact hs.arrive c

/-! Who leaves. -/

/-- The worker that moved is in its loop exactly if it did not leave now. -/
theorem inLoop_set {s t : State Unit α} {i : Nat} {place : Place α} (place' : Place α)
    (hi : (s.pools ()).workers[i]? = some place) (hplace : place.isLeft = false)
    (hw : (t.pools ()).workers = (s.pools ()).workers.set i place') :
    inLoop t = getSize t ↔ inLoop s = getSize s ∧ place'.isLeft = false := by
  have hlt := (List.getElem?_eq_some_iff.mp hi).1
  rw [inLoop_eq_getSize, inLoop_eq_getSize, hw]
  constructor
  · intro h
    refine ⟨fun x hx => ?_, h place' (List.mem_set hlt place')⟩
    obtain ⟨j, hj⟩ := List.mem_iff_getElem?.mp hx
    by_cases hij : i = j
    · subst hij
      rw [hi] at hj
      cases hj
      exact hplace
    · exact h x (List.mem_of_getElem? ((List.getElem?_set_ne hij).trans hj))
  · rintro ⟨h, hplace'⟩ x hx
    rcases List.mem_or_eq_of_mem_set hx with hx | rfl
    · exact h x hx
    · exact hplace'

/-- A step of a worker takes it out of the loop exactly if it drains an empty
queue. -/
theorem worker_inLoop {s t : State Unit α} {p : Unit} {i : Nat} (hs : Open s) (h : WorkerStep s p i t) :
    inLoop t = getSize t ↔ inLoop s = getSize s ∧ Occupied s (.worker p i) := by
  have hother : ∀ {place : Place α}, (s.pools ()).workers[i]? = some place → place ≠ .draining →
      Occupied s (.worker p i) := by
    intro place hi hne hdrain
    rw [hi] at hdrain
    exact absurd (Option.some_inj.mp hdrain) hne
  cases h with
  | @stays place place' hi h =>
    have hset : place.isLeft = false → (inLoop (s.setPlace () i place') = getSize (s.setPlace () i place') ↔
        inLoop s = getSize s ∧ place'.isLeft = false) :=
      fun hplace => inLoop_set place' hi hplace (by simp)
    cases h with
    -- the pool is never stopped, so nobody quits at the top of its loop
    | quit hstop =>
      rw [hs.stopped] at hstop
      cases hstop
    -- the one way out: `task_queue->empty()` after `waitForCompletion`
    | leave hempty =>
      rw [hset rfl]
      exact and_congr_right (fun _ => ⟨fun h => (by cases h), fun hocc => absurd hempty (hocc hi)⟩)
    | more hslots =>
      rw [hset rfl]
      exact and_congr_right (fun _ => ⟨fun _ _ => hslots, fun _ => rfl⟩)
    | enter _ | pass _ | wait _ | take _ | served _ | again _ | drain _ =>
      rw [hset rfl]
      exact and_congr_right (fun _ => ⟨fun _ => hother hi (by simp), fun _ => rfl⟩)
  | @acquires place hi h hfree =>
    have hplace : place.isLeft = false ∧ place ≠ .draining := by
      rcases h with rfl | rfl <;> simp [Place.isLeft]
    rw [inLoop_set .wait hi hplace.1 (by simp)]
    exact and_congr_right (fun _ => ⟨fun _ => hother hi hplace.2, fun _ => rfl⟩)
  | @releases place place' hi h =>
    have hplace : place.isLeft = false ∧ place ≠ .draining ∧ place'.isLeft = false := by
      cases h <;> simp [Place.isLeft]
    rw [inLoop_set place' hi hplace.1 (by simp)]
    exact and_congr_right (fun _ => ⟨fun _ => hother hi hplace.2.1, fun _ => hplace.2.2⟩)
  | @front e rest hi h =>
    rw [inLoop_set (.pop e) hi rfl (by simp)]
    exact and_congr_right (fun _ => ⟨fun _ => hother hi (by simp), fun _ => rfl⟩)
  | @pop e x rest hi h =>
    rw [inLoop_set (.unlock e) hi rfl (by simp)]
    exact and_congr_right (fun _ => ⟨fun _ => hother hi (by simp), fun _ => rfl⟩)

theorem wakes_inLoop {s t : State Unit α} (h : Wakes s t) :
    inLoop t = getSize t ↔ inLoop s = getSize s := by
  rw [inLoop_eq_getSize, inLoop_eq_getSize]
  constructor
  · intro ht x hx
    obtain ⟨i, hi⟩ := List.mem_iff_getElem?.mp hx
    rcases h () i with heq | ⟨hs, _⟩
    · exact ht x (List.mem_of_getElem? (heq.trans hi))
    · rw [hs] at hi
      cases hi
      rfl
  · intro hs x hx
    obtain ⟨i, hi⟩ := List.mem_iff_getElem?.mp hx
    rcases h () i with heq | ⟨_, ht⟩
    · exact hs x (List.mem_of_getElem? (heq.symm.trans hi))
    · rw [ht] at hi
      cases hi
      rfl

theorem step_inLoop {same : α → α → Bool} {limit : Nat} {s t : State Unit α} {e : Step Unit α}
    (hs : Open s) (h : (pool same limit).step s e = some t) :
    inLoop t = getSize t ↔ inLoop s = getSize s ∧ Occupied s e := by
  cases e with
  | worker p i => exact worker_inLoop hs (workerStep h)
  | spurious p i => exact (wakes_inLoop (Wakes.spurious h)).trans (and_iff_left trivial).symm
  | caller k choice => exact (wakes_inLoop (Wakes.caller h)).trans (and_iff_left trivial).symm
  | call c =>
    cases h
    exact (and_iff_left trivial).symm

/-- All `getSize` workers are in the loop after a run exactly if in no step of it a
worker tested an empty queue after a `stop`. -/
theorem inLoop_iff_along {same : α → α → Bool} {limit n : Nat} {es : List α}
    {events : List (Step Unit α)} {s : State Unit α}
    (h : (pool same limit).run (fresh n es) events = some s) :
    inLoop s = getSize s ↔ (pool same limit).Along Occupied (fresh n es) events := by
  have hfresh : inLoop (fresh n es) = getSize (fresh n es) := by
    rw [inLoop_eq_getSize]
    intro place hmem
    rw [List.eq_of_mem_replicate hmem]
    rfl
  have hopen : Open (fresh n es) := ⟨rfl, fun _ hmem => by cases hmem⟩
  rw [Transition.System.run_iff_along (fun s e t hs => hs.step) (fun s e t hs => step_inLoop hs) h hopen]
  exact and_iff_right hfresh

/-- One worker takes a call; `stop` comes while it serves it, and then `start`. -/
def stoppedEvents : List (Step Unit Nat) :=
  [.call (.start ())] ++ List.replicate 5 (.caller 0 0) ++
  [.call (.add_task () 7)] ++ List.replicate 4 (.caller 1 0) ++
  List.replicate 8 (.worker () 0) ++
  [.call (.stop ()), .caller 2 0, .caller 2 0] ++
  List.replicate 2 (.worker () 0)

theorem inLoop_iff_along_stopped :
    ∃ s, (pool (fun _ _ => false) 4).run (fresh 1 []) stoppedEvents = some s ∧ inLoop s = 0 ∧
      ¬ (pool (fun _ _ => false) 4).Along Occupied (fresh 1 []) stoppedEvents := by
  let stopped := (pool (fun _ _ => false) 4).run (fresh 1 []) stoppedEvents
  have hsome : stopped.isSome = true := by decide +kernel
  obtain ⟨s, hs⟩ := Option.isSome_iff_exists.mp hsome
  have hin : stopped.map inLoop = some 0 := by decide +kernel
  have hsize : stopped.map getSize = some 1 := by decide +kernel
  rw [hs, Option.map_some, Option.some_inj] at hin hsize
  refine ⟨s, hs, hin, fun hal => ?_⟩
  have heq := (inLoop_iff_along hs).mpr hal
  rw [hin, hsize] at heq
  cases heq

/-- The worker leaves, and the `start` that follows finds nobody. -/
def abandoned : Option (State Unit Nat) :=
  (pool (fun _ _ => false) 4).run (fresh 1 [])
    (stoppedEvents ++ [.call (.start ())] ++ List.replicate 5 (.caller 3 0))

theorem abandoned_inLoop : ∃ s, abandoned = some s ∧ (∀ prog ∈ s.callers, prog = []) ∧
    (s.pools ()).paused = false ∧ inLoop s = 0 ∧ getSize s = 1 := by
  have hsome : abandoned.isSome = true := by decide +kernel
  obtain ⟨s, hs⟩ := Option.isSome_iff_exists.mp hsome
  have hcallers : abandoned.map (fun s => s.callers) = some [[], [], [], []] := by decide +kernel
  have hpaused : abandoned.map (fun s => (s.pools ()).paused) = some false := by decide +kernel
  have hin : abandoned.map inLoop = some 0 := by decide +kernel
  have hsize : abandoned.map getSize = some 1 := by decide +kernel
  rw [hs, Option.map_some, Option.some_inj] at hcallers hpaused hin hsize
  refine ⟨s, hs, ?_, hpaused, hin, hsize⟩
  rw [hcallers]
  simp

end WorkerExits

end ProteiCov.Threads
