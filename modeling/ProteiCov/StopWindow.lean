import ProteiCov.PoolSwap
import ProteiCov.WorkerExits

/-
  Stopping a pool

  `stop` writes its flags without `task_queue_mutex`, so it can return while a worker
  stands between `run_allowed()` and the end of `processTask`: that worker has been
  allowed to dequeue, and no later test takes this back. A worker that has not come so
  far finds the pool paused.

  `stopHolds_iff` says that this window is all there is to it: what is left in the queue
  of a stopped pool stays there exactly if, when `stop` returned, no worker was in the
  window. The destructor writes its flag under the mutex, where no worker can be in it.
-/

namespace ProteiCov.Threads

namespace StopWindow
variable {α : Type}

open State Program WorkerExits

/-- The calls that do not start the pool. -/
def noStart : Call Unit α → Bool
  | .start _ => false
  | .stop _ | .add_task _ _ => true

/-- The pool while nobody calls `start`. -/
abbrev unstarted (same : α → α → Bool) (limit : Nat) : Transition.System (State Unit α) (Step Unit α) :=
  system same limit noStart

/-- The instruction lets nobody dequeue who was not allowed to. -/
def KeepsPaused : Instr Unit α → Prop
  | .startIf _ => False
  | .setPaused _ b => b = true
  | _ => True

theorem lasting_keepsPaused : Lasting (KeepsPaused : Instr Unit α → Prop) :=
  ⟨fun _ h => h.elim, fun _ _ _ => trivial⟩

theorem keepsPaused_noStart {c : Call Unit α} (hc : noStart c = true) :
    ∀ x ∈ c.program, KeepsPaused x := by
  cases c with
  | start p => cases hc
  | stop p => simp [Call.program, Program.stop, KeepsPaused]
  | add_task p e => simp [Call.program, Program.add_task, KeepsPaused]

/-- No worker takes an entry out of the queue as long as nobody calls `start`. -/
def StopHolds (same : α → α → Bool) (limit : Nat) (s : State Unit α) : Prop :=
  ∀ after t i u, (unstarted same limit).run s after = some t → t.stepWorker () i = some u →
    u.slots () = t.slots ()

/-! The queue is whole. -/

/-- One pool with its callers. -/
structure Whole (s : State Unit α) : Prop where
  guarded : Guarded () s
  callers : s.Obeys (Respects ())

theorem respects_program (c : Call Unit α) : ∀ x ∈ c.program, Respects () x := by
  cases c with
  | start p => simp [Call.program, Program.start, Respects]
  | stop p => simp [Call.program, Program.stop, Respects]
  | add_task p e => simp [Call.program, Program.add_task, Respects]

theorem Whole.step {same : α → α → Bool} {limit : Nat} {allows : Call Unit α → Bool}
    {s t : State Unit α} {e : Step Unit α} (hs : Whole s)
    (h : (system same limit allows).step s e = some t) : Whole t :=
  ⟨hs.guarded.step hs.callers h,
    Obeys.step (lasting_respects ()) (fun c _ => respects_program c) hs.callers h⟩

theorem whole_fresh (n : Nat) (es : List α) : Whole (fresh n es) :=
  ⟨Guarded.fresh es (fun _ => ⟨n, 0, rfl⟩) rfl rfl, fun prog hmem => by cases hmem⟩

/-! Outside the window. -/

theorem slots_worker {s t : State Unit α} {i : Nat} (h : WorkerStep s () i t)
    (hidle : ∀ place, (s.pools ()).workers[i]? = some place → place.active = false) :
    t.slots () = s.slots () := by
  cases h with
  | stays _ _ | acquires _ _ _ | releases _ _ => simp [slots]
  | front hi _ => cases hidle _ hi
  | pop hi _ => cases hidle _ hi

/-- A paused pool that nobody is about to start. -/
structure Stopped (s : State Unit α) : Prop where
  quiet : Quiet () s
  callers : s.Obeys KeepsPaused

theorem paused_caller {same : α → α → Bool} {limit : Nat} {s t : State Unit α} {k choice : Nat}
    (hs : s.Obeys KeepsPaused) (hpaused : (s.pools ()).paused = true)
    (h : s.stepCaller same limit k choice = some t) : (t.pools ()).paused = true := by
  obtain ⟨instr, rest, hk, hstep⟩ := callerStep h
  have hinstr := hs _ (List.mem_of_getElem? hk) instr List.mem_cons_self
  rcases hstep.frame.2.2 () with heq | ⟨b, rfl, heq⟩
  · rw [heq]
    exact hpaused
  · rw [heq]
    exact hinstr

theorem paused_step {same : α → α → Bool} {limit : Nat} {s t : State Unit α} {e : Step Unit α}
    (hs : s.Obeys KeepsPaused) (hpaused : (s.pools ()).paused = true)
    (h : (unstarted same limit).step s e = some t) : (t.pools ()).paused = true := by
  cases e with
  | worker p i => exact ((workerStep h).frame ()).2.trans hpaused
  | spurious p i =>
    obtain ⟨_, rfl⟩ := spuriousStep h
    simpa using hpaused
  | caller k choice => exact paused_caller hs hpaused h
  | call c =>
    obtain ⟨_, rfl⟩ := callStep h
    exact hpaused

theorem Stopped.step {same : α → α → Bool} {limit : Nat} {s t : State Unit α} {e : Step Unit α}
    (hs : Stopped s) (h : (unstarted same limit).step s e = some t) : Stopped t := by
  have hpaused := paused_step hs.callers hs.quiet.paused h
  refine ⟨?_, hs.callers.step lasting_keepsPaused (fun _ => keepsPaused_noStart) h⟩
  cases e with
  | worker p i => exact hs.quiet.worker (workerStep h)
  | spurious p i => exact hs.quiet.wakes (Wakes.spurious h) hpaused
  | caller k choice => exact hs.quiet.wakes (Wakes.caller h) hpaused
  | call c =>
    obtain ⟨_, rfl⟩ := callStep h
    exact ⟨hpaused, hs.quiet.idle⟩

theorem Stopped.holds {same : α → α → Bool} {limit : Nat} {s : State Unit α} (hs : Stopped s) :
    StopHolds same limit s := by
  intro after t i u hrun hstep
  have ht : Stopped t := Transition.System.run_inv (fun _ _ _ hs => hs.step) hrun hs
  exact slots_worker (workerStep hstep) (ht.quiet.idle i)

/-! Inside the window. -/

/-- A worker in the window finds an entry and takes it. -/
theorem active_takes {s : State Unit α} {i : Nat} {place : Place α} (hs : Whole s)
    (hi : (s.pools ()).workers[i]? = some place) (hplace : place.active = true) :
    ∃ t, s.stepWorker () i = some t ∧ t.slots () ≠ s.slots () := by
  cases place with
  | front =>
    obtain ⟨e, es, hslots⟩ := hs.guarded.front i hi
    rw [List.map_cons] at hslots
    refine ⟨_, by rw [stepWorker, hi]; simp only [hslots]; rfl, ?_⟩
    rw [hslots]
    simp [slots]
  | pop e =>
    obtain ⟨es, hslots⟩ := hs.guarded.pop i e hi
    refine ⟨_, by rw [stepWorker, hi]; simp only [hslots]; rfl, ?_⟩
    rw [hslots]
    simp [slots]
  | top | lock | wait | block | blocked | notified | check | unlock _ | serving _ | finishing
    | draining | left => cases hplace

/-! A call of `stop`. -/

/-- The caller `k` has not paused the pool yet, or it is paused. -/
structure Stopping (k : Nat) (s : State Unit α) : Prop where
  whole : Whole s
  callers : s.Obeys KeepsPaused
  paused : s.callers[k]? = some (Program.stop ()) ∨ (s.pools ()).paused = true

/-- A call that has not begun begins, or waits. -/
theorem begins {same : α → α → Bool} {limit k : Nat} {s t : State Unit α} {e : Step Unit α}
    (hk : s.callers[k]? = some (Program.stop ())) (h : (unstarted same limit).step s e = some t) :
    t.callers[k]? = some (Program.stop ()) ∨ (t.pools ()).paused = true := by
  cases e with
  | worker p i =>
    rw [(workerStep h).callers]
    exact Or.inl hk
  | spurious p i =>
    obtain ⟨_, rfl⟩ := spuriousStep h
    exact Or.inl hk
  | caller j choice =>
    by_cases hj : j = k
    -- its first instruction is the write of `paused`
    · subst hj
      have hstep := callerStep_at hk h
      cases hstep with
      | idles hidles => cases hidles
      | writes hw =>
        cases hw
        exact Or.inr (by simp)
    · obtain ⟨instr, rest, _, hstep⟩ := callerStep h
      obtain ⟨⟨prog, hcallers, _⟩, _, _⟩ := hstep.frame
      rw [hcallers, List.getElem?_set_ne hj]
      exact Or.inl hk
  | call c =>
    obtain ⟨_, rfl⟩ := callStep h
    exact Or.inl ((List.getElem?_append_left (List.getElem?_eq_some_iff.mp hk).1).trans hk)

theorem Stopping.step {same : α → α → Bool} {limit k : Nat} {s t : State Unit α} {e : Step Unit α}
    (hs : Stopping k s) (h : (unstarted same limit).step s e = some t) : Stopping k t := by
  refine ⟨hs.whole.step h, hs.callers.step lasting_keepsPaused (fun _ => keepsPaused_noStart) h, ?_⟩
  rcases hs.paused with hprog | hpaused
  · exact begins hprog h
  · exact Or.inr (paused_step hs.callers hpaused h)

/-- A pool whose `stop` has returned stays stopped exactly if no worker was in the
window at that moment. -/
theorem stopHolds_iff {same : α → α → Bool} {limit n : Nat} {es : List α}
    {before during : List (Step Unit α)} {s₀ s : State Unit α}
    (hbefore : (pool same limit).run (fresh n es) before = some s₀) (hstart : s₀.Obeys KeepsPaused)
    (hduring : (unstarted same limit).run (s₀.arrive (Program.stop ())) during = some s)
    (hreturned : s.callers[s₀.callers.length]? = some []) :
    StopHolds same limit s ↔ ∀ place ∈ (s.pools ()).workers, place.active = false := by
  have hwhole : Whole s₀ :=
    Transition.System.run_inv (fun _ _ _ hs => hs.step) hbefore (whole_fresh n es)
  have hcalled : Stopping s₀.callers.length (s₀.arrive (Program.stop ())) := by
    refine ⟨⟨hwhole.guarded.arrive (free_program (.stop ())) (balanced_program (.stop ())),
      hwhole.callers.arrive (respects_program (.stop ()))⟩,
      hstart.arrive (keepsPaused_noStart (c := .stop ()) rfl), Or.inl ?_⟩
    simp
  have hs : Stopping s₀.callers.length s :=
    Transition.System.run_inv (fun _ _ _ hs => hs.step) hduring hcalled
  have hpaused : (s.pools ()).paused = true := by
    refine hs.paused.resolve_left (fun hprog => ?_)
    rw [hreturned] at hprog
    cases hprog
  constructor
  · intro h place hmem
    obtain ⟨i, hi⟩ := List.mem_iff_getElem?.mp hmem
    by_contra hplace
    obtain ⟨t, hstep, htakes⟩ := active_takes hs.whole hi (by simpa using hplace)
    exact htakes (h [] s i t rfl hstep)
  · intro h
    have hstopped : Stopped s :=
      ⟨⟨hpaused, fun i place hi => h place (List.mem_of_getElem? hi)⟩, hs.callers⟩
    exact hstopped.holds

/-- A pool with one call queued is started, and its worker takes `n` steps. -/
def startedFor (n : Nat) : Option (State Unit Nat) :=
  (pool (fun _ _ => false) 4).run (fresh 1 [7])
    ([.call (.start ())] ++ List.replicate 5 (.caller 0 0) ++ List.replicate n (.worker () 0))

/-- Then it is stopped. -/
def stoppedNow (s₀ : State Unit Nat) : Option (State Unit Nat) :=
  (unstarted (fun _ _ => false) 4).run (s₀.arrive (Program.stop ())) (List.replicate 2 (.caller 1 0))

theorem stopped_returned {n : Nat}
    (hcallers : (startedFor n).map (fun s => s.callers) = some [[]])
    (hreturned : ((startedFor n).bind stoppedNow).map (fun s => s.callers) = some [[], []]) :
    ∃ s₀ s, startedFor n = some s₀ ∧ stoppedNow s₀ = some s ∧ s₀.Obeys KeepsPaused ∧
      s.callers[s₀.callers.length]? = some [] := by
  obtain ⟨s, hs, hc⟩ := Option.map_eq_some_iff.mp hreturned
  obtain ⟨s₀, hs₀, hs'⟩ := Option.bind_eq_some_iff.mp hs
  rw [hs₀, Option.map_some, Option.some_inj] at hcallers
  refine ⟨s₀, s, hs₀, hs', ?_, by rw [hcallers, hc]; rfl⟩
  unfold Obeys
  rw [hcallers]
  simp

/-- A worker that has not come to its check. -/
theorem stopHolds_before_check : ∃ s₀ s, startedFor 3 = some s₀ ∧ stoppedNow s₀ = some s ∧
    StopHolds (fun _ _ => false) 4 s := by
  obtain ⟨s₀, s, hs₀, hs, hstart, hreturned⟩ :=
    stopped_returned (n := 3) (by decide +kernel) (by decide +kernel)
  have hworkers : ((startedFor 3).bind stoppedNow).map (fun s => (s.pools ()).workers) = some [.check] := by
    decide +kernel
  rw [hs₀, Option.bind_some, hs, Option.map_some, Option.some_inj] at hworkers
  refine ⟨s₀, s, hs₀, hs, (stopHolds_iff hs₀ hstart hs hreturned).mpr ?_⟩
  rw [hworkers]
  simp [Place.active]

/-- A worker that has just been allowed to dequeue. -/
theorem stop_not_holds : ¬ ∀ (before during : List (Step Unit Nat)) (s₀ s : State Unit Nat),
    (pool (fun _ _ => false) 4).run (fresh 1 [7]) before = some s₀ → s₀.Obeys KeepsPaused →
    (unstarted (fun _ _ => false) 4).run (s₀.arrive (Program.stop ())) during = some s →
    s.callers[s₀.callers.length]? = some [] → StopHolds (fun _ _ => false) 4 s := by
  intro h
  obtain ⟨s₀, s, hs₀, hs, hstart, hreturned⟩ :=
    stopped_returned (n := 4) (by decide +kernel) (by decide +kernel)
  have htakes : ((startedFor 4).bind stoppedNow).bind (fun s => (s.stepWorker () 0).map (fun t =>
      (s.slots (), t.slots ()))) = some ([some 7], [none]) := by decide +kernel
  rw [hs₀, Option.bind_some, hs, Option.bind_some] at htakes
  obtain ⟨t, hstep, hslots⟩ := Option.map_eq_some_iff.mp htakes
  rw [Prod.mk.injEq] at hslots
  have hsame := h _ _ s₀ s hs₀ hstart hs hreturned [] s 0 t rfl hstep
  rw [hslots.1, hslots.2] at hsame
  cases hsame

end StopWindow

end ProteiCov.Threads
