import ProteiCov.PoolSwap
import ProteiCov.Lib.BoundedQueue
import ProteiCov.Lib.Runs

/-
  One pool after the other

  A manager goes on: clients start, stop and add to its pool, `update` gives the queue
  another limit and may build a pool and install it, and this happens any number of
  times. The pools are numbered as they were built. `updateMtx` keeps `addTask` and an
  update apart; the workers of all pools take no notice of it. `startThreadPool` and
  `stopThreadPool` take no `updateMtx` in the source, where `startThreadPool` is called
  once, before there are clients, and nobody but an update calls the other: here they
  come while no update runs, and what they would do during one is not in the model.

  All the pools hand on one queue object. `linearizable` says that it is one atomic
  bounded queue, whatever the interleaving: each push takes effect where a caller
  executes it, each dequeue where a worker moves the front entry out, and nothing else
  does anything to the queue. So what holds of bounded queues holds of the calls of
  every run (`served_in_order`).

  The swap is followed on the program its caller has left, read as a sequence of phases
  (`Plan`): what the phase says of the threads (`Stands`) is enough for the next
  instruction.
-/

namespace ProteiCov.Threads

namespace State
variable {π α : Type} [DecidableEq π]

/-! More about single steps. -/

/-- Who moves was in its loop; it comes to block only in a pool that is not stopped, and
waits only after that. -/
theorem WorkerStep.moves {s t : State π α} {p : π} {i : Nat} (h : WorkerStep s p i t) :
    ∃ place place', (s.pools p).workers[i]? = some place ∧
      (t.pools p).workers = (s.pools p).workers.set i place' ∧ place ≠ .left ∧
      (place' = .block → (s.pools p).stopped = false) ∧ (place' = .blocked → place = .block) := by
  cases h with
  | @stays place place' hi h =>
    refine ⟨place, place', hi, by simp, ?_⟩
    cases h with
    | wait hno =>
      simp only [Bool.or_eq_false_iff] at hno
      exact ⟨by simp, fun _ => hno.2, by simp⟩
    | enter _ | quit _ | pass _ | take _ | served _ | again _ | drain _ | more _ | leave _ =>
      exact ⟨by simp, by simp, by simp⟩
  | @acquires place hi h hfree =>
    refine ⟨place, .wait, hi, by simp, ?_, by simp, by simp⟩
    rcases h with rfl | rfl <;> simp
  | @releases place place' hi h =>
    refine ⟨place, place', hi, by simp, ?_⟩
    cases h with
    | block => exact ⟨by simp, by simp, fun _ => rfl⟩
    | refuse _ | serve _ => exact ⟨by simp, by simp, by simp⟩
  | @front e rest hi h => exact ⟨.front, .pop e, hi, by simp, by simp, by simp, by simp⟩
  | @pop e x rest hi h => exact ⟨.pop e, .unlock e, hi, by simp, by simp, by simp, by simp⟩

theorem WorkerStep.stopped {s t : State π α} {p : π} {i : Nat} (h : WorkerStep s p i t) (q : π) :
    (t.pools q).stopped = (s.pools q).stopped := by
  cases h with
  | stays _ _ | acquires _ _ _ | releases _ _ | front _ _ | pop _ _ =>
    by_cases hq : q = p
    · subst hq
      simp
    · simp [hq]

/-- A worker takes an entry exactly where it stands at the front. -/
theorem WorkerStep.takes {s t : State π α} {p : π} {i : Nat} (h : WorkerStep s p i t) :
    ((s.pools p).workers[i]? = some .front ∧ ∃ e, t.taken = s.taken ++ [(p, i, e)]) ∨
      ((s.pools p).workers[i]? ≠ some .front ∧ t.taken = s.taken) := by
  cases h with
  | @stays place place' hi h =>
    refine Or.inr ⟨?_, rfl⟩
    rw [hi]
    cases h <;> simp
  | @acquires place hi h hfree =>
    refine Or.inr ⟨?_, rfl⟩
    rw [hi]
    rcases h with rfl | rfl <;> simp
  | @releases place place' hi h =>
    refine Or.inr ⟨?_, rfl⟩
    rw [hi]
    cases h <;> simp
  | @front e rest hi h => exact Or.inl ⟨hi, e, rfl⟩
  | @pop e x rest hi h =>
    refine Or.inr ⟨?_, rfl⟩
    rw [hi]
    simp

/-- Of the callers' instructions only a push changes a queue. -/
theorem CallerStep.queues_kept {same : α → α → Bool} {limit : Nat} {s t : State π α} {k choice : Nat}
    {instr : Instr π α} {rest : Program π α} (h : CallerStep same limit s k choice rest instr t)
    (hpush : ∀ p e, instr ≠ .push p e) : t.queues = s.queues := by
  cases h with
  | idles _ | starts _ | writes _ | locks _ | unlocks | wakesAll | wakes _ => rfl
  | @pushes p e es _ => exact absurd rfl (hpush p e)

/-- Only a transfer gives a pool another queue. -/
theorem CallerStep.task_queue {same : α → α → Bool} {limit : Nat} {s t : State π α} {k choice : Nat}
    {instr : Instr π α} {rest : Program π α} (h : CallerStep same limit s k choice rest instr t)
    (htransfer : ∀ p old, instr ≠ .transfer p old) (r : π) :
    (t.pools r).task_queue = (s.pools r).task_queue := by
  by_cases hpush : ∃ p e, instr = .push p e
  · obtain ⟨p, e, rfl⟩ := hpush
    cases h with
    | idles _ | pushes _ => rfl
    | writes hw => cases hw
  · exact (h.queues (fun p e heq => hpush ⟨p, e, heq⟩) htransfer).2 r

theorem CallerStep.stopped {same : α → α → Bool} {limit : Nat} {s t : State π α} {k choice : Nat}
    {instr : Instr π α} {rest : Program π α} (h : CallerStep same limit s k choice rest instr t) (q : π) :
    (t.pools q).stopped = (s.pools q).stopped ∨
      ∃ b, instr = .setStopped q b ∧ (t.pools q).stopped = b := by
  cases h with
  | idles _ | starts _ | pushes _ => exact Or.inl rfl
  | @writes instr p x hw =>
    by_cases hq : q = p
    · subst hq
      cases hw with
      | stopped _ b => exact Or.inr ⟨b, rfl, by simp⟩
      | paused _ _ | waitForCompletion _ _ | task_queue _ _ => exact Or.inl (by simp)
    · exact Or.inl (by simp [hq])
  | @locks p _ | @unlocks p | @wakesAll p | @wakes p _ =>
    refine Or.inl ?_
    by_cases hq : q = p <;> simp [hq]

theorem Guarded.built {g p : π} {s : State π α} (hs : Guarded g s) (hnobody : (s.pools p).workers = [])
    (hfree : (s.pools p).mutex = none) (hne : p ≠ g) (n q : Nat) :
    Guarded g (s.setPool p (Pool.fresh n q)) := by
  have hnew : ∀ (i : Nat) (place : Place α), (Pool.fresh n q : Pool α).workers[i]? = some place →
      place = .top := fun i place hi => List.eq_of_mem_replicate (List.mem_of_getElem? hi)
  have hold : ∀ (i : Nat) (place : Place α), (s.pools p).workers[i]? ≠ some place := by
    intro i place
    simp [hnobody]
  refine hs.frame ⟨hs.locked.mutex.stay (funext (fun r => ?_)) (fun o r => ?_), hs.locked.balanced⟩
    (fun r i place hplace => ?_) (fun r hr => ?_) ?_
  · by_cases hr : r = p
    · subst hr
      simp [hfree, Pool.fresh]
    · simp [hr]
  · cases o with
    | caller k => exact Iff.rfl
    | worker i =>
      by_cases hr : r = p
      · subst hr
        constructor
        · rintro ⟨place, hi, hplace⟩
          rw [setPool_pools, Function.update_self] at hi
          rw [hnew i place hi] at hplace
          cases hplace
        · rintro ⟨place, hi, _⟩
          exact absurd hi (hold i place)
      · simp [Holds, hr]
  · by_cases hr : r = p
    · subst hr
      rw [setPool_pools, Function.update_self]
      refine ⟨fun hi => ?_, fun hi => absurd hi (hold i place)⟩
      rw [hnew i place hi] at hplace
      cases hplace
    · simp [hr]
  · by_cases hp : r = p
    · subst hp
      simp [Pool.fresh]
    · simpa [hp] using hs.paused r hr
  · simp [slots, Ne.symm hne]

/-- The instructions of calls, which need one mutex at most and wait for no thread. -/
def Simple (p : π) : Instr π α → Prop
  | .lock q => q = p
  | .join _ => False
  | _ => True

omit [DecidableEq π] in
theorem lasting_simple (p : π) : Lasting (Simple p : Instr π α → Prop) where
  start := by
    intro q _ instr hmem
    simp only [Program.startBlock, List.mem_cons, List.not_mem_nil, or_false] at hmem
    rcases hmem with rfl | rfl | rfl | rfl <;> trivial
  push := fun _ _ _ => trivial

end State

namespace PoolChain
variable {α κ : Type}

open State Program

/-- A manager and the threads of all its pools, and who holds `updateMtx` for an
update: the pools below `built` were built, the last of them by the update that is going
on. -/
structure Managed (α : Type) where
  threads : State Nat α
  built : Nat
  threadPool_ : Nat
  sizeOfQueue : Nat
  updating : Option Nat

inductive Event (α : Type) where
  | thread (e : Step Nat α)
  | call (c : Call Unit α)
  | update (size : Nat) (operators : Option Nat)
  | updated

/-- A call of the manager goes to its pool. -/
def onPool (p : Nat) : Call Unit α → Call Nat α
  | .start _ => .start p
  | .stop _ => .stop p
  | .add_task _ e => .add_task p e

namespace Managed

/-- An update has built a pool and installs it. While it holds `updateMtx` nobody reads
`threadPool_`, which the code assigns after the transfer. -/
@[simps] def swap (s : Managed α) (size operators : Nat) : Managed α where
  threads := (s.threads.setPool s.built (Pool.fresh operators s.built)).arrive
    (setNewThreadPool s.built s.threadPool_)
  built := s.built + 1
  threadPool_ := s.built
  sizeOfQueue := size
  updating := some s.threads.callers.length

/-- Calls wait for an update to end, and an update for the calls; `startThreadPool` and
`stopThreadPool`, which do not wait in the source, do so here. -/
def step [DecidableEq κ] (key : α → κ) (s : Managed α) : Event α → Option (Managed α)
  | .thread e =>
    ((Threads.system (fun d e => key d = key e) s.sizeOfQueue (fun _ => false)).step s.threads e).map
      (fun t => { s with threads := t })
  | .call c =>
    if s.updating = none then some { s with threads := s.threads.arrive (onPool s.threadPool_ c).program }
    else none
  | .update size operators =>
    if s.updating = none ∧ s.threads.callers.all List.isEmpty then
      match operators with
      | none => some { s with sizeOfQueue := size }
      | some n => some (s.swap size n)
    else none
  | .updated =>
    match s.updating with
    | some k => if s.threads.callers[k]?.any List.isEmpty then some { s with updating := none } else none
    | none => none

end Managed

/-- A manager over its whole life. -/
def managers [DecidableEq κ] (key : α → κ) : Transition.System (Managed α) (Event α) where
  step := Managed.step key

/-- A manager with its first pool, that was not started yet. -/
def fresh (operators size : Nat) : Managed α where
  threads := {
    pools := fun p => if p = 0 then Pool.fresh operators 0 else Pool.fresh 0 p
    queues := fun _ => []
    callers := []
    taken := [] }
  built := 1
  threadPool_ := 0
  sizeOfQueue := size
  updating := none

/-! The phases of a swap. -/

/-- How far a swap has come: which pool has the queue; whether the old pool is paused,
is stopped with no worker between its test and its wait, has been notified of that, and
has been left by its workers. -/
structure Phase where
  guard : Nat
  sealed : Bool
  closed : Bool
  told : Bool
  joined : Bool

/-- A program that takes the swap of `old` for `new` through its phases. -/
def Plan (new old : Nat) : Phase → Program Nat α → Prop
  | φ, [] => φ.guard = new ∧ φ.joined = true
  | φ, .setPaused p b :: rest =>
    (p = old ∧ b = true ∧ φ.guard = old ∧ Plan new old { φ with sealed := true } rest) ∨
      (p = new ∧ φ.guard = new ∧ Plan new old φ rest)
  | φ, .transfer p o :: rest =>
    p = new ∧ o = old ∧ φ.guard = old ∧ φ.sealed = true ∧ Plan new old { φ with guard := new } rest
  | φ, .setStopped p b :: rest =>
    (p = old ∧ b = true ∧ owns old rest = true ∧ Plan new old { φ with closed := true } rest) ∨
      (p = new ∧ Plan new old φ rest)
  | φ, .notifyAll p :: rest =>
    (p = old ∧ φ.closed = true ∧ Plan new old { φ with told := true } rest) ∨
      (p = new ∧ Plan new old φ rest)
  | φ, .join p :: rest =>
    p = old ∧ φ.told = true ∧ (∀ q, owns q rest = false) ∧ Plan new old { φ with joined := true } rest
  | φ, .startIf p :: rest => p = new ∧ φ.guard = new ∧ Plan new old φ rest
  | _, .push _ _ :: _ | _, .notifyOne _ :: _ => False
  | φ, .setWaitForCompletion _ _ :: rest | φ, .lock _ :: rest | φ, .unlock _ :: rest => Plan new old φ rest

/-- Nothing was done yet. -/
def Phase.begun (old : Nat) : Phase where
  guard := old
  sealed := false
  closed := false
  told := false
  joined := false

theorem plan_setNewThreadPool {new old : Nat} (h : old ≠ new) :
    Plan new old (.begun old) (setNewThreadPool new old : Program Nat α) := by
  have hjoin : ∀ q, owns q (start new : Program Nat α) = false := fun _ => rfl
  simp [setNewThreadPool, stop, transferObjects, destroy, Plan, Phase.begun, owns, h, Ne.symm h, hjoin]
  simp [start, Plan]

theorem plan_startBlock {new old : Nat} {φ : Phase} {rest : Program Nat α} (hguard : φ.guard = new)
    (h : Plan new old φ rest) : Plan new old φ (startBlock new ++ rest) := by
  simp [startBlock, Plan, hguard, h]

/-- What the phase says of the threads. -/
structure Stands (old : Nat) (φ : Phase) (t : State Nat α) : Prop where
  guarded : Guarded φ.guard t
  queue : (t.pools φ.guard).task_queue = 0
  sealed : φ.guard = old → φ.sealed = true → (t.pools old).paused = true
  closed : φ.closed = true → (t.pools old).stopped = true ∧
    ∀ place ∈ (t.pools old).workers, place ≠ .block
  told : φ.told = true → φ.closed = true ∧ ∀ place ∈ (t.pools old).workers, place ≠ .blocked
  joined : φ.joined = true → ∀ place ∈ (t.pools old).workers, place = .left

namespace Stands
variable {old : Nat} {φ : Phase} {s t : State Nat α}

theorem worker {p i : Nat} (hs : Stands old φ s) (h : WorkerStep s p i t) : Stands old φ t := by
  obtain ⟨place, place', hi, hw, hleft, hblock, hwait⟩ := h.moves
  have hmem := List.mem_of_getElem? hi
  -- a place of the old pool's workers, before the step or new
  have hold : ∀ x ∈ (t.pools old).workers, x ∈ (s.pools old).workers ∨ (p = old ∧ x = place') := by
    intro x hx
    obtain ⟨_, _, _, _, hother, _⟩ := h.workers
    by_cases hp : old = p
    · subst hp
      rw [hw] at hx
      rcases List.mem_or_eq_of_mem_set hx with hx | rfl
      · exact Or.inl hx
      · exact Or.inr ⟨rfl, rfl⟩
    · rw [hother old hp] at hx
      exact Or.inl hx
  have hclosed : φ.closed = true → (t.pools old).stopped = true ∧
      ∀ x ∈ (t.pools old).workers, x ≠ .block := by
    intro hφ
    obtain ⟨hstop, hno⟩ := hs.closed hφ
    refine ⟨(h.stopped old).trans hstop, fun x hx => ?_⟩
    rcases hold x hx with hx | ⟨rfl, rfl⟩
    · exact hno x hx
    · intro heq
      rw [hblock heq] at hstop
      cases hstop
  refine ⟨(hs.guarded.worker h).1, ((h.frame _).1).trans hs.queue,
    fun hg hφ => ((h.frame _).2).trans (hs.sealed hg hφ), hclosed, fun hφ => ?_, fun hφ x hx => ?_⟩
  · obtain ⟨hφ', hno⟩ := hs.told hφ
    refine ⟨hφ', fun x hx => ?_⟩
    rcases hold x hx with hx | ⟨rfl, rfl⟩
    · exact hno x hx
    · intro heq
      exact (hs.closed hφ').2 place hmem (hwait heq)
  · rcases hold x hx with hx | ⟨rfl, rfl⟩
    · exact hs.joined hφ x hx
    · exact absurd (hs.joined hφ place hmem) hleft

theorem wakes (hs : Stands old φ s) (hguarded : Guarded φ.guard t) (hw : Wakes s t)
    (hqueue : (t.pools φ.guard).task_queue = (s.pools φ.guard).task_queue)
    (hpaused : φ.guard = old → φ.sealed = true → (t.pools old).paused = true)
    (hstopped : φ.closed = true → (t.pools old).stopped = true) : Stands old φ t := by
  have hold : ∀ x ∈ (t.pools old).workers, x ∈ (s.pools old).workers ∨
      (x = .notified ∧ .blocked ∈ (s.pools old).workers) := by
    intro x hx
    obtain ⟨i, hi⟩ := List.mem_iff_getElem?.mp hx
    rcases hw old i with heq | ⟨hblocked, hnotified⟩
    · exact Or.inl (List.mem_of_getElem? (heq ▸ hi))
    · rw [hi] at hnotified
      exact Or.inr ⟨Option.some_inj.mp hnotified, List.mem_of_getElem? hblocked⟩
  refine ⟨hguarded, hqueue.trans hs.queue, hpaused, fun hφ => ⟨hstopped hφ, fun x hx => ?_⟩,
    fun hφ => ⟨(hs.told hφ).1, fun x hx => ?_⟩, fun hφ x hx => ?_⟩
  · rcases hold x hx with hx | ⟨rfl, _⟩
    · exact (hs.closed hφ).2 x hx
    · simp
  · rcases hold x hx with hx | ⟨rfl, _⟩
    · exact (hs.told hφ).2 x hx
    · simp
  · rcases hold x hx with hx | ⟨rfl, hblocked⟩
    · exact hs.joined hφ x hx
    · cases hs.joined hφ _ hblocked

theorem spurious {p i : Nat} (hs : Stands old φ s) (h : s.stepSpurious p i = some t) :
    Stands old φ t := by
  have hw := Wakes.spurious h
  have hguarded := hs.guarded.spurious h
  obtain ⟨_, rfl⟩ := spuriousStep h
  have hpool : ∀ q, ((s.setPlace p i .notified).pools q).task_queue = (s.pools q).task_queue ∧
      ((s.setPlace p i .notified).pools q).paused = (s.pools q).paused ∧
      ((s.setPlace p i .notified).pools q).stopped = (s.pools q).stopped := by
    intro q
    by_cases hq : q = p
    · subst hq
      simp
    · simp [hq]
  exact hs.wakes hguarded hw (hpool _).1 (fun hg hφ => (hpool _).2.1.trans (hs.sealed hg hφ))
    (fun hφ => (hpool _).2.2.trans (hs.closed hφ).1)

theorem keeps {same : α → α → Bool} {limit k choice : Nat} {instr : Instr Nat α}
    {rest : Program Nat α} (hs : Stands old φ s) (hk : s.callers[k]? = some (instr :: rest))
    (h : s.stepCaller same limit k choice = some t) (hinstr : Respects φ.guard instr)
    (hpush : ∀ p e, instr ≠ .push p e)
    (hpaused : φ.guard = old → φ.sealed = true → ∀ b, instr = .setPaused old b → b = true)
    (hstopped : φ.closed = true → ∀ b, instr = .setStopped old b → b = true) : Stands old φ t := by
  have hstep := callerStep_at hk h
  have htransfer : ∀ p o, instr ≠ .transfer p o := by
    rintro p o rfl
    exact hinstr
  refine hs.wakes (hs.guarded.caller hk hinstr h) (Wakes.caller h)
    ((hstep.queues hpush htransfer).2 φ.guard) (fun hg hφ => ?_) (fun hφ => ?_)
  · rcases hstep.frame.2.2 old with heq | ⟨b, heq, hb⟩
    · exact heq.trans (hs.sealed hg hφ)
    · rw [hb, hpaused hg hφ b heq]
  · rcases hstep.stopped old with heq | ⟨b, heq, hb⟩
    · exact heq.trans (hs.closed hφ).1
    · rw [hb, hstopped hφ b heq]

/-- The pools that were stopped, notified and joined are so after the step. -/
theorem advance {same : α → α → Bool} {limit k choice new : Nat} {instr : Instr Nat α}
    {rest : Program Nat α} (hs : Stands old φ s) (hne : old ≠ new)
    (hk : s.callers[k]? = some (instr :: rest)) (hplan : Plan new old φ (instr :: rest))
    (h : s.stepCaller same limit k choice = some t) :
    ∃ φ' prog, t.callers = s.callers.set k prog ∧ Plan new old φ' prog ∧ Stands old φ' t := by
  have hstep := callerStep_at hk h
  have hl := hs.guarded.locked.caller h
  obtain ⟨⟨prog, hcallers, hprog⟩, _, _⟩ := hstep.frame
  -- an instruction that neither starts nor pushes leaves the rest of its program
  have hrest : (∀ p, instr ≠ .startIf p) → (∀ p e, instr ≠ .push p e) → prog = rest := by
    intro hstart hpush
    rcases hprog with heq | ⟨p, heq, _⟩ | ⟨p, e, heq, _⟩
    · exact heq
    · exact absurd heq (hstart p)
    · exact absurd heq (hpush p e)
  cases instr with
  | setPaused p b =>
    obtain rfl := hrest (by simp) (by simp)
    rcases hplan with ⟨rfl, rfl, hguard, hplan⟩ | ⟨rfl, hguard, hplan⟩
    · have hkeep : Stands p φ t := hs.keeps hk h (Or.inr rfl) (by simp) (by simp) (by simp)
      refine ⟨_, _, hcallers, hplan, hkeep.guarded, hkeep.queue, fun _ _ => ?_, hkeep.closed,
        hkeep.told, hkeep.joined⟩
      cases hstep with
      | idles hi => cases hi
      | writes hw =>
        cases hw
        simp
    · exact ⟨φ, _, hcallers, hplan, hs.keeps hk h (Or.inl hguard.symm) (by simp)
        (fun hg => absurd (hg.symm.trans hguard) hne) (by simp)⟩
  | transfer p o =>
    obtain rfl := hrest (by simp) (by simp)
    obtain ⟨rfl, rfl, hguard, hsealed, hplan⟩ := hplan
    cases hstep with
    | idles hi => cases hi
    | writes hw =>
      cases hw
      have hgiven : Guarded p ((s.setPool p { s.pools p with task_queue := (s.pools o).task_queue }).goOn
          k prog) := by
        have hg := hs.guarded
        rw [hguard] at hg
        exact hg.transfer hk (Ne.symm hne) (hs.sealed hguard hsealed) hl
      have hqueue : (s.pools o).task_queue = 0 := by
        have hq := hs.queue
        rwa [hguard] at hq
      refine ⟨_, prog, hcallers, hplan, hgiven, ?_, fun hg => absurd hg (Ne.symm hne), ?_, ?_, ?_⟩
      · simpa using hqueue
      · simpa [hne] using hs.closed
      · simpa [hne] using hs.told
      · simpa [hne] using hs.joined
  | setStopped p b =>
    obtain rfl := hrest (by simp) (by simp)
    rcases hplan with ⟨rfl, rfl, howns, hplan⟩ | ⟨rfl, hplan⟩
    · have hkeep : Stands p φ t := hs.keeps hk h trivial (by simp) (by simp) (by simp)
      refine ⟨_, _, hcallers, hplan, hkeep.guarded, hkeep.queue, hkeep.sealed, fun _ => ?_,
        fun hφ => ⟨rfl, (hkeep.told hφ).2⟩, hkeep.joined⟩
      have hw : (t.pools p).stopped = true ∧ (t.pools p).workers = (s.pools p).workers := by
        cases hstep with
        | idles hi => cases hi
        | writes hw =>
          cases hw
          simp
      refine ⟨hw.1, fun place hmem heq => ?_⟩
      -- the caller has the mutex, which a worker between its test and its wait would hold
      subst heq
      rw [hw.2] at hmem
      obtain ⟨i, hi⟩ := List.mem_iff_getElem?.mp hmem
      have h1 : s.Holds (.worker i) p := ⟨_, hi, rfl⟩
      have h2 : s.Holds (.caller k) p := ⟨_, hk, howns⟩
      cases hs.guarded.locked.mutex.unique h1 h2
    · exact ⟨φ, _, hcallers, hplan, hs.keeps hk h trivial (by simp) (by simp)
        (fun _ b' heq => absurd (Instr.setStopped.inj heq).1.symm hne)⟩
  | notifyAll p =>
    obtain rfl := hrest (by simp) (by simp)
    have hkeep : Stands old φ t := hs.keeps hk h trivial (by simp) (by simp) (by simp)
    rcases hplan with ⟨rfl, hclosed, hplan⟩ | ⟨rfl, hplan⟩
    · refine ⟨_, _, hcallers, hplan, hkeep.guarded, hkeep.queue, hkeep.sealed, hkeep.closed,
        fun _ => ⟨hclosed, ?_⟩, hkeep.joined⟩
      cases hstep with
      | idles hi => cases hi
      | writes hw => cases hw
      | wakesAll =>
        intro place hmem
        simp only [goOn_pools, wakeAll_pools, Function.update_self, List.mem_map] at hmem
        obtain ⟨place', _, rfl⟩ := hmem
        cases place' <;> simp [Place.wake]
    · exact ⟨φ, _, hcallers, hplan, hkeep⟩
  | join p =>
    obtain rfl := hrest (by simp) (by simp)
    have hkeep : Stands old φ t := hs.keeps hk h trivial (by simp) (by simp) (by simp)
    obtain ⟨rfl, _, _, hplan⟩ := hplan
    refine ⟨_, _, hcallers, hplan, hkeep.guarded, hkeep.queue, hkeep.sealed, hkeep.closed, hkeep.told,
      fun _ => ?_⟩
    cases hstep with
    | writes hw => cases hw
    | idles hi =>
      cases hi with
      | joined hleft =>
        intro place hmem
        have hplace := List.all_eq_true.mp hleft place hmem
        cases place <;> first | rfl | cases hplace
  | startIf p =>
    obtain ⟨rfl, hguard, hplan⟩ := hplan
    have hkeep : Stands old φ t := hs.keeps hk h hguard.symm (by simp) (by simp) (by simp)
    refine ⟨φ, prog, hcallers, ?_, hkeep⟩
    rcases hprog with rfl | ⟨p', heq, rfl⟩ | ⟨p', e, heq, _⟩
    · exact hplan
    · cases heq
      exact plan_startBlock hguard hplan
    · cases heq
  | push p e => exact hplan.elim
  | notifyOne p => exact hplan.elim
  | setWaitForCompletion p b | lock p | unlock p =>
    obtain rfl := hrest (by simp) (by simp)
    exact ⟨φ, _, hcallers, hplan, hs.keeps hk h trivial (by simp) (by simp) (by simp)⟩

end Stands

/-! The whole manager. -/

theorem simple_onPool (p : Nat) (c : Call Unit α) : ∀ x ∈ (onPool p c).program, Simple p x := by
  cases c <;> simp [onPool, Call.program, Program.start, Program.stop, Program.add_task, Simple]

/-- No update is going on: one pool has the queue, and the workers of the pools before
it have left. -/
structure Serving (s : Managed α) : Prop where
  updating : s.updating = none
  guarded : Guarded s.threadPool_ s.threads
  queue : (s.threads.pools s.threadPool_).task_queue = 0
  callers : s.threads.Obeys (Respects s.threadPool_)
  simple : s.threads.Obeys (Simple s.threadPool_)
  retired : ∀ p, p ≠ s.threadPool_ → ∀ place ∈ (s.threads.pools p).workers, place = .left

/-- The caller `k` replaces the pool `old` and has `prog` left to do. -/
structure Swapping (s : Managed α) (k old : Nat) (φ : Phase) (prog : Program Nat α) : Prop where
  updating : s.updating = some k
  differ : old ≠ s.threadPool_
  caller : s.threads.callers[k]? = some prog
  others : ∀ j p, j ≠ k → s.threads.callers[j]? = some p → p = []
  plan : Plan s.threadPool_ old φ prog
  stands : Stands old φ s.threads
  retired : ∀ p, p ≠ s.threadPool_ → p ≠ old → ∀ place ∈ (s.threads.pools p).workers, place = .left

structure Sound (s : Managed α) : Prop where
  unbuilt : ∀ p, s.built ≤ p → (s.threads.pools p).workers = []
  installed : s.threadPool_ < s.built
  state : Serving s ∨ ∃ k old φ prog, Swapping s k old φ prog

theorem respects_onPool (p : Nat) (c : Call Unit α) : ∀ x ∈ (onPool p c).program, Respects p x := by
  cases c <;> simp [onPool, Call.program, Program.start, Program.stop, Program.add_task, Respects]

theorem workers_left {t u : State Nat α} {same : α → α → Bool} {limit : Nat} {e : Step Nat α} {p : Nat}
    (h : (Threads.system same limit (fun _ => false)).step t e = some u)
    (hleft : ∀ place ∈ (t.pools p).workers, place = .left) :
    ∀ place ∈ (u.pools p).workers, place = .left := by
  have hwakes : Wakes t u → ∀ place ∈ (u.pools p).workers, place = .left := by
    intro hw place hmem
    obtain ⟨i, hi⟩ := List.mem_iff_getElem?.mp hmem
    rcases hw p i with heq | ⟨hblocked, _⟩
    · exact hleft place (List.mem_of_getElem? (heq ▸ hi))
    · cases hleft _ (List.mem_of_getElem? hblocked)
  cases e with
  | worker q i =>
    obtain ⟨place, place', hi, hw, hne, _⟩ := (workerStep h).moves
    obtain ⟨_, _, _, _, hother, _⟩ := (workerStep h).workers
    by_cases hp : p = q
    · subst hp
      exact absurd (hleft place (List.mem_of_getElem? hi)) hne
    · rw [hother p hp]
      exact hleft
  | spurious q i => exact hwakes (Wakes.spurious h)
  | caller k choice => exact hwakes (Wakes.caller h)
  | call c => cases h

/-- Where nobody has a program left, the mutex of a pool without workers is free. -/
theorem mutex_free {t : State Nat α} {p : Nat} (hl : t.Locked)
    (hidle : ∀ prog ∈ t.callers, prog = []) (hnobody : (t.pools p).workers = []) :
    (t.pools p).mutex = none := by
  cases hm : (t.pools p).mutex with
  | none => rfl
  | some o =>
    have hholds : t.Holds o p := (hl.mutex o p).mpr hm
    cases o with
    | worker i =>
      obtain ⟨place, hi, _⟩ := hholds
      simp [hnobody] at hi
    | caller k =>
      obtain ⟨prog, hk, howns⟩ := hholds
      rw [hidle prog (List.mem_of_getElem? hk)] at howns
      cases howns

section
variable [DecidableEq κ] {key : α → κ} {s s' : Managed α}

theorem Serving.thread {t : State Nat α} {e : Step Nat α} (hs : Serving s)
    (h : (Threads.system (fun d e => key d = key e) s.sizeOfQueue (fun _ => false)).step s.threads e =
      some t) : Serving { s with threads := t } := by
  have htask : (t.pools s.threadPool_).task_queue = (s.threads.pools s.threadPool_).task_queue := by
    cases e with
    | worker p i => exact ((workerStep h).frame _).1
    | spurious p i =>
      obtain ⟨_, rfl⟩ := spuriousStep h
      by_cases hp : s.threadPool_ = p <;> simp [hp]
    | caller k choice =>
      obtain ⟨instr, rest, hk, hstep⟩ := callerStep h
      have hinstr := hs.callers _ (List.mem_of_getElem? hk) instr List.mem_cons_self
      refine hstep.task_queue (fun p old heq => ?_) _
      subst heq
      exact hinstr
    | call c => cases h
  refine ⟨hs.updating, hs.guarded.step hs.callers h, htask.trans hs.queue, ?_, ?_, fun p hp => ?_⟩
  · exact Obeys.step (lasting_respects _) (fun _ hc => by cases hc) hs.callers h
  · exact Obeys.step (lasting_simple _) (fun _ hc => by cases hc) hs.simple h
  · exact workers_left h (hs.retired p hp)

theorem Swapping.thread {t : State Nat α} {e : Step Nat α} {k old : Nat} {φ : Phase}
    {prog : Program Nat α} (hs : Swapping s k old φ prog)
    (h : (Threads.system (fun d e => key d = key e) s.sizeOfQueue (fun _ => false)).step s.threads e =
      some t) : ∃ φ' prog', Swapping { s with threads := t } k old φ' prog' := by
  have hretired : ∀ p, p ≠ s.threadPool_ → p ≠ old → ∀ place ∈ (t.pools p).workers, place = .left :=
    fun p hp hp' => workers_left h (hs.retired p hp hp')
  cases e with
  | worker p i =>
    have hc := (workerStep h).callers
    exact ⟨φ, prog, hs.updating, hs.differ, hc ▸ hs.caller, hc ▸ hs.others, hs.plan,
      hs.stands.worker (workerStep h), hretired⟩
  | spurious p i =>
    have hstands := hs.stands.spurious h
    obtain ⟨_, rfl⟩ := spuriousStep h
    exact ⟨φ, prog, hs.updating, hs.differ, hs.caller, hs.others, hs.plan, hstands, hretired⟩
  | caller j choice =>
    obtain ⟨instr, rest, hj, _⟩ := callerStep h
    -- the others have nothing left to do
    obtain rfl : j = k := by
      by_contra hne
      cases hs.others j _ hne hj
    obtain rfl : prog = instr :: rest := Option.some_inj.mp (hs.caller.symm.trans hj)
    obtain ⟨φ', prog', hcallers, hplan, hstands⟩ := hs.stands.advance hs.differ hj hs.plan h
    have hlt := (List.getElem?_eq_some_iff.mp hj).1
    refine ⟨φ', prog', hs.updating, hs.differ, ?_, fun i p hi hp => ?_, hplan, hstands, hretired⟩
    · show t.callers[j]? = some prog'
      rw [hcallers, List.getElem?_set_self hlt]
    · have hp' : t.callers[i]? = some p := hp
      rw [hcallers, List.getElem?_set_ne (Ne.symm hi)] at hp'
      exact hs.others i p hi hp'
  | call c => cases h

theorem Swapping.others_idle {k old j : Nat} {φ : Phase} {prog prog' : Program Nat α}
    (hs : Swapping s k old φ prog) (hj : s.threads.callers[j]? = some prog') :
    prog' = [] ∨ (j = k ∧ prog' = prog) := by
  by_cases hjk : j = k
  · subst hjk
    exact Or.inr ⟨rfl, Option.some_inj.mp (hj.symm.trans hs.caller)⟩
  · exact Or.inl (hs.others j prog' hjk hj)

theorem Swapping.over {k old : Nat} {φ : Phase} (hs : Swapping s k old φ []) :
    Serving { s with updating := none } := by
  obtain ⟨hguard, hjoined⟩ := hs.plan
  have hidle : ∀ prog ∈ s.threads.callers, prog = [] := by
    intro prog hmem
    obtain ⟨j, hj⟩ := List.mem_iff_getElem?.mp hmem
    rcases hs.others_idle hj with heq | ⟨_, heq⟩ <;> exact heq
  have hobeys : ∀ R : Instr Nat α → Prop, s.threads.Obeys R := by
    intro R prog hmem x hx
    rw [hidle prog hmem] at hx
    cases hx
  refine ⟨rfl, hguard ▸ hs.stands.guarded, hguard ▸ hs.stands.queue, hobeys _, hobeys _, fun p hp => ?_⟩
  by_cases hold : p = old
  · subst hold
    exact hs.stands.joined hjoined
  · exact hs.retired p hp hold

theorem Serving.swap (hs : Serving s) (hidle : ∀ prog ∈ s.threads.callers, prog = [])
    (hnobody : (s.threads.pools s.built).workers = []) (hne : s.threadPool_ ≠ s.built)
    (size operators : Nat) :
    Swapping (s.swap size operators) s.threads.callers.length s.threadPool_ (.begun s.threadPool_)
      (setNewThreadPool s.built s.threadPool_) := by
  have hfree := mutex_free hs.guarded.locked hidle hnobody
  have hbuilt := hs.guarded.built hnobody hfree (Ne.symm hne) operators s.built
  refine ⟨rfl, hne, ?_, fun j p hj hp => ?_, plan_setNewThreadPool hne, ⟨?_, ?_, ?_, ?_, ?_, ?_⟩, ?_⟩
  · simp
  · rcases Nat.lt_or_ge j s.threads.callers.length with hlt | hge
    · rw [Managed.swap_threads, arrive_callers, setPool_callers, List.getElem?_append_left hlt] at hp
      exact hidle p (List.mem_of_getElem? hp)
    · rw [Managed.swap_threads, arrive_callers, setPool_callers, List.getElem?_append_right hge] at hp
      have hzero : j - s.threads.callers.length = 0 := by
        simpa using (List.getElem?_eq_some_iff.mp hp).1
      omega
  · exact hbuilt.arrive (free_setNewThreadPool (Ne.symm hne)) (balanced_setNewThreadPool (Ne.symm hne))
  · simpa [Phase.begun, hne] using hs.queue
  · intro _ hφ
    cases hφ
  · intro hφ
    cases hφ
  · intro hφ
    cases hφ
  · intro hφ
    cases hφ
  · intro p hp hp'
    have hp'' : p ≠ s.built := hp
    simpa [hp''] using hs.retired p hp'

theorem Sound.step (hs : Sound s) {e : Event α} (h : (managers key).step s e = some s') : Sound s' := by
  have h' : s.step key e = some s' := h
  cases e with
  | thread e =>
    obtain ⟨t, ht, rfl⟩ := Option.map_eq_some_iff.mp h'
    refine ⟨fun p hp => ?_, hs.installed, ?_⟩
    · have hlen := workers_length ht p
      rw [hs.unbuilt p hp] at hlen
      exact List.length_eq_zero_iff.mp hlen
    · rcases hs.state with hserving | ⟨k, old, φ, prog, hswap⟩
      · exact Or.inl (hserving.thread ht)
      · exact Or.inr ⟨k, old, hswap.thread ht⟩
  | call c =>
    simp only [Managed.step, Option.ite_none_right_eq_some, Option.some_inj] at h'
    obtain ⟨hnone, rfl⟩ := h'
    refine ⟨hs.unbuilt, hs.installed, Or.inl ?_⟩
    rcases hs.state with hserving | ⟨k, _, _, _, hswap⟩
    · exact ⟨hnone, hserving.guarded.arrive (free_program _) (balanced_program _), hserving.queue,
        hserving.callers.arrive (respects_onPool s.threadPool_ c),
        hserving.simple.arrive (simple_onPool s.threadPool_ c), hserving.retired⟩
    · rw [hswap.updating] at hnone
      cases hnone
  | update size operators =>
    simp only [Managed.step, Option.ite_none_right_eq_some] at h'
    obtain ⟨⟨hnone, hempty⟩, h'⟩ := h'
    have hidle : ∀ prog ∈ s.threads.callers, prog = [] := fun prog hmem =>
      List.isEmpty_iff.mp (List.all_eq_true.mp hempty prog hmem)
    obtain hserving : Serving s := by
      rcases hs.state with hserving | ⟨k, _, _, _, hswap⟩
      · exact hserving
      · rw [hswap.updating] at hnone
        cases hnone
    cases operators with
    | none =>
      cases h'
      exact ⟨hs.unbuilt, hs.installed, Or.inl ⟨hnone, hserving.guarded, hserving.queue,
        hserving.callers, hserving.simple, hserving.retired⟩⟩
    | some n =>
      cases h'
      refine ⟨fun p hp => ?_, Nat.lt_succ_self _, Or.inr ⟨_, _, _, _,
        hserving.swap hidle (hs.unbuilt _ (Nat.le_refl _)) (Nat.ne_of_lt hs.installed) size n⟩⟩
      have hlt : s.built < p := hp
      simpa [Nat.ne_of_gt hlt] using hs.unbuilt p (Nat.le_of_lt hlt)
  | updated =>
    simp only [Managed.step] at h'
    split at h'
    · rename_i k hk
      simp only [Option.ite_none_right_eq_some, Option.some_inj] at h'
      obtain ⟨hdone, rfl⟩ := h'
      refine ⟨hs.unbuilt, hs.installed, Or.inl ?_⟩
      rcases hs.state with hserving | ⟨k', old, φ, prog, hswap⟩
      · rw [hserving.updating] at hk
        cases hk
      · obtain rfl : k' = k := Option.some_inj.mp (hswap.updating.symm.trans hk)
        rw [hswap.caller] at hdone
        obtain rfl : prog = [] := List.isEmpty_iff.mp hdone
        exact hswap.over
    · cases h'

theorem sound_fresh (operators size : Nat) : Sound (fresh operators size : Managed α) := by
  refine ⟨fun p hp => ?_, Nat.one_pos, Or.inl ⟨rfl, ?_, rfl, fun _ hmem => (by cases hmem),
    fun _ hmem => (by cases hmem), fun p hp => ?_⟩⟩
  · have hne : p ≠ 0 := Nat.ne_of_gt hp
    simp [fresh, hne, Pool.fresh]
  · refine Guarded.fresh [] (fun p => ?_) rfl rfl
    by_cases hp : p = 0
    · exact ⟨operators, 0, by simp [fresh, hp]⟩
    · exact ⟨0, p, by simp [fresh, hp]⟩
  · have hne : p ≠ 0 := hp
    simp [fresh, hne, Pool.fresh]

/-! The queue object, seen as one atomic queue. -/

/-- What an event does to the queue: a push takes effect where a caller executes it, a
dequeue where a worker moves the front entry out. -/
def points (s : Managed α) : Event α → List (BoundedQueue.Op α)
  | .thread (.worker p i) =>
    match (s.threads.pools p).workers[i]? with
    | some .front => [.pop]
    | _ => []
  | .thread (.caller k _) =>
    match s.threads.callers[k]? with
    | some (.push _ e :: _) => [.push e]
    | _ => []
  | .update size _ => [.resize size]
  | .thread (.spurious _ _) | .thread (.call _) | .call _ | .updated => []

/-- A state of the threads and one of the atomic queue that say the same. -/
structure Matches (s : Managed α) (a : BoundedQueue.State α) : Prop where
  entries : a.entries = s.threads.entries 0
  limit : a.limit = s.sizeOfQueue
  taken : BoundedQueue.taken a.history = s.threads.taken.map (fun x => x.2.2)

theorem Sound.guarded (hs : Sound s) :
    ∃ g, Guarded g s.threads ∧ (s.threads.pools g).task_queue = 0 := by
  rcases hs.state with hserving | ⟨_, _, φ, _, hswap⟩
  · exact ⟨_, hserving.guarded, hserving.queue⟩
  · exact ⟨φ.guard, hswap.stands.guarded, hswap.stands.queue⟩

theorem Sound.pushes {k p : Nat} {e : α} {rest : Program Nat α} (hs : Sound s)
    (hk : s.threads.callers[k]? = some (.push p e :: rest)) :
    Guarded p s.threads ∧ (s.threads.pools p).task_queue = 0 := by
  rcases hs.state with hserving | ⟨j, _, _, prog, hswap⟩
  · have hp : p = s.threadPool_ :=
      hserving.callers _ (List.mem_of_getElem? hk) _ List.mem_cons_self
    subst hp
    exact ⟨hserving.guarded, hserving.queue⟩
  · exfalso
    by_cases hkj : k = j
    · subst hkj
      obtain rfl := Option.some_inj.mp (hswap.caller.symm.trans hk)
      exact hswap.plan
    · cases hswap.others k _ hkj hk

/-- A push onto a whole queue is the push of the atomic queue. -/
theorem pushed_map_some (key : α → κ) (limit : Nat) (es : List α) (e : α) :
    pushed (fun d e => decide (key d = key e)) limit (es.map some) e =
      if limit ≤ es.length then none else some ((BoundedQueue.enqueue key es e).map some) := by
  simp only [pushed, List.length_map, ge_iff_le]
  split
  · rfl
  · rw [List.eraseP_map, BoundedQueue.enqueue, List.map_append]
    rfl

theorem Matches.push {a : BoundedQueue.State α} {t : State Nat α} {k choice p : Nat} {e : α}
    {rest : Program Nat α} (ha : Matches s a) (hs : Sound s)
    (hk : s.threads.callers[k]? = some (.push p e :: rest))
    (h : CallerStep (fun d e => decide (key d = key e)) s.sizeOfQueue s.threads k choice rest (.push p e) t) :
    Matches { s with threads := t } (BoundedQueue.push key a e) := by
  obtain ⟨hguarded, htask⟩ := hs.pushes hk
  -- the caller has the mutex, so nobody is dequeuing
  have howns : owns p (.push p e :: rest) = true := (hguarded.locked.balanced k _ hk).1
  obtain ⟨es, hes⟩ := hguarded.whole (hguarded.idle hk howns)
  have hslots : s.threads.queues 0 = es.map some := by
    rw [← hes, slots, htask]
  have hentries : a.entries = es := by
    rw [ha.entries, State.entries, hslots]
    simp
  have htaken : BoundedQueue.taken (BoundedQueue.push key a e).history =
      s.threads.taken.map (fun x => x.2.2) := by
    rw [← ha.taken, BoundedQueue.push]
    split <;> simp [BoundedQueue.taken_append, BoundedQueue.Record.popped?]
  cases h with
  | writes hw => cases hw
  | idles hi =>
    cases hi with
    | refused hno =>
      have hfull : a.limit ≤ a.entries.length := by
        rw [hes, pushed_map_some] at hno
        rw [ha.limit, hentries]
        by_contra hroom
        rw [if_neg hroom] at hno
        cases hno
      rw [BoundedQueue.push, if_pos hfull] at htaken ⊢
      exact ⟨ha.entries, ha.limit, htaken⟩
  | @pushes _ _ es' hyes =>
    have hroom : ¬ a.limit ≤ a.entries.length := by
      intro hfull
      rw [hes, pushed_map_some, if_pos (by rwa [ha.limit, hentries] at hfull)] at hyes
      cases hyes
    have hes' : es' = (BoundedQueue.enqueue key es e).map some := by
      rw [hes, pushed_map_some, if_neg (by rwa [ha.limit, hentries] at hroom)] at hyes
      exact (Option.some_inj.mp hyes).symm
    rw [BoundedQueue.push, if_neg hroom] at htaken ⊢
    refine ⟨?_, ha.limit, htaken⟩
    show BoundedQueue.enqueue key a.entries e = ((s.threads.setSlots p es').goOn k _).entries 0
    rw [hentries, hes', State.entries]
    simp [htask]

theorem Matches.thread {a : BoundedQueue.State α} {t : State Nat α} {e : Step Nat α} (ha : Matches s a)
    (hs : Sound s)
    (h : (Threads.system (fun d e => key d = key e) s.sizeOfQueue (fun _ => false)).step s.threads e =
      some t) :
    ∃ b, (BoundedQueue.system key).run a (points s (.thread e)) = some b ∧
      Matches { s with threads := t } b := by
  cases e with
  | worker p i =>
    have hstep := workerStep h
    obtain ⟨g, hguarded, htask⟩ := hs.guarded
    have htakes := (hguarded.worker hstep).2
    rw [htask] at htakes
    rcases hstep.takes with ⟨hfront, e, htaken⟩ | ⟨hfront, htaken⟩
    · rcases htakes with ⟨_, hnone⟩ | ⟨i', e', _, hentries, htaken'⟩
      · rw [htaken] at hnone
        simp at hnone
      · rw [htaken, List.append_cancel_left_eq] at htaken'
        have hpop : BoundedQueue.pop a = some { a with
            entries := t.entries 0, history := a.history ++ [.popped e'] } := by
          rw [BoundedQueue.pop, ha.entries, hentries]
        have hpoints : points s (.thread (.worker p i)) = [.pop] := by simp [points, hfront]
        refine ⟨{ a with entries := t.entries 0, history := a.history ++ [.popped e'] }, ?_, rfl,
          ha.limit, ?_⟩
        · rw [hpoints]
          exact Transition.System.run_cons_some.mpr ⟨_, hpop, rfl⟩
        · show BoundedQueue.taken (a.history ++ [.popped e']) = t.taken.map _
          rw [BoundedQueue.taken_append, ha.taken, htaken, htaken', List.map_append]
          rfl
    · have hpoints : points s (.thread (.worker p i)) = [] := by simp [points]
      refine ⟨a, by rw [hpoints]; rfl, ?_, ha.limit, ?_⟩
      · rcases htakes with ⟨hentries, _⟩ | ⟨i', e', _, _, htaken'⟩
        · exact ha.entries.trans hentries.symm
        · rw [htaken] at htaken'
          simp at htaken'
      · show _ = t.taken.map _
        rw [htaken]
        exact ha.taken
  | spurious p i =>
    obtain ⟨_, rfl⟩ := spuriousStep h
    exact ⟨a, rfl, ha.entries, ha.limit, ha.taken⟩
  | caller k choice =>
    obtain ⟨instr, rest, hk, hstep⟩ := callerStep h
    by_cases hpush : ∃ p e, instr = .push p e
    · obtain ⟨p, e, rfl⟩ := hpush
      have hpoints : points s (.thread (.caller k choice)) = [.push e] := by simp [points, hk]
      refine ⟨_, ?_, ha.push hs hk hstep⟩
      rw [hpoints]
      exact Transition.System.run_cons_some.mpr ⟨_, rfl, rfl⟩
    · have hno : ∀ p e, instr ≠ .push p e := fun p e heq => hpush ⟨p, e, heq⟩
      have hpoints : points s (.thread (.caller k choice)) = [] := by
        simp only [points, hk]
        cases instr <;> first | rfl | exact absurd rfl (hno _ _)
      refine ⟨a, by rw [hpoints]; rfl, ?_, ha.limit, ?_⟩
      · rw [ha.entries, State.entries, State.entries, hstep.queues_kept hno]
      · show _ = t.taken.map _
        rw [hstep.frame.2.1]
        exact ha.taken
  | call c => cases h

/-- What an event does to the queue, the atomic queue can do. -/
theorem Matches.step {a : BoundedQueue.State α} {e : Event α} (ha : Matches s a) (hs : Sound s)
    (h : (managers key).step s e = some s') :
    ∃ b, (BoundedQueue.system key).run a (points s e) = some b ∧ Matches s' b := by
  have h' : s.step key e = some s' := h
  cases e with
  | thread e =>
    obtain ⟨t, ht, rfl⟩ := Option.map_eq_some_iff.mp h'
    exact ha.thread hs ht
  | call c =>
    simp only [Managed.step, Option.ite_none_right_eq_some, Option.some_inj] at h'
    obtain ⟨_, rfl⟩ := h'
    exact ⟨a, rfl, ha.entries, ha.limit, ha.taken⟩
  | update size operators =>
    simp only [Managed.step, Option.ite_none_right_eq_some] at h'
    obtain ⟨_, h'⟩ := h'
    refine ⟨_, Transition.System.run_cons_some.mpr ⟨_, rfl, rfl⟩, ?_⟩
    have htaken : BoundedQueue.taken (a.history ++ [.resized size]) =
        s.threads.taken.map (fun x => x.2.2) := by
      rw [BoundedQueue.taken_append, ha.taken]
      simp [BoundedQueue.Record.popped?]
    cases operators with
    | none =>
      cases h'
      exact ⟨ha.entries, rfl, htaken⟩
    | some n =>
      cases h'
      exact ⟨ha.entries, rfl, htaken⟩
  | updated =>
    simp only [Managed.step] at h'
    split at h'
    · simp only [Option.ite_none_right_eq_some, Option.some_inj] at h'
      obtain ⟨_, rfl⟩ := h'
      exact ⟨a, rfl, ha.entries, ha.limit, ha.taken⟩
    · cases h'

theorem matches_fresh (operators size : Nat) :
    Matches (fresh operators size : Managed α) (BoundedQueue.initial size) := ⟨rfl, rfl, rfl⟩

theorem sound_of_run {operators size : Nat} {es : List (Event α)}
    (h : (managers key).run (fresh operators size) es = some s) : Sound s :=
  Transition.System.run_inv (fun _ _ _ hs hstep => hs.step hstep) h (sound_fresh operators size)

theorem matches_of_run {operators size : Nat} {es : List (Event α)}
    (h : (managers key).run (fresh operators size) es = some s) :
    ∃ a, (BoundedQueue.system key).run (BoundedQueue.initial size)
        ((managers key).project points (fresh operators size) es) = some a ∧ Matches s a := by
  have hstep : ∀ (s : Managed α) (e : Event α) (t : Managed α) (a : BoundedQueue.State α),
      Sound s ∧ Matches s a → (managers key).step s e = some t →
      ∃ b, (BoundedQueue.system key).run a (points s e) = some b ∧ Sound t ∧ Matches t b := by
    rintro s e t a ⟨hs, ha⟩ h
    obtain ⟨b, hb, hmatches⟩ := ha.step hs h
    exact ⟨b, hb, hs.step h, hmatches⟩
  obtain ⟨a, ha, _, hmatches⟩ := Transition.System.run_project hstep h
    ⟨sound_fresh operators size, matches_fresh operators size⟩
  exact ⟨a, ha, hmatches⟩

/-- Whatever the interleaving, and however often the pool is replaced: the queue object
does what the atomic queue does with the pushes, dequeues and limits of the run. It has
the entries that were accepted and neither taken nor superseded, and their keys differ. -/
theorem linearizable [DecidableEq α] {operators size : Nat} {es : List (Event α)}
    (h : (managers key).run (fresh operators size) es = some s) :
    ∃ a, (BoundedQueue.system key).run (BoundedQueue.initial size)
        ((managers key).project points (fresh operators size) es) = some a ∧ Matches s a ∧
      BoundedQueue.Consistent key size a := by
  obtain ⟨a, ha, hmatches⟩ := matches_of_run h
  have hconsistent : BoundedQueue.Consistent key size a :=
    Transition.System.run_inv (I := BoundedQueue.Consistent key size)
      (fun _ _ _ hs hstep => (BoundedQueue.stepped key hstep).consistent hs) ha
      (BoundedQueue.initial_consistent key size)
  exact ⟨a, ha, hmatches, hconsistent⟩

/-- What the workers of all pools took, followed by what waits, is what was pushed, in
that order, with some left out: first in, first out, and nothing is served twice. -/
theorem served_in_order {operators size : Nat} {es : List (Event α)}
    (h : (managers key).run (fresh operators size) es = some s) :
    (s.threads.taken.map (fun x => x.2.2) ++ s.threads.entries 0).Sublist
      (BoundedQueue.pushes ((managers key).project points (fresh operators size) es)) := by
  obtain ⟨a, ha, hmatches⟩ := matches_of_run h
  have horder := BoundedQueue.run_in_order ha (BoundedQueue.initial_in_order size)
  have hadmitted := BoundedQueue.run_admitted ha
  rw [← hmatches.taken, ← hmatches.entries]
  exact horder.trans hadmitted

/-- What no interleaving of the pools gets wrong. -/
structure Safe (s : Managed α) : Prop where
  /-- One worker dequeues at a time, of all the workers of all pools, -/
  alone : ∀ (p q i j : Nat) (place place' : Place α), (s.threads.pools p).workers[i]? = some place →
    (s.threads.pools q).workers[j]? = some place' → place.active = true → place'.active = true →
    p = q ∧ i = j
  /-- `front` finds an entry, -/
  front : ∀ p i : Nat, (s.threads.pools p).workers[i]? = some .front →
    ∃ e rest, s.threads.slots p = some e :: rest
  /-- and `pop` erases the one that was moved out. -/
  pop : ∀ (p i : Nat) (e : α), (s.threads.pools p).workers[i]? = some (.pop e) →
    ∃ rest, s.threads.slots p = none :: rest
  /-- Once an update is over, no thread of a replaced pool runs. -/
  retired : s.updating = none → ∀ p, p ≠ s.threadPool_ →
    ∀ place ∈ (s.threads.pools p).workers, place = .left
  /-- A pool that was not built has none. -/
  unbuilt : ∀ p, s.built ≤ p → (s.threads.pools p).workers = []

theorem Sound.safe (hs : Sound s) : Safe s := by
  obtain ⟨g, hguarded, _⟩ := hs.guarded
  refine ⟨fun p q i j place place' hi hj hplace hplace' => ?_, fun p i hi => ?_, fun p i e hi => ?_,
    fun hnone p hp => ?_, hs.unbuilt⟩
  · obtain rfl := hguarded.active p i place hi hplace
    obtain rfl := hguarded.active q j place' hj hplace'
    exact ⟨rfl, hguarded.locked.alone hi (Place.active_holds hplace) hj hplace'⟩
  · obtain rfl := hguarded.active p i _ hi rfl
    obtain ⟨e, es, hes⟩ := hguarded.front i hi
    exact ⟨e, es.map some, hes⟩
  · obtain rfl := hguarded.active p i _ hi rfl
    obtain ⟨es, hes⟩ := hguarded.pop i e hi
    exact ⟨es.map some, hes⟩
  · rcases hs.state with hserving | ⟨_, _, _, _, hswap⟩
    · exact hserving.retired p hp
    · rw [hswap.updating] at hnone
      cases hnone

theorem pools_safe {operators size : Nat} {es : List (Event α)}
    (h : (managers key).run (fresh operators size) es = some s) : Safe s :=
  (sound_of_run h).safe

end

/-- A thread goes on for some steps. -/
def steps (n : Nat) (e : Step Nat (Nat × Nat)) : List (Event (Nat × Nat)) :=
  List.replicate n (.thread e)

/-- One worker gets 7 and then two entries with the key 8; while it serves the first, an
update builds another pool, whose worker takes what is left. -/
def replacing : List (Event (Nat × Nat)) :=
  [.call (.start ())] ++ steps 5 (.caller 0 0) ++
    [.call (.add_task () (7, 1)), .call (.add_task () (8, 2)), .call (.add_task () (8, 3))] ++
    steps 4 (.caller 1 0) ++ steps 4 (.caller 2 0) ++ steps 4 (.caller 3 0) ++ steps 4 (.worker 0 0) ++
    [.update 1 (some 1)] ++ steps 2 (.caller 4 0) ++ steps 5 (.worker 0 0) ++ steps 9 (.caller 4 0) ++
    steps 2 (.worker 0 0) ++ steps 6 (.caller 4 0) ++ [.updated] ++ steps 5 (.worker 1 0)

def replaced : Option (Managed (Nat × Nat)) := (managers Prod.fst).run (fresh 1 4) replacing

theorem replaced_isSome : replaced.isSome = true := by decide +kernel

theorem replaced_pool : replaced.map (fun s => s.threadPool_) = some 1 := by decide +kernel

theorem replaced_taken : replaced.map (fun s => s.threads.taken) = some [(0, 0, 7, 1), (1, 0, 8, 3)] := by
  decide +kernel

theorem replaced_points : (managers Prod.fst).project points (fresh 1 4) replacing =
    [.push (7, 1), .push (8, 2), .push (8, 3), .resize 1, .pop, .pop] := by
  decide +kernel

theorem linearizable_replaced : ∃ s a, replaced = some s ∧ s.threadPool_ = 1 ∧
    (BoundedQueue.system Prod.fst).run (BoundedQueue.initial 4)
      [.push (7, 1), .push (8, 2), .push (8, 3), .resize 1, .pop, .pop] = some a ∧ Matches s a ∧
    BoundedQueue.Consistent Prod.fst 4 a := by
  obtain ⟨s, hs⟩ := Option.isSome_iff_exists.mp replaced_isSome
  have hpool := replaced_pool
  rw [hs, Option.map_some, Option.some_inj] at hpool
  obtain ⟨a, ha, hmatches, hconsistent⟩ := linearizable hs
  rw [replaced_points] at ha
  exact ⟨s, a, hs, hpool, ha, hmatches, hconsistent⟩

theorem served_in_order_replaced : ∃ s, replaced = some s ∧ s.threads.taken = [(0, 0, 7, 1), (1, 0, 8, 3)] ∧
    (s.threads.taken.map (fun x => x.2.2) ++ s.threads.entries 0).Sublist [(7, 1), (8, 2), (8, 3)] := by
  obtain ⟨s, hs⟩ := Option.isSome_iff_exists.mp replaced_isSome
  have htaken := replaced_taken
  rw [hs, Option.map_some, Option.some_inj] at htaken
  have horder := served_in_order hs
  rw [replaced_points] at horder
  exact ⟨s, hs, htaken, horder⟩

theorem pools_safe_replaced : ∃ s, replaced = some s ∧ s.threadPool_ = 1 ∧ Safe s := by
  obtain ⟨s, hs⟩ := Option.isSome_iff_exists.mp replaced_isSome
  have hpool := replaced_pool
  rw [hs, Option.map_some, Option.some_inj] at hpool
  exact ⟨s, hs, hpool, pools_safe hs⟩

end PoolChain

end ProteiCov.Threads
