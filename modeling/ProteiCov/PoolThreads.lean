import Mathlib.Logic.Function.Basic
import Mathlib.Tactic.Simps.Basic
import ProteiCov.Lib.Transition
import ProteiCov.Lib.Mutex

/-
  The threads of a thread pool

  Here the critical sections of `task_queue_mutex` are taken apart. A worker goes
  through the places of `Place`, which are the points of `ThreadPool::run` and
  `processTask` between which other threads can move. A caller of a method runs the
  instructions of its program one at a time: `start` and `stop` write the atomic
  flags without the mutex, `add_task` pushes and notifies with it.

  Pools are indexed by `π`: one pool, or the two pools of a swap. An entry `front`
  moved out of is `none` until `pop` erases it. `taken` is the history of the
  entries workers moved out; the code never reads it.

  `workerStep` and `callerStep` say once what a step of a worker and of a caller
  can do; every invariant of the pools is derived from them.
-/

namespace ProteiCov.Threads

/-- Who holds a mutex: a worker of its pool, or a caller. -/
inductive Owner where
  | worker (i : Nat)
  | caller (k : Nat)
  deriving DecidableEq, Repr

/-- Where a worker stands in `run`: what it does next. -/
inductive Place (α : Type) where
  /-- The test of `while (!stopped)`. -/
  | top
  /-- `std::unique_lock lock(task_queue_mutex)`. -/
  | lock
  /-- The predicate of `tasks_access.wait`. -/
  | wait
  /-- The predicate was false: release the mutex and block. -/
  | block
  | blocked
  /-- Woken: take the mutex again. -/
  | notified
  /-- `if (run_allowed())`. -/
  | check
  /-- `std::move(task_queue->front())`. -/
  | front
  /-- `task_queue->pop()`. -/
  | pop (e : α)
  /-- `lock.unlock()`. -/
  | unlock (e : α)
  /-- `executeTask`. -/
  | serving (e : α)
  /-- The read of `waitForCompletion`. -/
  | finishing
  /-- It was true: the read of `task_queue->empty()`. -/
  | draining
  /-- Out of the loop. -/
  | left
  deriving DecidableEq, Repr

/-- The places at which a worker holds the mutex of its pool. -/
def Place.holds {α : Type} : Place α → Bool
  | wait | block | check | front | pop _ | unlock _ => true
  | _ => false

/-- The places between the check that allows a dequeue and its end. -/
def Place.active {α : Type} : Place α → Bool
  | front | pop _ => true
  | _ => false

def Place.isBlocked {α : Type} : Place α → Bool
  | blocked => true
  | _ => false

theorem Place.any_isBlocked {α : Type} {p : Option (Place α)} :
    p.any isBlocked = true ↔ p = some .blocked := by
  cases p with
  | none => simp
  | some p => cases p <;> simp [isBlocked]

def Place.isLeft {α : Type} : Place α → Bool
  | left => true
  | _ => false

/-- What a notification does to a worker. -/
def Place.wake {α : Type} : Place α → Place α
  | blocked => notified
  | p => p

/-- One step of a caller. -/
inductive Instr (π α : Type) where
  /-- `if (paused || stopped) { … }` of `start`. -/
  | startIf (p : π)
  | setStopped (p : π) (b : Bool)
  | setPaused (p : π) (b : Bool)
  | setWaitForCompletion (p : π) (b : Bool)
  | lock (p : π)
  | unlock (p : π)
  | notifyAll (p : π)
  | notifyOne (p : π)
  /-- `if(task_queue->push(…)) { tasks_access.notify_one(); }`. -/
  | push (p : π) (e : α)
  /-- `this->task_queue = oldThreadPool->task_queue`. -/
  | transfer (p old : π)
  /-- Join every worker. -/
  | join (p : π)
  deriving DecidableEq, Repr

/-- What a caller still has to do. -/
abbrev Program (π α : Type) := List (Instr π α)

namespace Program
variable {π α : Type}

/-- The block of `start`. -/
def startBlock (p : π) : Program π α :=
  [.setStopped p false, .setPaused p false, .setWaitForCompletion p false, .notifyAll p]

def start (p : π) : Program π α := [.startIf p]

def stop (p : π) : Program π α := [.setPaused p true, .setWaitForCompletion p true]

def add_task (p : π) (e : α) : Program π α := [.lock p, .push p e, .unlock p]

def transferObjects [DecidableEq π] (p old : π) : Program π α :=
  [.lock old, .lock p] ++ (if p ≠ old then [.transfer p old] else []) ++ [.unlock p, .unlock old]

/-- `~ThreadPool`. -/
def destroy (p : π) : Program π α :=
  [.lock p, .setStopped p true, .unlock p, .notifyAll p, .join p]

/-- `Manager::setNewThreadPool(p)` with the pool `old` installed. -/
def setNewThreadPool [DecidableEq π] (p old : π) : Program π α :=
  stop old ++ transferObjects p old ++ (if p ≠ old then destroy old else []) ++ start p

end Program

/-- The threads' view of a pool. -/
structure Pool (α : Type) where
  mutex : Option Owner
  stopped : Bool
  paused : Bool
  waitForCompletion : Bool
  task_queue : Nat
  workers : List (Place α)

/-- A pool the constructor just made: its workers are about to enter their loops. -/
def Pool.fresh {α : Type} (size task_queue : Nat) : Pool α where
  mutex := none
  stopped := false
  paused := true
  waitForCompletion := false
  task_queue := task_queue
  workers := List.replicate size .top

structure State (π α : Type) where
  pools : π → Pool α
  queues : Nat → List (Option α)
  callers : List (Program π α)
  taken : List (π × Nat × α)

namespace State
variable {π α : Type} [DecidableEq π]

/-- The entries in the queue of a pool. -/
def slots (s : State π α) (p : π) : List (Option α) := s.queues (s.pools p).task_queue

/-- `run_allowed()`. -/
def run_allowed (s : State π α) (p : π) : Bool := !(s.slots p).isEmpty && !(s.pools p).paused

@[simps] def setPool (s : State π α) (p : π) (k : Pool α) : State π α :=
  { s with pools := Function.update s.pools p k }

@[simps] def setSlots (s : State π α) (p : π) (es : List (Option α)) : State π α :=
  { s with queues := Function.update s.queues (s.pools p).task_queue es }

@[simps!] def setMutex (s : State π α) (p : π) (o : Option Owner) : State π α :=
  s.setPool p { s.pools p with mutex := o }

/-- Put a worker somewhere. -/
@[simps!] def setPlace (s : State π α) (p : π) (i : Nat) (place : Place α) : State π α :=
  s.setPool p { s.pools p with workers := (s.pools p).workers.set i place }

/-- The caller `k` goes on with a program. -/
@[simps] def goOn (s : State π α) (k : Nat) (prog : Program π α) : State π α :=
  { s with callers := s.callers.set k prog }

/-- Wake every blocked worker of a pool. -/
@[simps!] def wakeAll (s : State π α) (p : π) : State π α :=
  s.setPool p { s.pools p with workers := (s.pools p).workers.map Place.wake }

/-- The next step of the worker `i` of a pool. -/
def stepWorker (s : State π α) (p : π) (i : Nat) : Option (State π α) :=
  match (s.pools p).workers[i]? with
  | some .top => some (s.setPlace p i (if (s.pools p).stopped then .left else .lock))
  | some .lock | some .notified =>
    if (s.pools p).mutex = none then some ((s.setMutex p (some (.worker i))).setPlace p i .wait)
    else none
  | some .wait =>
    some (s.setPlace p i (if s.run_allowed p || (s.pools p).stopped then .check else .block))
  | some .block => some ((s.setMutex p none).setPlace p i .blocked)
  | some .check =>
    if s.run_allowed p then some (s.setPlace p i .front)
    else some ((s.setMutex p none).setPlace p i .top)
  | some .front =>
    match s.slots p with
    | some e :: rest =>
      some { (s.setSlots p (none :: rest)).setPlace p i (.pop e) with taken := s.taken ++ [(p, i, e)] }
    | _ => none
  | some (.pop e) =>
    match s.slots p with
    | _ :: rest => some ((s.setSlots p rest).setPlace p i (.unlock e))
    | [] => none
  | some (.unlock e) => some ((s.setMutex p none).setPlace p i (.serving e))
  | some (.serving _) => some (s.setPlace p i .finishing)
  | some .finishing =>
    some (s.setPlace p i (if (s.pools p).waitForCompletion then .draining else .top))
  | some .draining => some (s.setPlace p i (if (s.slots p).isEmpty then .left else .top))
  | some .blocked | some .left | none => none

/-- A waiting entry is superseded by a new one. -/
def superseded (same : α → α → Bool) (e : α) : Option α → Bool
  | some d => same d e
  | none => false

/-- The entries after `push`, where it accepts. -/
def pushed (same : α → α → Bool) (limit : Nat) (es : List (Option α)) (e : α) :
    Option (List (Option α)) :=
  if es.length ≥ limit then none else some (es.eraseP (superseded same e) ++ [some e])

/-- A caller executes an instruction; `rest` is what comes after it, and `choice`
the worker a `notify_one` wakes. -/
def exec (same : α → α → Bool) (limit : Nat) (s : State π α) (k choice : Nat)
    (rest : Program π α) : Instr π α → Option (State π α)
  | .startIf p =>
    some (s.goOn k (if (s.pools p).paused || (s.pools p).stopped then Program.startBlock p ++ rest
      else rest))
  | .setStopped p b => some ((s.setPool p { s.pools p with stopped := b }).goOn k rest)
  | .setPaused p b => some ((s.setPool p { s.pools p with paused := b }).goOn k rest)
  | .setWaitForCompletion p b =>
    some ((s.setPool p { s.pools p with waitForCompletion := b }).goOn k rest)
  | .lock p =>
    if (s.pools p).mutex = none then some ((s.setMutex p (some (.caller k))).goOn k rest) else none
  | .unlock p => some ((s.setMutex p none).goOn k rest)
  | .notifyAll p => some ((s.wakeAll p).goOn k rest)
  | .notifyOne p =>
    if (s.pools p).workers.any Place.isBlocked then
      if (s.pools p).workers[choice]?.any Place.isBlocked then
        some ((s.setPlace p choice .notified).goOn k rest)
      else none
    else some (s.goOn k rest)
  | .push p e =>
    match pushed same limit (s.slots p) e with
    | some es => some ((s.setSlots p es).goOn k (.notifyOne p :: rest))
    | none => some (s.goOn k rest)
  | .transfer p old =>
    some ((s.setPool p { s.pools p with task_queue := (s.pools old).task_queue }).goOn k rest)
  | .join p => if (s.pools p).workers.all Place.isLeft then some (s.goOn k rest) else none

def stepCaller (same : α → α → Bool) (limit : Nat) (s : State π α) (k choice : Nat) :
    Option (State π α) :=
  match s.callers[k]? with
  | some (instr :: rest) => s.exec same limit k choice rest instr
  | _ => none

/-- A blocked worker wakes without a notification. -/
def stepSpurious (s : State π α) (p : π) (i : Nat) : Option (State π α) :=
  if (s.pools p).workers[i]?.any Place.isBlocked then some (s.setPlace p i .notified) else none

end State

/-- The methods of a pool that clients of the manager reach. -/
inductive Call (π α : Type) where
  | start (p : π)
  | stop (p : π)
  | add_task (p : π) (e : α)

def Call.program {π α : Type} : Call π α → Program π α
  | start p => Program.start p
  | stop p => Program.stop p
  | add_task p e => Program.add_task p e

/-- A move of a thread, or the arrival of a caller. -/
inductive Step (π α : Type) where
  | worker (p : π) (i : Nat)
  | spurious (p : π) (i : Nat)
  | caller (k choice : Nat)
  | call (c : Call π α)

/-- A caller arrives. -/
@[simps] def State.arrive {π α : Type} (s : State π α) (prog : Program π α) : State π α :=
  { s with callers := s.callers ++ [prog] }

/-- The threads of the pools; `allows` says which calls arrive. -/
def system {π α : Type} [DecidableEq π] (same : α → α → Bool) (limit : Nat)
    (allows : Call π α → Bool) : Transition.System (State π α) (Step π α) where
  step s
    | .worker p i => s.stepWorker p i
    | .spurious p i => s.stepSpurious p i
    | .caller k choice => s.stepCaller same limit k choice
    | .call c => if allows c then some (s.arrive c.program) else none

/-! What one step of a worker can do. -/

namespace State
variable {π α : Type} [DecidableEq π]

/-- A worker moves on without touching its mutex. -/
inductive Stays (s : State π α) (p : π) : Place α → Place α → Prop
  | enter (h : (s.pools p).stopped = false) : Stays s p .top .lock
  | quit (h : (s.pools p).stopped = true) : Stays s p .top .left
  | pass (h : (s.run_allowed p || (s.pools p).stopped) = true) : Stays s p .wait .check
  | wait (h : (s.run_allowed p || (s.pools p).stopped) = false) : Stays s p .wait .block
  | take (h : s.run_allowed p = true) : Stays s p .check .front
  | served (e : α) : Stays s p (.serving e) .finishing
  | again (h : (s.pools p).waitForCompletion = false) : Stays s p .finishing .top
  | drain (h : (s.pools p).waitForCompletion = true) : Stays s p .finishing .draining
  | more (h : s.slots p ≠ []) : Stays s p .draining .top
  | leave (h : s.slots p = []) : Stays s p .draining .left

/-- A worker releases its mutex. -/
inductive Releases (s : State π α) (p : π) : Place α → Place α → Prop
  | block : Releases s p .block .blocked
  | refuse (h : s.run_allowed p = false) : Releases s p .check .top
  | serve (e : α) : Releases s p (.unlock e) (.serving e)

inductive WorkerStep (s : State π α) (p : π) (i : Nat) : State π α → Prop
  | stays {place place' : Place α} (hi : (s.pools p).workers[i]? = some place)
      (h : Stays s p place place') : WorkerStep s p i (s.setPlace p i place')
  | acquires {place : Place α} (hi : (s.pools p).workers[i]? = some place)
      (h : place = .lock ∨ place = .notified) (hfree : (s.pools p).mutex = none) :
      WorkerStep s p i ((s.setMutex p (some (.worker i))).setPlace p i .wait)
  | releases {place place' : Place α} (hi : (s.pools p).workers[i]? = some place)
      (h : Releases s p place place') : WorkerStep s p i ((s.setMutex p none).setPlace p i place')
  | front {e : α} {rest : List (Option α)} (hi : (s.pools p).workers[i]? = some .front)
      (h : s.slots p = some e :: rest) :
      WorkerStep s p i { (s.setSlots p (none :: rest)).setPlace p i (.pop e) with
        taken := s.taken ++ [(p, i, e)] }
  | pop {e : α} {x : Option α} {rest : List (Option α)}
      (hi : (s.pools p).workers[i]? = some (.pop e)) (h : s.slots p = x :: rest) :
      WorkerStep s p i ((s.setSlots p rest).setPlace p i (.unlock e))

theorem workerStep {s t : State π α} {p : π} {i : Nat} (h : s.stepWorker p i = some t) :
    WorkerStep s p i t := by
  unfold stepWorker at h
  cases hi : (s.pools p).workers[i]? with
  | none => simp [hi] at h
  | some place =>
    rw [hi] at h
    cases place with
    | top =>
      cases h
      cases hs : (s.pools p).stopped with
      | true => exact .stays hi (.quit hs)
      | false => exact .stays hi (.enter hs)
    | lock =>
      simp only [Option.ite_none_right_eq_some, Option.some_inj] at h
      obtain ⟨hfree, rfl⟩ := h
      exact .acquires hi (Or.inl rfl) hfree
    | wait =>
      cases h
      cases ha : (s.run_allowed p || (s.pools p).stopped) with
      | true => exact .stays hi (.pass ha)
      | false => exact .stays hi (.wait ha)
    | block =>
      cases h
      exact .releases hi .block
    | blocked => cases h
    | notified =>
      simp only [Option.ite_none_right_eq_some, Option.some_inj] at h
      obtain ⟨hfree, rfl⟩ := h
      exact .acquires hi (Or.inr rfl) hfree
    | check =>
      simp only at h
      split at h
      · rename_i ha
        cases h
        exact .stays hi (.take ha)
      · rename_i ha
        cases h
        exact .releases hi (.refuse (by simpa using ha))
    | front =>
      simp only at h
      split at h
      · rename_i hslots
        cases h
        exact .front hi hslots
      · cases h
    | pop e =>
      simp only at h
      split at h
      · rename_i hslots
        cases h
        exact .pop hi hslots
      · cases h
    | unlock e =>
      cases h
      exact .releases hi (.serve e)
    | serving e =>
      cases h
      exact .stays hi (.served e)
    | finishing =>
      cases h
      cases hw : (s.pools p).waitForCompletion with
      | true => exact .stays hi (.drain hw)
      | false => exact .stays hi (.again hw)
    | draining =>
      cases h
      cases hslots : s.slots p with
      | nil => exact .stays hi (.leave hslots)
      | cons x rest => exact .stays hi (.more (by simp [hslots]))
    | left => cases h

theorem spuriousStep {s t : State π α} {p : π} {i : Nat} (h : s.stepSpurious p i = some t) :
    (s.pools p).workers[i]? = some .blocked ∧ t = s.setPlace p i .notified := by
  unfold stepSpurious at h
  simp only [Option.ite_none_right_eq_some, Option.some_inj] at h
  obtain ⟨hblocked, rfl⟩ := h
  exact ⟨Place.any_isBlocked.mp hblocked, rfl⟩

theorem callStep {same : α → α → Bool} {limit : Nat} {allows : Call π α → Bool} {s t : State π α}
    {c : Call π α} (h : (system same limit allows).step s (.call c) = some t) :
    allows c = true ∧ t = s.arrive c.program := by
  have h' : (if allows c then some (s.arrive c.program) else none) = some t := h
  simp only [Option.ite_none_right_eq_some, Option.some_inj] at h'
  exact ⟨h'.1, h'.2.symm⟩

/-! What one step of a caller can do. -/

/-- An instruction that writes a member of a pool, neither its mutex nor its workers. -/
inductive Writes (s : State π α) : Instr π α → π → Pool α → Prop
  | stopped (p : π) (b : Bool) : Writes s (.setStopped p b) p { s.pools p with stopped := b }
  | paused (p : π) (b : Bool) : Writes s (.setPaused p b) p { s.pools p with paused := b }
  | waitForCompletion (p : π) (b : Bool) :
      Writes s (.setWaitForCompletion p b) p { s.pools p with waitForCompletion := b }
  | task_queue (p old : π) :
      Writes s (.transfer p old) p { s.pools p with task_queue := (s.pools old).task_queue }

/-- An instruction that finds nothing to do. -/
inductive Idles (same : α → α → Bool) (limit : Nat) (s : State π α) : Instr π α → Prop
  | started {p : π} (h : ((s.pools p).paused || (s.pools p).stopped) = false) :
      Idles same limit s (.startIf p)
  | nobody {p : π} (h : (s.pools p).workers.any Place.isBlocked = false) :
      Idles same limit s (.notifyOne p)
  | refused {p : π} {e : α} (h : pushed same limit (s.slots p) e = none) :
      Idles same limit s (.push p e)
  | joined {p : π} (h : (s.pools p).workers.all Place.isLeft = true) : Idles same limit s (.join p)

inductive CallerStep (same : α → α → Bool) (limit : Nat) (s : State π α) (k choice : Nat)
    (rest : Program π α) : Instr π α → State π α → Prop
  | idles {instr : Instr π α} (h : Idles same limit s instr) :
      CallerStep same limit s k choice rest instr (s.goOn k rest)
  | starts {p : π} (h : ((s.pools p).paused || (s.pools p).stopped) = true) :
      CallerStep same limit s k choice rest (.startIf p) (s.goOn k (Program.startBlock p ++ rest))
  | writes {instr : Instr π α} {p : π} {x : Pool α} (h : Writes s instr p x) :
      CallerStep same limit s k choice rest instr ((s.setPool p x).goOn k rest)
  | locks {p : π} (h : (s.pools p).mutex = none) :
      CallerStep same limit s k choice rest (.lock p) ((s.setMutex p (some (.caller k))).goOn k rest)
  | unlocks {p : π} :
      CallerStep same limit s k choice rest (.unlock p) ((s.setMutex p none).goOn k rest)
  | wakesAll {p : π} : CallerStep same limit s k choice rest (.notifyAll p) ((s.wakeAll p).goOn k rest)
  | wakes {p : π} (hi : (s.pools p).workers[choice]? = some .blocked) :
      CallerStep same limit s k choice rest (.notifyOne p) ((s.setPlace p choice .notified).goOn k rest)
  | pushes {p : π} {e : α} {es : List (Option α)} (h : pushed same limit (s.slots p) e = some es) :
      CallerStep same limit s k choice rest (.push p e)
        ((s.setSlots p es).goOn k (.notifyOne p :: rest))

theorem callerStep_exec {same : α → α → Bool} {limit : Nat} {s t : State π α} {k choice : Nat}
    {instr : Instr π α} {rest : Program π α} (h : s.exec same limit k choice rest instr = some t) :
    CallerStep same limit s k choice rest instr t := by
  cases instr with
  | startIf p =>
    cases h
    cases hs : ((s.pools p).paused || (s.pools p).stopped) with
    | true => exact .starts hs
    | false => exact .idles (.started hs)
  | setStopped p b =>
    cases h
    exact .writes (.stopped p b)
  | setPaused p b =>
    cases h
    exact .writes (.paused p b)
  | setWaitForCompletion p b =>
    cases h
    exact .writes (.waitForCompletion p b)
  | lock p =>
    simp only [exec, Option.ite_none_right_eq_some, Option.some_inj] at h
    obtain ⟨hfree, rfl⟩ := h
    exact .locks hfree
  | unlock p =>
    cases h
    exact .unlocks
  | notifyAll p =>
    cases h
    exact .wakesAll
  | notifyOne p =>
    simp only [exec] at h
    split at h
    · simp only [Option.ite_none_right_eq_some, Option.some_inj] at h
      obtain ⟨hblocked, rfl⟩ := h
      exact .wakes (Place.any_isBlocked.mp hblocked)
    · rename_i hnone
      cases h
      exact .idles (.nobody (by simpa using hnone))
  | push p e =>
    simp only [exec] at h
    split at h
    · rename_i hpush
      cases h
      exact .pushes hpush
    · rename_i hpush
      cases h
      exact .idles (.refused hpush)
  | transfer p old =>
    cases h
    exact .writes (.task_queue p old)
  | join p =>
    simp only [exec, Option.ite_none_right_eq_some, Option.some_inj] at h
    obtain ⟨hleft, rfl⟩ := h
    exact .idles (.joined hleft)

theorem callerStep {same : α → α → Bool} {limit : Nat} {s t : State π α} {k choice : Nat}
    (h : s.stepCaller same limit k choice = some t) :
    ∃ instr rest, s.callers[k]? = some (instr :: rest) ∧
      CallerStep same limit s k choice rest instr t := by
  unfold stepCaller at h
  split at h
  · rename_i instr rest hk
    exact ⟨instr, rest, hk, callerStep_exec h⟩
  · cases h

theorem callerStep_at {same : α → α → Bool} {limit : Nat} {s t : State π α} {k choice : Nat}
    {instr : Instr π α} {rest : Program π α} (hk : s.callers[k]? = some (instr :: rest))
    (h : s.stepCaller same limit k choice = some t) :
    CallerStep same limit s k choice rest instr t := by
  obtain ⟨instr', rest', hk', hstep⟩ := callerStep h
  rw [hk] at hk'
  cases hk'
  exact hstep

omit [DecidableEq π] in
theorem Writes.frame {s : State π α} {instr : Instr π α} {p : π} {x : Pool α}
    (h : Writes s instr p x) : x.workers = (s.pools p).workers ∧ x.mutex = (s.pools p).mutex := by
  cases h <;> exact ⟨rfl, rfl⟩

/-- Some blocked workers are notified, and nothing else happens to any worker. -/
def Wakes (s t : State π α) : Prop :=
  ∀ (p : π) (i : Nat), (t.pools p).workers[i]? = (s.pools p).workers[i]? ∨
    ((s.pools p).workers[i]? = some .blocked ∧ (t.pools p).workers[i]? = some .notified)

omit [DecidableEq π] in
theorem Wakes.of_eq {s t : State π α} (h : ∀ p, (t.pools p).workers = (s.pools p).workers) :
    Wakes s t := by
  intro p i
  rw [h]
  exact Or.inl rfl

theorem Wakes.setPool {s : State π α} {p : π} {k : Pool α} (h : k.workers = (s.pools p).workers) :
    Wakes s (s.setPool p k) := by
  refine .of_eq (fun q => ?_)
  by_cases hq : q = p
  · subst hq
    simpa using h
  · simp [hq]

theorem Wakes.notified {s : State π α} {p : π} {i : Nat}
    (hi : (s.pools p).workers[i]? = some .blocked) : Wakes s (s.setPlace p i .notified) := by
  intro q j
  by_cases hq : q = p
  · subst hq
    by_cases hj : i = j
    · subst hj
      refine Or.inr ⟨hi, ?_⟩
      simp [List.getElem?_set_self (List.getElem?_eq_some_iff.mp hi).1]
    · simp [List.getElem?_set_ne hj]
  · simp [hq]

theorem Wakes.wakeAll (s : State π α) (p : π) : Wakes s (s.wakeAll p) := by
  intro q j
  by_cases hq : q = p
  · subst hq
    cases hj : (s.pools q).workers[j]? with
    | none => simp [hj]
    | some place => cases place <;> simp [hj, Place.wake]
  · simp [hq]

theorem Wakes.caller {same : α → α → Bool} {limit : Nat} {s t : State π α} {k choice : Nat}
    (h : s.stepCaller same limit k choice = some t) : Wakes s t := by
  obtain ⟨instr, rest, _, hstep⟩ := callerStep h
  cases hstep with
  | idles _ | starts _ | pushes _ => exact .of_eq (fun _ => rfl)
  | writes hw => exact Wakes.setPool hw.frame.1
  | locks _ => exact Wakes.setPool (k := { s.pools _ with mutex := some (.caller k) }) rfl
  | unlocks => exact Wakes.setPool (k := { s.pools _ with mutex := none }) rfl
  | wakesAll => exact Wakes.wakeAll s _
  | wakes hi => exact Wakes.notified hi

theorem Wakes.spurious {s t : State π α} {p : π} {i : Nat} (h : s.stepSpurious p i = some t) :
    Wakes s t := by
  obtain ⟨hblocked, rfl⟩ := spuriousStep h
  exact .notified hblocked

omit [DecidableEq π] in
theorem Wakes.length {s t : State π α} (h : Wakes s t) (p : π) :
    (t.pools p).workers.length = (s.pools p).workers.length := by
  have hnone : ∀ i : Nat, (t.pools p).workers[i]? = none ↔ (s.pools p).workers[i]? = none := by
    intro i
    rcases h p i with heq | ⟨hs, ht⟩
    · rw [heq]
    · simp [hs, ht]
  apply Nat.le_antisymm
  · exact List.getElem?_eq_none_iff.mp ((hnone _).mpr (List.getElem?_eq_none_iff.mpr (Nat.le_refl _)))
  · exact List.getElem?_eq_none_iff.mp ((hnone _).mp (List.getElem?_eq_none_iff.mpr (Nat.le_refl _)))

/-- A step of a worker puts one worker somewhere; it begins to dequeue only where
it is allowed to. -/
theorem WorkerStep.workers {s t : State π α} {p : π} {i : Nat} (h : WorkerStep s p i t) :
    ∃ place place', (s.pools p).workers[i]? = some place ∧
      (t.pools p).workers = (s.pools p).workers.set i place' ∧
      (∀ q, q ≠ p → (t.pools q).workers = (s.pools q).workers) ∧
      (place'.active = true → place.active = true ∨ s.run_allowed p = true) := by
  cases h with
  | @stays place place' hi h =>
    refine ⟨place, place', hi, by simp, fun q hq => by simp [hq], ?_⟩
    cases h with
    | take ha => exact fun _ => Or.inr ha
    | enter _ | quit _ | pass _ | wait _ | served _ | again _ | drain _ | more _ | leave _ =>
      exact fun hplace => (by cases hplace)
  | @acquires place hi _ _ =>
    exact ⟨place, .wait, hi, by simp, fun q hq => by simp [hq], fun hplace => (by cases hplace)⟩
  | @releases place place' hi h =>
    refine ⟨place, place', hi, by simp, fun q hq => by simp [hq], fun hplace => ?_⟩
    cases h <;> cases hplace
  | @front e rest hi _ =>
    exact ⟨.front, .pop e, hi, by simp, fun q hq => by simp [hq], fun _ => Or.inl rfl⟩
  | @pop e x rest hi _ =>
    exact ⟨.pop e, .unlock e, hi, by simp, fun q hq => by simp [hq], fun _ => Or.inl rfl⟩

theorem WorkerStep.callers {s t : State π α} {p : π} {i : Nat} (h : WorkerStep s p i t) :
    t.callers = s.callers := by
  cases h <;> rfl

theorem WorkerStep.frame {s t : State π α} {p : π} {i : Nat} (h : WorkerStep s p i t) (q : π) :
    (t.pools q).task_queue = (s.pools q).task_queue ∧ (t.pools q).paused = (s.pools q).paused := by
  cases h with
  | stays _ _ | acquires _ _ _ | releases _ _ | front _ _ | pop _ _ =>
    by_cases hq : q = p
    · subst hq
      simp
    · simp [hq]

theorem CallerStep.frame {same : α → α → Bool} {limit : Nat} {s t : State π α} {k choice : Nat}
    {instr : Instr π α} {rest : Program π α} (h : CallerStep same limit s k choice rest instr t) :
    (∃ prog, t.callers = s.callers.set k prog ∧ (prog = rest ∨
        (∃ p, instr = .startIf p ∧ prog = Program.startBlock p ++ rest) ∨
        ∃ p e, instr = .push p e ∧ prog = .notifyOne p :: rest)) ∧
      t.taken = s.taken ∧
      ∀ r, (t.pools r).paused = (s.pools r).paused ∨
        ∃ b, instr = .setPaused r b ∧ (t.pools r).paused = b := by
  cases h with
  | idles _ => exact ⟨⟨rest, rfl, Or.inl rfl⟩, rfl, fun r => Or.inl rfl⟩
  | @starts p _ => exact ⟨⟨_, rfl, Or.inr (Or.inl ⟨p, rfl, rfl⟩)⟩, rfl, fun r => Or.inl rfl⟩
  | @writes instr p x hw =>
    refine ⟨⟨rest, rfl, Or.inl rfl⟩, rfl, fun r => ?_⟩
    by_cases hr : r = p
    · subst hr
      cases hw with
      | paused _ b => exact Or.inr ⟨b, rfl, by simp⟩
      | stopped _ _ | waitForCompletion _ _ | task_queue _ _ => exact Or.inl (by simp)
    · exact Or.inl (by simp [hr])
  | @locks p _ | @unlocks p | @wakesAll p | @wakes p _ =>
    refine ⟨⟨rest, rfl, Or.inl rfl⟩, rfl, fun r => Or.inl ?_⟩
    by_cases hr : r = p <;> simp [hr]
  | @pushes p e es _ =>
    exact ⟨⟨_, rfl, Or.inr (Or.inr ⟨p, e, rfl, rfl⟩)⟩, rfl, fun r => Or.inl rfl⟩

/-- Every instruction the callers have left meets `R`. -/
def Obeys (R : Instr π α → Prop) (s : State π α) : Prop := ∀ prog ∈ s.callers, ∀ x ∈ prog, R x

/-- What an instruction that meets `R` puts into the program of its caller meets `R` too. -/
structure Lasting (R : Instr π α → Prop) : Prop where
  start : ∀ p, R (.startIf p) → ∀ x ∈ Program.startBlock p, R x
  push : ∀ p e, R (.push p e) → R (.notifyOne p)

theorem Obeys.caller {R : Instr π α → Prop} (hR : Lasting R) {same : α → α → Bool} {limit : Nat}
    {s t : State π α} {k choice : Nat} (hs : s.Obeys R)
    (h : s.stepCaller same limit k choice = some t) : t.Obeys R := by
  obtain ⟨instr, rest, hk, hstep⟩ := callerStep h
  have hall := hs _ (List.mem_of_getElem? hk)
  have hinstr : R instr := hall instr List.mem_cons_self
  have hrest : ∀ x ∈ rest, R x := fun x hx => hall x (List.mem_cons_of_mem _ hx)
  obtain ⟨⟨prog, hcallers, hprog⟩, _, _⟩ := hstep.frame
  intro prog' hmem
  rw [hcallers] at hmem
  rcases List.mem_or_eq_of_mem_set hmem with hmem | rfl
  · exact hs prog' hmem
  · rcases hprog with rfl | ⟨p, rfl, rfl⟩ | ⟨p, e, rfl, rfl⟩
    · exact hrest
    · intro x hx
      rcases List.mem_append.mp hx with hx | hx
      · exact hR.start p hinstr x hx
      · exact hrest x hx
    · intro x hx
      rcases List.mem_cons.mp hx with rfl | hx
      · exact hR.push p e hinstr
      · exact hrest x hx

omit [DecidableEq π] in
theorem Obeys.arrive {R : Instr π α → Prop} {s : State π α} {prog : Program π α} (hs : s.Obeys R)
    (hprog : ∀ x ∈ prog, R x) : (s.arrive prog).Obeys R := by
  intro prog' hmem
  rcases List.mem_append.mp hmem with hmem | hmem
  · exact hs prog' hmem
  · rw [List.mem_singleton.mp hmem]
    exact hprog

/-- Only the callers' own steps and the calls that arrive change what they have left. -/
theorem Obeys.step {R : Instr π α → Prop} (hR : Lasting R) {same : α → α → Bool} {limit : Nat}
    {allows : Call π α → Bool} (hcalls : ∀ c, allows c = true → ∀ x ∈ c.program, R x)
    {s t : State π α} {e : Step π α} (hs : s.Obeys R)
    (h : (system same limit allows).step s e = some t) : t.Obeys R := by
  cases e with
  | worker p i =>
    have hcallers := (workerStep h).callers
    unfold Obeys
    rw [hcallers]
    exact hs
  | spurious p i =>
    obtain ⟨_, rfl⟩ := spuriousStep h
    exact hs
  | caller k choice => exact hs.caller hR h
  | call c =>
    obtain ⟨hc, rfl⟩ := callStep h
    exact hs.arrive (hcalls c hc)

/-- Only `push` changes a queue, and only a transfer gives a pool another one. -/
theorem CallerStep.queues {same : α → α → Bool} {limit : Nat} {s t : State π α} {k choice : Nat}
    {instr : Instr π α} {rest : Program π α} (h : CallerStep same limit s k choice rest instr t)
    (hpush : ∀ p e, instr ≠ .push p e) (htransfer : ∀ p old, instr ≠ .transfer p old) :
    t.queues = s.queues ∧ ∀ r, (t.pools r).task_queue = (s.pools r).task_queue := by
  cases h with
  | idles _ | starts _ => exact ⟨rfl, fun _ => rfl⟩
  | @writes instr p x hw =>
    refine ⟨rfl, fun r => ?_⟩
    by_cases hr : r = p
    · subst hr
      cases hw with
      | task_queue _ old => exact absurd rfl (htransfer _ old)
      | stopped _ _ | paused _ _ | waitForCompletion _ _ => simp
    · simp [hr]
  | @locks p _ | @unlocks p | @wakesAll p | @wakes p _ =>
    refine ⟨rfl, fun r => ?_⟩
    by_cases hr : r = p <;> simp [hr]
  | @pushes p e es _ => exact absurd rfl (hpush p e)

/-- `getSize` does not change. -/
theorem workers_length {same : α → α → Bool} {limit : Nat} {allows : Call π α → Bool}
    {s t : State π α} {e : Step π α} (h : (system same limit allows).step s e = some t) (p : π) :
    (t.pools p).workers.length = (s.pools p).workers.length := by
  cases e with
  | worker q i =>
    obtain ⟨_, place', _, hw, hother, _⟩ := (workerStep h).workers
    by_cases hp : p = q
    · subst hp
      simp [hw]
    · rw [hother p hp]
  | spurious q i => exact (Wakes.spurious h).length p
  | caller k choice => exact (Wakes.caller h).length p
  | call c =>
    obtain ⟨_, rfl⟩ := callStep h
    rfl

end State

end ProteiCov.Threads
