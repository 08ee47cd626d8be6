import ProteiCov.CallFlow

/-
  Calls at the grain of the critical sections

  A handler reads the clock and makes a task, and puts it into the pool in a critical
  section of its own. A worker takes a call in a critical section; then it runs
  `doTask`, writes the CDR and settles the promise, and everybody else may move in
  between. The three readings of the clock in a run of `doTask` are steps as well, so
  that the clock, which never goes back, is one for all threads: a run that throws early
  has the readings it would have made.

  There is no bound on the workers: whenever a pool lets a call be taken, a worker may
  take it. What `Manager::update` does is here in four steps, in any order; the pools
  share the queue of the manager's pool.

  `ids` and `begun` are histories the code never reads: the CallID `add_task` returned
  for a task, and the reading of the clock at the start of its `doTask`.
-/

namespace ProteiCov
open Cpp

namespace CallSteps

/-- How far a worker is with its call. -/
inductive Stage where
  | running (readings : List TimePoint)
  | returned (r : Result)
  | written (r : Result)
  | thrown (e : StdException)
  deriving DecidableEq, Repr

/-- A call a worker of the pool has taken. -/
structure Served where
  pool : PoolRef
  entry : TaskRef × CallID
  stage : Stage
  deriving DecidableEq, Repr

structure Calls where
  world : World
  manager : Manager
  clock : TimePoint
  made : List TaskRef
  served : List Served
  ids : TaskRef → Option CallID
  begun : TaskRef → Option TimePoint

inductive Step where
  | arrive (number : List Char) (now : TimePoint)
  | addTask (k : Nat) (thread : ThreadId) (pushNow : TimePoint)
  | take (thread : ThreadId) (p : PoolRef)
  | readClock (k : Nat) (now : TimePoint)
  | doTask (k : Nat) (fails : DoTaskStep → Option StdException) (draw : Int)
  | writeCDR (k : Nat)
  | settle (k : Nat)
  | startThreadPool
  | stopThreadPool
  | setMinMax (minMax : Int × Int)
  | updateQueue (size : Int)
  | swap (operators size : Int)

/-- `task_queue->writeCDR(task->cdr)` in a worker of the pool. -/
def writeCDR (p : PoolRef) (t : TaskRef) : Exec World Unit := do
  let pool ← readPool p
  match pool.task_queue with
  | some q => Queue.writeCDR q t
  | none => .undefined

/-- How a worker settles the call it is done with. -/
def settling (t : TaskRef) : Stage → Exec World Unit
  | .written r => .tryCatch (set_value t r) (fun e => set_exception t e)
  | .thrown e => set_exception t e
  | .running _ | .returned _ => .undefined

namespace Calls

/-- A handler reads the clock and makes the task of its call. -/
def arrive (s : Calls) (number : List Char) (now : TimePoint) : Option Calls :=
  if s.clock ≤ now then
    match (Task.construct s.manager.RMin_ s.manager.RMax_ number now s.manager.logger_).run s.world with
    | (.ok t, v) => some { s with world := v, clock := now, made := s.made ++ [t] }
    | _ => none
  else none

/-- A handler adds the task it made; a call `stoll` refuses is dropped. -/
def addTask (hash : ThreadId → UInt64) (s : Calls) (k : Nat) (thread : ThreadId)
    (pushNow : TimePoint) : Option Calls :=
  match s.made[k]? with
  | some t =>
    if s.clock ≤ pushNow then
      match (ThreadPool.add_task hash thread pushNow s.manager.threadPool_ t).run s.world with
      | (.ok id, v) =>
        some { s with world := v, clock := pushNow, made := s.made.eraseIdx k,
                      ids := Function.update s.ids t (some id) }
      | (.throws _, v) => some { s with world := v, clock := pushNow, made := s.made.eraseIdx k }
      | (.undefined, _) => none
    else none
  | none => none

/-- A worker of the pool takes the front entry. -/
def take (hash : ThreadId → UInt64) (s : Calls) (thread : ThreadId) (p : PoolRef) : Option Calls :=
  if p < s.world.poolCount then
    match (CallFlow.dequeue hash thread p).run s.world with
    | (.ok (some e), v) => some { s with world := v, served := s.served ++ [⟨p, e, .running []⟩] }
    | _ => none
  else none

/-- A worker reads the clock in `doTask`. -/
def readClock (s : Calls) (k : Nat) (now : TimePoint) : Option Calls :=
  match s.served[k]? with
  | some ⟨p, e, .running readings⟩ =>
    if s.clock ≤ now ∧ readings.length < 3 then
      some { s with clock := now, served := s.served.set k ⟨p, e, .running (readings ++ [now])⟩,
                    begun := if readings = [] then Function.update s.begun e.1 (some now) else s.begun }
    else none
  | _ => none

def doTask (s : Calls) (k : Nat) (fails : DoTaskStep → Option StdException) (draw : Int) :
    Option Calls :=
  match s.served[k]? with
  | some ⟨p, e, .running [now, operatorCallTime, endTime]⟩ =>
    match (Task.doTask ⟨fails, now, operatorCallTime, endTime, draw⟩ e.1).run s.world with
    | (.ok r, v) => some { s with world := v, served := s.served.set k ⟨p, e, .returned r⟩ }
    | (.throws x, v) => some { s with world := v, served := s.served.set k ⟨p, e, .thrown x⟩ }
    | (.undefined, _) => none
  | _ => none

def journal (s : Calls) (k : Nat) : Option Calls :=
  match s.served[k]? with
  | some ⟨p, e, .returned r⟩ =>
    match (writeCDR p e.1).run s.world with
    | (.ok (), v) => some { s with world := v, served := s.served.set k ⟨p, e, .written r⟩ }
    | (.throws x, v) => some { s with world := v, served := s.served.set k ⟨p, e, .thrown x⟩ }
    | (.undefined, _) => none
  | _ => none

/-- An exception that leaves the worker ends the process. -/
def settle (s : Calls) (k : Nat) : Option Calls :=
  match s.served[k]? with
  | some v =>
    match (settling v.entry.1 v.stage).run s.world with
    | (.ok (), u) => some { s with world := u, served := s.served.eraseIdx k }
    | _ => none
  | none => none

/-- A method of the manager that changes no call. -/
def configure (s : Calls) (x : Exec World Unit) : Option Calls :=
  match x.run s.world with
  | (.ok (), v) => some { s with world := v }
  | _ => none

/-- An update builds a pool and installs it. -/
def swap (s : Calls) (operators size : Int) : Option Calls :=
  match (Manager.buildPool s.manager.logger_ operators size).run s.world with
  | (.ok p, v) =>
    match (s.manager.setNewThreadPool p).run v with
    | (.ok m, u) => some { s with world := u, manager := m }
    | _ => none
  | (.throws _, v) => some { s with world := v }
  | (.undefined, _) => none

end Calls

def system (hash : ThreadId → UInt64) : Transition.System Calls Step where
  step s
    | .arrive number now => s.arrive number now
    | .addTask k thread pushNow => s.addTask hash k thread pushNow
    | .take thread p => s.take hash thread p
    | .readClock k now => s.readClock k now
    | .doTask k fails draw => s.doTask k fails draw
    | .writeCDR k => s.journal k
    | .settle k => s.settle k
    | .startThreadPool => s.configure s.manager.startThreadPool
    | .stopThreadPool => s.configure s.manager.stopThreadPool
    | .setMinMax minMax => some { s with manager := s.manager.setMinMax minMax }
    | .updateQueue size => s.configure (s.manager.updateQueue size)
    | .swap operators size => s.swap operators size

/-- Nothing was submitted yet. -/
def initial (m : Manager) (w : World) (clock : TimePoint) : Calls where
  world := w
  manager := m
  clock := clock
  made := []
  served := []
  ids _ := none
  begun _ := none

/-- The steps of a worker in a row are `executeTask`. -/
theorem run_executeTask_of_steps {env : Service} {p : PoolRef} {t : TaskRef} {w v u x : World}
    {r : Result} (hdo : (Task.doTask env t).run w = (.ok r, v))
    (hwrite : (writeCDR p t).run v = (.ok (), u))
    (hset : (settling t (.written r)).run u = (.ok (), x)) :
    (ThreadPool.executeTask env p t).run w = (.ok (), x) := by
  have hpool : (readPool p).run v = (.ok (v.pools p), v) := rfl
  rw [writeCDR, Exec.run_bind_ok hpool] at hwrite
  have hbody : ∀ y, (set_value t r).run u = y → ((do
      let res ← Task.doTask env t
      let pool ← readPool p
      match pool.task_queue with
      | some q =>
        Queue.writeCDR q t
        set_value t res
      | none => .undefined) : Exec World Unit).run w = y := by
    intro y hy
    rw [Exec.run_bind_ok hdo, Exec.run_bind_ok hpool]
    cases hq : (v.pools p).task_queue with
    | none =>
      rw [hq] at hwrite
      cases hwrite
    | some q =>
      rw [hq] at hwrite
      show (Queue.writeCDR q t >>= fun _ => set_value t r).run v = y
      rw [Exec.run_bind_ok hwrite]
      exact hy
  unfold ThreadPool.executeTask
  cases hv : (set_value t r).run u with
  | mk o y =>
    have hrun := hbody _ hv
    cases o with
    | ok a =>
      rw [settling, Exec.run_tryCatch_ok hv] at hset
      cases hset
      exact Exec.run_tryCatch_ok hrun
    | throws e =>
      rw [settling, Exec.run_tryCatch_throws hv] at hset
      exact (Exec.run_tryCatch_throws hrun).trans hset
    | undefined =>
      rw [settling, Exec.run_tryCatch_undefined hv] at hset
      cases hset

end CallSteps

end ProteiCov
