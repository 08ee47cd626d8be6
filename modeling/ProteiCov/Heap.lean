import Mathlib.Logic.Function.Basic
import Mathlib.Tactic.Simps.Basic
import ProteiCov.CommonStructures

/-
  The objects of a running call centre

  Tasks, queues and pools are shared objects reached through `shared_ptr`, so
  the model keeps them in a heap, `World`, under references: the current pool
  and a pool being replaced can point at one queue, and a task is reached both
  from a queue entry and from the worker serving it.

  `World.trace` is the history of the effects an observer of the program could
  name: a CDR passed to a recorder, a promise settled, the text behind a call's
  number read, an operator held by `sleep_for`. The objects themselves do not
  depend on it.

  `task->logger_` is a boolean here: whether a logger is attached. A call through
  a null logger is undefined behaviour.
-/

namespace ProteiCov
open Cpp

abbrev TaskRef := Nat
abbrev QueueRef := Nat
abbrev PoolRef := Nat
abbrev RecorderRef := Nat

/-- `TP::Task` with the members it has from `ITask`. -/
structure Task where
  taskId_ : CallID
  RMin_ : Int
  RMax_ : Int
  number_ : List Char
  logger_ : Bool
  promise_ : Promise Result
  cdr : CDR
  deriving DecidableEq, Repr, Inhabited

/-- `TP::Queue`. An entry is a task and the CallID it was admitted under. -/
structure Queue where
  queue_ : List (TaskRef × CallID)
  sizeOfQueue : Nat
  logger_ : Bool
  recorders_ : List RecorderRef
  deriving DecidableEq, Repr, Inhabited

/-- `TP::ThreadPool`. Its worker threads are not part of the object: a system
that runs them keeps where each of them stands. -/
structure ThreadPool where
  task_queue : Option QueueRef
  size : Nat
  stopped : Bool
  paused : Bool
  waitForCompletion : Bool
  logger_ : Bool
  deriving DecidableEq, Repr, Inhabited

/-- An effect of the program. -/
inductive Event where
  | record (recorder : RecorderRef) (task : TaskRef) (cdr : CDR)
  | settle (task : TaskRef) (v : Settled Result)
  | readNumber (task : TaskRef)
  | sleep (task : TaskRef) (seconds : Int)
  deriving DecidableEq, Repr

/-- The heap and the history of effects. -/
structure World where
  tasks : TaskRef → Task
  taskCount : Nat
  queues : QueueRef → Queue
  queueCount : Nat
  pools : PoolRef → ThreadPool
  poolCount : Nat
  trace : List Event

namespace World

/-- The heap before any object was made. -/
def empty : World where
  tasks _ := default
  taskCount := 0
  queues _ := default
  queueCount := 0
  pools _ := default
  poolCount := 0
  trace := []

@[simps] def setTask (w : World) (t : TaskRef) (k : Task) : World :=
  { w with tasks := Function.update w.tasks t k }

@[simps] def setQueue (w : World) (q : QueueRef) (k : Queue) : World :=
  { w with queues := Function.update w.queues q k }

@[simps] def setPool (w : World) (p : PoolRef) (k : ThreadPool) : World :=
  { w with pools := Function.update w.pools p k }

/-- The world after the CDR of a task was changed. -/
@[simps] def mapCDR (w : World) (t : TaskRef) (f : CDR → CDR) : World :=
  { w with tasks := Function.update w.tasks t { w.tasks t with cdr := f (w.tasks t).cdr } }

/-- The world after further effects. -/
@[simps] def emit (w : World) (es : List Event) : World := { w with trace := w.trace ++ es }

theorem mapCDR_self (w : World) (t : TaskRef) (f : CDR → CDR) :
    (w.mapCDR t f).tasks t = { w.tasks t with cdr := f (w.tasks t).cdr } := by
  simp

/-- Changing a CDR leaves the other members of every task as they are. -/
theorem mapCDR_frame (w : World) (t u : TaskRef) (f : CDR → CDR) :
    ∃ c, (w.mapCDR t f).tasks u = { w.tasks u with cdr := c } := by
  by_cases h : u = t
  · subst h
    exact ⟨_, mapCDR_self w u f⟩
  · exact ⟨(w.tasks u).cdr, by simp [h]⟩

section
variable (w : World) (t u : TaskRef) (f : CDR → CDR)

@[simp] theorem mapCDR_promise : ((w.mapCDR t f).tasks u).promise_ = (w.tasks u).promise_ := by
  obtain ⟨c, hc⟩ := mapCDR_frame w t u f
  rw [hc]

@[simp] theorem mapCDR_logger : ((w.mapCDR t f).tasks u).logger_ = (w.tasks u).logger_ := by
  obtain ⟨c, hc⟩ := mapCDR_frame w t u f
  rw [hc]

@[simp] theorem mapCDR_number : ((w.mapCDR t f).tasks u).number_ = (w.tasks u).number_ := by
  obtain ⟨c, hc⟩ := mapCDR_frame w t u f
  rw [hc]

@[simp] theorem mapCDR_RMin : ((w.mapCDR t f).tasks u).RMin_ = (w.tasks u).RMin_ := by
  obtain ⟨c, hc⟩ := mapCDR_frame w t u f
  rw [hc]

@[simp] theorem mapCDR_RMax : ((w.mapCDR t f).tasks u).RMax_ = (w.tasks u).RMax_ := by
  obtain ⟨c, hc⟩ := mapCDR_frame w t u f
  rw [hc]

@[simp] theorem mapCDR_taskId : ((w.mapCDR t f).tasks u).taskId_ = (w.tasks u).taskId_ := by
  obtain ⟨c, hc⟩ := mapCDR_frame w t u f
  rw [hc]

theorem mapCDR_cdr : ((w.mapCDR t f).tasks t).cdr = f (w.tasks t).cdr := by
  rw [mapCDR_self]

end

@[simp] theorem mapCDR_mapCDR (w : World) (t : TaskRef) (f g : CDR → CDR) :
    (w.mapCDR t f).mapCDR t g = w.mapCDR t (fun c => g (f c)) := by
  simp [mapCDR]

@[simp] theorem emit_mapCDR (w : World) (t : TaskRef) (f : CDR → CDR) (es : List Event) :
    (w.emit es).mapCDR t f = (w.mapCDR t f).emit es := rfl

@[simp] theorem emit_emit (w : World) (es fs : List Event) :
    (w.emit es).emit fs = w.emit (es ++ fs) := by
  simp [emit]

end World

/-! Access to the heap. -/

/-- `make_shared<Task>`: a new object in the heap. -/
def newTask (k : Task) : Exec World TaskRef := fun w =>
  (.ok w.taskCount, { w.setTask w.taskCount k with taskCount := w.taskCount + 1 })

def newQueue (k : Queue) : Exec World QueueRef := fun w =>
  (.ok w.queueCount, { w.setQueue w.queueCount k with queueCount := w.queueCount + 1 })

def newPool (k : ThreadPool) : Exec World PoolRef := fun w =>
  (.ok w.poolCount, { w.setPool w.poolCount k with poolCount := w.poolCount + 1 })

def readTask (t : TaskRef) : Exec World Task := .get (fun w => w.tasks t)
def readQueue (q : QueueRef) : Exec World Queue := .get (fun w => w.queues q)
def readPool (p : PoolRef) : Exec World ThreadPool := .get (fun w => w.pools p)

def modifyTask (t : TaskRef) (f : Task → Task) : Exec World Unit :=
  .modify (fun w => w.setTask t (f (w.tasks t)))

def modifyCDR (t : TaskRef) (f : CDR → CDR) : Exec World Unit := .modify (fun w => w.mapCDR t f)

def modifyQueue (q : QueueRef) (f : Queue → Queue) : Exec World Unit :=
  .modify (fun w => w.setQueue q (f (w.queues q)))

def modifyPool (p : PoolRef) (f : ThreadPool → ThreadPool) : Exec World Unit :=
  .modify (fun w => w.setPool p (f (w.pools p)))

def emit (e : Event) : Exec World Unit := .modify (fun w => w.emit [e])

/-- `logger_->…` through a pointer that may be null. -/
def derefLogger (attached : Bool) : Exec World Unit := if attached then pure () else .undefined

/-- Settle a task's promise. -/
def settle (t : TaskRef) (v : Settled Result) : Exec World Unit := fun w =>
  match (w.tasks t).promise_.settle v with
  | .ok p => (.ok (), (w.setTask t { w.tasks t with promise_ := p }).emit [.settle t v])
  | .error e => (.throws e, w)

/-- `task->promise_->set_value(r)`. -/
def set_value (t : TaskRef) (r : Result) : Exec World Unit := settle t (.value r)

/-- `task->promise_->set_exception(e)`. -/
def set_exception (t : TaskRef) (e : StdException) : Exec World Unit := settle t (.exception e)

/-- `task->promise_->get_future()`. -/
def get_future (t : TaskRef) : Exec World Unit := fun w =>
  match (w.tasks t).promise_.get_future with
  | .ok p => (.ok (), w.setTask t { w.tasks t with promise_ := p })
  | .error e => (.throws e, w)

/-- The world after a pending promise was settled. -/
def World.settled (w : World) (t : TaskRef) (v : Settled Result) : World :=
  (w.setTask t { w.tasks t with
    promise_ := { (w.tasks t).promise_ with state := some v } }).emit [.settle t v]

theorem run_settle {w : World} {t : TaskRef} (v : Settled Result)
    (h : (w.tasks t).promise_.state = none) :
    (settle t v).run w = (.ok (), w.settled t v) := by
  show (match (w.tasks t).promise_.settle v with | .ok p => _ | .error e => _) = _
  rw [Promise.settle, h]
  rfl

theorem run_settle_again {w : World} {t : TaskRef} (v : Settled Result)
    (h : (w.tasks t).promise_.state ≠ none) :
    (settle t v).run w = (.throws .promise_already_satisfied, w) := by
  obtain ⟨u, hu⟩ := Option.ne_none_iff_exists'.mp h
  show (match (w.tasks t).promise_.settle v with | .ok p => _ | .error e => _) = _
  rw [Promise.settle, hu]

/-- The world after the future of a task was retrieved. -/
def World.retrieved (w : World) (t : TaskRef) : World :=
  w.setTask t { w.tasks t with promise_ := { (w.tasks t).promise_ with retrieved := true } }

theorem run_get_future {w : World} {t : TaskRef} (h : (w.tasks t).promise_.retrieved = false) :
    (get_future t).run w = (.ok (), w.retrieved t) := by
  show (match (w.tasks t).promise_.get_future with | .ok p => _ | .error e => _) = _
  rw [Promise.get_future, h]
  rfl

theorem run_get_future_again {w : World} {t : TaskRef} (h : (w.tasks t).promise_.retrieved = true) :
    (get_future t).run w = (.throws .future_already_retrieved, w) := by
  show (match (w.tasks t).promise_.get_future with | .ok p => _ | .error e => _) = _
  rw [Promise.get_future, h]
  rfl

end ProteiCov
