import ProteiCov.Heap

/-
  `TP::Task`: one call as an operator handles it

  Every method takes the reference of the task it is called on. Unguarded uses of
  `logger_` are `derefLogger`, guarded ones are an `if`; a log statement that
  formats the caller's number reads the text behind the `string_view`.

  `doTask` depends on the clock, a random draw and a sleep, and each of its steps
  may throw: `Service` is what the outside world gives one run of it.
-/

namespace ProteiCov
open Cpp

/-- The steps inside `doTask` that the standard library or the logger carries out. -/
inductive DoTaskStep where
  | now
  | logSetting
  | operatorClock
  | getDuration
  | logCall
  | logSleeping
  | sleep
  | endClock
  | logFinished
  | logWriting
  | logFilling
  | logError
  deriving DecidableEq, Repr

/-- What one run of `doTask` meets: the exception a step throws, if it throws,
the three readings of the clock and the draw of the random engine. -/
structure Service where
  fails : DoTaskStep → Option StdException
  now : TimePoint
  operatorCallTime : TimePoint
  endTime : TimePoint
  draw : Int

/-- A run in which no step throws. -/
def Service.calm (now operatorCallTime endTime : TimePoint) (draw : Int) : Service :=
  ⟨fun _ => none, now, operatorCallTime, endTime, draw⟩

/-- Carry out a step that may throw. -/
def attempt (env : Service) (st : DoTaskStep) : Exec World Unit :=
  match env.fails st with
  | none => pure ()
  | some e => .throw e

namespace Task

/-- The object `Task(RMin, RMax, number, startTime, logger)` builds. The members
of the CDR that the constructor leaves uninitialised are written before they are
read; they are zero here. -/
def make (RMin RMax : Int) (number : List Char) (startTime : TimePoint) (logger : Bool) : Task where
  taskId_ := 0
  RMin_ := RMin
  RMax_ := RMax
  number_ := number
  logger_ := logger
  promise_ := .fresh
  cdr :=
    { startTime := startTime, endTime := 0, callID := 0, status := .Awaiting,
      operatorCallTime := 0, operatorID := 0, callDuration := 0, number := number }

/-- The log statements of the constructor. -/
def logCreation (logger : Bool) (t : TaskRef) : Exec World Unit :=
  if logger then emit (.readNumber t) else pure ()

/-- `make_shared<Task>(…)`. -/
def construct (RMin RMax : Int) (number : List Char) (startTime : TimePoint) (logger : Bool) :
    Exec World TaskRef := do
  let t ← newTask (make RMin RMax number startTime logger)
  logCreation logger t
  return t

/-- `getNumber`, and the use of the text its `string_view` points to. -/
def getNumber (t : TaskRef) : Exec World (List Char) := do
  emit (.readNumber t)
  let task ← readTask t
  return task.number_

/-- A log statement that formats the number of the call. -/
def logNumber (t : TaskRef) : Exec World Unit := do
  let task ← readTask t
  derefLogger task.logger_
  emit (.readNumber t)

def setCallID (t : TaskRef) (id : CallID) : Exec World Unit := do
  modifyTask t (fun k => { k with taskId_ := id })
  modifyCDR t (fun c => { c with callID := id })
  logNumber t

def setThreadID (t : TaskRef) (id : UInt64) : Exec World Unit := do
  modifyCDR t (fun c => { c with operatorID := id })
  logNumber t

/-- `if(logger_) { … }`. -/
def ifLogger (t : TaskRef) (x : Exec World Unit) : Exec World Unit := do
  let task ← readTask t
  if task.logger_ then x else pure ()

/-- `getDuration`: `uniform_int_distribution(RMin_, RMax_)` requires
`RMin_ <= RMax_`. -/
def getDuration (env : Service) (t : TaskRef) : Exec World Int := do
  attempt env .getDuration
  let task ← readTask t
  if task.RMin_ ≤ task.RMax_ then return env.draw else .undefined

/-- `(timeDiff.count() < RMax_) ? getDuration() : seconds{0}`. -/
def chooseDuration (env : Service) (t : TaskRef) (timeDiff : Int) : Exec World Int := do
  let task ← readTask t
  if timeDiff < task.RMax_ then getDuration env t else return 0

def setCdrValues (env : Service) (t : TaskRef) (timeDiff : Int) : Exec World Unit := do
  ifLogger t (do
    attempt env .logSetting
    emit (.readNumber t))
  attempt env .operatorClock
  modifyCDR t (fun c => { c with operatorCallTime := env.operatorCallTime })
  let duration ← chooseDuration env t timeDiff
  modifyCDR t (fun c => { c with callDuration := duration })
  let task ← readTask t
  modifyCDR t (fun c => { c with status := if timeDiff < task.RMax_ then .Completed else .Timeout })

/-- `sleep_for(cdr.callDuration)`, for a completed call. -/
def sleepCall (env : Service) (t : TaskRef) : Exec World Unit := do
  let task ← readTask t
  if task.cdr.status = .Completed then
    attempt env .sleep
    emit (.sleep t task.cdr.callDuration)
  else pure ()

def logCallDetails (env : Service) (t : TaskRef) : Exec World Unit := do
  ifLogger t (do
    attempt env .logCall
    emit (.readNumber t)
    attempt env .logSleeping
    sleepCall env t)
  attempt env .endClock
  modifyCDR t (fun c => { c with endTime := env.endTime })
  let task ← readTask t
  derefLogger task.logger_
  attempt env .logFinished
  emit (.readNumber t)

def createResultObject (env : Service) (t : TaskRef) : Exec World Result := do
  ifLogger t (attempt env .logFilling)
  let task ← readTask t
  return { status := task.cdr.status, callDuration := task.cdr.callDuration, callID := task.taskId_ }

/-- The `try` block of `doTask`. -/
def doTaskBody (env : Service) (t : TaskRef) : Exec World Result := do
  attempt env .now
  let task ← readTask t
  let timeDiff := durationCastSeconds (env.now - task.cdr.startTime)
  setCdrValues env t timeDiff
  logCallDetails env t
  derefLogger task.logger_
  attempt env .logWriting
  emit (.readNumber t)
  createResultObject env t

/-- The handler of `doTask`: it settles the promise and rethrows. -/
def doTaskHandler (env : Service) (t : TaskRef) (e : StdException) : Exec World Result := do
  let task ← readTask t
  derefLogger task.logger_
  attempt env .logError
  set_exception t e
  .throw e

def doTask (env : Service) (t : TaskRef) : Exec World Result :=
  .tryCatch (doTaskBody env t) (doTaskHandler env t)

/-! The two setters. Both need a logger. -/

theorem run_logNumber {w : World} {t : TaskRef} (h : (w.tasks t).logger_ = true) :
    (logNumber t).run w = (.ok (), w.emit [.readNumber t]) := by
  have hread : (readTask t).run w = (.ok (w.tasks t), w) := rfl
  rw [logNumber, Exec.run_bind_ok hread, h]
  rfl

/-- The world after a task got its CallID. -/
def identified (w : World) (t : TaskRef) (id : CallID) : World :=
  (w.setTask t { w.tasks t with taskId_ := id }).mapCDR t (fun c => { c with callID := id })

theorem run_setCallID {w : World} {t : TaskRef} (id : CallID) (h : (w.tasks t).logger_ = true) :
    (setCallID t id).run w = (.ok (), (identified w t id).emit [.readNumber t]) :=
  run_logNumber (by simpa using h)

theorem run_setThreadID {w : World} {t : TaskRef} (id : UInt64) (h : (w.tasks t).logger_ = true) :
    (setThreadID t id).run w =
      (.ok (), (w.mapCDR t (fun c => { c with operatorID := id })).emit [.readNumber t]) :=
  run_logNumber (by simpa using h)

theorem run_logNumber_silent {w : World} {t : TaskRef} (h : (w.tasks t).logger_ = false) :
    (logNumber t).run w = (.undefined, w) := by
  have hread : (readTask t).run w = (.ok (w.tasks t), w) := rfl
  rw [logNumber, Exec.run_bind_ok hread, h]
  rfl

theorem run_setCallID_silent {w : World} {t : TaskRef} (id : CallID)
    (h : (w.tasks t).logger_ = false) :
    (setCallID t id).run w = (.undefined, identified w t id) :=
  run_logNumber_silent (by simpa using h)

theorem run_setThreadID_silent {w : World} {t : TaskRef} (id : UInt64)
    (h : (w.tasks t).logger_ = false) :
    (setThreadID t id).run w = (.undefined, w.mapCDR t (fun c => { c with operatorID := id })) :=
  run_logNumber_silent (by simpa using h)

end Task

end ProteiCov
