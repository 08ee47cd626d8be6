import ProteiCov.DoTask
import ProteiCov.Lib.Invariant

/-
  Serving a call without a logger

  A task may be built with no logger, and most of its methods test for one. The tests
  are placed statement by statement, and each of `setCallID`, `setThreadID` and
  `doTask` also has a log statement with no test, so none of the three survives a null
  logger (`run_setCallID_silent`, `run_setThreadID_silent`, `run_doTask_silent`): a call
  is served exactly where it has a logger (`lifeCycle_returns_iff`).

  The sleep that holds the operator stands in a tested block too: what `doTask` does
  with no logger before it fails holds nobody.
-/

namespace ProteiCov
open Cpp

/-- What a call goes through from its admission to its result. -/
def Task.lifeCycle (env : Service) (id : CallID) (thread : UInt64) (t : TaskRef) : Exec World Result := do
  Task.setCallID t id
  Task.setThreadID t thread
  Task.doTask env t

/-- The seconds an effect holds the operator of a call. -/
def Event.held (t : TaskRef) : Event → Int
  | .sleep u seconds => if u = t then seconds else 0
  | .record _ _ _ | .settle _ _ | .readNumber _ => 0

/-- The seconds some effects hold the operator of a call. -/
def heldFor (t : TaskRef) : List Event → Int
  | [] => 0
  | e :: es => e.held t + heldFor t es

/-- The seconds the operator of a call was held. -/
def World.held (w : World) (t : TaskRef) : Int := heldFor t w.trace

/-- The same task with a logger, or with none. -/
def World.withLogger (w : World) (t : TaskRef) (logger : Bool) : World :=
  w.setTask t { w.tasks t with logger_ := logger }

theorem heldFor_append (t : TaskRef) (es fs : List Event) :
    heldFor t (es ++ fs) = heldFor t es + heldFor t fs := by
  induction es with
  | nil => simp [heldFor]
  | cons e es ih =>
    rw [List.cons_append, heldFor, heldFor, ih]
    omega

@[simp] theorem World.held_mapCDR (w : World) (t u : TaskRef) (f : CDR → CDR) :
    (w.mapCDR u f).held t = w.held t := rfl

@[simp] theorem World.held_emit (w : World) (t : TaskRef) (es : List Event) :
    (w.emit es).held t = w.held t + heldFor t es :=
  heldFor_append t w.trace es

namespace Task
variable {env : Service} {t : TaskRef}

/-! Without a logger. -/

/-- The task has no logger, and its operator was held for `n` seconds. -/
structure Silent (t : TaskRef) (n : Int) (w : World) : Prop where
  logger : (w.tasks t).logger_ = false
  held : w.held t = n

namespace Silent
variable {n : Int}

theorem attempt (st : DoTaskStep) : Keeps (Silent t n) (attempt env st) (fun _ => True) := by
  unfold ProteiCov.attempt
  split
  · exact Keeps.pure trivial
  · exact Keeps.throw _

theorem readTask : Keeps (Silent t n) (readTask t) (fun k => k.logger_ = false) :=
  Keeps.get (fun _ hw => hw.logger)

theorem modifyCDR (f : CDR → CDR) : Keeps (Silent t n) (modifyCDR t f) (fun _ => True) := by
  refine Keeps.modify (fun w hw => ⟨?_, ?_⟩) trivial
  · rw [World.mapCDR_logger]
    exact hw.logger
  · rw [World.held_mapCDR]
    exact hw.held

theorem ifLogger (x : Exec World Unit) : Keeps (Silent t n) (ifLogger t x) (fun _ => True) := by
  refine Keeps.bind readTask (fun k hk => ?_)
  rw [hk, if_neg (by decide)]
  exact Keeps.pure trivial

/-- Nothing follows a log statement that is not tested. -/
theorem derefLogger {k : Task} (hk : k.logger_ = false) :
    Keeps (Silent t n) (derefLogger k.logger_) (fun _ => False) := by
  rw [hk]
  exact Keeps.undefined

theorem chooseDuration (timeDiff : Int) :
    Keeps (Silent t n) (chooseDuration env t timeDiff) (fun _ => True) := by
  refine Keeps.bind readTask (fun k _ => Keeps.ite (fun _ => ?_) (fun _ => Keeps.pure trivial))
  refine Keeps.bind (attempt _) (fun _ _ => Keeps.bind readTask (fun k' _ => ?_))
  exact Keeps.ite (fun _ => Keeps.pure trivial) (fun _ => Keeps.undefined)

theorem setCdrValues (timeDiff : Int) :
    Keeps (Silent t n) (setCdrValues env t timeDiff) (fun _ => True) := by
  refine Keeps.bind (ifLogger _) (fun _ _ => Keeps.bind (attempt _) (fun _ _ => ?_))
  refine Keeps.bind (modifyCDR _) (fun _ _ => Keeps.bind (chooseDuration _) (fun _ _ => ?_))
  refine Keeps.bind (modifyCDR _) (fun _ _ => Keeps.bind readTask (fun _ _ => ?_))
  exact modifyCDR _

theorem logCallDetails : Keeps (Silent t n) (logCallDetails env t) (fun _ => False) := by
  refine Keeps.bind (ifLogger _) (fun _ _ => Keeps.bind (attempt _) (fun _ _ => ?_))
  refine Keeps.bind (modifyCDR _) (fun _ _ => Keeps.bind readTask (fun k hk => ?_))
  exact Keeps.bind (derefLogger hk) (fun _ h => h.elim)

theorem doTaskBody : Keeps (Silent t n) (doTaskBody env t) (fun _ => False) := by
  refine Keeps.bind (attempt _) (fun _ _ => Keeps.bind readTask (fun k _ => ?_))
  refine Keeps.bind (setCdrValues _) (fun _ _ => ?_)
  exact Keeps.bind logCallDetails (fun _ h => h.elim)

end Silent

theorem run_doTaskHandler_silent {w : World} (e : StdException) (h : (w.tasks t).logger_ = false) :
    (doTaskHandler env t e).run w = (.undefined, w) := by
  have hread : (readTask t).run w = (.ok (w.tasks t), w) := rfl
  rw [doTaskHandler, Exec.run_bind_ok hread, h]
  rfl

/-- Whatever the run meets, it ends at a null logger and has held nobody. -/
theorem run_doTask_silent {w : World} (h : (w.tasks t).logger_ = false) :
    ∃ u, (doTask env t).run w = (.undefined, u) ∧ u.held t = w.held t := by
  cases hbody : (doTaskBody env t).run w with
  | mk o u =>
    obtain ⟨hu, hno⟩ := Silent.doTaskBody.of_run ⟨h, rfl⟩ hbody
    cases o with
    | ok r => exact (hno r rfl).elim
    | throws e =>
      refine ⟨u, ?_, hu.held⟩
      rw [doTask, Exec.run_tryCatch_throws hbody]
      exact run_doTaskHandler_silent e hu.logger
    | undefined => exact ⟨u, Exec.run_tryCatch_undefined hbody, hu.held⟩

theorem run_lifeCycle_silent {w : World} (id : CallID) (thread : UInt64)
    (h : (w.tasks t).logger_ = false) :
    (lifeCycle env id thread t).run w = (.undefined, identified w t id) :=
  Exec.run_bind_undefined (run_setCallID_silent id h)

/-! With a logger. -/

/-- The world in which `doTask` starts. -/
def taken (w : World) (id : CallID) (thread : UInt64) (t : TaskRef) : World :=
  (((identified w t id).emit [.readNumber t]).mapCDR t (fun c => { c with operatorID := thread })).emit
    [.readNumber t]

theorem run_lifeCycle {w : World} (id : CallID) (thread : UInt64) (h : (w.tasks t).logger_ = true) :
    (lifeCycle env id thread t).run w = (doTask env t).run (taken w id thread t) := by
  have hid := run_setCallID id h
  have hthread : (setThreadID t thread).run ((identified w t id).emit [.readNumber t]) =
      (.ok (), taken w id thread t) := run_setThreadID thread (by simpa [identified] using h)
  rw [lifeCycle, Exec.run_bind_ok hid, Exec.run_bind_ok hthread]

theorem taken_task (w : World) (id : CallID) (thread : UInt64) (t : TaskRef) :
    (taken w id thread t).tasks t = { w.tasks t with
      taskId_ := id
      cdr := { (w.tasks t).cdr with callID := id, operatorID := thread } } := by
  simp [taken, identified, World.mapCDR]

theorem returns_taken (w : World) (id : CallID) (thread : UInt64) :
    Returns env ((taken w id thread t).tasks t) ↔ Returns env (w.tasks t) := by
  rw [taken_task]
  rfl

/-- A call is served exactly where it has a logger, a draw and no step that throws. -/
theorem lifeCycle_returns_iff {w : World} (id : CallID) (thread : UInt64) :
    (∃ r v, (lifeCycle env id thread t).run w = (.ok r, v)) ↔ Returns env (w.tasks t) := by
  constructor
  · rintro ⟨r, v, hrun⟩
    cases hlog : (w.tasks t).logger_ with
    | false =>
      rw [run_lifeCycle_silent id thread hlog] at hrun
      cases hrun
    | true =>
      rw [run_lifeCycle id thread hlog] at hrun
      exact (returns_taken w id thread).mp (doTask_ok hrun).1
  · intro h
    rw [run_lifeCycle id thread h.1]
    exact ⟨_, _, run_doTask ((returns_taken w id thread).mpr h)⟩

/-- The operator is held for the duration in the result, which is `0` after a timeout. -/
theorem held_served (w : World) :
    (w.served env t).held t = w.held t + (servedResult env (w.tasks t)).callDuration := by
  rw [World.served, World.held_emit, World.held_mapCDR]
  by_cases h : timely env (w.tasks t) <;> simp [servedEvents, servedResult, heldFor, Event.held, h]

theorem lifeCycle_served {w : World} (id : CallID) (thread : UInt64) (h : Returns env (w.tasks t)) :
    ∃ r v, (lifeCycle env id thread t).run w = (.ok r, v) ∧ v.held t = w.held t + r.callDuration := by
  have hheld : (taken w id thread t).held t = w.held t := by
    simp [taken, World.held, identified, heldFor_append, heldFor, Event.held]
  have hrun := run_doTask ((returns_taken w id thread).mpr h)
  rw [← run_lifeCycle id thread h.1] at hrun
  exact ⟨_, _, hrun, by rw [held_served, hheld]⟩

/-- With a logger and with none the call is served, with the same result, the same CDR and
the operator held as long. -/
def ServedAlike (env : Service) (id : CallID) (thread : UInt64) (w : World) (t : TaskRef) : Prop :=
  ∃ r v u, (lifeCycle env id thread t).run (w.withLogger t false) = (.ok r, v) ∧
    (lifeCycle env id thread t).run (w.withLogger t true) = (.ok r, u) ∧
    (v.tasks t).cdr = (u.tasks t).cdr ∧ v.held t = u.held t ∧
    (r.status = .Completed → v.held t = w.held t + r.callDuration)

theorem withLogger_logger (w : World) (t : TaskRef) (logger : Bool) :
    ((w.withLogger t logger).tasks t).logger_ = logger := by
  simp [World.withLogger]

/-- No call is served without a logger. -/
theorem not_servedAlike (env : Service) (id : CallID) (thread : UInt64) (w : World) (t : TaskRef) :
    ¬ ServedAlike env id thread w t := by
  rintro ⟨r, v, u, hsilent, -⟩
  have hreturns := (lifeCycle_returns_iff id thread).mp ⟨r, v, hsilent⟩
  have hlog := hreturns.1
  rw [withLogger_logger] at hlog
  cases hlog

/-- A task of which every step succeeds. -/
def plainCall : World := World.empty.setTask 0 (make 4 10 ['7'] 0 false)

theorem plainCall_not_servedAlike : ¬ ∀ (w : World) (t : TaskRef) (id : CallID) (thread : UInt64)
    (now operatorCallTime endTime : TimePoint) (draw : Int), (w.tasks t).RMin_ ≤ (w.tasks t).RMax_ →
      ServedAlike (Service.calm now operatorCallTime endTime draw) id thread w t := by
  intro h
  obtain ⟨r, v, u, hsilent, -⟩ := h plainCall 0 1 2 0 0 0 5 (by decide)
  rw [run_lifeCycle_silent 1 2 (withLogger_logger plainCall 0 false)] at hsilent
  cases hsilent

end Task

end ProteiCov
