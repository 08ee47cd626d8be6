import ProteiCov.ThreadPool
import ProteiCov.Lib.Fallible

/-
  One run of `Task::doTask`

  `doTask` tries the steps `reached env k` in order. Where none of them throws it
  returns, and `run_doTask` gives its result and the world it leaves; where one
  throws, the body leaves the promise alone and the handler settles it, unless the
  handler's own log statement throws first.

  A call is timed out when the whole seconds from its start to the clock at the
  start of `doTask` have reached `RMax_`; a call in time needs a draw, so it also
  needs `RMin_ <= RMax_`.
-/

namespace ProteiCov
open Cpp

/-- Effects that are neither a CDR record nor a settled promise. -/
def Event.quiet : Event → Bool
  | .readNumber _ | .sleep _ _ => true
  | .record _ _ _ | .settle _ _ => false

/-- No promise, logger, queue or pool changed, and only quiet effects followed. -/
structure Undisturbed (w v : World) : Prop where
  promise : ∀ t, (v.tasks t).promise_ = (w.tasks t).promise_
  logger : ∀ t, (v.tasks t).logger_ = (w.tasks t).logger_
  queues : v.queues = w.queues
  pools : v.pools = w.pools
  taskCount : v.taskCount = w.taskCount
  queueCount : v.queueCount = w.queueCount
  poolCount : v.poolCount = w.poolCount
  trace : ∃ es, v.trace = w.trace ++ es ∧ ∀ e ∈ es, e.quiet = true

namespace Undisturbed

theorem refl (w : World) : Undisturbed w w :=
  ⟨fun _ => rfl, fun _ => rfl, rfl, rfl, rfl, rfl, rfl, [], by simp, by simp⟩

theorem trans (w v u : World) (h : Undisturbed w v) (h' : Undisturbed v u) : Undisturbed w u := by
  obtain ⟨es, he, hq⟩ := h.trace
  obtain ⟨fs, hf, hq'⟩ := h'.trace
  refine ⟨fun t => (h'.promise t).trans (h.promise t), fun t => (h'.logger t).trans (h.logger t),
    h'.queues.trans h.queues, h'.pools.trans h.pools, h'.taskCount.trans h.taskCount,
    h'.queueCount.trans h.queueCount, h'.poolCount.trans h.poolCount, es ++ fs, ?_, ?_⟩
  · rw [hf, he, List.append_assoc]
  · intro e hmem
    rcases List.mem_append.mp hmem with hmem | hmem
    · exact hq e hmem
    · exact hq' e hmem

theorem emit (w : World) (es : List Event) (h : ∀ e ∈ es, e.quiet = true) :
    Undisturbed w (w.emit es) :=
  ⟨fun _ => rfl, fun _ => rfl, rfl, rfl, rfl, rfl, rfl, es, rfl, h⟩

theorem mapCDR (w : World) (t : TaskRef) (f : CDR → CDR) : Undisturbed w (w.mapCDR t f) :=
  ⟨fun u => w.mapCDR_promise t u f, fun u => w.mapCDR_logger t u f, rfl, rfl, rfl, rfl, rfl, [],
    by simp, by simp⟩

end Undisturbed

/-- The call is taken in time. -/
def timely (env : Service) (k : Task) : Prop :=
  durationCastSeconds (env.now - k.cdr.startTime) < k.RMax_

instance (env : Service) (k : Task) : Decidable (timely env k) :=
  inferInstanceAs (Decidable (_ < _))

/-- The steps of the body that come before the draw, the draw included. -/
def openingSteps (env : Service) (k : Task) : List DoTaskStep :=
  [.now, .logSetting, .operatorClock] ++ if timely env k then [.getDuration] else []

/-- The steps of the body after the draw. -/
def closingSteps (env : Service) (k : Task) : List DoTaskStep :=
  [.logCall, .logSleeping] ++ (if timely env k then [.sleep] else []) ++
    [.endClock, .logFinished, .logWriting, .logFilling]

/-- The draw is defined: a timed-out call makes none. -/
def drawable (env : Service) (k : Task) : Prop := timely env k → k.RMin_ ≤ k.RMax_

instance (env : Service) (k : Task) : Decidable (drawable env k) :=
  inferInstanceAs (Decidable (_ → _))

/-- The CDR when an operator has answered. -/
def answeredCDR (env : Service) (k : Task) (c : CDR) : CDR :=
  { c with
    operatorCallTime := env.operatorCallTime
    callDuration := if timely env k then env.draw else 0
    status := if timely env k then .Completed else .Timeout }

/-- The CDR when the call has ended. -/
def servedCDR (env : Service) (k : Task) (c : CDR) : CDR :=
  { answeredCDR env k c with endTime := env.endTime }

/-- What `doTask` returns. -/
def servedResult (env : Service) (k : Task) : Result :=
  { status := if timely env k then .Completed else .Timeout
    callDuration := if timely env k then env.draw else 0
    callID := k.taskId_ }

/-- The effects of a run of `doTask` that returns. -/
def servedEvents (env : Service) (t : TaskRef) (k : Task) : List Event :=
  [.readNumber t, .readNumber t] ++ (if timely env k then [.sleep t env.draw] else []) ++
    [.readNumber t, .readNumber t]

/-- The world after a run of `doTask` that returns. -/
def World.served (w : World) (env : Service) (t : TaskRef) : World :=
  (w.mapCDR t (servedCDR env (w.tasks t))).emit (servedEvents env t (w.tasks t))

namespace Task
variable {env : Service} {t : TaskRef}

/-- `Performs` at the fallible steps of one run of `doTask`. -/
abbrev Does {α : Type} (env : Service) (x : Exec World α) (w : World) (steps : List DoTaskStep)
    (a : α) (v : World) : Prop :=
  Performs env.fails Undisturbed x w steps a v

theorem does_bind {α β : Type} {x : Exec World α} {f : α → Exec World β} {w v u : World}
    {l m : List DoTaskStep} {a : α} {b : β} (hx : Does env x w l a v)
    (hf : Does env (f a) v m b u) : Does env (x >>= f) w (l ++ m) b u :=
  Performs.bind Undisturbed.trans hx hf

theorem does_then {α β : Type} {x : Exec World α} {f : α → Exec World β} {w v u : World}
    {l : List DoTaskStep} {a : α} {b : β} (hx : Does env x w [] a v)
    (hf : Does env (f a) v l b u) : Does env (x >>= f) w l b u :=
  does_bind hx hf

theorem does_attempt (st : DoTaskStep) (w : World) : Does env (attempt env st) w [st] () w := by
  refine Performs.step (Undisturbed.refl w) ?_ ?_
  · intro h
    rw [attempt, h]
    rfl
  · intro e h
    rw [attempt, h]
    rfl

theorem does_emit {e : Event} (he : e.quiet = true) (w : World) :
    Does env (emit e) w [] () (w.emit [e]) :=
  Performs.of_run rfl (Undisturbed.emit w [e] (by simpa using he))

theorem does_read (w : World) : Does env (readTask t) w [] (w.tasks t) w :=
  Performs.of_run rfl (Undisturbed.refl w)

theorem does_modifyCDR (f : CDR → CDR) (w : World) :
    Does env (modifyCDR t f) w [] () (w.mapCDR t f) :=
  Performs.of_run rfl (Undisturbed.mapCDR w t f)

theorem does_ifLogger {x : Exec World Unit} {w v : World} {l : List DoTaskStep}
    (hlog : (w.tasks t).logger_ = true) (hx : Does env x w l () v) :
    Does env (ifLogger t x) w l () v := by
  refine does_then (does_read w) ?_
  rw [if_pos hlog]
  exact hx

theorem does_derefLogger {attached : Bool} (h : attached = true) (w : World) :
    Does env (derefLogger attached) w [] () w := by
  rw [h]
  exact Performs.of_run rfl (Undisturbed.refl w)

theorem does_chooseDuration {w : World} {timeDiff : Int}
    (hdraw : timeDiff < (w.tasks t).RMax_ → (w.tasks t).RMin_ ≤ (w.tasks t).RMax_) :
    Does env (chooseDuration env t timeDiff) w
      (if timeDiff < (w.tasks t).RMax_ then [.getDuration] else [])
      (if timeDiff < (w.tasks t).RMax_ then env.draw else 0) w := by
  refine does_then (does_read w) ?_
  by_cases h : timeDiff < (w.tasks t).RMax_
  · simp only [if_pos h]
    refine does_bind (m := []) (does_attempt .getDuration w) ?_
    refine does_then (does_read w) ?_
    rw [if_pos (hdraw h)]
    exact Performs.of_run rfl (Undisturbed.refl w)
  · simp only [if_neg h]
    exact Performs.of_run rfl (Undisturbed.refl w)

theorem does_setCdrValues {w : World} (hlog : (w.tasks t).logger_ = true)
    (hdraw : drawable env (w.tasks t)) :
    Does env (setCdrValues env t (durationCastSeconds (env.now - (w.tasks t).cdr.startTime))) w
      ([.logSetting, .operatorClock] ++ if timely env (w.tasks t) then [.getDuration] else [])
      () ((w.mapCDR t (answeredCDR env (w.tasks t))).emit [.readNumber t]) := by
  have hlogged : Does env (ifLogger t (do
      attempt env .logSetting
      emit (.readNumber t))) w [.logSetting] () (w.emit [.readNumber t]) :=
    does_ifLogger hlog (does_bind (m := []) (does_attempt .logSetting w) (does_emit rfl w))
  refine Performs.congr (does_bind hlogged (does_bind (does_attempt .operatorClock _)
    (does_then (does_modifyCDR _ _) (does_bind (does_chooseDuration ?_)
    (does_then (does_modifyCDR _ _) (does_then (does_read _) (does_modifyCDR _ _))))))) ?_ rfl ?_
  · simpa only [World.emit_mapCDR, World.emit_tasks, World.mapCDR_RMax, World.mapCDR_RMin,
      drawable, timely] using hdraw
  · simp only [World.emit_mapCDR, World.emit_tasks, World.mapCDR_RMax, List.append_nil]
    rfl
  · simp only [World.emit_mapCDR, World.emit_tasks, World.mapCDR_RMax, World.mapCDR_mapCDR]
    rfl

theorem does_sleepCall (w : World) :
    Does env (sleepCall env t) w (if (w.tasks t).cdr.status = .Completed then [.sleep] else []) ()
      (w.emit (if (w.tasks t).cdr.status = .Completed
        then [.sleep t (w.tasks t).cdr.callDuration] else [])) := by
  refine does_then (does_read w) ?_
  by_cases h : (w.tasks t).cdr.status = .Completed
  · simp only [if_pos h]
    exact does_bind (m := []) (does_attempt .sleep w) (does_emit rfl w)
  · simp only [if_neg h]
    exact Performs.of_run (by simp [World.emit]) (Undisturbed.emit w [] (by simp))

theorem does_logCallDetails {w : World} (hlog : (w.tasks t).logger_ = true) :
    Does env (logCallDetails env t) w
      ([.logCall, .logSleeping] ++ (if (w.tasks t).cdr.status = .Completed then [.sleep] else []) ++
        [.endClock, .logFinished])
      () ((w.mapCDR t (fun c => { c with endTime := env.endTime })).emit ([.readNumber t] ++
        (if (w.tasks t).cdr.status = .Completed then [.sleep t (w.tasks t).cdr.callDuration] else [])
        ++ [.readNumber t])) := by
  have hlogged : Does env (ifLogger t (do
      attempt env .logCall
      emit (.readNumber t)
      attempt env .logSleeping
      sleepCall env t)) w
      ([.logCall] ++ ([.logSleeping] ++ if (w.tasks t).cdr.status = .Completed then [.sleep] else []))
      () ((w.emit [.readNumber t]).emit (if (w.tasks t).cdr.status = .Completed
        then [.sleep t (w.tasks t).cdr.callDuration] else [])) :=
    does_ifLogger hlog (does_bind (does_attempt .logCall w) (does_then (does_emit rfl w)
      (does_bind (does_attempt .logSleeping _) (does_sleepCall _))))
  refine Performs.congr (does_bind hlogged (does_bind (does_attempt .endClock _)
    (does_then (does_modifyCDR _ _) (does_then (does_read _) (does_then (does_derefLogger ?_ _)
    (does_bind (does_attempt .logFinished _) (does_emit rfl _))))))) ?_ rfl ?_
  · simpa only [World.emit_emit, World.emit_mapCDR, World.emit_tasks, World.mapCDR_logger] using hlog
  · simp only [List.append_nil, List.cons_append, List.nil_append]
  · simp only [World.emit_emit, World.emit_mapCDR, List.append_assoc]

theorem does_createResultObject {w : World} (hlog : (w.tasks t).logger_ = true) :
    Does env (createResultObject env t) w [.logFilling]
      { status := (w.tasks t).cdr.status, callDuration := (w.tasks t).cdr.callDuration
        callID := (w.tasks t).taskId_ } w :=
  does_bind (m := []) (does_ifLogger hlog (does_attempt .logFilling w))
    (does_then (does_read w) (Performs.of_run rfl (Undisturbed.refl w)))

theorem does_doTaskBody {w : World} (hlog : (w.tasks t).logger_ = true)
    (hdraw : drawable env (w.tasks t)) :
    Does env (doTaskBody env t) w (openingSteps env (w.tasks t) ++ closingSteps env (w.tasks t))
      (servedResult env (w.tasks t)) (w.served env t) := by
  have hstatus : (((w.mapCDR t (answeredCDR env (w.tasks t))).emit [.readNumber t]).tasks t).cdr =
      answeredCDR env (w.tasks t) (w.tasks t).cdr := by
    simp only [World.emit_tasks, World.mapCDR_cdr]
  have hcompleted : (answeredCDR env (w.tasks t) (w.tasks t).cdr).status = .Completed ↔
      timely env (w.tasks t) := by
    by_cases h : timely env (w.tasks t) <;> simp [answeredCDR, h]
  have hlog' : (((w.mapCDR t (answeredCDR env (w.tasks t))).emit [.readNumber t]).tasks t).logger_ =
      true := by
    simpa only [World.emit_tasks, World.mapCDR_logger] using hlog
  have hcall := @does_logCallDetails env t _ hlog'
  simp only [hstatus, hcompleted] at hcall
  refine Performs.congr (does_bind (does_attempt .now w) (does_then (does_read w)
    (does_bind (does_setCdrValues hlog hdraw) (does_bind hcall
    (does_then (does_derefLogger hlog _) (does_bind (does_attempt .logWriting _)
    (does_then (does_emit rfl _) (does_createResultObject ?_)))))))) ?_ ?_ ?_
  · simpa only [World.emit_mapCDR, World.emit_tasks, World.mapCDR_logger] using hlog
  · simp [openingSteps, closingSteps]
  · simp [servedResult, answeredCDR]
  · have hcdr : servedCDR env (w.tasks t) = fun c =>
        { answeredCDR env (w.tasks t) c with endTime := env.endTime } := rfl
    rw [World.served, hcdr]
    by_cases h : timely env (w.tasks t) <;> simp [servedEvents, answeredCDR, h]

/-- Without `RMin_ <= RMax_`, a call in time ends at the draw. -/
theorem derails_doTaskBody {w : World} (hlog : (w.tasks t).logger_ = true)
    (hdraw : ¬ drawable env (w.tasks t)) :
    Derails env.fails Undisturbed (doTaskBody env t) w (openingSteps env (w.tasks t)) := by
  obtain ⟨htime, hlt⟩ : timely env (w.tasks t) ∧ ¬ (w.tasks t).RMin_ ≤ (w.tasks t).RMax_ := by
    simpa [drawable] using hdraw
  have htime' : durationCastSeconds (env.now - (w.tasks t).cdr.startTime) < (w.tasks t).RMax_ :=
    htime
  -- the steps before the draw are carried out
  have hlogged : Does env (ifLogger t (do
      attempt env .logSetting
      emit (.readNumber t))) w [.logSetting] () (w.emit [.readNumber t]) :=
    does_ifLogger hlog (does_bind (m := []) (does_attempt .logSetting w) (does_emit rfl w))
  -- the draw has no value to give: nothing after it is reached
  have hdur : Derails env.fails Undisturbed (chooseDuration env t
      (durationCastSeconds (env.now - (w.tasks t).cdr.startTime)))
      ((w.emit [.readNumber t]).mapCDR t
        (fun c => { c with operatorCallTime := env.operatorCallTime })) [.getDuration] := by
    refine Derails.bind_right (l := []) Undisturbed.trans (does_read _) ?_
    rw [if_pos (by simpa only [World.emit_mapCDR, World.emit_tasks, World.mapCDR_RMax] using htime')]
    refine Derails.bind_right (m := []) Undisturbed.trans (does_attempt .getDuration _) ?_
    refine Derails.bind_right (l := []) Undisturbed.trans (does_read _) ?_
    rw [if_neg (by simpa only [World.emit_mapCDR, World.emit_tasks, World.mapCDR_RMax,
      World.mapCDR_RMin] using hlt)]
    exact Derails.of_run rfl
  have hset : Derails env.fails Undisturbed
      (setCdrValues env t (durationCastSeconds (env.now - (w.tasks t).cdr.startTime))) w
      ([.logSetting] ++ ([.operatorClock] ++ ([] ++ [.getDuration]))) :=
    Derails.bind_right Undisturbed.trans hlogged
      (Derails.bind_right Undisturbed.trans (does_attempt .operatorClock _)
        (Derails.bind_right Undisturbed.trans (does_modifyCDR _ _) (Derails.bind_left hdur)))
  have hsteps : openingSteps env (w.tasks t) =
      [.now] ++ ([.logSetting] ++ ([.operatorClock] ++ ([] ++ [.getDuration]))) := by
    simp [openingSteps, htime]
  rw [hsteps]
  exact Derails.bind_right Undisturbed.trans (does_attempt .now w)
    (Derails.bind_right (l := []) Undisturbed.trans (does_read w) (Derails.bind_left hset))

/-! The whole function. -/

/-- Every step `doTask` reaches succeeds, the draw is defined and there is a logger. -/
def Returns (env : Service) (k : Task) : Prop :=
  k.logger_ = true ∧ drawable env k ∧
    ∀ st ∈ openingSteps env k ++ closingSteps env k, env.fails st = none

theorem run_doTask {w : World} (h : Returns env (w.tasks t)) :
    (doTask env t).run w = (.ok (servedResult env (w.tasks t)), w.served env t) :=
  Exec.run_tryCatch_ok ((does_doTaskBody h.1 h.2.1).returns h.2.2)

theorem doTaskBody_logger {w v : World} {r : Result}
    (h : (doTaskBody env t).run w = (.ok r, v)) : (w.tasks t).logger_ = true := by
  obtain ⟨_, w₁, h₁, h⟩ := Exec.bind_eq_ok h
  obtain ⟨task, w₂, h₂, h⟩ := Exec.bind_eq_ok h
  obtain ⟨_, w₃, _, h⟩ := Exec.bind_eq_ok h
  obtain ⟨_, w₄, _, h⟩ := Exec.bind_eq_ok h
  obtain ⟨_, w₅, h₅, h⟩ := Exec.bind_eq_ok h
  have hw : w₁ = w := by
    rw [attempt] at h₁
    cases hf : env.fails .now with
    | none =>
      rw [hf] at h₁
      cases h₁
      rfl
    | some e =>
      rw [hf] at h₁
      cases h₁
  cases h₂
  rw [← hw]
  cases hl : (w₁.tasks t).logger_ with
  | true => rfl
  | false =>
    rw [hl] at h₅
    cases h₅

/-- The steps `doTask` reaches before it returns or before undefined behaviour. -/
def reached (env : Service) (k : Task) : List DoTaskStep :=
  openingSteps env k ++ if drawable env k then closingSteps env k else []

/-- A step `doTask` reaches throws. -/
def BodyThrows (env : Service) (k : Task) : Prop := ∃ st ∈ reached env k, env.fails st ≠ none

/-- With a logger, the body returns, throws with the promise untouched, or derails. -/
theorem doTaskBody_cases {w : World} (hlog : (w.tasks t).logger_ = true) :
    Returns env (w.tasks t) ∨
    (BodyThrows env (w.tasks t) ∧
      ∃ e u, (doTaskBody env t).run w = (.throws e, u) ∧ Undisturbed w u) ∨
    (¬ BodyThrows env (w.tasks t) ∧ ∃ u, (doTaskBody env t).run w = (.undefined, u)) := by
  by_cases hf : BodyThrows env (w.tasks t)
  · refine Or.inr (Or.inl ⟨hf, ?_⟩)
    obtain ⟨e, he⟩ := Performs.findSome?_of_fails hf
    refine ⟨e, ?_⟩
    by_cases hdraw : drawable env (w.tasks t)
    · rw [reached, if_pos hdraw] at he
      exact (does_doTaskBody hlog hdraw).throws e he
    · rw [reached, if_neg hdraw, List.append_nil] at he
      exact (derails_doTaskBody hlog hdraw).throws e he
  · have hall : ∀ st ∈ reached env (w.tasks t), env.fails st = none := by
      simpa [BodyThrows] using hf
    by_cases hdraw : drawable env (w.tasks t)
    · rw [reached, if_pos hdraw] at hall
      exact Or.inl ⟨hlog, hdraw, hall⟩
    · rw [reached, if_neg hdraw, List.append_nil] at hall
      exact Or.inr (Or.inr ⟨hf, (derails_doTaskBody hlog hdraw).undefined hall⟩)

theorem doTaskHandler_not_ok (e : StdException) (r : Result) (u v : World) :
    (doTaskHandler env t e).run u ≠ (.ok r, v) := by
  intro h
  obtain ⟨_, _, _, h⟩ := Exec.bind_eq_ok h
  obtain ⟨_, _, _, h⟩ := Exec.bind_eq_ok h
  obtain ⟨_, _, _, h⟩ := Exec.bind_eq_ok h
  obtain ⟨_, _, _, h⟩ := Exec.bind_eq_ok h
  cases h

/-- `doTask` returns exactly where `Returns` says, and then as `run_doTask` says. -/
theorem doTask_ok {w v : World} {r : Result} (h : (doTask env t).run w = (.ok r, v)) :
    Returns env (w.tasks t) ∧ r = servedResult env (w.tasks t) ∧ v = w.served env t := by
  have hbody : (doTaskBody env t).run w = (.ok r, v) := by
    cases hb : (doTaskBody env t).run w with
    | mk o u =>
      cases o with
      | ok a =>
        rw [doTask, Exec.run_tryCatch_ok hb] at h
        exact h
      | throws e =>
        rw [doTask, Exec.run_tryCatch_throws hb] at h
        exact absurd h (doTaskHandler_not_ok e r u v)
      | undefined =>
        rw [doTask, Exec.run_tryCatch_undefined hb] at h
        cases h
  rcases doTaskBody_cases (doTaskBody_logger hbody) with
    hret | ⟨_, e, u, hu, _⟩ | ⟨_, u, hu⟩
  · rw [run_doTask hret] at h
    cases h
    exact ⟨hret, rfl, rfl⟩
  · rw [hu] at hbody
    cases hbody
  · rw [hu] at hbody
    cases hbody

end Task

end ProteiCov
