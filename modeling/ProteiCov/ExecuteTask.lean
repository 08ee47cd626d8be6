import ProteiCov.NullLogger

/-
  How a worker settles a call

  `executeTask` runs `doTask` inside a `try` block whose handler settles the
  promise with the exception. `doTask` has a handler of its own that settles the
  same promise and rethrows, so on that path the second `set_exception` throws
  `future_error` out of the handler, out of `executeTask` and out of the thread's
  function.

  `settlesOnce_iff` is the exact condition under which a call in service is
  settled once and the worker goes on.
-/

namespace ProteiCov
open Cpp

/-- What the promise of a task was settled with, in order. -/
def settlements (t : TaskRef) (es : List Event) : List (Settled Result) :=
  es.filterMap (fun e => match e with
    | .settle u v => if u = t then some v else none
    | _ => none)

theorem settlements_append (t : TaskRef) (es fs : List Event) :
    settlements t (es ++ fs) = settlements t es ++ settlements t fs := by
  simp [settlements]

theorem settlements_quiet {t : TaskRef} {es : List Event} (h : ∀ e ∈ es, e.quiet = true) :
    settlements t es = [] := by
  apply List.filterMap_eq_nil_iff.mpr
  intro e he
  have hq := h e he
  cases e with
  | record r u c => cases hq
  | settle u v => cases hq
  | readNumber u => rfl
  | sleep u n => rfl

theorem settlements_records (t u : TaskRef) (c : CDR) (rs : List RecorderRef) :
    settlements t (rs.map (fun r => .record r u c)) = [] := by
  apply List.filterMap_eq_nil_iff.mpr
  intro e he
  obtain ⟨r, _, rfl⟩ := List.mem_map.mp he
  rfl

theorem Undisturbed.settlements {w v : World} (h : Undisturbed w v) (t : TaskRef) :
    settlements t v.trace = settlements t w.trace := by
  obtain ⟨es, he, hq⟩ := h.trace
  rw [he, settlements_append, settlements_quiet hq, List.append_nil]

theorem settlements_settled (w : World) (t : TaskRef) (x : Settled Result) :
    settlements t (w.settled t x).trace = settlements t w.trace ++ [x] := by
  simp [World.settled, settlements]

theorem settlements_journal (w : World) (q : QueueRef) (t u : TaskRef) :
    settlements t (w.journal q u).trace = settlements t w.trace := by
  simp only [World.journal, World.emit_trace, settlements_append, settlements_records,
    List.append_nil]

theorem settled_state (w : World) (t : TaskRef) (x : Settled Result) :
    ((w.settled t x).tasks t).promise_.state = some x := by
  simp [World.settled]

namespace Task
variable {env : Service} {t : TaskRef} {w : World}

theorem run_doTaskHandler {u : World} (hlog : (u.tasks t).logger_ = true) (e : StdException) :
    (doTaskHandler env t e).run u = (do
      attempt env .logError
      set_exception t e
      .throw e : Exec World Result).run u := by
  have hread : (readTask t).run u = (.ok (u.tasks t), u) := rfl
  rw [doTaskHandler, Exec.run_bind_ok hread, hlog]
  rfl

/-- The handler settles a pending promise and rethrows, unless its log statement
throws. -/
theorem run_doTaskHandler_pending {u : World} (hlog : (u.tasks t).logger_ = true)
    (hpend : (u.tasks t).promise_.state = none) (e : StdException) :
    (doTaskHandler env t e).run u =
      match env.fails .logError with
      | none => (.throws e, u.settled t (.exception e))
      | some e' => (.throws e', u) := by
  rw [run_doTaskHandler hlog]
  cases hf : env.fails .logError with
  | none =>
    have hatt : (attempt env .logError).run u = (.ok (), u) := by
      rw [attempt, hf]
      rfl
    have hset : (set_exception t e).run u = (.ok (), u.settled t (.exception e)) :=
      run_settle _ hpend
    rw [Exec.run_bind_ok hatt, Exec.run_bind_ok hset]
    rfl
  | some e' =>
    have hatt : (attempt env .logError).run u = (.throws e', u) := by
      rw [attempt, hf]
      rfl
    rw [Exec.run_bind_throws hatt]

end Task

/-! What a run of `doTask` may do. -/

/-- The effect is a read of the number of the call or a sleep for it. -/
def Event.own (t : TaskRef) : Event → Bool
  | .readNumber u | .sleep u _ => u = t
  | .record _ _ _ | .settle _ _ => false

theorem Event.quiet_of_own {t : TaskRef} {e : Event} (h : e.own t = true) : e.quiet = true := by
  cases e with
  | readNumber u => rfl
  | sleep u n => rfl
  | record r u c => cases h
  | settle u v => cases h

/-- A relation the writes of `doTask` respect. -/
structure Serves (t : TaskRef) (R : World → World → Prop) : Prop where
  refl : ∀ w, R w w
  trans : ∀ w v u, R w v → R v u → R w u
  emit : ∀ w e, e.own t = true → R w (w.emit [e])
  cdr : ∀ w f, R w (w.mapCDR t f)

namespace Serves
variable {env : Service} {t : TaskRef} {R : World → World → Prop} (h : Serves t R)
include h

theorem bind {α β : Type} {x : Exec World α} {f : α → Exec World β} (hx : Respects R x)
    (hf : ∀ a, Respects R (f a)) : Respects R (x >>= f) :=
  Respects.bind h.trans hx hf

theorem attempt (st : DoTaskStep) : Respects R (ProteiCov.attempt env st) := by
  intro w
  rw [ProteiCov.attempt]
  cases env.fails st with
  | none => exact h.refl w
  | some e => exact h.refl w

theorem readNumber : Respects R (ProteiCov.emit (.readNumber t)) :=
  fun w => h.emit w _ (by simp [Event.own])

theorem modifyCDR (f : CDR → CDR) : Respects R (ProteiCov.modifyCDR t f) :=
  fun w => h.cdr w f

theorem derefLogger (attached : Bool) : Respects R (ProteiCov.derefLogger attached) :=
  Respects.ite h.refl h.refl

theorem ifLogger {x : Exec World Unit} (hx : Respects R x) : Respects R (Task.ifLogger t x) :=
  h.bind h.refl (fun _ => Respects.ite hx h.refl)

theorem chooseDuration (timeDiff : Int) : Respects R (Task.chooseDuration env t timeDiff) := by
  refine h.bind h.refl (fun _ => Respects.ite ?_ h.refl)
  exact h.bind (h.attempt _) (fun _ => h.bind h.refl (fun _ => Respects.ite h.refl h.refl))

theorem setCdrValues (timeDiff : Int) : Respects R (Task.setCdrValues env t timeDiff) := by
  refine h.bind (h.ifLogger ?_) (fun _ => ?_)
  · exact h.bind (h.attempt _) (fun _ => h.readNumber)
  · exact h.bind (h.attempt _) (fun _ => h.bind (h.modifyCDR _) (fun _ => h.bind (h.chooseDuration _)
      (fun _ => h.bind (h.modifyCDR _) (fun _ => h.bind h.refl (fun _ => h.modifyCDR _)))))

theorem sleepCall : Respects R (Task.sleepCall env t) := by
  refine h.bind h.refl (fun _ => Respects.ite ?_ h.refl)
  exact h.bind (h.attempt _) (fun _ w => h.emit w _ (by simp [Event.own]))

theorem logCallDetails : Respects R (Task.logCallDetails env t) := by
  refine h.bind (h.ifLogger ?_) (fun _ => ?_)
  · exact h.bind (h.attempt _) (fun _ => h.bind h.readNumber (fun _ => h.bind (h.attempt _)
      (fun _ => h.sleepCall)))
  · exact h.bind (h.attempt _) (fun _ => h.bind (h.modifyCDR _) (fun _ => h.bind h.refl
      (fun _ => h.bind (h.derefLogger _) (fun _ => h.bind (h.attempt _) (fun _ => h.readNumber)))))

theorem doTaskBody : Respects R (Task.doTaskBody env t) := by
  refine h.bind (h.attempt _) (fun _ => h.bind h.refl (fun _ => h.bind (h.setCdrValues _) (fun _ => ?_)))
  refine h.bind h.logCallDetails (fun _ => h.bind (h.derefLogger _) (fun _ => h.bind (h.attempt _)
    (fun _ => h.bind h.readNumber (fun _ => ?_))))
  exact h.bind (h.ifLogger (h.attempt _)) (fun _ => h.bind h.refl (fun _ => h.refl))

end Serves

/-! Settling a call. -/

/-- `executeTask` settles the call with what `doTask` gave, once, and returns. -/
def SettlesOnce (env : Service) (p : PoolRef) (t : TaskRef) (w : World) : Prop :=
  ∃ v x, (ThreadPool.executeTask env p t).run w = (.ok (), v) ∧
    settlements t v.trace = settlements t w.trace ++ [x] ∧
    (v.tasks t).promise_.state = some x ∧
    match ((Task.doTask env t).run w).1 with
    | .ok r => x = .value r
    | .throws e => x = .exception e
    | .undefined => False

namespace ThreadPool
variable {env : Service} {p : PoolRef} {t : TaskRef} {w v : World}

theorem run_executeTask_throws {e : StdException}
    (h : (Task.doTask env t).run w = (.throws e, v)) :
    (executeTask env p t).run w = (set_exception t e).run v :=
  Exec.run_tryCatch_throws (Exec.run_bind_throws h)

theorem run_executeTask_escapes {e : StdException}
    (h : (Task.doTask env t).run w = (.throws e, v)) (hset : (v.tasks t).promise_.state ≠ none) :
    (executeTask env p t).run w = (.throws .promise_already_satisfied, v) := by
  rw [run_executeTask_throws h]
  exact run_settle_again _ hset

theorem run_executeTask_undefined (h : (Task.doTask env t).run w = (.undefined, v)) :
    (executeTask env p t).run w = (.undefined, v) :=
  Exec.run_tryCatch_undefined (Exec.run_bind_undefined h)

/-- The body threw and the handler of `doTask` got past its log statement: the
promise is settled when the exception reaches `executeTask`, so a second one leaves. -/
theorem run_executeTask_twice {e : StdException} {u : World}
    (hlog : (w.tasks t).logger_ = true) (hb : (Task.doTaskBody env t).run w = (.throws e, u))
    (hu : Undisturbed w u) (hpass : env.fails .logError = none) :
    ∃ v, (executeTask env p t).run w = (.throws .promise_already_satisfied, v) := by
  have hlog' : (u.tasks t).logger_ = true := by rw [hu.logger t, hlog]
  cases hstate : (u.tasks t).promise_.state with
  | none =>
    have hdo : (Task.doTask env t).run w = (.throws e, u.settled t (.exception e)) := by
      rw [Task.doTask, Exec.run_tryCatch_throws hb, Task.run_doTaskHandler_pending hlog' hstate,
        hpass]
    refine ⟨_, run_executeTask_escapes hdo ?_⟩
    rw [settled_state]
    simp
  | some x =>
    have hdo : (Task.doTask env t).run w = (.throws .promise_already_satisfied, u) := by
      have hatt : (attempt env .logError).run u = (.ok (), u) := by
        rw [attempt, hpass]
        rfl
      have hset : (set_exception t e).run u = (.throws .promise_already_satisfied, u) :=
        run_settle_again _ (by simp [hstate])
      rw [Task.doTask, Exec.run_tryCatch_throws hb, Task.run_doTaskHandler hlog',
        Exec.run_bind_ok hatt, Exec.run_bind_throws hset]
    refine ⟨_, run_executeTask_escapes hdo ?_⟩
    simp [hstate]

/-- The body threw and so did the handler's log statement: the promise is left to
`executeTask`. -/
theorem run_doTask_log_throws {e e' : StdException} {u : World}
    (hlog : (w.tasks t).logger_ = true) (hb : (Task.doTaskBody env t).run w = (.throws e, u))
    (hu : Undisturbed w u) (hthrow : env.fails .logError = some e') :
    (Task.doTask env t).run w = (.throws e', u) := by
  have hlog' : (u.tasks t).logger_ = true := by rw [hu.logger t, hlog]
  have hatt : (attempt env .logError).run u = (.throws e', u) := by
    rw [attempt, hthrow]
    rfl
  rw [Task.doTask, Exec.run_tryCatch_throws hb, Task.run_doTaskHandler hlog',
    Exec.run_bind_throws hatt]

/-- A call whose `doTask` returned, over a settled promise: both settlings throw. -/
theorem run_executeTask_returned_again {r : Result} {q : QueueRef}
    (hdo : (Task.doTask env t).run w = (.ok r, v)) (hq : (v.pools p).task_queue = some q)
    (hstate : (v.tasks t).promise_.state ≠ none) :
    ∃ u, (executeTask env p t).run w = (.throws .promise_already_satisfied, u) := by
  have hpool : (readPool p).run v = (.ok (v.pools p), v) := rfl
  have hset : ∀ x, (settle t x).run (v.journal q t) =
      (.throws .promise_already_satisfied, v.journal q t) :=
    fun x => run_settle_again x (by simpa [World.journal] using hstate)
  refine ⟨v.journal q t, (Exec.run_tryCatch_throws (t := v.journal q t)
    (e := .promise_already_satisfied) ?_).trans (hset _)⟩
  rw [Exec.run_bind_ok hdo, Exec.run_bind_ok hpool, hq]
  show (Queue.writeCDR q t >>= fun _ => set_value t r).run v = _
  rw [Exec.run_bind_ok (Queue.run_writeCDR q t v)]
  exact hset _

theorem run_executeTask_no_queue {r : Result} (hdo : (Task.doTask env t).run w = (.ok r, v))
    (hq : (v.pools p).task_queue = none) :
    ∃ u, (executeTask env p t).run w = (.undefined, u) := by
  have hpool : (readPool p).run v = (.ok (v.pools p), v) := rfl
  refine ⟨v, Exec.run_tryCatch_undefined ?_⟩
  rw [Exec.run_bind_ok hdo, Exec.run_bind_ok hpool, hq]
  rfl

end ThreadPool

theorem served_undisturbed {env : Service} {t : TaskRef} {w : World}
    (h : Task.Returns env (w.tasks t)) : Undisturbed w (w.served env t) :=
  (Task.does_doTaskBody h.1 h.2.1).keeps

/-- Where `executeTask` returns, the promise was pending, and either `doTask` returned,
or a step threw and so did the log statement of the handler. -/
theorem executeTask_ok {env : Service} {p : PoolRef} {t : TaskRef} {w v : World}
    (hrun : (ThreadPool.executeTask env p t).run w = (.ok (), v)) :
    (w.tasks t).promise_.state = none ∧
      ((Task.Returns env (w.tasks t) ∧ (w.pools p).task_queue ≠ none) ∨
        ((w.tasks t).logger_ = true ∧ Task.BodyThrows env (w.tasks t) ∧
          env.fails .logError ≠ none)) := by
  cases hlog : (w.tasks t).logger_ with
  | false =>
    -- a null logger is dereferenced on every path
    obtain ⟨u, hu, _⟩ := Task.run_doTask_silent hlog
    rw [ThreadPool.run_executeTask_undefined hu] at hrun
    cases hrun
  | true =>
    rcases Task.doTaskBody_cases hlog with hret | ⟨hthrow, e, u, hb, hu⟩ | ⟨-, u, hb⟩
    -- `doTask` returned: `set_value` needs a pending promise
    · have hdo := Task.run_doTask hret
      have hkeep := served_undisturbed hret
      cases hq : (w.pools p).task_queue with
      | none =>
        obtain ⟨u, hu⟩ := ThreadPool.run_executeTask_no_queue (p := p) hdo (by rw [hkeep.pools, hq])
        rw [hu] at hrun
        cases hrun
      | some q =>
        refine ⟨?_, Or.inl ⟨hret, by simp⟩⟩
        by_contra hpend
        obtain ⟨u, hu⟩ := ThreadPool.run_executeTask_returned_again (p := p) hdo
          (by rw [hkeep.pools, hq]) (by rw [hkeep.promise t]; exact hpend)
        rw [hu] at hrun
        cases hrun
    -- a step threw: unless the handler's log throws, the promise is settled twice
    · cases hf : env.fails .logError with
      | none =>
        obtain ⟨u', hu'⟩ := ThreadPool.run_executeTask_twice (p := p) hlog hb hu hf
        rw [hu'] at hrun
        cases hrun
      | some e' =>
        refine ⟨?_, Or.inr ⟨rfl, hthrow, by simp⟩⟩
        by_contra hpend
        have hdo := ThreadPool.run_doTask_log_throws hlog hb hu hf
        rw [ThreadPool.run_executeTask_escapes hdo (by rw [hu.promise t]; exact hpend)] at hrun
        cases hrun
    · rw [ThreadPool.run_executeTask_undefined (Exec.run_tryCatch_undefined hb)] at hrun
      cases hrun

/-- A step threw, and so did the log statement of the handler: `executeTask` settles
the promise with the exception of the log statement and returns. -/
theorem run_executeTask_failed {env : Service} {t : TaskRef} {w : World} (p : PoolRef)
    (hpend : (w.tasks t).promise_.state = none) (hlog : (w.tasks t).logger_ = true)
    (hthrow : Task.BodyThrows env (w.tasks t)) (hf : env.fails .logError ≠ none) :
    ∃ e u, Undisturbed w u ∧ (Task.doTask env t).run w = (.throws e, u) ∧
      (ThreadPool.executeTask env p t).run w = (.ok (), u.settled t (.exception e)) := by
  obtain ⟨e', hf⟩ := Option.ne_none_iff_exists'.mp hf
  rcases Task.doTaskBody_cases hlog with hret | ⟨-, e, u, hb, hu⟩ | ⟨hno, -⟩
  · obtain ⟨st, hst, hne⟩ := hthrow
    rw [Task.reached, if_pos hret.2.1] at hst
    exact absurd (hret.2.2 st hst) hne
  · have hdo := ThreadPool.run_doTask_log_throws hlog hb hu hf
    refine ⟨e', u, hu, hdo, ?_⟩
    rw [ThreadPool.run_executeTask_throws hdo]
    exact run_settle _ (by rw [hu.promise t, hpend])
  · exact absurd hthrow hno

/-- Exactly when a call in service is settled once and the worker goes on: its
promise is pending, and either `doTask` returns, or a step throws and the log
statement of the handler throws as well. -/
theorem settlesOnce_iff (env : Service) (p : PoolRef) (t : TaskRef) (w : World) :
    SettlesOnce env p t w ↔ (w.tasks t).promise_.state = none ∧
      ((Task.Returns env (w.tasks t) ∧ (w.pools p).task_queue ≠ none) ∨
        ((w.tasks t).logger_ = true ∧ Task.BodyThrows env (w.tasks t) ∧
          env.fails .logError ≠ none)) := by
  constructor
  · rintro ⟨v, x, hrun, -, -, -⟩
    exact executeTask_ok hrun
  · rintro ⟨hpend, ⟨hret, hq⟩ | ⟨hlog, hthrow, hf⟩⟩
    · obtain ⟨q, hq⟩ := Option.ne_none_iff_exists'.mp hq
      have hdo := Task.run_doTask hret
      have hkeep := served_undisturbed hret
      refine ⟨_, .value (servedResult env (w.tasks t)), ThreadPool.run_executeTask hdo
        (by rw [hkeep.pools, hq]) (by rw [hkeep.promise t, hpend]), ?_, settled_state _ _ _, ?_⟩
      · rw [settlements_settled, settlements_journal, hkeep.settlements]
      · rw [hdo]
    · obtain ⟨e, u, hu, hdo, hrun⟩ := run_executeTask_failed p hpend hlog hthrow hf
      refine ⟨u.settled t (.exception e), .exception e, hrun, ?_, settled_state _ _ _, ?_⟩
      · rw [settlements_settled, hu.settlements]
      · rw [hdo]

/-! The call centre in which an operator's draw fails: one operator has taken the
call `1`, and the random device throws. -/

/-- A started pool of two operators, one of which has taken the call `1`. -/
def callTaken : World :=
  ((do
    let p ← ThreadPool.construct 2 15
    ThreadPool.setLogger p true
    ThreadPool.start p
    let t ← Task.construct 10 15 ['1'] 0 true
    let _ ← ThreadPool.add_task (fun _ => 7) 0 0 p t
    let _ ← ThreadPool.processTask (fun _ => 7) 1 p
    return : Exec World Unit).run .empty).2

/-- Every step returns but the draw. -/
def drawThrows : Service :=
  { Service.calm 0 0 0 12 with fails := fun st => if st = .getDuration then some (.other 1) else none }

theorem executeTask_escapes :
    (callTaken.tasks 0).promise_.state = none ∧ (callTaken.tasks 0).logger_ = true ∧
    (callTaken.tasks 0).RMin_ ≤ (callTaken.tasks 0).RMax_ ∧ (callTaken.pools 0).task_queue = some 0 ∧
    ((ThreadPool.executeTask drawThrows 0 0).run callTaken).1 =
      .throws .promise_already_satisfied ∧
    ¬ SettlesOnce drawThrows 0 0 callTaken := by
  have hrun : ((ThreadPool.executeTask drawThrows 0 0).run callTaken).1 =
      .throws .promise_already_satisfied := by decide
  refine ⟨by decide, by decide, by decide, by decide, hrun, ?_⟩
  rintro ⟨v, x, h, -⟩
  rw [h] at hrun
  cases hrun

end ProteiCov
