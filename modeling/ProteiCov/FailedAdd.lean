import ProteiCov.ThreadPool

/-
  What a failed `add_task` leaves behind

  `add_task` gives the task its CallID before it retrieves the future, and retrieves
  the future before the push. Each of the two later steps can throw, and nothing is
  undone: a task that was submitted before keeps the new CallID
  (`run_add_task_again`), and a push that resolves a call resolved before leaves the
  pushed task with its future retrieved, and the other with a new CDR
  (`run_push_throws`). A number `stoll` does not accept is found before anything is
  written.

  `add_task_atomic_iff` puts this together: when a failed call leaves every call as
  it was.
-/

namespace ProteiCov
open Cpp

/-- The effect is a line of the CDR log. -/
def Event.isRecord : Event → Bool
  | .record _ _ _ => true
  | .settle _ _ | .readNumber _ | .sleep _ _ => false

/-- The waiting calls, the promises, the CDR log, and the CallIDs and CDRs of all calls
are the same. -/
structure SameCalls (w v : World) : Prop where
  entries : ∀ q, (v.queues q).queue_ = (w.queues q).queue_
  promise : ∀ t, (v.tasks t).promise_ = (w.tasks t).promise_
  cdrLog : v.trace.filter Event.isRecord = w.trace.filter Event.isRecord
  callID : ∀ t, (v.tasks t).taskId_ = (w.tasks t).taskId_
  cdr : ∀ t, (v.tasks t).cdr = (w.tasks t).cdr

theorem SameCalls.readNumber (w : World) (t : TaskRef) : SameCalls w (w.emit [.readNumber t]) :=
  ⟨fun _ => rfl, fun _ => rfl, by simp [Event.isRecord], fun _ => rfl, fun _ => rfl⟩

namespace Queue

/-! A push that throws. -/

/-- The call a push resolves: the pushed one where the queue is full, else the first
one waiting with the number. -/
def resolves (w : World) (q : QueueRef) (t : TaskRef) : Option TaskRef :=
  if (w.queues q).sizeOfQueue ≤ (w.queues q).queue_.length then some t
  else (findNumber w.tasks (w.tasks t).number_ (w.queues q).queue_).map (fun p => p.2.1)

theorem findNumber_congr {tasks tasks' : TaskRef → Task}
    (h : ∀ t, (tasks t).number_ = (tasks' t).number_) (number : List Char)
    (es : List (TaskRef × CallID)) : findNumber tasks number es = findNumber tasks' number es := by
  induction es with
  | nil => rfl
  | cons e rest ih => rw [findNumber, findNumber, h, ih]

theorem resolves_congr {w v : World} (hq : v.queues = w.queues)
    (hn : ∀ t, (v.tasks t).number_ = (w.tasks t).number_) (q : QueueRef) (t : TaskRef) :
    resolves v q t = resolves w q t := by
  unfold resolves
  rw [hq, hn, findNumber_congr hn]

theorem closed_promise (w : World) (q : QueueRef) (now : TimePoint) (t u : TaskRef)
    (isDuplication : Bool) :
    ((w.closed q now t isDuplication).tasks u).promise_ = (w.tasks u).promise_ :=
  w.mapCDR_promise t u (refusedCDR isDuplication now)

/-- The CDR has been written when the promise is found settled. -/
theorem run_set_value_closed {w : World} {t : TaskRef} (q : QueueRef) (now : TimePoint)
    (isDuplication : Bool) (r : Result) (h : (w.tasks t).promise_.state ≠ none) :
    (set_value t r).run (w.closed q now t isDuplication) =
      (.throws .promise_already_satisfied, w.closed q now t isDuplication) :=
  run_settle_again _ (by rw [closed_promise]; exact h)

theorem run_handleOverloadedTask_throws {w : World} {q : QueueRef} {e : TaskRef × CallID}
    (now : TimePoint) (h : (w.tasks e.1).promise_.state ≠ none) :
    (handleOverloadedTask q now e).run w =
      (.throws .promise_already_satisfied, w.closed q now e.1 false) := by
  rw [handleOverloadedTask, Exec.run_bind_ok (run_processCDR q now e.1 false w)]
  exact run_set_value_closed q now false _ h

theorem run_evict_throws {w : World} {q : QueueRef} {i : Nat} {d : TaskRef × CallID}
    (now : TimePoint) (h : (w.tasks d.1).promise_.state ≠ none) :
    (evict q now (some (i, d))).run w =
      (.throws .promise_already_satisfied, w.closed q now d.1 true) := by
  rw [evict, Exec.run_bind_ok (run_processCDR q now d.1 true w)]
  exact Exec.run_bind_throws (run_set_value_closed q now true _ h)

theorem run_handleTask_throws {w v : World} {q : QueueRef} {now : TimePoint} {e : TaskRef × CallID}
    {x : StdException}
    (h : (evict q now (findNumber w.tasks (w.tasks e.1).number_ (w.queues q).queue_)).run
      (searched w q e.1) = (.throws x, v)) : (handleTask q now e).run w = (.throws x, v) := by
  rw [run_handleTask_searched]
  exact Exec.run_bind_throws h

/-- A push returns where the call it resolves is pending. -/
theorem run_push_returns {w : World} {q : QueueRef} {e : TaskRef × CallID} (now : TimePoint)
    (h : ∀ d, resolves w q e.1 = some d → (w.tasks d).promise_.state = none) :
    ∃ b v, (push q now e).run w = (.ok b, v) := by
  unfold resolves at h
  by_cases hfull : (w.queues q).sizeOfQueue ≤ (w.queues q).queue_.length
  · rw [if_pos hfull] at h
    exact ⟨_, _, run_push_overloaded now hfull (h e.1 rfl)⟩
  · rw [if_neg hfull] at h
    cases hfind : findNumber w.tasks (w.tasks e.1).number_ (w.queues q).queue_ with
    | none => exact ⟨_, _, run_push_fresh now (by omega) hfind⟩
    | some found =>
      obtain ⟨i, d⟩ := found
      exact ⟨_, _, run_push_duplicate now (by omega) hfind (h d.1 (by rw [hfind]; rfl))⟩

/-- Elsewhere it throws, and no promise has changed. -/
theorem run_push_throws {w : World} {q : QueueRef} {e : TaskRef × CallID} {d : TaskRef}
    (now : TimePoint) (hd : resolves w q e.1 = some d) (h : (w.tasks d).promise_.state ≠ none) :
    ∃ v, (push q now e).run w = (.throws .promise_already_satisfied, v) ∧
      ∀ t, (v.tasks t).promise_ = (w.tasks t).promise_ := by
  have hq : (readQueue q).run w = (.ok (w.queues q), w) := rfl
  unfold resolves at hd
  rw [push, Exec.run_bind_ok hq]
  by_cases hfull : (w.queues q).sizeOfQueue ≤ (w.queues q).queue_.length
  · rw [if_pos hfull] at hd ⊢
    cases hd
    exact ⟨_, Exec.run_bind_throws (run_handleOverloadedTask_throws now h),
      fun t => closed_promise w q now e.1 t false⟩
  · rw [if_neg hfull] at hd ⊢
    obtain ⟨⟨i, e'⟩, hfind, rfl⟩ := Option.map_eq_some_iff.mp hd
    have hevict := run_evict_throws (w := searched w q e.1) (q := q) (i := i) (d := e') now h
    rw [← hfind] at hevict
    exact ⟨_, Exec.run_bind_throws (run_handleTask_throws hevict),
      fun t => closed_promise (searched w q e.1) q now e'.1 t true⟩

end Queue

namespace ThreadPool
variable {hash : ThreadId → UInt64} {thread : ThreadId} {now : TimePoint} {p : PoolRef} {t : TaskRef}

/-- A call of `add_task` that throws leaves every call as it was. -/
def Atomic (hash : ThreadId → UInt64) (thread : ThreadId) (now : TimePoint) (p : PoolRef)
    (t : TaskRef) (w : World) : Prop :=
  ∀ e v, (add_task hash thread now p t).run w = (.throws e, v) → SameCalls w v

/-- A call of `add_task` for a number and a task with a logger leaves no trace if it
fails, or does not fail: a task submitted before has the CallID it would get, and the
call the push resolves is pending. -/
def Traceless (hash : ThreadId → UInt64) (thread : ThreadId) (p : PoolRef) (t : TaskRef) (w : World) :
    Prop :=
  ∀ number, stoll (w.tasks t).number_ = .ok number → (w.tasks t).logger_ = true →
    if (w.tasks t).promise_.retrieved then
      (w.tasks t).taskId_ = generateCallID hash thread number ∧
        (w.tasks t).cdr.callID = generateCallID hash thread number
    else
      ∀ q, (w.pools p).task_queue = some q → ∀ d, Queue.resolves w q t = some d →
        (w.tasks d).promise_.state = none

theorem identified_task (w : World) (t u : TaskRef) (id : CallID) :
    (Task.identified w t id).tasks u = if u = t then { w.tasks t with
      taskId_ := id, cdr := { (w.tasks t).cdr with callID := id } } else w.tasks u := by
  by_cases h : u = t
  · simp [Task.identified, World.mapCDR, h]
  · simp [Task.identified, World.mapCDR, h]

theorem sameCalls_identified {w : World} {t : TaskRef} {id : CallID} :
    SameCalls w ((Task.identified (w.emit [.readNumber t]) t id).emit [.readNumber t]) ↔
      (w.tasks t).taskId_ = id ∧ (w.tasks t).cdr.callID = id := by
  have htask : ∀ u, ((Task.identified (w.emit [.readNumber t]) t id).emit [.readNumber t]).tasks u =
      if u = t then { w.tasks t with taskId_ := id, cdr := { (w.tasks t).cdr with callID := id } }
      else w.tasks u := fun u => identified_task (w.emit [.readNumber t]) t u id
  constructor
  · intro h
    have hid := h.callID t
    have hcdr := h.cdr t
    rw [htask, if_pos rfl] at hid hcdr
    exact ⟨hid.symm, (congrArg CDR.callID hcdr).symm⟩
  · rintro ⟨hid, hcdr⟩
    have hkept : { (w.tasks t).cdr with callID := id } = (w.tasks t).cdr := by rw [← hcdr]
    have hself : ∀ u, ((Task.identified (w.emit [.readNumber t]) t id).emit [.readNumber t]).tasks u =
        w.tasks u := by
      intro u
      rw [htask]
      split
      · rename_i hu
        rw [hu, hkept, ← hid]
      · rfl
    refine ⟨fun _ => rfl, fun u => by rw [hself], ?_, fun u => by rw [hself], fun u => by rw [hself]⟩
    simp [Task.identified, Event.isRecord]

theorem admitted_retrieved (w : World) (t : TaskRef) (id : CallID) :
    ((w.admitted t id).tasks t).promise_ = { (w.tasks t).promise_ with retrieved := true } := by
  simp [World.admitted, World.retrieved, Task.identified]

theorem admitted_number (w : World) (t u : TaskRef) (id : CallID) :
    ((w.admitted t id).tasks u).number_ = (w.tasks u).number_ := by
  by_cases h : u = t
  · subst h
    simp [World.admitted, World.retrieved, Task.identified]
  · simp [World.admitted, World.retrieved, Task.identified, h]

theorem admitted_state (w : World) (t u : TaskRef) (id : CallID) :
    ((w.admitted t id).tasks u).promise_.state = (w.tasks u).promise_.state := by
  by_cases h : u = t
  · subst h
    rw [admitted_retrieved]
  · simp [World.admitted, World.retrieved, Task.identified, h]

/-- A new task that is pushed stays retrieved, so only a push that returns will do. -/
theorem atomic_admitted {w : World} {number : Int64} (hnum : stoll (w.tasks t).number_ = .ok number)
    (hlog : (w.tasks t).logger_ = true) (hfut : (w.tasks t).promise_.retrieved = false) :
    Atomic hash thread now p t w ↔
      ∀ q, (w.pools p).task_queue = some q → ∀ d, Queue.resolves w q t = some d →
        (w.tasks d).promise_.state = none := by
  unfold Atomic
  rw [run_add_task_admitted hnum hlog hfut]
  cases (w.pools p).task_queue with
  | none => simp
  | some q =>
    -- the push finds the same call to resolve, with the same promise
    have hresolves : Queue.resolves (w.admitted t (generateCallID hash thread number)) q t =
        Queue.resolves w q t :=
      Queue.resolves_congr (w := w) (v := w.admitted t _) rfl (fun u => admitted_number w t u _) q t
    constructor
    · intro hatomic r hr d hd
      cases hr
      by_contra hsettled
      rw [← hresolves] at hd
      obtain ⟨v, hpush, hpromise⟩ := Queue.run_push_throws (e := (t, generateCallID hash thread number))
        now hd (by rw [admitted_state]; exact hsettled)
      have hsame := hatomic _ v (Exec.run_bind_throws hpush)
      have hretrieved := hsame.promise t
      rw [hpromise, admitted_retrieved] at hretrieved
      rw [← hretrieved] at hfut
      cases hfut
    · intro h e v hthrows
      obtain ⟨b, u, hpush⟩ := Queue.run_push_returns (w := w.admitted t (generateCallID hash thread number))
        (q := q) (e := (t, generateCallID hash thread number)) now (fun d hd => by
          rw [admitted_state]
          exact h q rfl d (by rw [← hresolves]; exact hd))
      have hreturns := (Exec.run_bind_ok (f := fun _ => pure (generateCallID hash thread number))
        hpush).symm.trans hthrows
      cases hreturns

theorem traceless_iff {w : World} {number : Int64} (hnum : stoll (w.tasks t).number_ = .ok number)
    (hlog : (w.tasks t).logger_ = true) :
    Traceless hash thread p t w ↔
      if (w.tasks t).promise_.retrieved then
        (w.tasks t).taskId_ = generateCallID hash thread number ∧
          (w.tasks t).cdr.callID = generateCallID hash thread number
      else
        ∀ q, (w.pools p).task_queue = some q → ∀ d, Queue.resolves w q t = some d →
          (w.tasks d).promise_.state = none := by
  constructor
  · intro h
    exact h number hnum hlog
  · intro h n hn _
    rw [hnum] at hn
    cases hn
    exact h

/-- When a failed `add_task` leaves every call as it was. -/
theorem add_task_atomic_iff (hash : ThreadId → UInt64) (thread : ThreadId) (now : TimePoint)
    (p : PoolRef) (t : TaskRef) (w : World) :
    Atomic hash thread now p t w ↔ Traceless hash thread p t w := by
  cases hnum : stoll (w.tasks t).number_ with
  | error x =>
    refine iff_of_true (fun e v hthrows => ?_) (fun number hok => ?_)
    · rw [run_add_task_rejected hnum] at hthrows
      cases hthrows
      exact SameCalls.readNumber w t
    · rw [hnum] at hok
      cases hok
  | ok number =>
    cases hlog : (w.tasks t).logger_ with
    | false =>
      refine iff_of_true (fun e v hthrows => ?_) (fun n _ hattached => ?_)
      · rw [run_add_task_silent hnum hlog] at hthrows
        cases hthrows
      · rw [hlog] at hattached
        cases hattached
    | true =>
      rw [traceless_iff hnum hlog]
      cases hfut : (w.tasks t).promise_.retrieved with
      | false =>
        rw [if_neg (by decide)]
        exact atomic_admitted hnum hlog hfut
      | true =>
        rw [if_pos rfl, ← sameCalls_identified]
        constructor
        · intro hatomic
          exact hatomic _ _ (run_add_task_again hnum hlog hfut)
        · intro hsame e v hthrows
          rw [run_add_task_again hnum hlog hfut] at hthrows
          cases hthrows
          exact hsame

/-- A call of number 7, waiting since the thread 1 submitted it. -/
def submittedOnce : World :=
  ((add_task UInt64.ofNat 1 0 0 0).run { World.empty with
    tasks := fun _ => Task.make 4 10 ['7'] 0 true
    taskCount := 1
    queues := fun _ => { queue_ := [], sizeOfQueue := 15, logger_ := true, recorders_ := [] }
    queueCount := 1
    pools := fun _ => fresh 2 0 true
    poolCount := 1 }).2

/-- The thread 2 submits it again. -/
theorem submittedOnce_not_atomic : ¬ ∀ (hash : ThreadId → UInt64) (thread : ThreadId)
    (now : TimePoint) (p : PoolRef) (t : TaskRef) (w : World), Atomic hash thread now p t w := by
  intro h
  have hsame := h UInt64.ofNat 2 0 0 0 submittedOnce .future_already_retrieved
    ((add_task UInt64.ofNat 2 0 0 0).run submittedOnce).2 rfl
  have hid := hsame.callID 0
  revert hid
  decide

end ThreadPool

end ProteiCov
