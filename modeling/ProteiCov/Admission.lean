import Mathlib.Data.List.Perm.Basic
import ProteiCov.Ledger
import ProteiCov.Manager

/-
  Where a call goes

  A push puts one call in and takes at most one out: the pushed one if the queue is
  full, the duplicate it evicts, or none. The calls that were queued and the pushed
  one are those that went and those still queued, in some order (`Pushed`); what
  went is resolved, and nothing else is touched. `Admitted` is the same fact about
  `addTask`, which makes the call first.
-/

namespace ProteiCov
open Cpp

theorem World.refused_frame (w : World) (q : QueueRef) (now : TimePoint) (e : TaskRef × CallID)
    (isDuplication : Bool) :
    (w.refused q now e isDuplication).queues = w.queues ∧
      (w.refused q now e isDuplication).pools = w.pools ∧
      (w.refused q now e isDuplication).taskCount = w.taskCount ∧
      (w.refused q now e isDuplication).queueCount = w.queueCount ∧
      (w.refused q now e isDuplication).poolCount = w.poolCount ∧
      ∀ t, ((w.refused q now e isDuplication).tasks t).logger_ = (w.tasks t).logger_ := by
  refine ⟨rfl, rfl, rfl, rfl, rfl, fun t => ?_⟩
  by_cases h : t = e.1
  · subst h
    simp [World.refused, World.closed, World.journal, World.settled]
  · simp [World.refused, World.closed, World.journal, World.settled, h]

/-- Between two worlds at most the call `gone` was settled, and at most the entries of
`q` changed. -/
structure Touches (q : QueueRef) (gone : Option TaskRef) (u v : World) : Prop where
  recorders : (v.queues q).recorders_ = (u.queues q).recorders_
  queues : ∀ r, r ≠ q → v.queues r = u.queues r
  pools : v.pools = u.pools
  taskCount : v.taskCount = u.taskCount
  queueCount : v.queueCount = u.queueCount
  poolCount : v.poolCount = u.poolCount
  logger : ∀ t, (v.tasks t).logger_ = (u.tasks t).logger_
  others : ∀ t, gone ≠ some t → SameCall t u v

/-- What was settled was resolved, with the recorders of `q`. -/
structure Resolves (q : QueueRef) (gone : Option TaskRef) (u v : World) : Prop
    extends Touches q gone u v where
  resolved : ∀ t, gone = some t → Resolved (u.queues q).recorders_ v t

/-- A push of `e` onto `q` between two worlds; `gone` is the entry it resolved. -/
structure Pushed (q : QueueRef) (e : TaskRef × CallID) (gone : Option (TaskRef × CallID))
    (u v : World) : Prop where
  entries : ((u.queues q).queue_ ++ [e]).Perm (gone.toList ++ (v.queues q).queue_)
  resolves : Resolves q (gone.map Prod.fst) u v

section
variable {w u v : World} {q : QueueRef} {gone : Option TaskRef}

theorem Touches.refl (u : World) (q : QueueRef) : Touches q none u u :=
  ⟨rfl, fun _ _ => rfl, rfl, rfl, rfl, rfl, fun _ => rfl, fun _ _ => SameCall.refl u⟩

theorem Touches.settled (q : QueueRef) (t : TaskRef) (x : Settled Result) (u : World) :
    Touches q (some t) u (u.settled t x) := by
  refine ⟨rfl, fun _ _ => rfl, rfl, rfl, rfl, rfl, fun y => ?_, fun y hy => ?_⟩
  · by_cases h : y = t
    · subst h
      simp [World.settled]
    · simp [World.settled, h]
  · exact SameCall.settled (fun h => hy (congrArg some h.symm)) u x

theorem Touches.setEntries (h : Touches q gone u v) (es : List (TaskRef × CallID)) :
    Touches q gone u (v.setEntries q es) where
  recorders := by
    rw [← h.recorders]
    simp [World.setEntries]
  queues := by
    intro r hr
    rw [← h.queues r hr]
    simp [World.setEntries, hr]
  pools := h.pools
  taskCount := h.taskCount
  queueCount := h.queueCount
  poolCount := h.poolCount
  logger := h.logger
  others := fun t ht => (h.others t ht).trans (SameCall.setEntries v q es)

/-- What disturbs nothing touches nothing, before and after. -/
theorem Touches.undisturbed (hw : Undisturbed w u) (h : Touches q gone u v) : Touches q gone w v where
  recorders := by rw [h.recorders, hw.queues]
  queues := fun r hr => by rw [h.queues r hr, hw.queues]
  pools := h.pools.trans hw.pools
  taskCount := h.taskCount.trans hw.taskCount
  queueCount := h.queueCount.trans hw.queueCount
  poolCount := h.poolCount.trans hw.poolCount
  logger := fun t => (h.logger t).trans (hw.logger t)
  others := fun t hne => (SameCall.of_undisturbed hw).trans (h.others t hne)

theorem Resolves.setEntries (h : Resolves q gone u v) (es : List (TaskRef × CallID)) :
    Resolves q gone u (v.setEntries q es) where
  toTouches := h.toTouches.setEntries es
  resolved := fun t ht => (SameCall.setEntries v q es).resolved (h.resolved t ht)

theorem Resolves.undisturbed (hw : Undisturbed w u) (h : Resolves q gone u v) :
    Resolves q gone w v where
  toTouches := h.toTouches.undisturbed hw
  resolved := fun t ht => hw.queues ▸ h.resolved t ht

theorem Resolves.refl (u : World) (q : QueueRef) : Resolves q none u u :=
  ⟨Touches.refl u q, fun _ ht => (by cases ht)⟩

theorem Resolves.refused {d : TaskRef × CallID} (q : QueueRef) (now : TimePoint)
    (isDuplication : Bool) (h : Unresolved u d.1) :
    Resolves q (some d.1) u (u.refused q now d isDuplication) := by
  obtain ⟨hq, hp, ht, hqc, hpc, hlog⟩ := u.refused_frame q now d isDuplication
  refine ⟨⟨by rw [hq], fun r _ => by rw [hq], hp, ht, hqc, hpc, hlog, fun t hne => ?_⟩, ?_⟩
  · exact SameCall.refused (fun heq => hne (congrArg some heq.symm)) u q now isDuplication
  · intro t hd
    cases hd
    exact h.refused q now isDuplication

end

theorem searchReads_quiet (tasks : TaskRef → Task) (number : List Char) (es : List (TaskRef × CallID)) :
    ∀ x ∈ Queue.searchReads tasks number es, x.quiet = true := by
  induction es with
  | nil => simp [Queue.searchReads]
  | cons e es ih =>
    intro x hx
    rw [Queue.searchReads] at hx
    rcases List.mem_cons.mp hx with rfl | hx
    · rfl
    · split at hx
      · cases hx
      · exact ih x hx

theorem undisturbed_searched (w : World) (q : QueueRef) (t : TaskRef) :
    Undisturbed w (Queue.searched w q t) := by
  apply Undisturbed.emit w _
  intro x hx
  rcases List.mem_cons.mp hx with rfl | hx
  · rfl
  · exact searchReads_quiet _ _ _ x hx

theorem Pushed.overloaded {u : World} {e : TaskRef × CallID} (q : QueueRef) (now : TimePoint)
    (h : Unresolved u e.1) : Pushed q e (some e) u (u.refused q now e false) := by
  refine ⟨?_, Resolves.refused q now false h⟩
  rw [(u.refused_frame q now e false).1]
  exact List.perm_append_comm

theorem Pushed.fresh (u : World) (q : QueueRef) (e : TaskRef × CallID) :
    Pushed q e none u ((Queue.searched u q e.1).setEntries q ((u.queues q).queue_ ++ [e])) where
  entries := by simp [World.setEntries]
  resolves := ((Resolves.refl _ q).setEntries _).undisturbed (undisturbed_searched u q e.1)

theorem Pushed.duplicate {u : World} {q : QueueRef} {d : TaskRef × CallID} {i : Nat}
    (now : TimePoint) (e : TaskRef × CallID) (hi : (u.queues q).queue_[i]? = some d)
    (h : Unresolved u d.1) :
    Pushed q e (some d) u (((Queue.searched u q e.1).refused q now d true).setEntries q
      ((u.queues q).queue_.eraseIdx i ++ [e])) := by
  have hsearched := undisturbed_searched u q e.1
  have hd := (SameCall.of_undisturbed hsearched).unresolved h
  refine ⟨?_, ((Resolves.refused q now true hd).setEntries _).undisturbed hsearched⟩
  obtain ⟨hlt, hd⟩ := List.getElem?_eq_some_iff.mp hi
  have hperm : (d :: (u.queues q).queue_.eraseIdx i).Perm (u.queues q).queue_ := by
    rw [← hd]
    exact List.getElem_cons_eraseIdx_perm hlt
  simpa [World.setEntries] using hperm.symm.append_right [e]

/-- The queue accepts a call with the number and evicts no other for it. -/
def Queue.Accepts (w : World) (q : QueueRef) (number : List Char) : Prop :=
  (w.queues q).queue_.length < (w.queues q).sizeOfQueue ∧
    ∀ d ∈ (w.queues q).queue_, (w.tasks d.1).number_ ≠ number

/-- A push onto a queue of unresolved calls returns, whatever path it takes. -/
theorem run_push {u : World} {q : QueueRef} {e : TaskRef × CallID} (now : TimePoint)
    (hwaiting : ∀ d ∈ (u.queues q).queue_, Unresolved u d.1) (he : Unresolved u e.1) :
    ∃ b v gone, (Queue.push q now e).run u = (.ok b, v) ∧ Pushed q e gone u v ∧
      (gone = none ↔ Queue.Accepts u q (u.tasks e.1).number_) := by
  rcases Nat.lt_or_ge (u.queues q).queue_.length (u.queues q).sizeOfQueue with hroom | hfull
  · cases hfind : Queue.findNumber u.tasks (u.tasks e.1).number_ (u.queues q).queue_ with
    -- room, and no call with the number
    | none =>
      refine ⟨true, _, none, Queue.run_push_fresh now hroom hfind, Pushed.fresh u q e, ?_⟩
      exact ⟨fun _ => ⟨hroom, Queue.findNumber_none.mp hfind⟩, fun _ => rfl⟩
    -- room, and a queued call with the number: it is evicted
    | some found =>
      obtain ⟨i, d⟩ := found
      obtain ⟨hi, hnumber, _⟩ := Queue.findNumber_some hfind
      have hmem := List.mem_of_getElem? hi
      have hd := hwaiting d hmem
      refine ⟨true, _, some d, Queue.run_push_duplicate now hroom hfind hd.pending,
        Pushed.duplicate now e hi hd, ?_⟩
      exact ⟨fun h => (by cases h), fun h => absurd hnumber (h.2 d hmem)⟩
  -- a full queue refuses the call itself
  · refine ⟨false, _, some e, Queue.run_push_overloaded now hfull he.pending,
      Pushed.overloaded q now he, ?_⟩
    exact ⟨fun h => (by cases h), fun h => absurd h.1 (Nat.not_lt.mpr hfull)⟩

/-- The task `e` was made and pushed onto `q` between two worlds. -/
structure Admitted (q : QueueRef) (e : TaskRef × CallID) (gone : Option (TaskRef × CallID))
    (w v : World) : Prop where
  task : e.1 = w.taskCount
  entries : ((w.queues q).queue_ ++ [e]).Perm (gone.toList ++ (v.queues q).queue_)
  recorders : (v.queues q).recorders_ = (w.queues q).recorders_
  queues : ∀ r, r ≠ q → v.queues r = w.queues r
  pools : v.pools = w.pools
  taskCount : v.taskCount = w.taskCount + 1
  queueCount : v.queueCount = w.queueCount
  poolCount : v.poolCount = w.poolCount
  logger : ∀ t, (v.tasks t).logger_ = if t = e.1 then true else (w.tasks t).logger_
  resolved : ∀ d, gone = some d → Resolved (w.queues q).recorders_ v d.1
  admitted : (∀ d, gone = some d → e.1 ≠ d.1) → Unresolved v e.1
  others : ∀ t, t ≠ e.1 → (∀ d, gone = some d → t ≠ d.1) → SameCall t w v

/-- The world in which `addTask` pushes the task it made. -/
def World.submitted (w : World) (k : Task) (reads : List Event) (id : CallID) : World :=
  (({ w.setTask w.taskCount k with taskCount := w.taskCount + 1 } : World).emit reads).admitted
    w.taskCount id

section
variable (w : World) (k : Task) (reads : List Event) (id : CallID)

theorem submitted_tasks {t : TaskRef} (h : t ≠ w.taskCount) :
    (w.submitted k reads id).tasks t = w.tasks t := by
  simp [World.submitted, World.admitted, World.retrieved, Task.identified, h]

theorem submitted_task :
    ((w.submitted k reads id).tasks w.taskCount).promise_ = { k.promise_ with retrieved := true } ∧
      ((w.submitted k reads id).tasks w.taskCount).logger_ = k.logger_ := by
  simp [World.submitted, World.admitted, World.retrieved, Task.identified]

theorem submitted_trace : (w.submitted k reads id).trace =
    w.trace ++ (reads ++ [.readNumber w.taskCount, .readNumber w.taskCount]) := by
  simp [World.submitted, World.admitted, World.retrieved, Task.identified]

end

theorem submitted_ledger (w : World) (k : Task) {reads : List Event} (id : CallID)
    (hreads : ∀ x ∈ reads, x.quiet = true) (t : TaskRef) :
    settlements t (w.submitted k reads id).trace = settlements t w.trace ∧
      journalOf t (w.submitted k reads id).trace = journalOf t w.trace := by
  have hquiet : ∀ x ∈ reads ++ [.readNumber w.taskCount, .readNumber w.taskCount], x.quiet = true := by
    intro x hx
    rcases List.mem_append.mp hx with hx | hx
    · exact hreads x hx
    · simp only [List.mem_cons, List.not_mem_nil, or_false, or_self] at hx
      rw [hx]
      rfl
  rw [submitted_trace, settlements_append, journalOf_append, settlements_quiet hquiet,
    journalOf_quiet hquiet]
  simp

theorem run_construct (RMin RMax : Int) (number : List Char) (startTime : TimePoint) (logger : Bool)
    (w : World) :
    (Task.construct RMin RMax number startTime logger).run w = (.ok w.taskCount,
      ({ w.setTask w.taskCount (Task.make RMin RMax number startTime logger) with
        taskCount := w.taskCount + 1 } : World).emit (if logger then [.readNumber w.taskCount] else [])) := by
  have hnew : (newTask (Task.make RMin RMax number startTime logger)).run w = (.ok w.taskCount,
      { w.setTask w.taskCount (Task.make RMin RMax number startTime logger) with
        taskCount := w.taskCount + 1 }) := rfl
  rw [Task.construct, Exec.run_bind_ok hnew]
  cases logger with
  | true => rfl
  | false =>
    show (Outcome.ok w.taskCount, _) = _
    simp [World.emit]

/-- A task gets its CallID only with a logger. -/
theorem setCallID_ok {t : TaskRef} {id : CallID} {w v : World}
    (h : (Task.setCallID t id).run w = (.ok (), v)) : (w.tasks t).logger_ = true := by
  obtain ⟨_, w₁, h₁, h⟩ := Exec.bind_eq_ok h
  obtain ⟨_, w₂, h₂, h⟩ := Exec.bind_eq_ok h
  obtain ⟨k, w₃, h₃, h⟩ := Exec.bind_eq_ok h
  obtain ⟨_, w₄, h₄, _⟩ := Exec.bind_eq_ok h
  cases h₁
  cases h₂
  cases h₃
  cases hlog : (w.tasks t).logger_ with
  | true => rfl
  | false =>
    simp only [World.mapCDR_logger, World.setTask_tasks, Function.update_self, hlog] at h₄
    cases h₄

/-- A call that is admitted has a logger and a number `stoll` accepts. -/
theorem addTask_ok {hash : ThreadId → UInt64} {m : Manager} {thread : ThreadId}
    {now pushNow : TimePoint} {number : List Char} {w v : World} {id : CallID}
    (h : (m.addTask hash thread now pushNow number).run w = (.ok id, v)) :
    m.logger_ = true ∧ ∃ n, stoll number = .ok n ∧ id = ThreadPool.generateCallID hash thread n := by
  rw [Manager.addTask, Exec.run_bind_ok (run_construct _ _ _ _ _ _)] at h
  obtain ⟨text, w₁, h₁, h⟩ := Exec.bind_eq_ok h
  obtain ⟨n, w₂, h₂, h⟩ := Exec.bind_eq_ok h
  obtain ⟨_, w₃, h₃, h⟩ := Exec.bind_eq_ok h
  obtain ⟨_, w₄, h₄, h⟩ := Exec.bind_eq_ok h
  obtain ⟨pool, w₅, h₅, h⟩ := Exec.bind_eq_ok h
  -- with or without a queue, what is returned is the CallID that was generated
  have hid : id = ThreadPool.generateCallID hash thread n := by
    cases hq : pool.task_queue with
    | none =>
      rw [hq] at h
      cases h
      rfl
    | some q =>
      rw [hq] at h
      obtain ⟨_, w₆, h₆, h⟩ := Exec.bind_eq_ok h
      cases h
      rfl
  cases h₁
  have hlog := setCallID_ok h₃
  cases hnum : stoll number with
  | error e =>
    simp [Task.make, hnum, Exec.ofExcept, Exec.run] at h₂
  | ok n' =>
    simp [Task.make, hnum, Exec.ofExcept, Exec.run] at h₂
    obtain ⟨rfl, rfl⟩ := h₂
    exact ⟨by simpa [Task.make] using hlog, n', rfl, hid⟩

/-- `addTask` with a logger and a number `stoll` accepts returns, whatever path the
push takes. -/
theorem run_addTask (hash : ThreadId → UInt64) {m : Manager} (thread : ThreadId)
    (now pushNow : TimePoint) {number : List Char} {n : Int64} {w : World} {q : QueueRef}
    (hlog : m.logger_ = true) (hnum : stoll number = .ok n)
    (hq : (w.pools m.threadPool_).task_queue = some q)
    (hwaiting : ∀ d ∈ (w.queues q).queue_, d.1 ≠ w.taskCount ∧ Unresolved w d.1)
    (hnew : settlements w.taskCount w.trace = [] ∧ journalOf w.taskCount w.trace = []) :
    ∃ v gone, (m.addTask hash thread now pushNow number).run w =
        (.ok (ThreadPool.generateCallID hash thread n), v) ∧
      Admitted q (w.taskCount, ThreadPool.generateCallID hash thread n) gone w v ∧
      (gone = none ↔ Queue.Accepts w q number) := by
  -- the world in which the task was made, and the CallID it gets
  let k := Task.make m.RMin_ m.RMax_ number now m.logger_
  let w₁ : World :=
    ({ w.setTask w.taskCount k with taskCount := w.taskCount + 1 } : World).emit
      [.readNumber w.taskCount]
  let id := ThreadPool.generateCallID hash thread n
  have hcons : (Task.construct m.RMin_ m.RMax_ number now m.logger_).run w =
      (.ok w.taskCount, w₁) := by
    rw [run_construct, hlog]
    simp only [w₁, k, hlog, if_true]
  have hreads : ∀ x ∈ [Event.readNumber w.taskCount], x.quiet = true := by simp [Event.quiet]
  have hledger := submitted_ledger w k id hreads
  have hself : Unresolved (w.submitted k [.readNumber w.taskCount] id) w.taskCount := by
    refine ⟨?_, (hledger _).1.trans hnew.1, (hledger _).2.trans hnew.2⟩
    rw [(submitted_task w k _ id).1]
    rfl
  have hother : ∀ t, t ≠ w.taskCount → SameCall t w (w.submitted k [.readNumber w.taskCount] id) :=
    fun t ht => ⟨by rw [submitted_tasks w k _ id ht], (hledger t).1, (hledger t).2⟩
  -- the push finds a queue of unresolved calls, and the new one unresolved
  obtain ⟨b, v, gone, hpush, hp, haccepts⟩ := run_push (u := w.submitted k [.readNumber w.taskCount] id)
    (q := q) (e := (w.taskCount, id)) pushNow
    (fun d hd => (hother d.1 (hwaiting d hd).1).unresolved (hwaiting d hd).2) hself
  refine ⟨v, gone, ?_, ?_, haccepts.trans ?_⟩
  · rw [Manager.addTask, Exec.run_bind_ok hcons]
    exact ThreadPool.run_add_task (w := w₁) (by simpa [w₁, k, Task.make] using hnum)
      (by simpa [w₁, k, Task.make] using hlog) (by simp [w₁, k, Task.make, Promise.fresh]) hq hpush
  · have hne : ∀ t, (∀ d, gone = some d → t ≠ d.1) → gone.map Prod.fst ≠ some t := by
      intro t hne hmap
      obtain ⟨d, hd, hdt⟩ := Option.map_eq_some_iff.mp hmap
      exact hne d hd hdt.symm
    exact {
      task := rfl
      entries := hp.entries
      recorders := hp.resolves.recorders
      queues := hp.resolves.queues
      pools := hp.resolves.pools
      taskCount := hp.resolves.taskCount
      queueCount := hp.resolves.queueCount
      poolCount := hp.resolves.poolCount
      logger := fun t => by
        rw [hp.resolves.logger]
        by_cases ht : t = w.taskCount
        · rw [if_pos ht, ht, (submitted_task w k _ id).2]
          exact hlog
        · rw [if_neg ht, submitted_tasks w k _ id ht]
      resolved := fun d hd => hp.resolves.resolved d.1 (by rw [hd]; rfl)
      admitted := fun h => (hp.resolves.others _ (hne _ h)).unresolved hself
      others := fun t ht h => (hother t ht).trans (hp.resolves.others t (hne t h)) }
  · have hnumber : ((w.submitted k [.readNumber w.taskCount] id).tasks w.taskCount).number_ = number := by
      simp [World.submitted, World.admitted, World.retrieved, Task.identified, k, Task.make]
    have htasks : ∀ d ∈ (w.queues q).queue_,
        (w.submitted k [.readNumber w.taskCount] id).tasks d.1 = w.tasks d.1 :=
      fun d hd => submitted_tasks w k _ id (hwaiting d hd).1
    unfold Queue.Accepts
    rw [hnumber]
    refine and_congr_right (fun _ => forall₂_congr (fun d hd => ?_))
    rw [htasks d hd]

end ProteiCov
