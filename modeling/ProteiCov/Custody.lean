import Mathlib.Data.List.Nodup
import ProteiCov.CallSteps

/-
  Who has a call, and when its number is read

  A call that is not over has one seat: its task was made and not added yet, it waits in
  the queue, or a worker serves it. A step takes some calls from their seats and gives
  them others (`Stepped`), and leaves every other call as it was; `stepped` says which
  steps do what.

  The number of a call is a view of text that its client drops once the promise of the
  call is set. Every read of it is made by a step on a call that still has its seat and
  an unset promise, and a step that sets a promise does so last. So no read of a number
  comes after the promise was set, in any run (`readsFirst_of_run`).
-/

namespace ProteiCov
open Cpp

namespace CallSteps

/-! Where a call is. -/

/-- The seat of a call: its task was made, waits in the queue, or is served. -/
inductive Seat where
  | made (t : TaskRef)
  | waiting (e : TaskRef × CallID)
  | served (c : Served)

def Seat.task : Seat → TaskRef
  | .made t => t
  | .waiting e => e.1
  | .served c => c.entry.1

def seatsOf (made : List TaskRef) (queue : List (TaskRef × CallID)) (served : List Served) : List Seat :=
  made.map .made ++ queue.map .waiting ++ served.map .served

/-- The seats of the calls that are not over. -/
def seats (q : QueueRef) (s : Calls) : List Seat := seatsOf s.made (s.world.queues q).queue_ s.served

/-! What the operations do, on each of their paths. -/

/-- What a run of the body of `doTask` may do: only the CDR of its own task changes. -/
structure Own (t : TaskRef) (w v : World) : Prop where
  others : ∀ x, x ≠ t → v.tasks x = w.tasks x
  promise : (v.tasks t).promise_ = (w.tasks t).promise_
  queues : v.queues = w.queues
  pools : v.pools = w.pools
  taskCount : v.taskCount = w.taskCount
  queueCount : v.queueCount = w.queueCount
  poolCount : v.poolCount = w.poolCount
  trace : ∃ es, v.trace = w.trace ++ es ∧ ∀ e ∈ es, e.own t = true

namespace Own
variable {t : TaskRef}

theorem refl (w : World) : Own t w w :=
  ⟨fun _ _ => rfl, rfl, rfl, rfl, rfl, rfl, rfl, [], by simp, by simp⟩

theorem trans (w v u : World) (h : Own t w v) (h' : Own t v u) : Own t w u := by
  obtain ⟨es, he, hown⟩ := h.trace
  obtain ⟨fs, hf, hown'⟩ := h'.trace
  refine ⟨fun x hx => (h'.others x hx).trans (h.others x hx), h'.promise.trans h.promise,
    h'.queues.trans h.queues, h'.pools.trans h.pools, h'.taskCount.trans h.taskCount,
    h'.queueCount.trans h.queueCount, h'.poolCount.trans h.poolCount, es ++ fs, ?_, ?_⟩
  · rw [hf, he, List.append_assoc]
  · intro e hmem
    rcases List.mem_append.mp hmem with hmem | hmem
    · exact hown e hmem
    · exact hown' e hmem

theorem serves (t : TaskRef) : Serves t (Own t) where
  refl := refl
  trans := trans
  emit := fun w e he => ⟨fun _ _ => rfl, rfl, rfl, rfl, rfl, rfl, rfl, [e], rfl, by simpa using he⟩
  cdr := fun w f => ⟨fun x hx => by simp [hx], by simp, rfl, rfl, rfl, rfl, rfl, [], by simp, by simp⟩

end Own

/-- A run of `doTask` that throws: its handler may have settled the promise. -/
theorem doTask_throws {env : Service} {t : TaskRef} {w v : World} {x : StdException}
    (h : (Task.doTask env t).run w = (.throws x, v)) :
    ∃ u, Own t w u ∧ (v = u ∨ (u.tasks t).promise_.state = none ∧ ∃ y, v = u.settled t (.exception y)) := by
  cases hb : (Task.doTaskBody env t).run w with
  | mk o u =>
    have hown : Own t w u := (Own.serves t).doTaskBody.of_run hb
    refine ⟨u, hown, ?_⟩
    cases o with
    | ok r =>
      rw [Task.doTask, Exec.run_tryCatch_ok hb] at h
      cases h
    | undefined =>
      rw [Task.doTask, Exec.run_tryCatch_undefined hb] at h
      cases h
    | throws e =>
      rw [Task.doTask, Exec.run_tryCatch_throws hb] at h
      have hread : (readTask t).run u = (.ok (u.tasks t), u) := rfl
      rw [Task.doTaskHandler, Exec.run_bind_ok hread] at h
      cases hlog : (u.tasks t).logger_ with
      | false =>
        rw [hlog] at h
        cases h
      | true =>
        have hderef : (derefLogger (u.tasks t).logger_).run u = (.ok (), u) := by
          rw [hlog]
          rfl
        rw [Exec.run_bind_ok hderef] at h
        cases hf : env.fails .logError with
        | some e' =>
          have hatt : (attempt env .logError).run u = (.throws e', u) := by
            rw [attempt, hf]
            rfl
          rw [Exec.run_bind_throws hatt] at h
          cases h
          exact Or.inl rfl
        | none =>
          have hatt : (attempt env .logError).run u = (.ok (), u) := by
            rw [attempt, hf]
            rfl
          rw [Exec.run_bind_ok hatt] at h
          by_cases hpend : (u.tasks t).promise_.state = none
          · have hset : (set_exception t e).run u = (.ok (), u.settled t (.exception e)) :=
              run_settle _ hpend
            rw [Exec.run_bind_ok hset] at h
            cases h
            exact Or.inr ⟨hpend, _, rfl⟩
          · have hset : (set_exception t e).run u = (.throws .promise_already_satisfied, u) :=
              run_settle_again _ hpend
            rw [Exec.run_bind_throws hset] at h
            cases h
            exact Or.inl rfl

/-- The world after a push of `e` in the world `u`, on each path of the push; it takes
`old` from their seats and gives the call the seat `new`. -/
inductive PushedTo (q : QueueRef) (now : TimePoint) (e : TaskRef × CallID) (u : World) :
    List Seat → Option Seat → World → Prop
  | fresh : PushedTo q now e u [] (some (.waiting e))
      ((Queue.searched u q e.1).setEntries q ((u.queues q).queue_ ++ [e]))
  | duplicate (i : Nat) (d : TaskRef × CallID) (hi : (u.queues q).queue_[i]? = some d) :
      PushedTo q now e u [.waiting d] (some (.waiting e))
        (((Queue.searched u q e.1).refused q now d true).setEntries q ((u.queues q).queue_.eraseIdx i ++ [e]))
  | overloaded : PushedTo q now e u [] none (u.refused q now e false)

theorem run_push_to {u : World} {q : QueueRef} {e : TaskRef × CallID} (now : TimePoint)
    (hwaiting : ∀ d ∈ (u.queues q).queue_, (u.tasks d.1).promise_.state = none)
    (he : (u.tasks e.1).promise_.state = none) :
    ∃ b v old new, (Queue.push q now e).run u = (.ok b, v) ∧ PushedTo q now e u old new v := by
  rcases Nat.lt_or_ge (u.queues q).queue_.length (u.queues q).sizeOfQueue with hroom | hfull
  · cases hfind : Queue.findNumber u.tasks (u.tasks e.1).number_ (u.queues q).queue_ with
    | none => exact ⟨true, _, _, _, Queue.run_push_fresh now hroom hfind, .fresh⟩
    | some found =>
      obtain ⟨i, d⟩ := found
      obtain ⟨hi, _, _⟩ := Queue.findNumber_some hfind
      have hd := hwaiting d (List.mem_of_getElem? hi)
      exact ⟨true, _, _, _, Queue.run_push_duplicate now hroom hfind hd, .duplicate i d hi⟩
  · exact ⟨false, _, _, _, Queue.run_push_overloaded now hfull he, .overloaded⟩

theorem admitted_tasks (w : World) (t : TaskRef) (id : CallID) {x : TaskRef} (h : x ≠ t) :
    (w.admitted t id).tasks x = w.tasks x := by
  simp [World.admitted, World.retrieved, Task.identified, h]

theorem admitted_promise (w : World) (t : TaskRef) (id : CallID) :
    ((w.admitted t id).tasks t).promise_ = { (w.tasks t).promise_ with retrieved := true } := by
  simp [World.admitted, World.retrieved, Task.identified]

/-- `add_task` throws where `stoll` does, and else ends in the push of the task. -/
theorem add_task_cases {hash : ThreadId → UInt64} {thread : ThreadId} {now : TimePoint} {p : PoolRef}
    {t : TaskRef} {w v : World} {q : QueueRef} {o : Outcome CallID}
    (hq : (w.pools p).task_queue = some q)
    (hwaiting : ∀ d ∈ (w.queues q).queue_, d.1 ≠ t ∧ (w.tasks d.1).promise_.state = none)
    (ht : (w.tasks t).promise_.state = none) (hfut : (w.tasks t).promise_.retrieved = false)
    (h : (ThreadPool.add_task hash thread now p t).run w = (o, v)) :
    o = .undefined ∨ ((∃ x, o = .throws x) ∧ v = w.emit [.readNumber t]) ∨
      ∃ id old new, o = .ok id ∧ (w.tasks t).logger_ = true ∧
        PushedTo q now (t, id) (w.admitted t id) old new v := by
  have hread : (Task.getNumber t).run w = (.ok (w.tasks t).number_, w.emit [.readNumber t]) := rfl
  cases hnum : stoll (w.tasks t).number_ with
  | error x =>
    rw [ThreadPool.add_task, Exec.run_bind_ok hread, hnum,
      Exec.run_bind_throws (Exec.run_ofExcept_error _ _)] at h
    cases h
    exact Or.inr (Or.inl ⟨⟨x, rfl⟩, rfl⟩)
  | ok n =>
    cases hlog : (w.tasks t).logger_ with
    | false =>
      have hset : ((Task.setCallID t (ThreadPool.generateCallID hash thread n)).run
          (w.emit [.readNumber t])).1 = .undefined := by
        simp [Task.setCallID, Task.logNumber, modifyTask, modifyCDR, readTask, Exec.run_bind, derefLogger, hlog]
      rw [ThreadPool.add_task, Exec.run_bind_ok hread, hnum, Exec.run_bind_ok (Exec.run_ofExcept_ok _ _)] at h
      cases hs : (Task.setCallID t (ThreadPool.generateCallID hash thread n)).run (w.emit [.readNumber t]) with
      | mk o' u =>
        rw [hs] at hset
        cases hset
        rw [Exec.run_bind_undefined hs] at h
        cases h
        exact Or.inl rfl
    | true =>
      have hothers : ∀ d ∈ ((w.admitted t (ThreadPool.generateCallID hash thread n)).queues q).queue_,
          ((w.admitted t (ThreadPool.generateCallID hash thread n)).tasks d.1).promise_.state = none := by
        intro d hd
        obtain ⟨hne, hpend⟩ := hwaiting d hd
        rw [admitted_tasks w t _ hne]
        exact hpend
      have hself : ((w.admitted t (ThreadPool.generateCallID hash thread n)).tasks t).promise_.state = none := by
        rw [admitted_promise]
        exact ht
      obtain ⟨b, u, old, new, hpush, hto⟩ := run_push_to (e := (t, ThreadPool.generateCallID hash thread n)) now hothers hself
      rw [ThreadPool.run_add_task hnum hlog hfut hq hpush] at h
      cases h
      exact Or.inr (Or.inr ⟨_, old, new, rfl, rfl, hto⟩)

/-! The steps, with the worlds they lead to. -/

end CallSteps

/-- The world after the task `k` was made. -/
def World.arrived (w : World) (k : Task) : World :=
  ({ w.setTask w.taskCount k with taskCount := w.taskCount + 1 } : World).emit
    (if k.logger_ then [.readNumber w.taskCount] else [])

namespace CallSteps

/-- The task a handler makes for a number. -/
def Calls.newTask (s : Calls) (number : List Char) (now : TimePoint) : Task :=
  Task.make s.manager.RMin_ s.manager.RMax_ number now s.manager.logger_

/-- What a worker settles its call with. -/
def Stage.outcome : Stage → Option (Settled Result)
  | .written r => some (.value r)
  | .thrown e => some (.exception e)
  | .running _ | .returned _ => none

/-- The step `e` from `s`, where the pools of the calls share the queue `q`: it takes
`old` from their seats and gives at most one call a seat, `new`. -/
inductive Stepped (q : QueueRef) (s : Calls) : Step → List Seat → Option Seat → Calls → Prop
  | arrived (number : List Char) (now : TimePoint) (hclock : s.clock ≤ now) :
    Stepped q s (.arrive number now) [] (some (.made s.world.taskCount)) { s with
      world := s.world.arrived (s.newTask number now), clock := now, made := s.made ++ [s.world.taskCount] }
  | dropped {k : Nat} {t : TaskRef} {now : TimePoint} (thread : ThreadId) (hk : s.made[k]? = some t)
      (hclock : s.clock ≤ now) :
    Stepped q s (.addTask k thread now) [.made t] none { s with
      world := s.world.emit [.readNumber t], clock := now, made := s.made.eraseIdx k }
  | added {k : Nat} {t : TaskRef} {now : TimePoint} {id : CallID} {old : List Seat} {new : Option Seat}
      {v : World} (thread : ThreadId) (hk : s.made[k]? = some t) (hclock : s.clock ≤ now)
      (hlog : (s.world.tasks t).logger_ = true) (hpush : PushedTo q now (t, id) (s.world.admitted t id) old new v) :
    Stepped q s (.addTask k thread now) (.made t :: old) new { s with
      world := v, clock := now, made := s.made.eraseIdx k, ids := Function.update s.ids t (some id) }
  | taken {p : PoolRef} {e : TaskRef × CallID} {rest : List (TaskRef × CallID)} (thread : ThreadId)
      (id : UInt64) (hmade : p < s.world.poolCount) (hp : (s.world.pools p).task_queue = some q)
      (hes : (s.world.queues q).queue_ = e :: rest) :
    Stepped q s (.take thread p) [.waiting e] (some (.served ⟨p, e, .running []⟩)) { s with
      world := ((s.world.mapCDR e.1 (fun c => { c with operatorID := id })).emit
        [.readNumber e.1]).setEntries q rest
      served := s.served ++ [⟨p, e, .running []⟩] }
  | clockRead {k : Nat} {p : PoolRef} {e : TaskRef × CallID} {readings : List TimePoint}
      {now : TimePoint} (hk : s.served[k]? = some ⟨p, e, .running readings⟩) (hclock : s.clock ≤ now) :
    Stepped q s (.readClock k now) [.served ⟨p, e, .running readings⟩]
      (some (.served ⟨p, e, .running (readings ++ [now])⟩)) { s with
      clock := now, served := s.served.set k ⟨p, e, .running (readings ++ [now])⟩
      begun := if readings = [] then Function.update s.begun e.1 (some now) else s.begun }
  | returned {k : Nat} {p : PoolRef} {e : TaskRef × CallID} (env : Service)
      (hk : s.served[k]? = some ⟨p, e, .running [env.now, env.operatorCallTime, env.endTime]⟩)
      (hret : Task.Returns env (s.world.tasks e.1)) :
    Stepped q s (.doTask k env.fails env.draw)
      [.served ⟨p, e, .running [env.now, env.operatorCallTime, env.endTime]⟩]
      (some (.served ⟨p, e, .returned (servedResult env (s.world.tasks e.1))⟩)) { s with
      world := s.world.served env e.1
      served := s.served.set k ⟨p, e, .returned (servedResult env (s.world.tasks e.1))⟩ }
  | thrown {k : Nat} {p : PoolRef} {e : TaskRef × CallID} {readings : List TimePoint} {x : StdException}
      {u v : World} (fails : DoTaskStep → Option StdException) (draw : Int)
      (hk : s.served[k]? = some ⟨p, e, .running readings⟩) (hown : Own e.1 s.world u)
      (hv : v = u ∨ (u.tasks e.1).promise_.state = none ∧ ∃ y, v = u.settled e.1 (.exception y)) :
    Stepped q s (.doTask k fails draw) [.served ⟨p, e, .running readings⟩]
      (some (.served ⟨p, e, .thrown x⟩)) { s with
      world := v, served := s.served.set k ⟨p, e, .thrown x⟩ }
  | journalled {k : Nat} {p : PoolRef} {e : TaskRef × CallID} {r : Result}
      (hk : s.served[k]? = some ⟨p, e, .returned r⟩) :
    Stepped q s (.writeCDR k) [.served ⟨p, e, .returned r⟩] (some (.served ⟨p, e, .written r⟩)) { s with
      world := s.world.journal q e.1, served := s.served.set k ⟨p, e, .written r⟩ }
  | settled {k : Nat} {c : Served} {x : Settled Result} (hk : s.served[k]? = some c)
      (hx : c.stage.outcome = some x) (hpend : (s.world.tasks c.entry.1).promise_.state = none) :
    Stepped q s (.settle k) [.served c] none { s with
      world := s.world.settled c.entry.1 x, served := s.served.eraseIdx k }
  | reconfigured {t : Calls} (e : Step) (hr : Reconfigures q s.world t.world)
      (hpool : t.manager.threadPool_ < t.world.poolCount ∧
        (t.world.pools t.manager.threadPool_).task_queue = some q)
      (hlimits : (t.manager.RMin_, t.manager.RMax_) = (s.manager.RMin_, s.manager.RMax_) ∨
        e = .setMinMax (t.manager.RMin_, t.manager.RMax_))
      (hsame : t = { s with world := t.world, manager := t.manager }) :
    Stepped q s e [] none t

/-- What is known of a call from its seat. Only a call whose `doTask` threw may be
settled. -/
def Seat.Ok (w : World) : Seat → Prop
  | .made t => Unresolved w t ∧ (w.tasks t).promise_.retrieved = false
  | .waiting e => Unresolved w e.1 ∧ (w.tasks e.1).logger_ = true
  | .served ⟨_, e, .running _⟩ | .served ⟨_, e, .returned _⟩ => Unresolved w e.1
  | .served ⟨_, e, .written _⟩ =>
    (w.tasks e.1).promise_.state = none ∧ settlements e.1 w.trace = []
  | .served ⟨_, _, .thrown _⟩ => True

/-- The pools and their queue: the manager's pool and the pools of the workers share
`q`, which has the recorders, and no other queue has an entry. -/
structure Wired (recorders : List RecorderRef) (q : QueueRef) (s : Calls) : Prop where
  queue : (s.world.pools s.manager.threadPool_).task_queue = some q
  installed : (s.world.queues q).recorders_ = recorders
  others : ∀ r, r ≠ q → (s.world.queues r).queue_ = []
  queueMade : q < s.world.queueCount
  poolMade : s.manager.threadPool_ < s.world.poolCount
  served : ∀ c ∈ s.served, c.pool < s.world.poolCount ∧ (s.world.pools c.pool).task_queue = some q

/-- The invariant: every call has at most one seat, and is what its seat says. -/
structure Custody (recorders : List RecorderRef) (q : QueueRef) (s : Calls) : Prop
    extends Wired recorders q s where
  single : ((seats q s).map Seat.task).Nodup
  known : ∀ x ∈ seats q s, x.task < s.world.taskCount ∧ x.Ok s.world
  unknown : ∀ t : Nat, s.world.taskCount ≤ t →
    settlements t s.world.trace = [] ∧ journalOf t s.world.trace = []

section
variable {q : QueueRef} {s : Calls}

theorem mem_seats {x : Seat} : x ∈ seats q s ↔ (∃ t ∈ s.made, .made t = x) ∨
    (∃ e ∈ (s.world.queues q).queue_, .waiting e = x) ∨ ∃ c ∈ s.served, .served c = x := by
  simp only [seats, seatsOf, List.mem_append, List.mem_map, or_assoc]

theorem seat_made {t : TaskRef} (h : t ∈ s.made) : .made t ∈ seats q s :=
  mem_seats.mpr (Or.inl ⟨t, h, rfl⟩)

theorem seat_waiting {e : TaskRef × CallID} (h : e ∈ (s.world.queues q).queue_) :
    .waiting e ∈ seats q s :=
  mem_seats.mpr (Or.inr (Or.inl ⟨e, h, rfl⟩))

end

/-! Each step is one of `Stepped`. -/

/-- The step `e` leads from `s` to `t`, in one of the ways there are. -/
def Steps (q : QueueRef) (s : Calls) (e : Step) (t : Calls) : Prop :=
  ∃ old new, Stepped q s e old new t

section
variable {q : QueueRef} {s t : Calls}

theorem steps_arrive {number : List Char} {now : TimePoint}
    (h : s.arrive number now = some t) : Steps q s (.arrive number now) t := by
  unfold Calls.arrive at h
  rw [run_construct] at h
  split at h
  · rename_i hclock
    cases h
    exact ⟨_, _, .arrived number now hclock⟩
  · cases h

theorem steps_readClock {k : Nat} {now : TimePoint}
    (h : s.readClock k now = some t) : Steps q s (.readClock k now) t := by
  unfold Calls.readClock at h
  split at h
  · rename_i p e readings hk
    split at h
    · rename_i hclock
      cases h
      exact ⟨_, _, .clockRead hk hclock.1⟩
    · cases h
  · cases h

theorem steps_doTask {k : Nat} {fails : DoTaskStep → Option StdException} {draw : Int}
    (h : s.doTask k fails draw = some t) : Steps q s (.doTask k fails draw) t := by
  unfold Calls.doTask at h
  split at h
  · rename_i p e now operatorCallTime endTime hk
    split at h
    · rename_i r v hrun
      cases h
      obtain ⟨hret, rfl, rfl⟩ := Task.doTask_ok hrun
      exact ⟨_, _, .returned ⟨fails, now, operatorCallTime, endTime, draw⟩ hk hret⟩
    · rename_i x v hrun
      cases h
      obtain ⟨u, hown, hv⟩ := doTask_throws hrun
      exact ⟨_, _, .thrown fails draw hk hown hv⟩
    · cases h
  · cases h

theorem run_writeCDR {p : PoolRef} {w : World} (h : (w.pools p).task_queue = some q) (x : TaskRef) :
    (writeCDR p x).run w = (.ok (), w.journal q x) := by
  have hpool : (readPool p).run w = (.ok (w.pools p), w) := rfl
  rw [writeCDR, Exec.run_bind_ok hpool, h]
  exact Queue.run_writeCDR q x w

theorem settling_ok {x : TaskRef} {c : Stage} {w v : World} (h : (settling x c).run w = (.ok (), v)) :
    ∃ y, c.outcome = some y ∧ (w.tasks x).promise_.state = none ∧ v = w.settled x y := by
  have hagain : ∀ y, (w.tasks x).promise_.state ≠ none → (settle x y).run w ≠ (.ok (), v) := by
    intro y hne heq
    rw [run_settle_again y hne] at heq
    cases heq
  cases c with
  | running readings => cases h
  | returned r => cases h
  | written r =>
    by_cases hpend : (w.tasks x).promise_.state = none
    · have hset : (set_value x r).run w = (.ok (), w.settled x (.value r)) := run_settle _ hpend
      rw [settling, Exec.run_tryCatch_ok hset] at h
      cases h
      exact ⟨_, rfl, hpend, rfl⟩
    · have hset : (set_value x r).run w = (.throws .promise_already_satisfied, w) := run_settle_again _ hpend
      rw [settling, Exec.run_tryCatch_throws hset] at h
      exact absurd h (hagain _ hpend)
  | thrown e =>
    by_cases hpend : (w.tasks x).promise_.state = none
    · have hset : (set_exception x e).run w = (.ok (), w.settled x (.exception e)) := run_settle _ hpend
      rw [settling, hset] at h
      cases h
      exact ⟨_, rfl, hpend, rfl⟩
    · exact absurd h (hagain _ hpend)

theorem steps_settle {k : Nat} (h : s.settle k = some t) :
    Steps q s (.settle k) t := by
  unfold Calls.settle at h
  split at h
  · rename_i c hk
    split at h
    · rename_i v hrun
      cases h
      obtain ⟨y, hy, hpend, rfl⟩ := settling_ok hrun
      exact ⟨_, _, .settled hk hy hpend⟩
    · cases h
  · cases h

theorem swapped_queue {pools : PoolRef → ThreadPool} {p old : PoolRef}
    (hold : (pools old).task_queue = some q) {r : PoolRef} (h : r = p ∨ (pools r).task_queue = some q) :
    (Manager.swapped pools p old r).task_queue = some q := by
  unfold Manager.swapped
  by_cases hp : r = p
  · subst hp
    rw [Function.update_self, ThreadPool.resumed_task_queue]
    exact hold
  · have hr := h.resolve_left hp
    rw [Function.update_of_ne hp]
    by_cases ho : r = old
    · subst ho
      rw [Function.update_self]
      exact hr
    · rw [Function.update_of_ne ho]
      exact hr

end

namespace Custody
variable {recorders : List RecorderRef} {q : QueueRef} {s t : Calls}

theorem task_inj (hs : Custody recorders q s) {x y : Seat} (hx : x ∈ seats q s) (hy : y ∈ seats q s)
    (h : x.task = y.task) : x = y :=
  List.inj_on_of_nodup_map hs.single hx hy h

theorem waiting_unresolved (hs : Custody recorders q s) {d : TaskRef × CallID}
    (hd : d ∈ (s.world.queues q).queue_) : Unresolved s.world d.1 :=
  (hs.known _ (seat_waiting hd)).2.1

theorem addTask {hash : ThreadId → UInt64} (hs : Custody recorders q s) {k : Nat} {thread : ThreadId}
    {now : TimePoint} (h : s.addTask hash k thread now = some t) : Steps q s (.addTask k thread now) t := by
  unfold Calls.addTask at h
  cases hk : s.made[k]? with
  | none =>
    rw [hk] at h
    cases h
  | some x =>
    rw [hk] at h
    simp only at h
    split at h
    · rename_i hclock
      have hx := seat_made (q := q) (List.mem_of_getElem? hk)
      obtain ⟨hun, hfut⟩ := (hs.known _ hx).2
      have hwaiting : ∀ d ∈ (s.world.queues q).queue_, d.1 ≠ x ∧ (s.world.tasks d.1).promise_.state = none := by
        intro d hd
        refine ⟨fun heq => ?_, (hs.waiting_unresolved hd).pending⟩
        cases hs.task_inj (seat_waiting hd) hx heq
      cases hrun : (ThreadPool.add_task hash thread now s.manager.threadPool_ x).run s.world with
      | mk o v =>
        rw [hrun] at h
        rcases add_task_cases hs.queue hwaiting hun.pending hfut hrun with rfl | ⟨⟨y, rfl⟩, rfl⟩ | ⟨id, old, new, rfl, hlog, hpush⟩
        · cases h
        · cases h
          exact ⟨_, _, .dropped thread hk hclock⟩
        · cases h
          exact ⟨_, _, .added thread hk hclock hlog hpush⟩
    · cases h

theorem take {hash : ThreadId → UInt64} (hs : Custody recorders q s) {thread : ThreadId} {p : PoolRef}
    (h : s.take hash thread p = some t) : Steps q s (.take thread p) t := by
  unfold Calls.take at h
  split at h
  · rename_i hmade
    split at h
    · rename_i e v hrun
      cases h
      -- only `q` has entries
      have honly : ∀ r d rest, (s.world.queues r).queue_ = d :: rest → r = q := by
        intro r d rest hr
        by_contra hne
        rw [hs.others r hne] at hr
        cases hr
      have hlog : ∀ r d rest, (s.world.pools p).task_queue = some r → (s.world.queues r).queue_ = d :: rest →
          (s.world.tasks d.1).logger_ = true := by
        intro r d rest _ hr
        have hd : d ∈ (s.world.queues q).queue_ := by
          rw [← honly r d rest hr, hr]
          exact List.mem_cons_self
        exact (hs.known _ (seat_waiting hd)).2.2
      obtain ⟨r, rest, hp, hes, rfl⟩ := CallFlow.dequeue_some hlog hrun
      obtain rfl := honly r e rest hes
      exact ⟨_, _, .taken thread (hash thread) hmade hp hes⟩
    · cases h
  · cases h

theorem journal (hs : Custody recorders q s) {k : Nat} (h : s.journal k = some t) :
    Steps q s (.writeCDR k) t := by
  unfold Calls.journal at h
  split at h
  · rename_i p e r hk
    rw [run_writeCDR (hs.served _ (List.mem_of_getElem? hk)).2] at h
    cases h
    exact ⟨_, _, .journalled hk⟩
  · cases h

theorem configure (hs : Custody recorders q s) {x : Exec World Unit} (e : Step)
    (hx : Respects (Reconfigures q) x) (h : s.configure x = some t) : Steps q s e t := by
  unfold Calls.configure at h
  split at h
  · rename_i v hrun
    cases h
    have hr := hx.of_run hrun
    refine ⟨_, _, .reconfigured e hr ⟨?_, ?_⟩ (Or.inl rfl) rfl⟩
    · exact Nat.lt_of_lt_of_le hs.poolMade hr.poolCount
    · exact hr.pools _ hs.poolMade hs.queue
  · cases h

theorem swap (hs : Custody recorders q s) {operators size : Int}
    (h : s.swap operators size = some t) : Steps q s (.swap operators size) t := by
  unfold Calls.swap at h
  split at h
  · rename_i p v hbuild
    have hr := (Reconfigures.buildPool (q := q) _ operators size).of_run hbuild
    obtain ⟨hge, hlt⟩ := CallFlow.buildPool_ok hbuild
    -- the new pool has a new reference, so it is not the manager's
    have hne : p ≠ s.manager.threadPool_ := Nat.ne_of_gt (Nat.lt_of_lt_of_le hs.poolMade hge)
    rw [Manager.run_setNewThreadPool hne] at h
    cases h
    have hold := hr.pools _ hs.poolMade hs.queue
    refine ⟨_, _, .reconfigured _ (hr.trans _ _ _ ?_) ⟨hlt, swapped_queue hold (Or.inl rfl)⟩ (Or.inl rfl) rfl⟩
    exact ⟨rfl, rfl, rfl, fun _ => rfl, fun _ => rfl, id, Nat.le_refl _, Nat.le_refl _,
      fun r _ hq => swapped_queue hold (Or.inr hq)⟩
  · rename_i x v hbuild
    cases h
    have hr := (Reconfigures.buildPool (q := q) _ operators size).of_run hbuild
    refine ⟨_, _, .reconfigured _ hr ⟨?_, ?_⟩ (Or.inl rfl) rfl⟩
    · exact Nat.lt_of_lt_of_le hs.poolMade hr.poolCount
    · exact hr.pools _ hs.poolMade hs.queue
  · cases h

theorem stepped {hash : ThreadId → UInt64} {e : Step} (hs : Custody recorders q s)
    (h : (system hash).step s e = some t) : Steps q s e t := by
  cases e with
  | arrive number now => exact steps_arrive h
  | addTask k thread pushNow => exact hs.addTask h
  | take thread p => exact hs.take h
  | readClock k now => exact steps_readClock h
  | doTask k fails draw => exact steps_doTask h
  | writeCDR k => exact hs.journal h
  | settle k => exact steps_settle h
  | startThreadPool => exact hs.configure _ (Reconfigures.start _) h
  | stopThreadPool => exact hs.configure _ (Reconfigures.stop _) h
  | setMinMax minMax =>
    cases h
    exact ⟨_, _, .reconfigured _ (Reconfigures.refl _) ⟨hs.poolMade, hs.queue⟩ (Or.inr rfl) rfl⟩
  | updateQueue size => exact hs.configure _ (Reconfigures.updateQueue _ size) h
  | swap operators size => exact hs.swap h

end Custody

/-! What a step leaves alone. -/

theorem sameCall_of_trace {u : TaskRef} {w v : World} (es : List Event)
    (hstate : (v.tasks u).promise_.state = (w.tasks u).promise_.state) (htrace : v.trace = w.trace ++ es)
    (hquiet : ∀ e ∈ es, e.quiet = true) : SameCall u w v := by
  refine ⟨hstate, ?_, ?_⟩
  · rw [htrace, settlements_append, settlements_quiet hquiet, List.append_nil]
  · rw [htrace, journalOf_append, journalOf_quiet hquiet, List.append_nil]

/-- Nothing about the call changed between two worlds. -/
structure Untouched (u : TaskRef) (w v : World) : Prop where
  task : v.tasks u = w.tasks u
  settlements : settlements u v.trace = settlements u w.trace
  journal : journalOf u v.trace = journalOf u w.trace

theorem arrived_quiet (w : World) (k : Task) :
    ∀ e ∈ (if k.logger_ then [Event.readNumber w.taskCount] else []), e.quiet = true := by
  intro e he
  split at he
  · rw [List.mem_singleton.mp he]
    rfl
  · cases he

namespace Untouched
variable {u t : TaskRef} {w v x : World}

theorem refl (w : World) : Untouched u w w := ⟨rfl, rfl, rfl⟩

theorem trans (h : Untouched u w v) (h' : Untouched u v x) : Untouched u w x :=
  ⟨h'.task.trans h.task, h'.settlements.trans h.settlements, h'.journal.trans h.journal⟩

theorem of_sameCall (htask : v.tasks u = w.tasks u) (h : SameCall u w v) : Untouched u w v :=
  ⟨htask, h.settlements, h.journal⟩

theorem sameCall (h : Untouched u w v) : SameCall u w v :=
  ⟨by rw [h.task], h.settlements, h.journal⟩

theorem of_trace (htask : v.tasks u = w.tasks u) (es : List Event) (htrace : v.trace = w.trace ++ es)
    (hquiet : ∀ e ∈ es, e.quiet = true) : Untouched u w v :=
  of_sameCall htask (sameCall_of_trace es (by rw [htask]) htrace hquiet)

theorem setEntries (w : World) (q : QueueRef) (es : List (TaskRef × CallID)) :
    Untouched u w (w.setEntries q es) := ⟨rfl, rfl, rfl⟩

theorem settled (h : u ≠ t) (w : World) (y : Settled Result) : Untouched u w (w.settled t y) :=
  of_sameCall (by simp [World.settled, h]) (SameCall.settled h w y)

theorem journalled (h : u ≠ t) (w : World) (q : QueueRef) : Untouched u w (w.journal q t) :=
  of_sameCall rfl (SameCall.written h w q)

theorem refused {e : TaskRef × CallID} (h : u ≠ e.1) (w : World) (q : QueueRef) (now : TimePoint)
    (isDuplication : Bool) : Untouched u w (w.refused q now e isDuplication) := by
  refine of_sameCall ?_ (SameCall.refused h w q now isDuplication)
  simp [World.refused, World.closed, World.journal, World.settled, h]

theorem admitted (h : u ≠ t) (w : World) (id : CallID) : Untouched u w (w.admitted t id) := by
  refine of_trace (admitted_tasks w t id h) [.readNumber t, .readNumber t] ?_ (by simp [Event.quiet])
  simp [World.admitted, World.retrieved, Task.identified]

theorem arrived (h : u ≠ w.taskCount) (k : Task) : Untouched u w (w.arrived k) :=
  of_trace (by simp [World.arrived, h]) _ rfl (arrived_quiet w k)

theorem searched (w : World) (q : QueueRef) (t : TaskRef) : Untouched u w (Queue.searched w q t) :=
  of_sameCall rfl (SameCall.of_undisturbed (undisturbed_searched w q t))

theorem served {env : Service} (h : u ≠ t) (hret : Task.Returns env (w.tasks t)) :
    Untouched u w (w.served env t) :=
  of_sameCall (by simp [World.served, h]) (SameCall.of_undisturbed (served_undisturbed hret))

theorem own (hown : Own t w v) (h : u ≠ t) : Untouched u w v := by
  obtain ⟨es, htrace, hes⟩ := hown.trace
  exact of_trace (hown.others u h) es htrace (fun e he => Event.quiet_of_own (hes e he))

end Untouched

theorem PushedTo.untouched {q : QueueRef} {now : TimePoint} {e : TaskRef × CallID} {w v : World}
    {old : List Seat} {new : Option Seat} {u : TaskRef} (h : PushedTo q now e w old new v) (hu : u ≠ e.1)
    (hold : ∀ x ∈ old, x.task ≠ u) : Untouched u w v := by
  cases h with
  | fresh => exact (Untouched.searched w q e.1).trans (Untouched.setEntries _ _ _)
  | duplicate i d hi =>
    have hd : u ≠ d.1 := Ne.symm (hold (.waiting d) List.mem_cons_self)
    exact ((Untouched.searched w q e.1).trans (Untouched.refused hd _ q now true)).trans (Untouched.setEntries _ _ _)
  | overloaded => exact Untouched.refused hu w q now false

namespace Stepped
variable {q : QueueRef} {s t : Calls} {e : Step} {old : List Seat} {new : Option Seat} {u : TaskRef}

/-- A step changes nothing of a call that neither loses its seat nor gets one. -/
theorem untouched (h : Stepped q s e old new t) (hold : ∀ x ∈ old, x.task ≠ u)
    (hnew : ∀ x, new = some x → x.task ≠ u) :
    Untouched u s.world t.world ∧ t.ids u = s.ids u ∧ t.begun u = s.begun u := by
  cases h with
  | arrived number now hclock => exact ⟨Untouched.arrived (Ne.symm (hnew _ rfl)) _, rfl, rfl⟩
  | dropped thread hk hclock => exact ⟨Untouched.of_trace rfl _ rfl (by simp [Event.quiet]), rfl, rfl⟩
  | @added k x now id out _ v thread hk hclock hlog hpush =>
    have hu : u ≠ x := Ne.symm (hold (.made x) List.mem_cons_self)
    have hout := hpush.untouched hu (fun y hy => hold y (List.mem_cons_of_mem _ hy))
    exact ⟨(Untouched.admitted hu s.world id).trans hout, Function.update_of_ne hu _ _, rfl⟩
  | taken thread id hmade hp hes =>
    have hu := Ne.symm (hold (.waiting _) List.mem_cons_self)
    refine ⟨Untouched.of_trace ?_ _ rfl (by simp [Event.quiet]), rfl, rfl⟩
    exact Function.update_of_ne hu _ _
  | clockRead hk hclock =>
    have hu := Ne.symm (hold (.served _) List.mem_cons_self)
    refine ⟨Untouched.refl _, rfl, ?_⟩
    show (if _ then Function.update s.begun _ _ else s.begun) u = s.begun u
    split
    · exact Function.update_of_ne hu _ _
    · rfl
  | returned env hk hret =>
    have hu := Ne.symm (hold (.served _) List.mem_cons_self)
    exact ⟨Untouched.served hu hret, rfl, rfl⟩
  | thrown fails draw hk hown hv =>
    have hu := Ne.symm (hold (.served _) List.mem_cons_self)
    rcases hv with rfl | ⟨_, y, rfl⟩
    · exact ⟨Untouched.own hown hu, rfl, rfl⟩
    · exact ⟨(Untouched.own hown hu).trans (Untouched.settled hu _ _), rfl, rfl⟩
  | journalled hk =>
    have hu := Ne.symm (hold (.served _) List.mem_cons_self)
    exact ⟨Untouched.journalled hu s.world q, rfl, rfl⟩
  | settled hk hx hpend =>
    have hu := Ne.symm (hold (.served _) List.mem_cons_self)
    exact ⟨Untouched.settled hu s.world _, rfl, rfl⟩
  | reconfigured e hr hpool hlimits hsame =>
    refine ⟨⟨by rw [hr.tasks], by rw [hr.trace], by rw [hr.trace]⟩, ?_, ?_⟩
    · rw [hsame]
    · rw [hsame]

end Stepped

/-! The seats before and after. -/

section
variable {α : Type} {l : List α} {k : Nat} {a : α}

theorem perm_eraseIdx (h : l[k]? = some a) : l.Perm ([a] ++ l.eraseIdx k) := by
  obtain ⟨hlt, hget⟩ := List.getElem?_eq_some_iff.mp h
  rw [← hget]
  exact (List.getElem_cons_eraseIdx_perm hlt).symm

theorem perm_set (h : l[k]? = some a) (b : α) : (l.set k b).Perm ([b] ++ l.eraseIdx k) := by
  obtain ⟨hlt, _⟩ := List.getElem?_eq_some_iff.mp h
  have hset : (l.set k b)[k]? = some b := List.getElem?_set_self hlt
  have hperm := perm_eraseIdx hset
  rwa [List.eraseIdx_set_eq] at hperm

end

theorem perm_interleave {α : Type} (a b c d : List α) : (a ++ b ++ (c ++ d)).Perm (a ++ c ++ (b ++ d)) := by
  rw [List.append_assoc, List.append_assoc]
  exact (List.perm_append_comm_assoc b c d).append_left a

theorem seatsOf_perm {made m : List TaskRef} {queue es : List (TaskRef × CallID)} {served vs : List Served}
    (a : List TaskRef) (b : List (TaskRef × CallID)) (c : List Served) (hmade : made.Perm (a ++ m))
    (hqueue : queue.Perm (b ++ es)) (hserved : served.Perm (c ++ vs)) :
    (seatsOf made queue served).Perm (seatsOf a b c ++ seatsOf m es vs) := by
  have hperm := ((hmade.map Seat.made).append (hqueue.map Seat.waiting)).append (hserved.map Seat.served)
  simp only [List.map_append] at hperm
  have hfirst := (perm_interleave (a.map Seat.made) (m.map .made) (b.map .waiting) (es.map .waiting)).append_right
    (c.map Seat.served ++ vs.map .served)
  exact hperm.trans (hfirst.trans (perm_interleave _ _ _ _))

theorem setEntries_queue (w : World) (q : QueueRef) (es : List (TaskRef × CallID)) :
    ((w.setEntries q es).queues q).queue_ = es := by
  simp [World.setEntries]

namespace Stepped
variable {recorders : List RecorderRef} {q : QueueRef} {s t : Calls} {e : Step} {old : List Seat} {new : Option Seat}

/-- A step gives `new` a seat in the place of `old`, and every other seat stays. -/
theorem moves (h : Stepped q s e old new t) (hq : q < s.world.queueCount) :
    ∃ rest, (seats q s).Perm (old ++ rest) ∧ (seats q t).Perm (new.toList ++ rest) := by
  cases h with
  | arrived number now hclock =>
    exact ⟨_, seatsOf_perm [] [] [] .rfl .rfl .rfl,
      seatsOf_perm [_] [] [] List.perm_append_comm .rfl .rfl⟩
  | dropped thread hk hclock =>
    exact ⟨_, seatsOf_perm [_] [] [] (perm_eraseIdx hk) .rfl .rfl,
      seatsOf_perm [] [] [] .rfl .rfl .rfl⟩
  | added thread hk hclock hlog hpush =>
    cases hpush with
    | fresh =>
      refine ⟨_, seatsOf_perm [_] [] [] (perm_eraseIdx hk) .rfl .rfl,
        seatsOf_perm [] [_] [] .rfl ?_ .rfl⟩
      rw [setEntries_queue]
      exact List.perm_append_comm
    | duplicate i d hi =>
      refine ⟨_, seatsOf_perm [_] [_] [] (perm_eraseIdx hk) (perm_eraseIdx hi) .rfl,
        seatsOf_perm [] [_] [] .rfl ?_ .rfl⟩
      rw [setEntries_queue]
      exact List.perm_append_comm
    | overloaded =>
      exact ⟨_, seatsOf_perm [_] [] [] (perm_eraseIdx hk) .rfl .rfl,
        seatsOf_perm [] [] [] .rfl .rfl .rfl⟩
  | taken thread id hmade hp hes =>
    refine ⟨_, seatsOf_perm [] [_] [] .rfl (.of_eq hes) .rfl,
      seatsOf_perm [] [] [_] .rfl ?_ List.perm_append_comm⟩
    rw [setEntries_queue]
    exact .rfl
  | clockRead hk hclock =>
    exact ⟨_, seatsOf_perm [] [] [_] .rfl .rfl (perm_eraseIdx hk),
      seatsOf_perm [] [] [_] .rfl .rfl (perm_set hk _)⟩
  | returned env hk hret =>
    exact ⟨_, seatsOf_perm [] [] [_] .rfl .rfl (perm_eraseIdx hk),
      seatsOf_perm [] [] [_] .rfl .rfl (perm_set hk _)⟩
  | thrown fails draw hk hown hv =>
    refine ⟨_, seatsOf_perm [] [] [_] .rfl .rfl (perm_eraseIdx hk),
      seatsOf_perm [] [] [_] .rfl (.of_eq ?_) (perm_set hk _)⟩
    rcases hv with rfl | ⟨_, y, rfl⟩
    · exact congrArg (fun f => (f q).queue_) hown.queues
    · exact congrArg (fun f => (f q).queue_) hown.queues
  | journalled hk =>
    exact ⟨_, seatsOf_perm [] [] [_] .rfl .rfl (perm_eraseIdx hk),
      seatsOf_perm [] [] [_] .rfl .rfl (perm_set hk _)⟩
  | settled hk hx hpend =>
    exact ⟨_, seatsOf_perm [] [] [_] .rfl .rfl (perm_eraseIdx hk),
      seatsOf_perm [] [] [] .rfl .rfl .rfl⟩
  | reconfigured e hr hpool hlimits hsame =>
    refine ⟨_, seatsOf_perm [] [] [] .rfl .rfl .rfl,
      seatsOf_perm [] [] [] ?_ ?_ ?_⟩
    · rw [hsame]
      exact .rfl
    · exact .of_eq (hr.entries hq)
    · rw [hsame]
      exact .rfl

end Stepped

/-! What every step keeps. -/

/-- The pools and the queues are as they were, but for the entries of `q`. -/
structure SamePools (q : QueueRef) (w v : World) : Prop where
  recorders : (v.queues q).recorders_ = (w.queues q).recorders_
  queues : ∀ r, r ≠ q → v.queues r = w.queues r
  queueCount : v.queueCount = w.queueCount
  pools : v.pools = w.pools
  poolCount : v.poolCount = w.poolCount

namespace SamePools
variable {q : QueueRef} {w v : World}

theorem of_queues (hq : v.queues = w.queues) (hcount : v.queueCount = w.queueCount) (hp : v.pools = w.pools)
    (hpools : v.poolCount = w.poolCount) : SamePools q w v :=
  ⟨by rw [hq], fun r _ => by rw [hq], hcount, hp, hpools⟩

theorem setEntries (h : SamePools q w v) (es : List (TaskRef × CallID)) : SamePools q w (v.setEntries q es) where
  recorders := by
    rw [← h.recorders]
    simp [World.setEntries]
  queues := by
    intro r hr
    rw [← h.queues r hr]
    simp [World.setEntries, hr]
  queueCount := h.queueCount
  pools := h.pools
  poolCount := h.poolCount

end SamePools

theorem PushedTo.samePools {q : QueueRef} {now : TimePoint} {e : TaskRef × CallID} {w v : World}
    {old : List Seat} {new : Option Seat} (h : PushedTo q now e w old new v) : SamePools q w v := by
  cases h with
  | fresh =>
    apply SamePools.setEntries
    exact .of_queues rfl rfl rfl rfl
  | duplicate i d hi =>
    apply SamePools.setEntries
    exact .of_queues rfl rfl rfl rfl
  | overloaded => exact SamePools.of_queues rfl rfl rfl rfl

theorem Wired.same {recorders : List RecorderRef} {q : QueueRef} {s t : Calls} (hs : Wired recorders q s)
    (h : SamePools q s.world t.world) (hpool : t.manager = s.manager)
    (hserved : ∀ c ∈ t.served, c.pool < s.world.poolCount ∧ (s.world.pools c.pool).task_queue = some q) :
    Wired recorders q t where
  queue := by
    rw [h.pools, hpool]
    exact hs.queue
  installed := h.recorders.trans hs.installed
  others := by
    intro r hr
    rw [h.queues r hr]
    exact hs.others r hr
  queueMade := h.queueCount ▸ hs.queueMade
  poolMade := by
    rw [h.poolCount, hpool]
    exact hs.poolMade
  served := by
    rw [h.pools, h.poolCount]
    exact hserved

namespace Stepped
variable {recorders : List RecorderRef} {q : QueueRef} {s t : Calls} {e : Step} {old : List Seat} {new : Option Seat}

theorem wired (h : Stepped q s e old new t) (hs : Wired recorders q s) : Wired recorders q t := by
  -- a worker goes on with its call
  have hset : ∀ {k : Nat} {p : PoolRef} {e : TaskRef × CallID} {b c : Stage}, s.served[k]? = some ⟨p, e, b⟩ →
      ∀ x ∈ s.served.set k ⟨p, e, c⟩, x.pool < s.world.poolCount ∧ (s.world.pools x.pool).task_queue = some q := by
    intro k p e b c hk x hx
    rcases List.mem_or_eq_of_mem_set hx with hx | rfl
    · exact hs.served x hx
    · exact hs.served ⟨p, e, b⟩ (List.mem_of_getElem? hk)
  cases h with
  | arrived number now hclock => exact hs.same (.of_queues rfl rfl rfl rfl) rfl hs.served
  | dropped thread hk hclock => exact hs.same (.of_queues rfl rfl rfl rfl) rfl hs.served
  | added thread hk hclock hlog hpush =>
    have hpools := hpush.samePools
    exact hs.same ⟨hpools.recorders, hpools.queues, hpools.queueCount, hpools.pools, hpools.poolCount⟩ rfl hs.served
  | taken thread id hmade hp hes =>
    refine hs.same ?_ rfl (fun x hx => ?_)
    · apply SamePools.setEntries
      exact .of_queues rfl rfl rfl rfl
    · rcases List.mem_append.mp hx with hx | hx
      · exact hs.served x hx
      · rw [List.mem_singleton.mp hx]
        exact ⟨hmade, hp⟩
  | clockRead hk hclock => exact hs.same (.of_queues rfl rfl rfl rfl) rfl (hset hk)
  | returned env hk hret => exact hs.same (.of_queues rfl rfl rfl rfl) rfl (hset hk)
  | thrown fails draw hk hown hv =>
    refine hs.same ?_ rfl (hset hk)
    rcases hv with rfl | ⟨_, y, rfl⟩
    · exact .of_queues hown.queues hown.queueCount hown.pools hown.poolCount
    · exact .of_queues hown.queues hown.queueCount hown.pools hown.poolCount
  | journalled hk => exact hs.same (.of_queues rfl rfl rfl rfl) rfl (hset hk)
  | settled hk hx hpend =>
    exact hs.same (.of_queues rfl rfl rfl rfl) rfl (fun x hx => hs.served x (List.mem_of_mem_eraseIdx hx))
  | reconfigured e hr hpool hlimits hsame =>
    refine ⟨hpool.2, (hr.recorders hs.queueMade).trans hs.installed, hr.others hs.others, ?_, hpool.1, ?_⟩
    · exact Nat.lt_of_lt_of_le hs.queueMade hr.queueCount
    · intro c hc
      rw [hsame] at hc
      obtain ⟨hlt, hq⟩ := hs.served c hc
      exact ⟨Nat.lt_of_lt_of_le hlt hr.poolCount, hr.pools _ hlt hq⟩

/-- The call that gets a seat had one, or its task was just made. -/
theorem seated (h : Stepped q s e old new t) {x : Seat} (hx : new = some x) :
    (∃ y ∈ old, y.task = x.task) ∨
      (x.task = s.world.taskCount ∧ t.world.taskCount = s.world.taskCount + 1) := by
  cases h with
  | arrived number now hclock =>
    cases hx
    exact Or.inr ⟨rfl, rfl⟩
  | added thread hk hclock hlog hpush =>
    refine Or.inl ⟨_, List.mem_cons_self, ?_⟩
    cases hpush with
    | fresh =>
      cases hx
      rfl
    | duplicate i d hi =>
      cases hx
      rfl
    | overloaded => cases hx
  | dropped thread hk hclock => cases hx
  | settled hk hx' hpend => cases hx
  | reconfigured e hr hpool hlimits hsame => cases hx
  | taken thread id hmade hp hes =>
    cases hx
    exact Or.inl ⟨_, List.mem_cons_self, rfl⟩
  | clockRead hk hclock | returned env hk hret | thrown fails draw hk hown hv | journalled hk =>
    cases hx
    exact Or.inl ⟨_, List.mem_cons_self, rfl⟩

theorem taskCount (h : Stepped q s e old new t) : s.world.taskCount ≤ t.world.taskCount := by
  cases h with
  | arrived number now hclock => exact Nat.le_succ _
  | added thread hk hclock hlog hpush => cases hpush <;> exact Nat.le_refl _
  | thrown fails draw hk hown hv =>
    rcases hv with rfl | ⟨_, y, rfl⟩
    · exact Nat.le_of_eq hown.taskCount.symm
    · exact Nat.le_of_eq hown.taskCount.symm
  | reconfigured e hr hpool hlimits hsame => exact Nat.le_of_eq hr.taskCount.symm
  | dropped thread hk hclock => exact Nat.le_refl _
  | taken thread id hmade hp hes => exact Nat.le_refl _
  | settled hk hx hpend => exact Nat.le_refl _
  | clockRead hk hclock | returned env hk hret | journalled hk => exact Nat.le_refl _

end Stepped

/-! The invariant. -/

theorem Seat.Ok.untouched {x : Seat} {w v : World} (h : x.Ok w) (hu : Untouched x.task w v) : x.Ok v := by
  have hsame := hu.sameCall
  cases x with
  | made t => exact ⟨hsame.unresolved h.1, (congrArg (fun k => k.promise_.retrieved) hu.task).trans h.2⟩
  | waiting e => exact ⟨hsame.unresolved h.1, (congrArg Task.logger_ hu.task).trans h.2⟩
  | served c =>
    obtain ⟨p, e, stage⟩ := c
    cases stage with
    | running readings => exact hsame.unresolved h
    | returned r => exact hsame.unresolved h
    | written r => exact ⟨hsame.state.trans h.1, hsame.settlements.trans h.2⟩
    | thrown y => trivial

theorem admitted_same (w : World) (t : TaskRef) (id : CallID) : SameCall t w (w.admitted t id) := by
  refine sameCall_of_trace [.readNumber t, .readNumber t] ?_ ?_ (by simp [Event.quiet])
  · rw [admitted_promise]
  · simp [World.admitted, World.retrieved, Task.identified]

theorem admitted_logger (w : World) (t : TaskRef) (id : CallID) :
    ((w.admitted t id).tasks t).logger_ = (w.tasks t).logger_ := by
  simp [World.admitted, World.retrieved, Task.identified]

theorem PushedTo.kept {q : QueueRef} {now : TimePoint} {e : TaskRef × CallID} {w v : World} {old : List Seat}
    {x : Seat} (h : PushedTo q now e w old (some x) v) (hold : ∀ y ∈ old, y.task ≠ e.1) :
    x = .waiting e ∧ Untouched e.1 w v := by
  cases h with
  | fresh => exact ⟨rfl, (Untouched.searched w q e.1).trans (Untouched.setEntries _ _ _)⟩
  | duplicate i d hi =>
    have hd : e.1 ≠ d.1 := Ne.symm (hold (.waiting d) List.mem_cons_self)
    exact ⟨rfl, ((Untouched.searched w q e.1).trans (Untouched.refused hd _ q now true)).trans
      (Untouched.setEntries _ _ _)⟩

namespace Custody
variable {recorders : List RecorderRef} {q : QueueRef} {s t : Calls} {e : Step} {old : List Seat}
  {new : Option Seat}

/-- The seats that a step takes calls from are seats, of different calls. -/
theorem old_seats (hs : Custody recorders q s) (h : Stepped q s e old new t) :
    (∀ x ∈ old, x ∈ seats q s) ∧ (old.map Seat.task).Nodup := by
  obtain ⟨rest, hbefore, _⟩ := h.moves hs.queueMade
  refine ⟨fun x hx => hbefore.mem_iff.mpr (List.mem_append_left _ hx), ?_⟩
  have hnodup := (hbefore.map Seat.task).nodup_iff.mp hs.single
  rw [List.map_append] at hnodup
  exact hnodup.of_append_left

theorem ok_new (hs : Custody recorders q s) (h : Stepped q s e old new t) {x : Seat} (hx : new = some x) :
    x.Ok t.world := by
  obtain ⟨hold, hnodup⟩ := hs.old_seats h
  have hok : ∀ y ∈ old, y.Ok s.world := fun y hy => (hs.known y (hold y hy)).2
  cases h with
  | arrived number now hclock =>
    cases hx
    have htask : (s.world.arrived (s.newTask number now)).tasks s.world.taskCount = s.newTask number now := by
      simp [World.arrived]
    obtain ⟨hset, hjou⟩ := hs.unknown _ (Nat.le_refl _)
    have hquiet := arrived_quiet s.world (s.newTask number now)
    refine ⟨⟨?_, ?_, ?_⟩, ?_⟩
    · rw [htask]
      rfl
    · show settlements _ (s.world.trace ++ _) = []
      rw [settlements_append, settlements_quiet hquiet, List.append_nil, hset]
    · show journalOf _ (s.world.trace ++ _) = []
      rw [journalOf_append, journalOf_quiet hquiet, List.append_nil, hjou]
    · rw [htask]
      rfl
  | @added k u now id out _ v thread hk hclock hlog hpush =>
    subst hx
    have hmade : (Seat.made u).Ok s.world := hok _ List.mem_cons_self
    have hout : ∀ y ∈ out, y.task ≠ u := by
      intro y hy heq
      rw [List.map_cons, List.nodup_cons] at hnodup
      exact hnodup.1 (List.mem_map.mpr ⟨y, hy, heq⟩)
    obtain ⟨rfl, hkept⟩ := hpush.kept hout
    refine ⟨hkept.sameCall.unresolved ((admitted_same _ _ _).unresolved hmade.1), ?_⟩
    rw [hkept.task, admitted_logger]
    exact hlog
  | dropped thread hk hclock => cases hx
  | @taken p d rest thread id hmade hp hes =>
    cases hx
    have hwaiting : (Seat.waiting d).Ok s.world := hok _ List.mem_cons_self
    refine (sameCall_of_trace [.readNumber d.1] ?_ rfl (by simp [Event.quiet])).unresolved hwaiting.1
    simp [World.setEntries]
  | @clockRead k p d readings now hk hclock =>
    cases hx
    have hrunning : Unresolved s.world d.1 := hok _ List.mem_cons_self
    exact hrunning
  | returned env hk hret =>
    cases hx
    have hrunning : Unresolved s.world _ := hok _ List.mem_cons_self
    exact (SameCall.of_undisturbed (served_undisturbed hret)).unresolved hrunning
  | thrown fails draw hk hown hv =>
    cases hx
    trivial
  | journalled hk =>
    cases hx
    have hreturned : Unresolved s.world _ := hok _ List.mem_cons_self
    exact ⟨hreturned.pending, (settlements_journal _ _ _ _).trans hreturned.settlements⟩
  | settled hk hx' hpend => cases hx
  | reconfigured e hr hpool hlimits hsame => cases hx

/-- Every step keeps the invariant. -/
theorem step (hs : Custody recorders q s) (h : Stepped q s e old new t) : Custody recorders q t := by
  obtain ⟨rest, hbefore, hafter⟩ := h.moves hs.queueMade
  have hrest : ∀ x ∈ rest, x ∈ seats q s := fun x hx => hbefore.mem_iff.mpr (List.mem_append_right _ hx)
  have hold : ∀ x ∈ old, x ∈ seats q s := (hs.old_seats h).1
  have hnodup := (hbefore.map Seat.task).nodup_iff.mp hs.single
  rw [List.map_append, List.nodup_append] at hnodup
  obtain ⟨_, hrestnodup, hapart⟩ := hnodup
  -- the call that gets a seat has no other
  have hfree : ∀ x, new = some x → ∀ y ∈ rest, y.task ≠ x.task := by
    intro x hx y hy heq
    rcases h.seated hx with ⟨z, hz, hzx⟩ | ⟨hnew, _⟩
    · exact hapart _ (List.mem_map_of_mem hz) _ (List.mem_map_of_mem hy) (hzx.trans heq.symm)
    · have hlt := (hs.known y (hrest y hy)).1
      rw [heq, hnew] at hlt
      exact Nat.lt_irrefl _ hlt
  have hcount : ∀ x, new = some x → x.task < t.world.taskCount := by
    intro x hx
    rcases h.seated hx with ⟨z, hz, hzx⟩ | ⟨hnew, hone⟩
    · rw [← hzx]
      exact Nat.lt_of_lt_of_le (hs.known z (hold z hz)).1 h.taskCount
    · rw [hnew, hone]
      exact Nat.lt_succ_self _
  refine ⟨h.wired hs.toWired, ?_, ?_, ?_⟩
  · rw [(hafter.map Seat.task).nodup_iff, List.map_append, List.nodup_append]
    refine ⟨?_, hrestnodup, ?_⟩
    · cases new <;> simp
    · intro a ha b hb heq
      obtain ⟨x, hx, rfl⟩ := List.mem_map.mp ha
      obtain ⟨y, hy, rfl⟩ := List.mem_map.mp hb
      exact hfree x (Option.mem_toList.mp hx) y hy heq.symm
  · intro x hx
    rcases List.mem_append.mp (hafter.mem_iff.mp hx) with hx | hx
    · have hnew : new = some x := Option.mem_toList.mp hx
      exact ⟨hcount x hnew, hs.ok_new h hnew⟩
    · obtain ⟨hlt, hok⟩ := hs.known x (hrest x hx)
      refine ⟨Nat.lt_of_lt_of_le hlt h.taskCount, hok.untouched ?_⟩
      refine (h.untouched (fun y hy heq => ?_) (fun y hy heq => ?_)).1
      · exact hapart _ (List.mem_map_of_mem hy) _ (List.mem_map_of_mem hx) heq
      · exact hfree y hy x hx heq.symm
  · intro u hu
    have huntouched := (h.untouched (u := u) (fun y hy heq => ?_) (fun y hy heq => ?_)).1
    · obtain ⟨hset, hjou⟩ := hs.unknown u (Nat.le_trans h.taskCount hu)
      exact ⟨huntouched.settlements.trans hset, huntouched.journal.trans hjou⟩
    · have hlt := Nat.lt_of_lt_of_le (hs.known y (hold y hy)).1 h.taskCount
      rw [heq] at hlt
      exact Nat.not_lt.mpr hu hlt
    · have hlt := hcount y hy
      rw [heq] at hlt
      exact Nat.not_lt.mpr hu hlt

end Custody

/-! From the beginning. -/

theorem fresh_custody {recorders : List RecorderRef} {q : QueueRef} {m : Manager} {w : World}
    (hw : CallFlow.Fresh recorders q m.threadPool_ w) (clock : TimePoint) :
    Custody recorders q (initial m w clock) := by
  have hseats : seats q (initial m w clock) = [] := by
    have hempty : ((initial m w clock).world.queues q).queue_ = [] := hw.empty q
    rw [seats, hempty]
    rfl
  have htrace : (initial m w clock).world.trace = [] := hw.trace
  refine ⟨⟨hw.queue, hw.installed, fun r _ => hw.empty r, hw.queueMade, hw.poolMade, fun c hc => (by cases hc)⟩,
    ?_, ?_, ?_⟩
  · rw [hseats]
    exact List.nodup_nil
  · intro x hx
    rw [hseats] at hx
    cases hx
  · intro t _
    rw [htrace]
    exact ⟨rfl, rfl⟩

theorem custody_assemble {operators limit : Nat} {recorders : List RecorderRef} {minMax : Int × Int}
    {logger : Bool} {m : Manager} {w : World}
    (h : (CallFlow.assemble operators limit recorders minMax logger).run .empty = (.ok m, w))
    (clock : TimePoint) : Custody recorders 0 (initial m w clock) :=
  fresh_custody (CallFlow.fresh_assemble h) clock

theorem seats_assemble {operators limit : Nat} {recorders : List RecorderRef} {minMax : Int × Int}
    {logger : Bool} {m : Manager} {w : World}
    (h : (CallFlow.assemble operators limit recorders minMax logger).run .empty = (.ok m, w)) (clock : TimePoint) :
    seats 0 (initial m w clock) = [] := by
  have hempty : ((initial m w clock).world.queues 0).queue_ = [] := (CallFlow.fresh_assemble h).empty 0
  rw [seats, hempty]
  rfl

end CallSteps

/-! Reads of the number. -/

/-- The effect reads the text of the number of the call: the CDR has a view of it too. -/
def Event.reads (t : TaskRef) : Event → Bool
  | .readNumber u | .record _ u _ => u = t
  | .settle _ _ | .sleep _ _ => false

def Event.settles (t : TaskRef) : Event → Bool
  | .settle u _ => u = t
  | .readNumber _ | .record _ _ _ | .sleep _ _ => false

/-- No read of the number of the call comes after its promise was set. -/
def ReadsFirst (t : TaskRef) (es : List Event) : Prop :=
  es.Pairwise (fun e f => ¬ (e.settles t = true ∧ f.reads t = true))

instance readsFirstDecidable (t : TaskRef) (es : List Event) : Decidable (ReadsFirst t es) :=
  inferInstanceAs (Decidable (List.Pairwise _ _))

theorem not_settles {t : TaskRef} {es : List Event} (h : settlements t es = []) :
    ∀ e ∈ es, e.settles t = false := by
  intro e he
  have hnone := List.filterMap_eq_nil_iff.mp h e he
  cases e with
  | settle u v =>
    have hne : u ≠ t := by
      intro heq
      simp [heq] at hnone
    simpa [Event.settles] using hne
  | readNumber u => rfl
  | record r u c => rfl
  | sleep u n => rfl

/-- The effect sets no promise, and reads only numbers of calls with `ok`. -/
def Event.OnlyReads (ok : TaskRef → Prop) : Event → Prop
  | .readNumber u | .record _ u _ => ok u
  | .sleep _ _ => True
  | .settle _ _ => False

theorem Event.OnlyReads.settles {ok : TaskRef → Prop} {e : Event} (h : e.OnlyReads ok) (t : TaskRef) :
    e.settles t = false := by
  cases e with
  | settle u v => cases h
  | readNumber u => rfl
  | record r u c => rfl
  | sleep u n => rfl

theorem Event.OnlyReads.reads {ok : TaskRef → Prop} {e : Event} (h : e.OnlyReads ok) {t : TaskRef}
    (hread : e.reads t = true) : ok t := by
  cases e with
  | readNumber u => exact of_decide_eq_true hread ▸ h
  | record r u c => exact of_decide_eq_true hread ▸ h
  | settle u v => cases h
  | sleep u n => cases hread

theorem onlyReads_own {ok : TaskRef → Prop} {t : TaskRef} {e : Event} (ht : ok t) (h : e.own t = true) :
    e.OnlyReads ok := by
  cases e with
  | readNumber u =>
    have heq : u = t := of_decide_eq_true h
    exact heq ▸ ht
  | sleep u n => trivial
  | record r u c => cases h
  | settle u v => cases h

/-- Between two worlds only numbers of calls with `ok` were read, and promises were set
after that. -/
def ReadsOf (ok : TaskRef → Prop) (w v : World) : Prop :=
  ∃ es fs, v.trace = w.trace ++ (es ++ fs) ∧ (∀ e ∈ es, e.OnlyReads ok) ∧ ∀ f ∈ fs, ∀ t, f.reads t = false

namespace ReadsOf
variable {ok : TaskRef → Prop} {w v u : World}

theorem readsFirst (h : ReadsOf ok w v) {t : TaskRef} (hok : ok t → settlements t w.trace = [])
    (hw : ReadsFirst t w.trace) : ReadsFirst t v.trace := by
  obtain ⟨es, fs, htrace, hes, hfs⟩ := h
  have hlast : ∀ e : Event, ∀ f ∈ fs, ¬ (e.settles t = true ∧ f.reads t = true) := by
    rintro e f hf ⟨_, hread⟩
    rw [hfs f hf t] at hread
    cases hread
  unfold ReadsFirst
  rw [htrace, List.pairwise_append, List.pairwise_append]
  refine ⟨hw, ⟨?_, ?_, fun e _ f hf => hlast e f hf⟩, ?_⟩
  · apply List.pairwise_of_forall_mem_list
    rintro e he f _ ⟨hset, _⟩
    rw [(hes e he).settles t] at hset
    cases hset
  · exact List.pairwise_of_forall_mem_list (fun e _ f hf => hlast e f hf)
  · intro e he f hf
    rcases List.mem_append.mp hf with hf | hf
    · rintro ⟨hset, hread⟩
      rw [not_settles (hok ((hes f hf).reads hread)) e he] at hset
      cases hset
    · exact hlast e f hf

theorem of_trace (h : v.trace = w.trace) : ReadsOf ok w v :=
  ⟨[], [], by simpa using h, by simp, by simp⟩

theorem after (es : List Event) (hu : u.trace = w.trace ++ es) (hes : ∀ e ∈ es, e.OnlyReads ok)
    (h : ReadsOf ok u v) : ReadsOf ok w v := by
  obtain ⟨gs, fs, htrace, hgs, hfs⟩ := h
  refine ⟨es ++ gs, fs, ?_, ?_, hfs⟩
  · rw [htrace, hu]
    simp only [List.append_assoc]
  · intro e he
    rcases List.mem_append.mp he with he | he
    · exact hes e he
    · exact hgs e he

theorem emit {es : List Event} (hv : v.trace = w.trace ++ es) (hes : ∀ e ∈ es, e.OnlyReads ok) :
    ReadsOf ok w v :=
  after es hv hes (of_trace rfl)

theorem settled (w : World) (t : TaskRef) (x : Settled Result) : ReadsOf ok w (w.settled t x) :=
  ⟨[], [.settle t x], rfl, by simp, by simp [Event.reads]⟩

theorem setEntries (h : ReadsOf ok w v) (q : QueueRef) (es : List (TaskRef × CallID)) :
    ReadsOf ok w (v.setEntries q es) := h

theorem journal {t : TaskRef} (ht : ok t) (w : World) (q : QueueRef) : ReadsOf ok w (w.journal q t) := by
  apply emit rfl
  intro e he
  obtain ⟨r, _, rfl⟩ := List.mem_map.mp he
  exact ht

theorem refused {e : TaskRef × CallID} (he : ok e.1) (w : World) (q : QueueRef) (now : TimePoint)
    (isDuplication : Bool) : ReadsOf ok w (w.refused q now e isDuplication) := by
  apply after _ rfl _ (settled (w.closed q now e.1 isDuplication) e.1 _)
  intro f hf
  obtain ⟨r, _, rfl⟩ := List.mem_map.mp hf
  exact he

end ReadsOf

theorem onlyReads_searchReads {ok : TaskRef → Prop} (tasks : TaskRef → Task) (number : List Char)
    {es : List (TaskRef × CallID)} (hes : ∀ d ∈ es, ok d.1) :
    ∀ x ∈ Queue.searchReads tasks number es, x.OnlyReads ok := by
  induction es with
  | nil => simp [Queue.searchReads]
  | cons d es ih =>
    intro x hx
    rw [Queue.searchReads] at hx
    rcases List.mem_cons.mp hx with rfl | hx
    · exact hes d List.mem_cons_self
    · split at hx
      · cases hx
      · exact ih (fun d' hd' => hes d' (List.mem_cons_of_mem _ hd')) x hx

/-- The search of a push reads the numbers of the waiting calls and of the new one. -/
theorem onlyReads_searched {ok : TaskRef → Prop} {w : World} {q : QueueRef} {t : TaskRef} (ht : ok t)
    (hwaiting : ∀ d ∈ (w.queues q).queue_, ok d.1) :
    ∀ x ∈ Event.readNumber t :: Queue.searchReads w.tasks (w.tasks t).number_ (w.queues q).queue_,
      x.OnlyReads ok := by
  intro x hx
  rcases List.mem_cons.mp hx with rfl | hx
  · exact ht
  · exact onlyReads_searchReads _ _ hwaiting x hx

namespace CallSteps

/-- No push reads a number after a promise it set. -/
theorem PushedTo.readsOf {ok : TaskRef → Prop} {q : QueueRef} {now : TimePoint} {e : TaskRef × CallID}
    {w v : World} {old : List Seat} {new : Option Seat} (h : PushedTo q now e w old new v) (he : ok e.1)
    (hwaiting : ∀ d ∈ (w.queues q).queue_, ok d.1) : ReadsOf ok w v := by
  have hsearch := onlyReads_searched he hwaiting
  cases h with
  | fresh => exact (ReadsOf.emit rfl hsearch).setEntries _ _
  | duplicate i d hi =>
    have hd : ok d.1 := hwaiting d (List.mem_of_getElem? hi)
    exact (ReadsOf.after _ rfl hsearch (ReadsOf.refused hd _ q now true)).setEntries _ _
  | overloaded => exact ReadsOf.refused he w q now false

namespace Custody
variable {recorders : List RecorderRef} {q : QueueRef} {s t : Calls} {e : Step} {old : List Seat}
  {new : Option Seat}

/-- Every step reads only numbers of calls whose promise was not set before it. -/
theorem readsOf (hs : Custody recorders q s) (h : Stepped q s e old new t) :
    ReadsOf (fun u => settlements u s.world.trace = []) s.world t.world := by
  have hok : ∀ y ∈ old, y.Ok s.world := fun y hy => (hs.known y ((hs.old_seats h).1 y hy)).2
  cases h with
  | arrived number now hclock =>
    refine ReadsOf.emit rfl (fun f hf => ?_)
    split at hf
    · rw [List.mem_singleton.mp hf]
      exact (hs.unknown _ (Nat.le_refl _)).1
    · cases hf
  | @dropped k u now thread hk hclock =>
    have hmade : (Seat.made u).Ok s.world := hok _ List.mem_cons_self
    refine ReadsOf.emit rfl (fun f hf => ?_)
    rw [List.mem_singleton.mp hf]
    exact hmade.1.settlements
  | @added k u now id out _ v thread hk hclock hlog hpush =>
    have hmade : (Seat.made u).Ok s.world := hok _ List.mem_cons_self
    refine ReadsOf.after [.readNumber u, .readNumber u] ?_ (fun f hf => ?_)
      (hpush.readsOf hmade.1.settlements (fun d hd => (hs.waiting_unresolved hd).settlements))
    · simp [World.admitted, World.retrieved, Task.identified]
    · simp only [List.mem_cons, List.not_mem_nil, or_false, or_self] at hf
      rw [hf]
      exact hmade.1.settlements
  | @taken p d rest thread id hmade hp hes =>
    have hwaiting : (Seat.waiting d).Ok s.world := hok _ List.mem_cons_self
    refine ReadsOf.emit rfl (fun f hf => ?_)
    rw [List.mem_singleton.mp hf]
    exact hwaiting.1.settlements
  | clockRead hk hclock => exact ReadsOf.of_trace rfl
  | @returned k p d env hk hret =>
    have hrunning : Unresolved s.world d.1 := hok _ List.mem_cons_self
    refine ReadsOf.emit rfl (fun f hf => onlyReads_own hrunning.settlements ?_)
    unfold servedEvents at hf
    split at hf
    · simp only [List.cons_append, List.nil_append, List.mem_cons, List.not_mem_nil, or_false] at hf
      rcases hf with rfl | rfl | rfl | rfl | rfl <;> simp [Event.own]
    · simp only [List.cons_append, List.nil_append, List.mem_cons, List.not_mem_nil, or_false] at hf
      rcases hf with rfl | rfl | rfl | rfl <;> simp [Event.own]
  | @thrown k p d readings x u v fails draw hk hown hv =>
    have hrunning : Unresolved s.world d.1 := hok _ List.mem_cons_self
    obtain ⟨es, htrace, hes⟩ := hown.trace
    have hreads : ∀ f ∈ es, f.OnlyReads (fun u => settlements u s.world.trace = []) :=
      fun f hf => onlyReads_own hrunning.settlements (hes f hf)
    rcases hv with rfl | ⟨_, y, rfl⟩
    · exact ReadsOf.emit htrace hreads
    · exact ReadsOf.after es htrace hreads (ReadsOf.settled u d.1 _)
  | @journalled k p d r hk =>
    have hreturned : Unresolved s.world d.1 := hok _ List.mem_cons_self
    exact ReadsOf.journal hreturned.settlements s.world q
  | settled hk hx hpend => exact ReadsOf.settled s.world _ _
  | reconfigured e hr hpool hlimits hsame => exact ReadsOf.of_trace hr.trace

end Custody

/-- In every run, no number is read after the promise of its call was set: not by a
later push that searches the queue, not by a worker, and not by a recorder. -/
theorem readsFirst_of_run {hash : ThreadId → UInt64} {operators limit : Nat} {recorders : List RecorderRef}
    {minMax : Int × Int} {logger : Bool} {m : Manager} {w : World} {clock : TimePoint} {steps : List Step}
    {s : Calls} (h₀ : (CallFlow.assemble operators limit recorders minMax logger).run .empty = (.ok m, w))
    (h : (system hash).run (initial m w clock) steps = some s) (t : TaskRef) : ReadsFirst t s.world.trace := by
  have hinv : Custody recorders 0 s ∧ ReadsFirst t s.world.trace := by
    apply Transition.System.run_inv _ h
    · refine ⟨custody_assemble h₀ clock, ?_⟩
      have htrace : (initial m w clock).world.trace = [] := (CallFlow.fresh_assemble h₀).trace
      rw [htrace]
      exact List.Pairwise.nil
    · intro s e u hs hstep
      obtain ⟨old, new, hstepped⟩ := hs.1.stepped hstep
      exact ⟨hs.1.step hstepped, (hs.1.readsOf hstepped).readsFirst id hs.2⟩
  exact hinv.2

/-- Four calls come, the second with the number of the first, which it evicts, and the
fourth to a full queue. An update swaps the pool; the second call is completed, and the
third ends with an exception. -/
def rushHour : List Step :=
  let second : TimePoint := 1000000000
  let throws : DoTaskStep → Option StdException :=
    fun st => if st = .getDuration ∨ st = .logError then some (.other 1) else none
  [.startThreadPool, .arrive ['1'] 0, .arrive ['1'] second, .addTask 0 1 second, .addTask 0 2 second,
    .arrive ['2'] second, .addTask 0 3 second, .arrive ['3'] second, .addTask 0 4 second,
    .take 9 0, .readClock 0 (2 * second), .swap 2 2, .readClock 0 (2 * second),
    .readClock 0 (14 * second), .doTask 0 (fun _ => none) 12, .writeCDR 0, .settle 0,
    .take 9 1, .readClock 0 (14 * second), .readClock 0 (14 * second), .readClock 0 (14 * second),
    .doTask 0 throws 12, .settle 0]

/-- That hour with room for two calls and two recorders. -/
def endOfRushHour : Option Calls :=
  match (CallFlow.assemble 1 2 [0, 1] (10, 15) true).run .empty with
  | (.ok m, w) => (system (fun _ => 7)).run (initial m w 0) rushHour
  | _ => none

theorem readsFirst_rushHour : ∃ s, endOfRushHour = some s ∧
    (List.range 4).map (fun t => (settlements t s.world.trace).length) = [1, 1, 1, 1] ∧
    ∀ t, ReadsFirst t s.world.trace := by
  have hsome : endOfRushHour.isSome = true := by decide +kernel
  obtain ⟨s, hs⟩ := Option.isSome_iff_exists.mp hsome
  have hsettled : endOfRushHour.map (fun s =>
      (List.range 4).map (fun t => (settlements t s.world.trace).length)) = some [1, 1, 1, 1] := by
    decide +kernel
  rw [hs, Option.map_some, Option.some_inj] at hsettled
  refine ⟨s, hs, hsettled, ?_⟩
  unfold endOfRushHour at hs
  split at hs
  · rename_i m w hassemble
    exact readsFirst_of_run hassemble hs
  · cases hs

end CallSteps

end ProteiCov
