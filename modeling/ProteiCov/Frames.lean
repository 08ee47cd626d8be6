import ProteiCov.Manager
import ProteiCov.Lib.Invariant

/-
  What submitting a call and replacing a pool leave alone

  A relation between worlds that survives the six writes `add_task` is made of
  (`Submits`) survives `add_task`, whatever path it takes and however it ends; so a
  frame fact about `add_task` is a fact about six writes. Replacing a pool and
  changing a limit do not touch the tasks at all.
-/

namespace ProteiCov
open Cpp

/-- A relation the writes of `add_task` respect. -/
structure Submits (R : World → World → Prop) : Prop where
  refl : ∀ w, R w w
  trans : ∀ w v u, R w v → R v u → R w u
  emit : ∀ w es, R w (w.emit es)
  taskId : ∀ w t id, R w (w.setTask t { w.tasks t with taskId_ := id })
  cdr : ∀ w t f, R w (w.mapCDR t f)
  promise : ∀ w t p, R w (w.setTask t { w.tasks t with promise_ := p })
  entries : ∀ w q es, R w (w.setQueue q { w.queues q with queue_ := es })

namespace Submits
variable {R : World → World → Prop} (h : Submits R)
include h

theorem bind {α β : Type} {x : Exec World α} {f : α → Exec World β} (hx : Respects R x)
    (hf : ∀ a, Respects R (f a)) : Respects R (x >>= f) :=
  Respects.bind h.trans hx hf

theorem ofExcept {α : Type} (x : Except StdException α) : Respects R (Exec.ofExcept x) := by
  intro w
  cases x with
  | ok a => exact h.refl w
  | error e => exact h.refl w

theorem derefLogger (attached : Bool) : Respects R (ProteiCov.derefLogger attached) :=
  Respects.ite h.refl h.refl

theorem settle (t : TaskRef) (v : Settled Result) : Respects R (ProteiCov.settle t v) := by
  intro w
  by_cases hstate : (w.tasks t).promise_.state = none
  · rw [run_settle v hstate]
    exact h.trans _ _ _ (h.promise w t _) (h.emit _ _)
  · rw [run_settle_again v hstate]
    exact h.refl w

theorem get_future (t : TaskRef) : Respects R (ProteiCov.get_future t) := by
  intro w
  cases hret : (w.tasks t).promise_.retrieved with
  | false =>
    rw [run_get_future hret]
    exact h.promise w t _
  | true =>
    rw [run_get_future_again hret]
    exact h.refl w

theorem getNumber (t : TaskRef) : Respects R (Task.getNumber t) :=
  h.bind (fun w => h.emit w _) (fun _ => h.bind h.refl (fun _ => h.refl))

theorem logNumber (t : TaskRef) : Respects R (Task.logNumber t) :=
  h.bind h.refl (fun _ => h.bind (h.derefLogger _) (fun _ w => h.emit w _))

theorem setCallID (t : TaskRef) (id : CallID) : Respects R (Task.setCallID t id) :=
  h.bind (fun w => h.taskId w t id) (fun _ =>
    h.bind (fun w => h.cdr w t (fun c => { c with callID := id })) (fun _ => h.logNumber t))

theorem makeRecords (t : TaskRef) (cdr : CDR) (rs : List RecorderRef) :
    Respects R (Queue.makeRecords t cdr rs) := by
  induction rs with
  | nil => exact h.refl
  | cons r rs ih => exact h.bind (fun w => h.emit w _) (fun _ => ih)

theorem processCDR (q : QueueRef) (now : TimePoint) (t : TaskRef) (isDuplication : Bool) :
    Respects R (Queue.processCDR q now t isDuplication) :=
  h.bind (fun w => h.cdr w t _) (fun _ => h.bind h.refl (fun _ => h.bind h.refl
    (fun _ => h.makeRecords _ _ _)))

theorem find_if (number : List Char) (es : List (TaskRef × CallID)) :
    Respects R (Queue.find_if number es) := by
  induction es with
  | nil => exact h.refl
  | cons e es ih =>
    refine h.bind (h.getNumber e.1) (fun _ => Respects.ite h.refl ?_)
    exact h.bind ih (fun _ => h.refl)

theorem evict (q : QueueRef) (now : TimePoint) (it : Option (Nat × (TaskRef × CallID))) :
    Respects R (Queue.evict q now it) := by
  cases it with
  | none => exact h.refl
  | some p =>
    exact h.bind (h.processCDR _ _ _ _) (fun _ => h.bind (h.settle _ _)
      (fun _ w => h.entries w q _))

theorem push (q : QueueRef) (now : TimePoint) (e : TaskRef × CallID) :
    Respects R (Queue.push q now e) := by
  have hover : Respects R (Queue.handleOverloadedTask q now e) :=
    h.bind (h.processCDR _ _ _ _) (fun _ => h.settle _ _)
  have hroom : Respects R (Queue.handleTask q now e) :=
    h.bind (h.getNumber e.1) (fun _ => h.bind h.refl (fun _ => h.bind (h.find_if _ _)
      (fun _ => h.bind (h.evict _ _ _) (fun _ w => h.entries w q _))))
  refine h.bind h.refl (fun _ => Respects.ite ?_ ?_)
  · exact h.bind hover (fun _ => h.refl)
  · exact h.bind hroom (fun _ => h.refl)

/-- However `add_task` ends, it respects the relation. -/
theorem add_task (hash : ThreadId → UInt64) (thread : ThreadId) (now : TimePoint) (p : PoolRef)
    (t : TaskRef) : Respects R (ThreadPool.add_task hash thread now p t) := by
  refine h.bind (h.getNumber t) (fun _ => h.bind (h.ofExcept _) (fun _ => h.bind (h.setCallID t _)
    (fun _ => h.bind (h.get_future t) (fun _ => h.bind h.refl (fun pool => ?_)))))
  cases pool.task_queue with
  | none => exact h.refl
  | some q => exact h.bind (h.push q now _) (fun _ => h.refl)

end Submits

/-! The tasks under the operations of a manager. -/

/-- The same tasks. -/
def SameTasks (w v : World) : Prop := v.tasks = w.tasks ∧ v.taskCount = w.taskCount

namespace SameTasks

theorem refl (w : World) : SameTasks w w := ⟨rfl, rfl⟩

theorem trans (w v u : World) (h : SameTasks w v) (h' : SameTasks v u) : SameTasks w u :=
  ⟨h'.1.trans h.1, h'.2.trans h.2⟩

theorem bind {α β : Type} {x : Exec World α} {f : α → Exec World β} (hx : Respects SameTasks x)
    (hf : ∀ a, Respects SameTasks (f a)) : Respects SameTasks (x >>= f) :=
  Respects.bind trans hx hf

theorem modifyPool (p : PoolRef) (f : ThreadPool → ThreadPool) :
    Respects SameTasks (ProteiCov.modifyPool p f) := fun _ => ⟨rfl, rfl⟩

theorem modifyQueue (q : QueueRef) (f : Queue → Queue) :
    Respects SameTasks (ProteiCov.modifyQueue q f) := fun _ => ⟨rfl, rfl⟩

theorem updateQueue (m : Manager) (size : Int) : Respects SameTasks (m.updateQueue size) := by
  refine bind refl (fun pool => ?_)
  cases pool.task_queue with
  | none => exact refl
  | some q => exact modifyQueue q _

theorem sizeDiffers (m : Manager) (operators : Int) : Respects SameTasks (m.sizeDiffers operators) :=
  bind (bind refl (fun _ => refl)) (fun _ => refl)

theorem construct (operators size : Nat) : Respects SameTasks (ThreadPool.construct operators size) :=
  bind (Respects.ite refl (fun _ => ⟨rfl, rfl⟩)) (fun _ _ => ⟨rfl, rfl⟩)

theorem setLogger (p : PoolRef) (logger : Bool) : Respects SameTasks (ThreadPool.setLogger p logger) := by
  refine bind (modifyPool p _) (fun _ => Respects.ite (bind refl (fun pool => ?_)) refl)
  cases pool.task_queue with
  | none => exact refl
  | some q => exact modifyQueue q _

theorem buildPool (logger : Bool) (operators size : Int) :
    Respects SameTasks (Manager.buildPool logger operators size) :=
  bind (construct _ _) (fun _ => bind (setLogger _ _) (fun _ => refl))

theorem start (p : PoolRef) : Respects SameTasks (ThreadPool.start p) := by
  refine bind refl (fun _ => Respects.ite ?_ refl)
  exact bind (modifyPool p _) (fun _ => bind (modifyPool p _) (fun _ => modifyPool p _))

theorem setNewThreadPool (m : Manager) (p : PoolRef) : Respects SameTasks (m.setNewThreadPool p) := by
  have htransfer : Respects SameTasks (ThreadPool.transferObjects p m.threadPool_) :=
    bind (Respects.ite refl refl) (fun _ => bind refl (fun _ => Respects.ite (modifyPool p _) refl))
  have hassign : Respects SameTasks (m.assignPool p) :=
    bind (Respects.ite (modifyPool _ _) refl) (fun _ => refl)
  refine bind (bind (modifyPool _ _) (fun _ => modifyPool _ _)) (fun _ => bind htransfer (fun _ => ?_))
  exact bind hassign (fun m => bind (start _) (fun _ => refl))

end SameTasks

/-! The queue under the operations of a manager. -/

/-- What an update may do to a world in which the pools share the queue `q`: no task
changes, `q` keeps its entries and its recorders, no other queue gets an entry, and
the pools that have `q` keep it. -/
structure Reconfigures (q : QueueRef) (w v : World) : Prop where
  tasks : v.tasks = w.tasks
  taskCount : v.taskCount = w.taskCount
  trace : v.trace = w.trace
  entries : q < w.queueCount → (v.queues q).queue_ = (w.queues q).queue_
  recorders : q < w.queueCount → (v.queues q).recorders_ = (w.queues q).recorders_
  others : (∀ r, r ≠ q → (w.queues r).queue_ = []) → ∀ r, r ≠ q → (v.queues r).queue_ = []
  queueCount : w.queueCount ≤ v.queueCount
  poolCount : w.poolCount ≤ v.poolCount
  pools : ∀ p, p < w.poolCount → (w.pools p).task_queue = some q → (v.pools p).task_queue = some q

namespace Reconfigures
variable {q : QueueRef}

theorem refl (w : World) : Reconfigures q w w :=
  ⟨rfl, rfl, rfl, fun _ => rfl, fun _ => rfl, id, Nat.le_refl _, Nat.le_refl _, fun _ _ h => h⟩

theorem trans (w v u : World) (h : Reconfigures q w v) (h' : Reconfigures q v u) :
    Reconfigures q w u where
  tasks := h'.tasks.trans h.tasks
  taskCount := h'.taskCount.trans h.taskCount
  trace := h'.trace.trans h.trace
  entries := fun hq => (h'.entries (Nat.lt_of_lt_of_le hq h.queueCount)).trans (h.entries hq)
  recorders := fun hq => (h'.recorders (Nat.lt_of_lt_of_le hq h.queueCount)).trans (h.recorders hq)
  others := fun ho => h'.others (h.others ho)
  queueCount := Nat.le_trans h.queueCount h'.queueCount
  poolCount := Nat.le_trans h.poolCount h'.poolCount
  pools := fun p hp hw => h'.pools p (Nat.lt_of_lt_of_le hp h.poolCount) (h.pools p hp hw)

theorem bind {α β : Type} {x : Exec World α} {f : α → Exec World β} (hx : Respects (Reconfigures q) x)
    (hf : ∀ a, Respects (Reconfigures q) (f a)) : Respects (Reconfigures q) (x >>= f) :=
  Respects.bind trans hx hf

theorem modifyPool (p : PoolRef) {f : ThreadPool → ThreadPool}
    (hf : ∀ k, (f k).task_queue = k.task_queue) :
    Respects (Reconfigures q) (ProteiCov.modifyPool p f) := by
  intro w
  refine ⟨rfl, rfl, rfl, fun _ => rfl, fun _ => rfl, id, Nat.le_refl _, Nat.le_refl _, fun r _ hr => ?_⟩
  show ((Function.update w.pools p (f (w.pools p))) r).task_queue = some q
  by_cases h : r = p
  · subst h
    rw [Function.update_self, hf]
    exact hr
  · rw [Function.update_of_ne h]
    exact hr

theorem modifyQueue (r : QueueRef) {f : Queue → Queue} (hentries : ∀ k, (f k).queue_ = k.queue_)
    (hrecorders : ∀ k, (f k).recorders_ = k.recorders_) :
    Respects (Reconfigures q) (ProteiCov.modifyQueue r f) := by
  intro w
  have hkeep : ∀ x, ((Function.update w.queues r (f (w.queues r))) x).queue_ = (w.queues x).queue_ ∧
      ((Function.update w.queues r (f (w.queues r))) x).recorders_ = (w.queues x).recorders_ := by
    intro x
    by_cases h : x = r
    · subst h
      rw [Function.update_self]
      exact ⟨hentries _, hrecorders _⟩
    · rw [Function.update_of_ne h]
      exact ⟨rfl, rfl⟩
  exact ⟨rfl, rfl, rfl, fun _ => (hkeep q).1, fun _ => (hkeep q).2,
    fun ho x hx => (hkeep x).1.trans (ho x hx), Nat.le_refl _, Nat.le_refl _, fun _ _ h => h⟩

theorem newQueue {k : Queue} (hk : k.queue_ = []) :
    Respects (Reconfigures q) (ProteiCov.newQueue k) := by
  intro w
  have hold : q < w.queueCount → (Function.update w.queues w.queueCount k) q = w.queues q := by
    intro hq
    rw [Function.update_of_ne (Nat.ne_of_lt hq)]
  refine ⟨rfl, rfl, rfl, fun hq => congrArg Queue.queue_ (hold hq),
    fun hq => congrArg Queue.recorders_ (hold hq), fun ho x hx => ?_, Nat.le_succ _, Nat.le_refl _,
    fun _ _ h => h⟩
  show ((Function.update w.queues w.queueCount k) x).queue_ = []
  by_cases h : x = w.queueCount
  · rw [h, Function.update_self]
    exact hk
  · rw [Function.update_of_ne h]
    exact ho x hx

theorem newPool (k : ThreadPool) : Respects (Reconfigures q) (ProteiCov.newPool k) := by
  intro w
  refine ⟨rfl, rfl, rfl, fun _ => rfl, fun _ => rfl, id, Nat.le_refl _, Nat.le_succ _, fun p hp h => ?_⟩
  show ((Function.update w.pools w.poolCount k) p).task_queue = some q
  rw [Function.update_of_ne (Nat.ne_of_lt hp)]
  exact h

theorem updateQueue (m : Manager) (size : Int) : Respects (Reconfigures q) (m.updateQueue size) := by
  refine bind refl (fun pool => ?_)
  cases pool.task_queue with
  | none => exact refl
  | some r => exact modifyQueue r (fun _ => rfl) (fun _ => rfl)

theorem sizeDiffers (m : Manager) (operators : Int) :
    Respects (Reconfigures q) (m.sizeDiffers operators) :=
  bind (bind refl (fun _ => refl)) (fun _ => refl)

theorem construct (operators size : Nat) :
    Respects (Reconfigures q) (ThreadPool.construct operators size) :=
  bind (Respects.ite refl (newQueue rfl)) (fun _ => newPool _)

theorem setLogger (p : PoolRef) (logger : Bool) :
    Respects (Reconfigures q) (ThreadPool.setLogger p logger) := by
  refine bind (modifyPool p (fun _ => rfl)) (fun _ => Respects.ite (bind refl (fun pool => ?_)) refl)
  cases pool.task_queue with
  | none => exact refl
  | some r => exact modifyQueue r (fun _ => rfl) (fun _ => rfl)

theorem buildPool (logger : Bool) (operators size : Int) :
    Respects (Reconfigures q) (Manager.buildPool logger operators size) :=
  bind (construct _ _) (fun _ => bind (setLogger _ _) (fun _ => refl))

theorem start (p : PoolRef) : Respects (Reconfigures q) (ThreadPool.start p) := by
  refine bind refl (fun _ => Respects.ite ?_ refl)
  exact bind (modifyPool p (fun _ => rfl)) (fun _ => bind (modifyPool p (fun _ => rfl))
    (fun _ => modifyPool p (fun _ => rfl)))

theorem stop (p : PoolRef) : Respects (Reconfigures q) (ThreadPool.stop p) :=
  bind (modifyPool p (fun _ => rfl)) (fun _ => modifyPool p (fun _ => rfl))

theorem release (m : Manager) (p : PoolRef) : Respects (Reconfigures q) (m.release p) :=
  Respects.ite (modifyPool _ (fun _ => rfl)) refl

end Reconfigures

end ProteiCov
