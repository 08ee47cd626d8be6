import ProteiCov.Custody
import ProteiCov.QueueRuns
import ProteiCov.Lib.Runs

/-
  What becomes of a call

  Seen from its users the call centre is a queue of calls with a limit, in which a new
  call replaces a waiting one with its number: `BoundedQueue`, where a task stands for
  the call. Handlers that make tasks, workers in the middle of a call and updates in any
  order around it change nothing about that. What a push, a dequeue and a new limit do
  there is read off the steps (`points`), and what became of each call is the same on
  both sides: the status a client gets says what happened to its call in that queue
  (`fates_agree`). What that queue promises then holds for the calls: one with `i` calls
  before it is served after `i + 1` dequeues, or superseded (`served_within`).
-/

namespace ProteiCov
open Cpp
open BoundedQueue (Fate)

/-- What a result says of a call. -/
def Result.fate (r : Result) : Fate :=
  match r.status with
  | .Overloaded => .rejected
  | .Duplication => .superseded
  | _ => .popped

/-- An exception is what a worker settles a call with. -/
def settledFate : Settled Result → Fate
  | .value r => r.fate
  | .exception _ => .popped

/-- What a task is made with and keeps. -/
def Task.given (k : Task) : List Char × Int × Int × Bool := (k.number_, k.RMin_, k.RMax_, k.logger_)

namespace CallSteps

/-- What has become of a call, from the queue, the promise and the workers. -/
def Calls.fate (q : QueueRef) (s : Calls) (t : TaskRef) : Option Fate :=
  if t ∈ (s.world.queues q).queue_.map (fun d => d.1) then some .waiting
  else
    match (s.world.tasks t).promise_.state with
    | some x => some (settledFate x)
    | none => if t ∈ s.served.map (fun c => c.entry.1) then some .popped else none

/-- A call and its number. -/
def label (w : World) (t : TaskRef) : TaskRef × List Char := (t, (w.tasks t).number_)

/-- What a step does to the queue of calls. -/
def points (s : Calls) : Step → List (BoundedQueue.Op (TaskRef × List Char))
  | .addTask k _ _ =>
    match s.made[k]? with
    | some t =>
      match stoll (s.world.tasks t).number_ with
      | .ok _ => [.push (label s.world t)]
      | .error _ => []
    | none => []
  | .take _ _ => [.pop]
  | .updateQueue size => [.resize (toSizeT size)]
  | _ => []

/-! Numbers and limits stay. -/

/-- The tasks keep what they were made with and the queue `q` its limit. -/
structure Steady (q : QueueRef) (w v : World) : Prop where
  given : ∀ t, t < w.taskCount → (v.tasks t).given = (w.tasks t).given
  limit : q < w.queueCount → (v.queues q).sizeOfQueue = (w.queues q).sizeOfQueue
  taskCount : w.taskCount ≤ v.taskCount
  queueCount : w.queueCount ≤ v.queueCount

namespace Steady
variable {q : QueueRef}

theorem of_same {w v : World} (htasks : v.tasks = w.tasks) (hcount : v.taskCount = w.taskCount)
    (hqueues : v.queues = w.queues) (hqueueCount : v.queueCount = w.queueCount) : Steady q w v :=
  ⟨fun t _ => by rw [htasks], fun _ => by rw [hqueues], Nat.le_of_eq hcount.symm, Nat.le_of_eq hqueueCount.symm⟩

theorem refl (w : World) : Steady q w w := of_same rfl rfl rfl rfl

theorem trans (w v u : World) (h : Steady q w v) (h' : Steady q v u) : Steady q w u where
  given := fun t ht => (h'.given t (Nat.lt_of_lt_of_le ht h.taskCount)).trans (h.given t ht)
  limit := fun hq => (h'.limit (Nat.lt_of_lt_of_le hq h.queueCount)).trans (h.limit hq)
  taskCount := Nat.le_trans h.taskCount h'.taskCount
  queueCount := Nat.le_trans h.queueCount h'.queueCount

theorem numbers {w v : World} (h : Steady q w v) (t : TaskRef) (ht : t < w.taskCount) :
    (v.tasks t).number_ = (w.tasks t).number_ :=
  congrArg Prod.fst (h.given t ht)

theorem setTask (w : World) (t : TaskRef) (k : Task) (hk : k.given = (w.tasks t).given) :
    Steady q w (w.setTask t k) := by
  refine ⟨fun x _ => ?_, fun _ => rfl, Nat.le_refl _, Nat.le_refl _⟩
  by_cases hx : x = t
  · rw [hx, World.setTask_tasks, Function.update_self]
    exact hk
  · rw [World.setTask_tasks, Function.update_of_ne hx]

theorem setQueue (w : World) (r : QueueRef) (k : Queue) (hk : k.sizeOfQueue = (w.queues r).sizeOfQueue) :
    Steady q w (w.setQueue r k) := by
  refine ⟨fun _ _ => rfl, fun _ => ?_, Nat.le_refl _, Nat.le_refl _⟩
  by_cases hr : q = r
  · rw [hr, World.setQueue_queues, Function.update_self]
    exact hk
  · rw [World.setQueue_queues, Function.update_of_ne hr]

theorem mapCDR (w : World) (t : TaskRef) (f : CDR → CDR) : Steady q w (w.mapCDR t f) :=
  setTask w t _ rfl

theorem submits : Submits (Steady q) where
  refl := refl
  trans := trans
  emit := fun _ _ => of_same rfl rfl rfl rfl
  taskId := fun w t _ => setTask w t _ rfl
  cdr := mapCDR
  promise := fun w t _ => setTask w t _ rfl
  entries := fun w r _ => setQueue w r _ rfl

theorem serves (t : TaskRef) : Serves t (Steady q) where
  refl := refl
  trans := trans
  emit := fun _ _ _ => of_same rfl rfl rfl rfl
  cdr := fun w f => mapCDR w t f

theorem bind {α β : Type} {x : Exec World α} {f : α → Exec World β} (hx : Respects (Steady q) x)
    (hf : ∀ a, Respects (Steady q) (f a)) : Respects (Steady q) (x >>= f) :=
  Respects.bind trans hx hf

theorem construct (RMin RMax : Int) (number : List Char) (now : TimePoint) (logger : Bool) :
    Respects (Steady q) (Task.construct RMin RMax number now logger) := by
  refine bind (fun w => ?_) (fun t => bind (Respects.ite (fun _ => of_same rfl rfl rfl rfl) refl) (fun _ => refl))
  refine ⟨fun t ht => ?_, fun _ => rfl, Nat.le_succ _, Nat.le_refl _⟩
  show ((Function.update w.tasks w.taskCount _) t).given = _
  rw [Function.update_of_ne (Nat.ne_of_lt ht)]

theorem doTask (env : Service) (t : TaskRef) : Respects (Steady q) (Task.doTask env t) := by
  refine Respects.tryCatch trans (serves t).doTaskBody (fun e => ?_)
  exact bind refl (fun _ => bind ((serves t).derefLogger _) (fun _ => bind ((serves t).attempt _)
    (fun _ => bind (submits.settle t _) (fun _ => refl))))

theorem modifyPool (p : PoolRef) (f : ThreadPool → ThreadPool) :
    Respects (Steady q) (ProteiCov.modifyPool p f) := fun _ => of_same rfl rfl rfl rfl

theorem newQueue (k : Queue) : Respects (Steady q) (ProteiCov.newQueue k) := by
  intro w
  refine ⟨fun _ _ => rfl, fun hq => ?_, Nat.le_refl _, Nat.le_succ _⟩
  show ((Function.update w.queues w.queueCount k) q).sizeOfQueue = _
  rw [Function.update_of_ne (Nat.ne_of_lt hq)]

theorem setLogger (p : PoolRef) (logger : Bool) : Respects (Steady q) (ThreadPool.setLogger p logger) := by
  refine bind (modifyPool p _) (fun _ => Respects.ite (bind refl (fun pool => ?_)) refl)
  cases pool.task_queue with
  | none => exact refl
  | some r => exact fun w => setQueue w r _ rfl

theorem buildPool (logger : Bool) (operators size : Int) :
    Respects (Steady q) (Manager.buildPool logger operators size) := by
  refine bind (bind (Respects.ite refl (newQueue _)) (fun _ _ => of_same rfl rfl rfl rfl)) (fun p => ?_)
  exact bind (setLogger p logger) (fun _ => refl)

theorem start (p : PoolRef) : Respects (Steady q) (ThreadPool.start p) := by
  refine bind refl (fun _ => Respects.ite ?_ refl)
  exact bind (modifyPool p _) (fun _ => bind (modifyPool p _) (fun _ => modifyPool p _))

theorem stop (p : PoolRef) : Respects (Steady q) (ThreadPool.stop p) :=
  bind (modifyPool p _) (fun _ => modifyPool p _)

theorem setNewThreadPool (m : Manager) (p : PoolRef) : Respects (Steady q) (m.setNewThreadPool p) := by
  have htransfer : Respects (Steady q) (ThreadPool.transferObjects p m.threadPool_) :=
    bind (Respects.ite refl refl) (fun _ => bind refl (fun _ => Respects.ite (modifyPool p _) refl))
  have hassign : Respects (Steady q) (m.assignPool p) :=
    bind (Respects.ite (modifyPool _ _) refl) (fun _ => refl)
  exact bind (stop _) (fun _ => bind htransfer (fun _ => bind hassign (fun m => bind (start _) (fun _ => refl))))

theorem settling (t : TaskRef) (c : Stage) : Respects (Steady q) (settling t c) := by
  cases c with
  | running readings => exact refl
  | returned r => exact refl
  | written r => exact Respects.tryCatch trans (submits.settle t _) (fun _ => submits.settle t _)
  | thrown e => exact submits.settle t _

end Steady

section
variable {recorders : List RecorderRef} {q : QueueRef} {s t : Calls} {hash : ThreadId → UInt64}

theorem steady_configure {x : Exec World Unit} (hx : Respects (Steady q) x) (h : s.configure x = some t) :
    Steady q s.world t.world := by
  unfold Calls.configure at h
  split at h
  · rename_i v hrun
    cases h
    exact hx.of_run hrun
  · cases h

theorem Custody.taken (hs : Custody recorders q s) {thread : ThreadId} {p : PoolRef}
    (h : s.take hash thread p = some t) : ∃ d rest id, (s.world.queues q).queue_ = d :: rest ∧
      t = { s with
        world := ((s.world.mapCDR d.1 (fun c => { c with operatorID := id })).emit [.readNumber d.1]).setEntries q rest
        served := s.served ++ [⟨p, d, .running []⟩] } ∧
      Stepped q s (.take thread p) [.waiting d] (some (.served ⟨p, d, .running []⟩)) t := by
  have hserved : t.served ≠ s.served := by
    unfold Calls.take at h
    split at h
    · split at h
      · cases h
        exact fun heq => absurd (List.append_right_eq_self.mp heq) (List.cons_ne_nil _ _)
      · cases h
    · cases h
  obtain ⟨old, new, hstepped⟩ := hs.take h
  cases hstepped with
  | @taken p d rest thread id hmade hp hes => exact ⟨d, rest, id, hes, rfl, .taken thread id hmade hp hes⟩
  | reconfigured e hr hpool hlimits hsame =>
    rw [hsame] at hserved
    exact absurd rfl hserved

theorem Steady.taken (w : World) (d : TaskRef × CallID) (id : UInt64) (rest : List (TaskRef × CallID)) :
    Steady q w (((w.mapCDR d.1 (fun c => { c with operatorID := id })).emit [.readNumber d.1]).setEntries q rest) := by
  refine Steady.trans _ (w.mapCDR d.1 (fun c => { c with operatorID := id })) _ (Steady.mapCDR _ _ _) ?_
  exact Steady.trans _ _ _ (Steady.submits.emit _ [.readNumber d.1]) (Steady.submits.entries _ q rest)

/-- Only an update of the queue changes its limit, and nothing changes a number. -/
theorem Custody.steady (hs : Custody recorders q s) {e : Step} (h : (system hash).step s e = some t)
    (he : ∀ size, e ≠ .updateQueue size) : Steady q s.world t.world := by
  cases e with
  | arrive number now =>
    have h' : s.arrive number now = some t := h
    unfold Calls.arrive at h'
    split at h'
    · split at h'
      · rename_i x v hrun
        cases h'
        exact (Steady.construct _ _ _ _ _).of_run hrun
      · cases h'
    · cases h'
  | addTask k thread pushNow =>
    have h' : s.addTask hash k thread pushNow = some t := h
    unfold Calls.addTask at h'
    split at h'
    · split at h'
      · split at h'
        · rename_i id v hrun
          cases h'
          exact (Steady.submits.add_task _ _ _ _ _).of_run hrun
        · rename_i x v hrun
          cases h'
          exact (Steady.submits.add_task _ _ _ _ _).of_run hrun
        · cases h'
      · cases h'
    · cases h'
  | take thread p =>
    obtain ⟨d, rest, id, _, rfl, _⟩ := hs.taken h
    exact Steady.taken _ d id rest
  | readClock k now =>
    have h' : s.readClock k now = some t := h
    unfold Calls.readClock at h'
    split at h'
    · split at h'
      · cases h'
        exact Steady.refl _
      · cases h'
    · cases h'
  | doTask k fails draw =>
    have h' : s.doTask k fails draw = some t := h
    unfold Calls.doTask at h'
    split at h'
    · split at h'
      · rename_i r v hrun
        cases h'
        exact (Steady.doTask _ _).of_run hrun
      · rename_i x v hrun
        cases h'
        exact (Steady.doTask _ _).of_run hrun
      · cases h'
    · cases h'
  | writeCDR k =>
    have h' : s.journal k = some t := h
    unfold Calls.journal at h'
    split at h'
    · rename_i p d r hk
      rw [run_writeCDR (hs.served _ (List.mem_of_getElem? hk)).2] at h'
      cases h'
      exact Steady.of_same rfl rfl rfl rfl
    · cases h'
  | settle k =>
    have h' : s.settle k = some t := h
    unfold Calls.settle at h'
    split at h'
    · split at h'
      · rename_i u hrun
        cases h'
        exact (Steady.settling _ _).of_run hrun
      · cases h'
    · cases h'
  | startThreadPool => exact steady_configure (Steady.start _) h
  | stopThreadPool => exact steady_configure (Steady.stop _) h
  | setMinMax minMax =>
    cases h
    exact Steady.refl _
  | updateQueue size => exact absurd rfl (he size)
  | swap operators size =>
    have h' : s.swap operators size = some t := h
    unfold Calls.swap at h'
    split at h'
    · rename_i p v hbuild
      split at h'
      · rename_i m u hset
        cases h'
        exact ((Steady.buildPool _ _ _).of_run hbuild).trans _ _ _ ((Steady.setNewThreadPool _ _).of_run hset)
      · cases h'
    · rename_i x v hbuild
      cases h'
      exact (Steady.buildPool _ _ _).of_run hbuild
    · cases h'

end

/-! The fate of a call and its seat. -/

/-- What the seat of a call says of it. -/
def Seat.fate : Seat → Option Fate
  | .made _ => none
  | .waiting _ => some .waiting
  | .served _ => some .popped

/-- The results a worker has are those of calls that were served. -/
def Seat.Plain (w : World) : Seat → Prop
  | .served ⟨_, _, .returned r⟩ | .served ⟨_, _, .written r⟩ => r.fate = .popped
  | .served ⟨_, e, .thrown _⟩ => ∀ r, (w.tasks e.1).promise_.state ≠ some (.value r)
  | _ => True

section
variable {q : QueueRef} {s : Calls} {u : TaskRef}

theorem mem_waiting : u ∈ (s.world.queues q).queue_.map (fun d => d.1) ↔
    ∃ d, Seat.waiting d ∈ seats q s ∧ d.1 = u := by
  simp [mem_seats]

theorem mem_served : u ∈ s.served.map (fun c => c.entry.1) ↔
    ∃ c, Seat.served c ∈ seats q s ∧ c.entry.1 = u := by
  simp [mem_seats]

/-- A call without a seat is over, or was never added. -/
theorem fate_unseated (h : ∀ x ∈ seats q s, x.task ≠ u) :
    s.fate q u = (s.world.tasks u).promise_.state.map settledFate := by
  have hwaiting : u ∉ (s.world.queues q).queue_.map (fun d => d.1) := by
    rw [mem_waiting]
    rintro ⟨d, hd, heq⟩
    exact h _ hd heq
  have hserved : u ∉ s.served.map (fun c => c.entry.1) := by
    rw [mem_served (q := q)]
    rintro ⟨c, hc, heq⟩
    exact h _ hc heq
  unfold Calls.fate
  rw [if_neg hwaiting]
  cases (s.world.tasks u).promise_.state with
  | none => rw [if_neg hserved]; rfl
  | some x => rfl

end

section
variable {recorders : List RecorderRef} {q : QueueRef} {s t : Calls} {e : Step} {old : List Seat}
  {new : Option Seat}

theorem Custody.fate_seated (hs : Custody recorders q s) {x : Seat} (hx : x ∈ seats q s)
    (hplain : x.Plain s.world) : s.fate q x.task = x.fate := by
  have honly : ∀ y ∈ seats q s, y.task = x.task → y = x := fun y hy h => hs.task_inj hy hx h
  have hok := (hs.known x hx).2
  cases x with
  | made u =>
    have hpending : (s.world.tasks u).promise_.state = none := hok.1.pending
    have hwaiting : u ∉ (s.world.queues q).queue_.map (fun d => d.1) := by
      rw [mem_waiting]
      rintro ⟨d, hd, heq⟩
      cases honly _ hd heq
    have hserved : u ∉ s.served.map (fun c => c.entry.1) := by
      rw [mem_served (q := q)]
      rintro ⟨c, hc, heq⟩
      cases honly _ hc heq
    show s.fate q u = none
    unfold Calls.fate
    rw [if_neg hwaiting, hpending]
    exact if_neg hserved
  | waiting d => exact if_pos (mem_waiting.mpr ⟨d, hx, rfl⟩)
  | served c =>
    have hwaiting : c.entry.1 ∉ (s.world.queues q).queue_.map (fun d => d.1) := by
      rw [mem_waiting]
      rintro ⟨d, hd, heq⟩
      cases honly _ hd heq
    have hserved : c.entry.1 ∈ s.served.map (fun c => c.entry.1) :=
      mem_served.mpr ⟨c, hx, rfl⟩
    -- the promise is open, or `doTask` gave it an exception
    have hstate : ∀ r, (s.world.tasks c.entry.1).promise_.state ≠ some (.value r) := by
      obtain ⟨p, d, stage⟩ := c
      intro r hr
      cases stage with
      | running readings | returned r' =>
        have hun : Unresolved s.world d.1 := hok
        rw [hun.pending] at hr
        cases hr
      | written r' =>
        rw [hok.1] at hr
        cases hr
      | thrown y => exact hplain r hr
    show s.fate q c.entry.1 = some .popped
    unfold Calls.fate
    rw [if_neg hwaiting]
    cases hpromise : (s.world.tasks c.entry.1).promise_.state with
    | none => exact if_pos hserved
    | some x =>
      cases x with
      | value r => exact absurd hpromise (hstate r)
      | exception y => rfl

/-- A step says nothing of a call that it neither takes a seat from nor gives one. -/
theorem Stepped.fate_other (h : Stepped q s e old new t) (hq : q < s.world.queueCount) {u : TaskRef}
    (hold : ∀ x ∈ old, x.task ≠ u) (hnew : ∀ x, new = some x → x.task ≠ u) : t.fate q u = s.fate q u := by
  obtain ⟨rest, hbefore, hafter⟩ := h.moves hq
  have hseat : ∀ x : Seat, x.task = u → (x ∈ seats q t ↔ x ∈ seats q s) := by
    intro x hx
    rw [hafter.mem_iff, hbefore.mem_iff, List.mem_append, List.mem_append, Option.mem_toList,
      or_iff_right (fun hmem => hnew x hmem hx), or_iff_right (fun hmem => hold x hmem hx)]
  have hwaiting : u ∈ (t.world.queues q).queue_.map (fun d => d.1) ↔
      u ∈ (s.world.queues q).queue_.map (fun d => d.1) := by
    rw [mem_waiting, mem_waiting]
    exact exists_congr (fun d => and_congr_left (fun heq => hseat (.waiting d) heq))
  have hserved : u ∈ t.served.map (fun c => c.entry.1) ↔ u ∈ s.served.map (fun c => c.entry.1) := by
    rw [mem_served (q := q), mem_served (q := q)]
    exact exists_congr (fun c => and_congr_left (fun heq => hseat (.served c) heq))
  have htask := (h.untouched hold hnew).1.task
  simp only [Calls.fate, hwaiting, hserved, htask]

theorem Custody.plain_new (hs : Custody recorders q s) (h : Stepped q s e old new t)
    (hplain : ∀ x ∈ old, x.Plain s.world) {x : Seat} (hx : new = some x) : x.Plain t.world := by
  obtain ⟨hold, _⟩ := hs.old_seats h
  cases h with
  | arrived number now hclock =>
    cases hx
    trivial
  | dropped thread hk hclock => cases hx
  | added thread hk hclock hlog hpush =>
    cases hpush with
    | fresh | duplicate i d hi =>
      cases hx
      trivial
    | overloaded => cases hx
  | taken thread id hmade hp hes =>
    cases hx
    trivial
  | clockRead hk hclock =>
    cases hx
    trivial
  | @returned k p d env hk hret =>
    cases hx
    show (servedResult env (s.world.tasks d.1)).fate = .popped
    unfold servedResult Result.fate
    by_cases htimely : timely env (s.world.tasks d.1)
    · rw [if_pos htimely]
    · rw [if_neg htimely]
  | @thrown k p d readings y w v fails draw hk hown hv =>
    cases hx
    have hun : Unresolved s.world d.1 := (hs.known _ (hold _ List.mem_cons_self)).2
    show ∀ r, (v.tasks d.1).promise_.state ≠ some (.value r)
    intro r hr
    rcases hv with rfl | ⟨_, x, rfl⟩
    · rw [hown.promise, hun.pending] at hr
      cases hr
    · rw [settled_state] at hr
      cases hr
  | @journalled k p d r hk =>
    cases hx
    exact hplain (.served ⟨p, d, .returned r⟩) List.mem_cons_self
  | settled hk hx' hpend => cases hx
  | reconfigured e hr hpool hlimits hsame => cases hx

end

/-! What an addition decides. -/

/-- The paths of the push of the call `x` from `s` to `t`, with the seats they move. -/
inductive Decided (q : QueueRef) (s : Calls) (x : TaskRef) (t : Calls) : List Seat → Option Seat → Prop
  | fresh (id : CallID) (hroom : (s.world.queues q).queue_.length < (s.world.queues q).sizeOfQueue)
      (hnew : ∀ d ∈ (s.world.queues q).queue_, (s.world.tasks d.1).number_ ≠ (s.world.tasks x).number_)
      (hqueue : (t.world.queues q).queue_ = (s.world.queues q).queue_ ++ [(x, id)]) :
      Decided q s x t [.made x] (some (.waiting (x, id)))
  | duplicate (id : CallID) (d : TaskRef × CallID)
      (hroom : (s.world.queues q).queue_.length < (s.world.queues q).sizeOfQueue)
      (hd : d ∈ (s.world.queues q).queue_) (hnumber : (s.world.tasks d.1).number_ = (s.world.tasks x).number_)
      (hqueue : (t.world.queues q).queue_ = (s.world.queues q).queue_.eraseP
        (fun y => (s.world.tasks y.1).number_ = (s.world.tasks x).number_) ++ [(x, id)])
      (htold : ∃ r, (t.world.tasks d.1).promise_.state = some (.value r) ∧ r.fate = .superseded) :
      Decided q s x t [.made x, .waiting d] (some (.waiting (x, id)))
  | overloaded (hfull : (s.world.queues q).sizeOfQueue ≤ (s.world.queues q).queue_.length)
      (hqueue : (t.world.queues q).queue_ = (s.world.queues q).queue_)
      (htold : ∃ r, (t.world.tasks x).promise_.state = some (.value r) ∧ r.fate = .rejected) :
      Decided q s x t [.made x] none

theorem admitted_number (w : World) (t : TaskRef) (id : CallID) (u : TaskRef) :
    ((w.admitted t id).tasks u).number_ = (w.tasks u).number_ := by
  by_cases h : u = t
  · subst h
    simp [World.admitted, World.retrieved, Task.identified]
  · rw [admitted_tasks w t id h]

theorem refused_state (w : World) (q : QueueRef) (now : TimePoint) (d : TaskRef × CallID) (isDuplication : Bool) :
    ((w.refused q now d isDuplication).tasks d.1).promise_.state = some (.value
      { status := if isDuplication then .Duplication else .Overloaded, callDuration := 0, callID := d.2 }) := by
  simp [World.refused, World.closed, World.journal, World.settled]

section
variable {recorders : List RecorderRef} {q : QueueRef} {s t : Calls} {hash : ThreadId → UInt64} {k : Nat}
  {thread : ThreadId} {now : TimePoint} {x : TaskRef}

/-- A call whose number `stoll` refuses is dropped. -/
theorem addTask_refused (hk : s.made[k]? = some x) {y : StdException}
    (hnum : stoll (s.world.tasks x).number_ = .error y) (h : s.addTask hash k thread now = some t) :
    Stepped q s (.addTask k thread now) [.made x] none t ∧ t.world = s.world.emit [.readNumber x] ∧
      t.ids = s.ids := by
  unfold Calls.addTask at h
  rw [hk] at h
  simp only at h
  split at h
  · rename_i hclock
    rw [ThreadPool.run_add_task_rejected hnum] at h
    cases h
    exact ⟨.dropped thread hk hclock, rfl, rfl⟩
  · cases h

/-- Any other call is pushed. -/
theorem Custody.added (hs : Custody recorders q s) (hk : s.made[k]? = some x) {n : Int64}
    (hnum : stoll (s.world.tasks x).number_ = .ok n) (h : s.addTask hash k thread now = some t) :
    ∃ old new, Stepped q s (.addTask k thread now) old new t ∧ Decided q s x t old new := by
  obtain ⟨hun, hfut⟩ := (hs.known _ (seat_made (List.mem_of_getElem? hk))).2
  unfold Calls.addTask at h
  rw [hk] at h
  simp only at h
  split at h
  · rename_i hclock
    cases hlog : (s.world.tasks x).logger_ with
    | false =>
      rw [ThreadPool.run_add_task_silent hnum hlog] at h
      cases h
    | true =>
      have hpushed : ∀ b v, (Queue.push q now (x, ThreadPool.generateCallID hash thread n)).run
          (s.world.admitted x (ThreadPool.generateCallID hash thread n)) = (.ok b, v) →
          (ThreadPool.add_task hash thread now s.manager.threadPool_ x).run s.world =
            (.ok (ThreadPool.generateCallID hash thread n), v) :=
        fun b v => ThreadPool.run_add_task hnum hlog hfut hs.queue
      generalize ThreadPool.generateCallID hash thread n = id at hpushed
      have hself : ((s.world.admitted x id).tasks x).promise_.state = none := by
        rw [admitted_promise]
        exact hun.pending
      rcases Nat.lt_or_ge (s.world.queues q).queue_.length (s.world.queues q).sizeOfQueue with hroom | hfull
      · cases hfind : Queue.findNumber (s.world.admitted x id).tasks ((s.world.admitted x id).tasks x).number_
            (s.world.queues q).queue_ with
        | none =>
          rw [hpushed _ _ (Queue.run_push_fresh now hroom hfind)] at h
          cases h
          refine ⟨_, _, .added thread hk hclock hlog .fresh, .fresh id hroom (fun d hd => ?_) ?_⟩
          · rw [← admitted_number s.world x id d.1, ← admitted_number s.world x id x]
            exact Queue.findNumber_none.mp hfind d hd
          · exact setEntries_queue _ _ _
        | some found =>
          obtain ⟨i, d⟩ := found
          obtain ⟨hi, hnumber, _⟩ := Queue.findNumber_some hfind
          have hd := List.mem_of_getElem? hi
          have hne : d.1 ≠ x := by
            intro heq
            cases hs.task_inj (seat_waiting hd) (seat_made (List.mem_of_getElem? hk)) heq
          have hpending : ((s.world.admitted x id).tasks d.1).promise_.state = none := by
            rw [admitted_tasks s.world x id hne]
            exact (hs.waiting_unresolved hd).pending
          rw [hpushed _ _ (Queue.run_push_duplicate now hroom hfind hpending)] at h
          cases h
          refine ⟨_, _, .added thread hk hclock hlog (.duplicate i d hi), .duplicate id d hroom hd ?_ ?_ ?_⟩
          · rw [← admitted_number s.world x id d.1, ← admitted_number s.world x id x]
            exact hnumber
          · have herase := Queue.eraseIdx_of_findNumber hfind
            simp only [World.numberOf, admitted_number] at herase
            refine (setEntries_queue _ _ _).trans ?_
            rw [← herase]
            rfl
          · exact ⟨_, refused_state _ _ _ _ _, rfl⟩
      · rw [hpushed _ _ (Queue.run_push_overloaded (e := (x, id)) now hfull hself)] at h
        cases h
        refine ⟨_, _, .added thread hk hclock hlog .overloaded, .overloaded hfull rfl ?_⟩
        exact ⟨_, refused_state _ _ _ _ _, rfl⟩
  · cases h

end

/-! The steps that only go on with a call. -/

section
variable {recorders : List RecorderRef} {q : QueueRef} {s t : Calls} {e : Step} {old : List Seat}
  {new : Option Seat}

theorem Custody.unseated (hs : Custody recorders q s) (h : Stepped q s e old new t) {y : Seat} (hy : y ∈ old)
    (hnew : ∀ x, new = some x → x.task ≠ y.task) : ∀ z ∈ seats q t, z.task ≠ y.task := by
  obtain ⟨rest, hbefore, hafter⟩ := h.moves hs.queueMade
  have hapart := (hbefore.map Seat.task).nodup_iff.mp hs.single
  rw [List.map_append, List.nodup_append] at hapart
  intro z hz
  rcases List.mem_append.mp (hafter.mem_iff.mp hz) with hz | hz
  · exact hnew z (Option.mem_toList.mp hz)
  · exact fun heq => hapart.2.2 _ (List.mem_map_of_mem hy) _ (List.mem_map_of_mem hz) heq.symm

theorem Stepped.counted (h : Stepped q s e old new t) : t.world.taskCount = s.world.taskCount ∨
    new = some (.made s.world.taskCount) ∧ t.world.taskCount = s.world.taskCount + 1 := by
  cases h with
  | arrived number now hclock => exact Or.inr ⟨rfl, rfl⟩
  | added thread hk hclock hlog hpush => cases hpush <;> exact Or.inl rfl
  | thrown fails draw hk hown hv =>
    rcases hv with rfl | ⟨_, y, rfl⟩
    · exact Or.inl hown.taskCount
    · exact Or.inl hown.taskCount
  | reconfigured e hr hpool hlimits hsame => exact Or.inl hr.taskCount
  | dropped thread hk hclock | taken thread id hmade hp hes | clockRead hk hclock | returned env hk hret
  | journalled hk | settled hk hx hpend => exact Or.inl rfl

/-- The step neither adds a call nor takes one. -/
def Step.goesOn : Step → Bool
  | .addTask _ _ _ | .take _ _ => false
  | _ => true

theorem Stepped.queue_kept (h : Stepped q s e old new t) (hq : q < s.world.queueCount) (he : e.goesOn = true) :
    (t.world.queues q).queue_ = (s.world.queues q).queue_ := by
  cases h with
  | dropped thread hk hclock | added thread hk hclock hlog hpush | taken thread id hmade hp hes => cases he
  | thrown fails draw hk hown hv =>
    rcases hv with rfl | ⟨_, y, rfl⟩
    · exact congrArg (fun f => (f q).queue_) hown.queues
    · exact congrArg (fun f => (f q).queue_) hown.queues
  | reconfigured e hr hpool hlimits hsame => exact hr.entries hq
  | arrived number now hclock | clockRead hk hclock | returned env hk hret | journalled hk
  | settled hk hx hpend => rfl

theorem Custody.fate_serving (hs : Custody recorders q s) (hplain : ∀ x ∈ seats q s, x.Plain s.world)
    {c d : Served} (h : Stepped q s e [.served c] (some (.served d)) t) (hcd : d.entry = c.entry) (u : TaskRef) :
    t.fate q u = s.fate q u := by
  obtain ⟨rest, _, hafter⟩ := h.moves hs.queueMade
  have htask : (Seat.served d).task = (Seat.served c).task := congrArg Prod.fst hcd
  by_cases hu : u = (Seat.served c).task
  · have hc : Seat.served c ∈ seats q s := (hs.old_seats h).1 _ List.mem_cons_self
    have hd : Seat.served d ∈ seats q t := hafter.mem_iff.mpr List.mem_cons_self
    have hplainNew : (Seat.served d).Plain t.world :=
      hs.plain_new h (fun y hy => hplain y ((hs.old_seats h).1 y hy)) rfl
    rw [hu, hs.fate_seated hc (hplain _ hc), ← htask]
    exact (hs.step h).fate_seated hd hplainNew
  · refine h.fate_other hs.queueMade (fun y hy => ?_) (fun x hx => ?_)
    · rw [List.mem_singleton.mp hy]
      exact Ne.symm hu
    · cases hx
      rw [htask]
      exact Ne.symm hu

theorem Custody.fate_settled (hs : Custody recorders q s) (hplain : ∀ x ∈ seats q s, x.Plain s.world) {c : Served}
    {x : Settled Result} (h : Stepped q s e [.served c] none t) (hx : c.stage.outcome = some x)
    (ht : t.world = s.world.settled c.entry.1 x) (u : TaskRef) : t.fate q u = s.fate q u := by
  by_cases hu : u = (Seat.served c).task
  · have hc : Seat.served c ∈ seats q s := (hs.old_seats h).1 _ List.mem_cons_self
    have hout := hs.unseated h (y := .served c) List.mem_cons_self (fun x hx => (by cases hx))
    have hserved : settledFate x = .popped := by
      have hwritten := hplain _ hc
      obtain ⟨p, d, stage⟩ := c
      cases stage with
      | running readings | returned r => cases hx
      | written r =>
        cases hx
        exact hwritten
      | thrown y =>
        cases hx
        rfl
    rw [hu, hs.fate_seated hc (hplain _ hc), fate_unseated hout, ht]
    show Option.map settledFate ((s.world.settled c.entry.1 x).tasks c.entry.1).promise_.state = some .popped
    rw [settled_state, Option.map_some, hserved]
  · refine h.fate_other hs.queueMade (fun y hy => ?_) (fun x hx => (by cases hx))
    rw [List.mem_singleton.mp hy]
    exact Ne.symm hu

theorem Custody.fate_kept (hs : Custody recorders q s) (hplain : ∀ x ∈ seats q s, x.Plain s.world)
    (h : Stepped q s e old new t) (he : e.goesOn = true) {u : TaskRef} (hu : u < s.world.taskCount) :
    t.fate q u = s.fate q u := by
  cases h with
  | dropped thread hk hclock | added thread hk hclock hlog hpush | taken thread id hmade hp hes => cases he
  | arrived number now hclock =>
    refine (Stepped.arrived number now hclock).fate_other hs.queueMade (fun y hy => (by cases hy)) (fun x hx => ?_)
    cases hx
    exact Ne.symm (Nat.ne_of_lt hu)
  | clockRead hk hclock => exact hs.fate_serving hplain (.clockRead hk hclock) rfl u
  | returned env hk hret => exact hs.fate_serving hplain (.returned env hk hret) rfl u
  | thrown fails draw hk hown hv => exact hs.fate_serving hplain (.thrown fails draw hk hown hv) rfl u
  | journalled hk => exact hs.fate_serving hplain (.journalled hk) rfl u
  | settled hk hx hpend => exact hs.fate_settled hplain (.settled hk hx hpend) hx rfl u
  | reconfigured e hr hpool hlimits hsame =>
    exact (Stepped.reconfigured e hr hpool hlimits hsame).fate_other hs.queueMade (fun y hy => (by cases hy))
      (fun x hx => (by cases hx))

end

/-! The two sides. -/

/-- The queue of calls: two calls with one number have one key. -/
abbrev queueOfCalls : Transition.System (BoundedQueue.State (TaskRef × List Char))
    (BoundedQueue.Op (TaskRef × List Char)) :=
  BoundedQueue.system Prod.snd

/-- The calls and the queue of calls agree on what waits, on the limit and on what became
of each call. -/
structure Fates (q : QueueRef) (s : Calls) (a : BoundedQueue.State (TaskRef × List Char)) : Prop where
  entries : a.entries = (s.world.queues q).queue_.map (fun d => label s.world d.1)
  limit : a.limit = (s.world.queues q).sizeOfQueue
  fated : BoundedQueue.Fated Prod.snd a
  plain : ∀ x ∈ seats q s, x.Plain s.world
  known : ∀ d, BoundedQueue.fate a d ≠ none → d.1 < s.world.taskCount ∧ d = label s.world d.1
  fates : ∀ t, t < s.world.taskCount → BoundedQueue.fate a (label s.world t) = s.fate q t

namespace Fates
variable {recorders : List RecorderRef} {q : QueueRef} {s t : Calls} {e : Step} {old : List Seat}
  {new : Option Seat} {a b : BoundedQueue.State (TaskRef × List Char)}

theorem plain_step (ha : Fates q s a) (hs : Custody recorders q s) (h : Stepped q s e old new t) :
    ∀ x ∈ seats q t, x.Plain t.world := by
  obtain ⟨rest, hbefore, hafter⟩ := h.moves hs.queueMade
  have hapart := (hbefore.map Seat.task).nodup_iff.mp hs.single
  rw [List.map_append, List.nodup_append] at hapart
  have hold : ∀ y ∈ old, y.Plain s.world := fun y hy => ha.plain y ((hs.old_seats h).1 y hy)
  intro x hx
  by_cases hnew : new = some x
  · exact hs.plain_new h hold hnew
  -- a seat that stays is of a call the step does not touch
  · have hmem : x ∈ rest := by
      rcases List.mem_append.mp (hafter.mem_iff.mp hx) with hmem | hmem
      · exact absurd (Option.mem_toList.mp hmem) hnew
      · exact hmem
    have hu := (h.untouched (u := x.task)
      (fun y hy heq => hapart.2.2 _ (List.mem_map_of_mem hy) _ (List.mem_map_of_mem hmem) heq)
      (fun y hy heq => hnew (hy.trans (congrArg some ((hs.step h).task_inj
        (hafter.mem_iff.mpr (List.mem_append_left _ (Option.mem_toList.mpr hy))) hx heq))))).1
    have hbeforePlain := ha.plain x (hbefore.mem_iff.mpr (List.mem_append_right _ hmem))
    obtain _ | _ | ⟨p, d, stage⟩ := x
    · trivial
    · trivial
    · cases stage with
      | running readings => trivial
      | returned r | written r => exact hbeforePlain
      | thrown y =>
        have htask : t.world.tasks d.1 = s.world.tasks d.1 := hu.task
        show ∀ r, (t.world.tasks d.1).promise_.state ≠ some (.value r)
        rw [htask]
        exact hbeforePlain

theorem labels {es : List (TaskRef × CallID)} (hes : ∀ d ∈ es, d.1 < s.world.taskCount)
    (hnumbers : ∀ u, u < s.world.taskCount → (t.world.tasks u).number_ = (s.world.tasks u).number_) :
    es.map (fun d => label t.world d.1) = es.map (fun d => label s.world d.1) :=
  List.map_congr_left (fun d hd => congrArg (Prod.mk d.1) (hnumbers d.1 (hes d hd)))

theorem waiting_known (hs : Custody recorders q s) :
    ∀ d ∈ (s.world.queues q).queue_, d.1 < s.world.taskCount :=
  fun _ hd => (hs.known _ (seat_waiting hd)).1

theorem unknown (hknown : ∀ d, BoundedQueue.fate b d ≠ none → d.1 < s.world.taskCount ∧ d = label s.world d.1)
    {u : TaskRef} (hu : ¬ u < s.world.taskCount) (number : List Char) :
    BoundedQueue.fate b (u, number) = none := by
  by_contra hne
  exact hu (hknown _ hne).1

/-- The two sides after a step, where they agree on the calls there were. -/
theorem next (ha : Fates q s a) (hs : Custody recorders q s) (h : Stepped q s e old new t)
    (hnumbers : ∀ u, u < s.world.taskCount → (t.world.tasks u).number_ = (s.world.tasks u).number_)
    (hentries : b.entries = (t.world.queues q).queue_.map (fun d => label t.world d.1))
    (hlimit : b.limit = (t.world.queues q).sizeOfQueue) (hfated : BoundedQueue.Fated Prod.snd b)
    (hknown : ∀ d, BoundedQueue.fate b d ≠ none → d.1 < s.world.taskCount ∧ d = label s.world d.1)
    (hfate : ∀ u, u < s.world.taskCount → BoundedQueue.fate b (label s.world u) = t.fate q u) : Fates q t b := by
  have hlabel : ∀ u, u < s.world.taskCount → label t.world u = label s.world u :=
    fun u hu => congrArg (Prod.mk u) (hnumbers u hu)
  refine ⟨hentries, hlimit, hfated, ha.plain_step hs h, fun d hd => ?_, fun u hu => ?_⟩
  · obtain ⟨hlt, heq⟩ := hknown d hd
    exact ⟨Nat.lt_of_lt_of_le hlt h.taskCount, heq.trans (hlabel d.1 hlt).symm⟩
  · by_cases hlt : u < s.world.taskCount
    · rw [hlabel u hlt]
      exact hfate u hlt
    -- the task was just made
    · rcases h.counted with hsame | ⟨hnew, hone⟩
      · rw [hsame] at hu
        exact absurd hu hlt
      · obtain ⟨rest, _, hafter⟩ := h.moves hs.queueMade
        have hthis : u = s.world.taskCount := by omega
        have hmem : Seat.made s.world.taskCount ∈ seats q t := by
          rw [hafter.mem_iff, hnew]
          exact List.mem_cons_self
        have hfresh := (hs.step h).fate_seated hmem trivial
        rw [hthis, label, unknown hknown (Nat.lt_irrefl _)]
        exact hfresh.symm

/-- A step that only goes on with calls leaves the queue of calls as it is, but for its
limit. -/
theorem goesOn (ha : Fates q s a) (hs : Custody recorders q s) (h : Stepped q s e old new t)
    (he : e.goesOn = true)
    (hnumbers : ∀ u, u < s.world.taskCount → (t.world.tasks u).number_ = (s.world.tasks u).number_)
    (hentries : b.entries = a.entries) (hlimit : b.limit = (t.world.queues q).sizeOfQueue)
    (hfated : BoundedQueue.Fated Prod.snd b) (hfate : ∀ d, BoundedQueue.fate b d = BoundedQueue.fate a d) :
    Fates q t b := by
  refine ha.next hs h hnumbers ?_ hlimit hfated (fun d hd => ?_) (fun u hu => ?_)
  · rw [hentries, ha.entries, h.queue_kept hs.queueMade he, labels (waiting_known hs) hnumbers]
  · rw [hfate] at hd
    exact ha.known d hd
  · rw [hfate, ha.fates u hu]
    exact (hs.fate_kept ha.plain h he hu).symm

theorem dropped (ha : Fates q s a) (hs : Custody recorders q s) {u : TaskRef}
    (h : Stepped q s e [.made u] none t) (hsteady : Steady q s.world t.world)
    (hworld : t.world = s.world.emit [.readNumber u]) : Fates q t a := by
  have hmade : Seat.made u ∈ seats q s := (hs.old_seats h).1 _ List.mem_cons_self
  have hqueue : (t.world.queues q).queue_ = (s.world.queues q).queue_ := by rw [hworld]; rfl
  refine ha.next hs h hsteady.numbers ?_ (ha.limit.trans (hsteady.limit hs.queueMade).symm) ha.fated ha.known
    (fun x hx => ?_)
  · rw [hqueue, ha.entries, labels (waiting_known hs) hsteady.numbers]
  · rw [ha.fates x hx]
    by_cases hxu : x = u
    · have hpending : (s.world.tasks u).promise_.state = none := (hs.known _ hmade).2.1.pending
      have hbefore : s.fate q u = none := hs.fate_seated hmade trivial
      have hafter := fate_unseated (hs.unseated h (y := .made u) List.mem_cons_self (fun x hx => (by cases hx)))
      rw [hxu, hbefore]
      refine (hafter.trans ?_).symm
      rw [hworld]
      show (s.world.tasks u).promise_.state.map settledFate = none
      rw [hpending]
      rfl
    · refine (h.fate_other hs.queueMade (fun y hy => ?_) (fun y hy => (by cases hy))).symm
      rw [List.mem_singleton.mp hy]
      exact Ne.symm hxu

theorem take {hash : ThreadId → UInt64} (ha : Fates q s a) (hs : Custody recorders q s) {thread : ThreadId}
    {p : PoolRef} (h : s.take hash thread p = some t) :
    ∃ b, queueOfCalls.run a [.pop] = some b ∧ Fates q t b := by
  obtain ⟨d, rest, id, hes, hst, hstepped⟩ := hs.taken h
  have hsteady : Steady q s.world t.world := hst ▸ Steady.taken _ d id rest
  have hrest : (t.world.queues q).queue_ = rest := hst ▸ setEntries_queue _ _ _
  have hentries : a.entries = label s.world d.1 :: rest.map (fun x => label s.world x.1) := by
    rw [ha.entries, hes]
    rfl
  have hpop : BoundedQueue.step Prod.snd a .pop = some { a with
      entries := rest.map (fun x => label s.world x.1), history := a.history ++ [.popped (label s.world d.1)] } := by
    rw [BoundedQueue.step, BoundedQueue.pop, hentries]
  have hd : d.1 < s.world.taskCount := waiting_known hs d (by rw [hes]; exact List.mem_cons_self)
  refine ⟨_, Transition.System.run_cons_some.mpr ⟨_, hpop, rfl⟩, ?_⟩
  have hfate := BoundedQueue.fate_popped ha.fated hentries
  refine ha.next hs hstepped hsteady.numbers ?_ (ha.limit.trans (hsteady.limit hs.queueMade).symm)
    ((BoundedQueue.stepped Prod.snd hpop).fated ha.fated (fun e he => by cases he)) (fun x hx => ?_) (fun u hu => ?_)
  · rw [hrest, labels (fun x hx => waiting_known hs x (by rw [hes]; exact List.mem_cons_of_mem d hx)) hsteady.numbers]
  · rw [hfate] at hx
    split at hx
    · rename_i heq
      rw [heq]
      exact ⟨hd, rfl⟩
    · exact ha.known x hx
  · rw [hfate]
    by_cases hud : u = d.1
    · obtain ⟨others, _, hafter⟩ := hstepped.moves hs.queueMade
      have hmem : Seat.served ⟨p, d, .running []⟩ ∈ seats q t := hafter.mem_iff.mpr List.mem_cons_self
      rw [hud, if_pos rfl]
      exact ((hs.step hstepped).fate_seated hmem trivial).symm
    · rw [if_neg (fun heq => hud (congrArg Prod.fst heq)), ha.fates u hu]
      refine (hstepped.fate_other hs.queueMade (fun y hy => ?_) (fun y hy => ?_)).symm
      · rw [List.mem_singleton.mp hy]
        exact Ne.symm hud
      · cases hy
        exact Ne.symm hud

/-- A call that waits in the queue of calls waits in `q`. -/
theorem waits (ha : Fates q s a) {u : TaskRef}
    (h : BoundedQueue.fate a (label s.world u) = some .waiting) : ∃ d ∈ (s.world.queues q).queue_, d.1 = u := by
  have hmem := (BoundedQueue.fate_waiting_iff.mp h).2.2.2
  rw [ha.entries] at hmem
  obtain ⟨d, hd, heq⟩ := List.mem_map.mp hmem
  exact ⟨d, hd, congrArg Prod.fst heq⟩

/-- The call that waits with a number is the only one. -/
theorem waits_alone (ha : Fates q s a) {d : TaskRef × CallID} (hd : d ∈ (s.world.queues q).queue_) {u : TaskRef}
    (h : BoundedQueue.fate a (label s.world u) = some .waiting)
    (hnumber : (s.world.tasks u).number_ = (s.world.tasks d.1).number_) : u = d.1 := by
  have hu := (BoundedQueue.fate_waiting_iff.mp h).2.2.2
  have hd' : label s.world d.1 ∈ a.entries := by
    rw [ha.entries]
    exact List.mem_map.mpr ⟨d, hd, rfl⟩
  exact congrArg Prod.fst (List.inj_on_of_nodup_map ha.fated.distinct hu hd' hnumber)

theorem fresh (ha : Fates q s a) (hs : Custody recorders q s) {x : TaskRef} (hx : Seat.made x ∈ seats q s) :
    x < s.world.taskCount ∧ BoundedQueue.fate a (label s.world x) = none := by
  have hlt : x < s.world.taskCount := (hs.known _ hx).1
  refine ⟨hlt, ?_⟩
  rw [ha.fates x hlt]
  exact hs.fate_seated hx trivial

section
variable {hash : ThreadId → UInt64} {k : Nat} {thread : ThreadId} {now : TimePoint} {x : TaskRef}

theorem accepted (ha : Fates q s a) (hs : Custody recorders q s) (hx : Seat.made x ∈ seats q s) {id : CallID}
    (h : Stepped q s e old (some (.waiting (x, id))) t) (hsteady : Steady q s.world t.world)
    (hroom : (s.world.queues q).queue_.length < (s.world.queues q).sizeOfQueue)
    (hqueue : (t.world.queues q).queue_ = (s.world.queues q).queue_.eraseP
      (fun y => (s.world.tasks y.1).number_ = (s.world.tasks x).number_) ++ [(x, id)])
    (hothers : ∀ u, u < s.world.taskCount → u ≠ x → t.fate q u =
      if BoundedQueue.fate a (label s.world u) = some .waiting ∧
        (s.world.tasks u).number_ = (s.world.tasks x).number_ then some .superseded else s.fate q u) :
    ∃ b, queueOfCalls.run a [.push (label s.world x)] = some b ∧ Fates q t b := by
  obtain ⟨hxlt, hfresh⟩ := ha.fresh hs hx
  have hstep : BoundedQueue.step Prod.snd a (.push (label s.world x)) = some { a with
      entries := BoundedQueue.enqueue Prod.snd a.entries (label s.world x),
      history := a.history ++ [.accepted (label s.world x)] } := by
    have hlength : ¬ a.limit ≤ a.entries.length := by
      rw [ha.limit, ha.entries, List.length_map]
      exact Nat.not_le.mpr hroom
    rw [BoundedQueue.step, BoundedQueue.push, if_neg hlength]
  have hentries : BoundedQueue.enqueue Prod.snd a.entries (label s.world x) =
      (t.world.queues q).queue_.map (fun d => label s.world d.1) := by
    rw [BoundedQueue.enqueue, ha.entries, List.eraseP_map, hqueue, List.map_append]
    rfl
  have hfate := BoundedQueue.fate_accepted ha.fated hfresh
  refine ⟨_, Transition.System.run_cons_some.mpr ⟨_, hstep, rfl⟩, ha.next hs h hsteady.numbers ?_
    (ha.limit.trans (hsteady.limit hs.queueMade).symm) ((BoundedQueue.stepped Prod.snd hstep).fated ha.fated ?_)
    (fun d hd => ?_) (fun u hu => ?_)⟩
  · refine hentries.trans (labels (fun d hd => ?_) hsteady.numbers).symm
    rw [hqueue] at hd
    rcases List.mem_append.mp hd with hd | hd
    · exact waiting_known hs d (List.mem_of_mem_eraseP hd)
    · rw [List.mem_singleton.mp hd]
      exact hxlt
  · intro d hd
    cases hd
    exact hfresh
  · rw [hfate] at hd
    split at hd
    · rename_i heq
      rw [heq]
      exact ⟨hxlt, rfl⟩
    · split at hd
      · rename_i hboth
        exact ha.known d (by rw [hboth.1]; exact Option.some_ne_none _)
      · exact ha.known d hd
  · rw [hfate]
    by_cases hux : u = x
    · obtain ⟨others, _, hafter⟩ := h.moves hs.queueMade
      have hmem : Seat.waiting (x, id) ∈ seats q t := hafter.mem_iff.mpr List.mem_cons_self
      rw [hux, if_pos rfl]
      exact ((hs.step h).fate_seated hmem trivial).symm
    · rw [if_neg (fun heq => hux (congrArg Prod.fst heq)), hothers u hu hux, ha.fates u hu]
      rfl

theorem rejected (ha : Fates q s a) (hs : Custody recorders q s) (hx : Seat.made x ∈ seats q s)
    (h : Stepped q s e [.made x] none t) (hsteady : Steady q s.world t.world)
    (hfull : (s.world.queues q).sizeOfQueue ≤ (s.world.queues q).queue_.length)
    (hqueue : (t.world.queues q).queue_ = (s.world.queues q).queue_)
    (htold : ∃ r, (t.world.tasks x).promise_.state = some (.value r) ∧ r.fate = .rejected) :
    ∃ b, queueOfCalls.run a [.push (label s.world x)] = some b ∧ Fates q t b := by
  obtain ⟨r, hr, hfate⟩ := htold
  obtain ⟨hxlt, hfresh⟩ := ha.fresh hs hx
  have hstep : BoundedQueue.step Prod.snd a (.push (label s.world x)) =
      some { a with history := a.history ++ [.rejected (label s.world x)] } := by
    have hlength : a.limit ≤ a.entries.length := by
      rw [ha.limit, ha.entries, List.length_map]
      exact hfull
    rw [BoundedQueue.step, BoundedQueue.push, if_pos hlength]
  have hout := hs.unseated h (y := .made x) List.mem_cons_self (fun y hy => by cases hy)
  refine ⟨_, Transition.System.run_cons_some.mpr ⟨_, hstep, rfl⟩, ha.next hs h hsteady.numbers ?_
    (ha.limit.trans (hsteady.limit hs.queueMade).symm) ((BoundedQueue.stepped Prod.snd hstep).fated ha.fated ?_)
    (fun d hd => ?_) (fun u hu => ?_)⟩
  · rw [hqueue, labels (waiting_known hs) hsteady.numbers]
    exact ha.entries
  · intro d hd
    cases hd
    exact hfresh
  · rw [BoundedQueue.fate_rejected] at hd
    split at hd
    · rename_i heq
      rw [heq]
      exact ⟨hxlt, rfl⟩
    · exact ha.known d hd
  · rw [BoundedQueue.fate_rejected]
    by_cases hux : u = x
    · rw [hux, if_pos rfl]
      refine ((fate_unseated hout).trans ?_).symm
      show (t.world.tasks x).promise_.state.map settledFate = some .rejected
      rw [hr, Option.map_some, settledFate, hfate]
    · rw [if_neg (fun heq => hux (congrArg Prod.fst heq)), ha.fates u hu]
      refine (h.fate_other hs.queueMade (fun y hy => ?_) (fun y hy => by cases hy)).symm
      rw [List.mem_singleton.mp hy]
      exact Ne.symm hux

theorem add (ha : Fates q s a) (hs : Custody recorders q s) {n : Int64} (hk : s.made[k]? = some x)
    (hnum : stoll (s.world.tasks x).number_ = .ok n) (h : s.addTask hash k thread now = some t) :
    ∃ b, queueOfCalls.run a [.push (label s.world x)] = some b ∧ Fates q t b := by
  obtain ⟨old, new, hstepped, hdecided⟩ := hs.added hk hnum h
  have hsteady : Steady q s.world t.world := hs.steady (e := .addTask k thread now) h (fun size he => by cases he)
  have hx : Seat.made x ∈ seats q s := seat_made (List.mem_of_getElem? hk)
  cases hdecided with
  | fresh id hroom hnew hqueue =>
    refine ha.accepted hs hx hstepped hsteady hroom ?_ (fun u hu hux => ?_)
    · rw [List.eraseP_of_forall_not (fun d hd => by simpa using hnew d hd)]
      exact hqueue
    · rw [if_neg]
      · refine hstepped.fate_other hs.queueMade (fun y hy => ?_) (fun y hy => ?_)
        · rw [List.mem_singleton.mp hy]
          exact Ne.symm hux
        · cases hy
          exact Ne.symm hux
      · rintro ⟨hwaiting, hnumber⟩
        obtain ⟨d, hd, rfl⟩ := ha.waits hwaiting
        exact hnew d hd hnumber
  | duplicate id d hroom hd hnumber hqueue htold =>
    refine ha.accepted hs hx hstepped hsteady hroom hqueue (fun u hu hux => ?_)
    by_cases hud : u = d.1
    · obtain ⟨r, hr, hfate⟩ := htold
      have hout := hs.unseated hstepped (y := .waiting d) (List.mem_cons_of_mem _ List.mem_cons_self) (fun y hy => by
        cases hy
        exact fun heq => hux (hud.trans heq.symm))
      have hwaits : BoundedQueue.fate a (label s.world d.1) = some .waiting := by
        rw [ha.fates d.1 (waiting_known hs d hd)]
        exact hs.fate_seated (seat_waiting hd) trivial
      rw [hud, if_pos ⟨hwaits, hnumber⟩]
      refine (fate_unseated hout).trans ?_
      show (t.world.tasks d.1).promise_.state.map settledFate = some .superseded
      rw [hr, Option.map_some, settledFate, hfate]
    · rw [if_neg]
      · refine hstepped.fate_other hs.queueMade (fun y hy => ?_) (fun y hy => ?_)
        · rcases List.mem_cons.mp hy with rfl | hy
          · exact Ne.symm hux
          · rw [List.mem_singleton.mp hy]
            exact Ne.symm hud
        · cases hy
          exact Ne.symm hux
      · rintro ⟨hwaiting, hsame⟩
        exact hud (ha.waits_alone hd hwaiting (hsame.trans hnumber.symm))
  | overloaded hfull hqueue htold =>
    exact ha.rejected hs hx hstepped hsteady hfull hqueue htold

end

theorem resize {hash : ThreadId → UInt64} (ha : Fates q s a) (hs : Custody recorders q s) {size : Int}
    (h : (system hash).step s (.updateQueue size) = some t) :
    ∃ b, queueOfCalls.run a [.resize (toSizeT size)] = some b ∧ Fates q t b := by
  have hpool : (readPool s.manager.threadPool_).run s.world = (.ok (s.world.pools s.manager.threadPool_), s.world) :=
    rfl
  have hrun : (s.manager.updateQueue size).run s.world =
      (.ok (), s.world.setQueue q { s.world.queues q with sizeOfQueue := toSizeT size }) := by
    rw [Manager.updateQueue, Exec.run_bind_ok hpool, hs.queue]
    rfl
  obtain ⟨old, new, hstepped⟩ := hs.stepped h
  have hworld : t.world = s.world.setQueue q { s.world.queues q with sizeOfQueue := toSizeT size } := by
    have h' : s.configure (s.manager.updateQueue size) = some t := h
    rw [Calls.configure, hrun] at h'
    cases h'
    rfl
  have hstep : BoundedQueue.step Prod.snd a (.resize (toSizeT size)) = some { a with
      limit := toSizeT size, history := a.history ++ [.resized (toSizeT size)] } := rfl
  refine ⟨_, Transition.System.run_cons_some.mpr ⟨_, hstep, rfl⟩, ha.goesOn hs hstepped rfl (fun u hu => ?_) rfl ?_
    ((BoundedQueue.stepped Prod.snd hstep).fated ha.fated (fun e he => by cases he)) (BoundedQueue.fate_resized a _)⟩
  · rw [hworld]
    rfl
  · rw [hworld]
    simp

/-- Each step is what it amounts to in the queue of calls. -/
theorem step {hash : ThreadId → UInt64} (ha : Fates q s a) (hs : Custody recorders q s)
    (h : (system hash).step s e = some t) :
    ∃ b, queueOfCalls.run a (points s e) = some b ∧ Fates q t b := by
  have hgoesOn : e.goesOn = true → (∀ size, e ≠ .updateQueue size) → Fates q t a := by
    intro he hsize
    obtain ⟨old, new, hstepped⟩ := hs.stepped h
    have hsteady := hs.steady h hsize
    exact ha.goesOn hs hstepped he hsteady.numbers rfl (ha.limit.trans (hsteady.limit hs.queueMade).symm) ha.fated
      (fun _ => rfl)
  cases e with
  | addTask k thread now =>
    cases hk : s.made[k]? with
    | none =>
      have h' : s.addTask hash k thread now = some t := h
      unfold Calls.addTask at h'
      rw [hk] at h'
      cases h'
    | some x =>
      cases hnum : stoll (s.world.tasks x).number_ with
      | ok n =>
        have hpoints : points s (.addTask k thread now) = [.push (label s.world x)] := by simp [points, hk, hnum]
        rw [hpoints]
        exact ha.add hs hk hnum h
      | error y =>
        have hpoints : points s (.addTask k thread now) = [] := by simp [points, hk, hnum]
        rw [hpoints]
        obtain ⟨hstepped, hworld, _⟩ := addTask_refused (q := q) hk hnum h
        exact ⟨a, rfl, ha.dropped hs hstepped (hs.steady h (fun size he => by cases he)) hworld⟩
  | take thread p => exact ha.take hs h
  | updateQueue size => exact ha.resize hs h
  | arrive number now => exact ⟨a, rfl, hgoesOn rfl (fun size he => by cases he)⟩
  | readClock k now => exact ⟨a, rfl, hgoesOn rfl (fun size he => by cases he)⟩
  | doTask k fails draw => exact ⟨a, rfl, hgoesOn rfl (fun size he => by cases he)⟩
  | writeCDR k => exact ⟨a, rfl, hgoesOn rfl (fun size he => by cases he)⟩
  | settle k => exact ⟨a, rfl, hgoesOn rfl (fun size he => by cases he)⟩
  | startThreadPool => exact ⟨a, rfl, hgoesOn rfl (fun size he => by cases he)⟩
  | stopThreadPool => exact ⟨a, rfl, hgoesOn rfl (fun size he => by cases he)⟩
  | setMinMax minMax => exact ⟨a, rfl, hgoesOn rfl (fun size he => by cases he)⟩
  | swap operators size => exact ⟨a, rfl, hgoesOn rfl (fun size he => by cases he)⟩

end Fates

/-! Whole runs. -/

theorem fates_assemble {operators limit : Nat} {recorders : List RecorderRef} {minMax : Int × Int}
    {logger : Bool} {m : Manager} {w : World}
    (h : (CallFlow.assemble operators limit recorders minMax logger).run .empty = (.ok m, w)) (clock : TimePoint) :
    Fates 0 (initial m w clock) (BoundedQueue.initial (w.queues 0).sizeOfQueue) := by
  have hfresh := CallFlow.fresh_assemble h
  refine ⟨?_, rfl, ⟨List.nodup_nil, fun e he => by cases he⟩, fun x hx => ?_, fun d hd => absurd rfl hd, fun t ht => ?_⟩
  · have hempty : ((initial m w clock).world.queues 0).queue_ = [] := hfresh.empty 0
    rw [hempty]
    rfl
  · rw [seats_assemble h clock] at hx
    cases hx
  · have hcount : (initial m w clock).world.taskCount = 0 := hfresh.taskCount
    rw [hcount] at ht
    exact absurd ht (Nat.not_lt_zero t)

theorem points_addTask (s : Calls) (k : Nat) (thread : ThreadId) (now : TimePoint) :
    points s (.addTask k thread now) = [] ∨
      ∃ x, s.made[k]? = some x ∧ points s (.addTask k thread now) = [.push (label s.world x)] := by
  cases hk : s.made[k]? with
  | none => exact Or.inl (by simp [points, hk])
  | some x =>
    cases hnum : stoll (s.world.tasks x).number_ with
    | ok n => exact Or.inr ⟨x, rfl, by simp [points, hk, hnum]⟩
    | error y => exact Or.inl (by simp [points, hk, hnum])

/-- A call is pushed once. -/
theorem Fates.fresh_points {recorders : List RecorderRef} {q : QueueRef} {s : Calls}
    {a : BoundedQueue.State (TaskRef × List Char)} (ha : Fates q s a) (hs : Custody recorders q s) (e : Step) :
    queueOfCalls.Along BoundedQueue.FreshPush a (points s e) := by
  cases e with
  | addTask k thread now =>
    rcases points_addTask s k thread now with hnone | ⟨x, hk, hpush⟩
    · rw [hnone]
      trivial
    · rw [hpush]
      refine ⟨fun d hd => ?_, fun _ _ => trivial⟩
      cases hd
      exact (ha.fresh hs (seat_made (List.mem_of_getElem? hk))).2
  | take thread p => exact ⟨fun d hd => (by cases hd), fun _ _ => trivial⟩
  | updateQueue size => exact ⟨fun d hd => (by cases hd), fun _ _ => trivial⟩
  | arrive _ _ | readClock _ _ | doTask _ _ _ | writeCDR _ | settle _ | startThreadPool | stopThreadPool
  | setMinMax _ | swap _ _ => trivial

/-- The calls and the queue of calls, from one moment of a run to a later one. -/
theorem fates_step {recorders : List RecorderRef} {q : QueueRef} {hash : ThreadId → UInt64} (s : Calls) (e : Step)
    (t : Calls) (a : BoundedQueue.State (TaskRef × List Char)) (h : Custody recorders q s ∧ Fates q s a)
    (hstep : (system hash).step s e = some t) :
    ∃ b, queueOfCalls.run a (points s e) = some b ∧ Custody recorders q t ∧ Fates q t b := by
  obtain ⟨b, hb, hfates⟩ := h.2.step h.1 hstep
  obtain ⟨old, new, hstepped⟩ := h.1.stepped hstep
  exact ⟨b, hb, h.1.step hstepped, hfates⟩

section
variable {hash : ThreadId → UInt64} {operators limit : Nat} {recorders : List RecorderRef} {minMax : Int × Int}
  {logger : Bool} {m : Manager} {w : World} {clock : TimePoint} {steps : List Step} {s t : Calls}

/-- In every run, with handlers, workers and updates in any order, the calls are those of
the atomic queue: the same ones wait, under the same limit, and what became of each call,
which is what its client is told, is what became of it there. -/
theorem fates_agree (h₀ : (CallFlow.assemble operators limit recorders minMax logger).run .empty = (.ok m, w))
    (h : (system hash).run (initial m w clock) steps = some s) :
    ∃ a, queueOfCalls.run (BoundedQueue.initial (w.queues 0).sizeOfQueue)
        ((system hash).project points (initial m w clock) steps) = some a ∧
      a.entries = (s.world.queues 0).queue_.map (fun d => label s.world d.1) ∧
      a.limit = (s.world.queues 0).sizeOfQueue ∧
      ∀ t, t < s.world.taskCount → BoundedQueue.fate a (label s.world t) = s.fate 0 t := by
  obtain ⟨a, ha, _, hfates⟩ := Transition.System.run_project fates_step h
    ⟨custody_assemble h₀ clock, fates_assemble h₀ clock⟩
  exact ⟨a, ha, hfates.entries, hfates.limit, hfates.fates⟩

/-- In that hour a call is superseded, one is completed, one ends with an exception and
one comes to a full queue. -/
theorem fates_agree_rushHour : ∃ s, endOfRushHour = some s ∧
    (List.range 4).map (s.fate 0) = [some .superseded, some .popped, some .popped, some .rejected] ∧
    ∃ (w : World) (m : Manager) (a : BoundedQueue.State (TaskRef × List Char)),
      queueOfCalls.run (BoundedQueue.initial (w.queues 0).sizeOfQueue)
        ((system (fun _ => 7)).project points (initial m w 0) rushHour) = some a ∧
      ∀ t, t < s.world.taskCount → BoundedQueue.fate a (label s.world t) = s.fate 0 t := by
  have hsome : endOfRushHour.isSome = true := by decide +kernel
  have hfates : endOfRushHour.map (fun s => (List.range 4).map (s.fate 0)) =
      some [some .superseded, some .popped, some .popped, some .rejected] := by
    decide +kernel
  obtain ⟨s, hs⟩ := Option.isSome_iff_exists.mp hsome
  rw [hs, Option.map_some, Option.some_inj] at hfates
  refine ⟨s, hs, hfates, ?_⟩
  unfold endOfRushHour at hs
  split at hs
  · rename_i m w hassemble
    obtain ⟨a, ha, _, _, hsame⟩ := fates_agree hassemble hs
    exact ⟨w, m, a, ha, hsame⟩
  · cases hs

/-- A worker takes a call. -/
def Step.isTake : Step → Bool
  | .take _ _ => true
  | _ => false

theorem pops_points (s : Calls) (e : Step) :
    (points s e).countP BoundedQueue.Op.isPop = if e.isTake then 1 else 0 := by
  cases e with
  | addTask k thread now =>
    rcases points_addTask s k thread now with hnone | ⟨x, _, hpush⟩
    · rw [hnone]
      rfl
    · rw [hpush]
      rfl
  | arrive _ _ | take _ _ | readClock _ _ | doTask _ _ _ | writeCDR _ | settle _ | startThreadPool | stopThreadPool
  | setMinMax _ | updateQueue _ | swap _ _ => rfl

/-- No call overtakes another: with `i` calls before it, a call is in the hands of a worker
or over after `i + 1` dequeues, unless a later call with its number takes its place. -/
theorem served_within (h₀ : (CallFlow.assemble operators limit recorders minMax logger).run .empty = (.ok m, w))
    (h : (system hash).run (initial m w clock) steps = some s) {u : TaskRef} {id : CallID} {i : Nat}
    (hi : (s.world.queues 0).queue_[i]? = some (u, id)) {later : List Step}
    (ht : (system hash).run s later = some t) (htakes : i < later.countP Step.isTake) :
    t.fate 0 u = some .popped ∨ t.fate 0 u = some .superseded := by
  obtain ⟨a, _, hs, ha⟩ := Transition.System.run_project fates_step h
    ⟨custody_assemble h₀ clock, fates_assemble h₀ clock⟩
  obtain ⟨b, hb, hst, hfates⟩ := Transition.System.run_project fates_step ht ⟨hs, ha⟩
  have hfresh := Transition.System.along_project fates_step
    (fun s e _ a hboth _ => Fates.fresh_points hboth.2 hboth.1 e) ht ⟨hs, ha⟩
  have hpops : ((system hash).project points s later).countP BoundedQueue.Op.isPop = later.countP Step.isTake :=
    Transition.System.countP_project (fun s e _ _ => pops_points s e) ht
  have hmem : (u, id) ∈ (s.world.queues 0).queue_ := List.mem_of_getElem? hi
  have hlt : u < s.world.taskCount := Fates.waiting_known hs _ hmem
  have hwaiting : BoundedQueue.fate a (label s.world u) = some .waiting := by
    rw [ha.fates u hlt]
    exact hs.fate_seated (seat_waiting hmem) trivial
  have hindex : BoundedQueue.ahead a (label s.world u) = i := by
    refine BoundedQueue.ahead_of_getElem? ha.fated ?_
    rw [ha.entries, List.getElem?_map, hi]
    rfl
  have hgone : BoundedQueue.Gone b (label s.world u) := by
    rcases BoundedQueue.run_ahead hb hfresh ha.fated hwaiting with ⟨_, hle⟩ | hgone
    · rw [hpops, hindex] at hle
      omega
    · exact hgone
  -- the number is the one the call had
  have hpushed : BoundedQueue.fate b (label s.world u) ≠ none := by
    rcases hgone with hgone | hgone <;> rw [hgone] <;> exact Option.some_ne_none _
  have hknown : u < t.world.taskCount ∧ label s.world u = label t.world u :=
    hfates.known (label s.world u) hpushed
  rw [← hfates.fates u hknown.1, ← hknown.2]
  exact hgone

end

/-- The same hour up to its third call, which waits behind the second. -/
def startOfRushHour : Option Calls :=
  match (CallFlow.assemble 1 2 [0, 1] (10, 15) true).run .empty with
  | (.ok m, w) => (system (fun _ => 7)).run (initial m w 0) (rushHour.take 7)
  | _ => none

theorem served_within_rushHour : ∃ s t, startOfRushHour = some s ∧
    (s.world.queues 0).queue_.map (fun d => d.1) = [1, 2] ∧
    (system (fun _ => 7)).run s (rushHour.drop 7) = some t ∧
    (t.fate 0 2 = some .popped ∨ t.fate 0 2 = some .superseded) := by
  have hqueue : startOfRushHour.map (fun s => (s.world.queues 0).queue_.map (fun d => d.1)) = some [1, 2] := by
    decide +kernel
  have hlater : (startOfRushHour.bind (fun s => (system (fun _ => 7)).run s (rushHour.drop 7))).isSome = true := by
    decide +kernel
  obtain ⟨s, hs, hfront⟩ := Option.map_eq_some_iff.mp hqueue
  rw [hs, Option.bind_some] at hlater
  obtain ⟨t, ht⟩ := Option.isSome_iff_exists.mp hlater
  refine ⟨s, t, hs, hfront, ht, ?_⟩
  have hwaits : ((s.world.queues 0).queue_[1]?).map (fun d => d.1) = some 2 := by
    rw [← List.getElem?_map, hfront]
    rfl
  obtain ⟨⟨u, id⟩, hi, hu⟩ := Option.map_eq_some_iff.mp hwaits
  cases hu
  unfold startOfRushHour at hs
  split at hs
  · rename_i m w hassemble
    exact served_within hassemble hs hi ht (by decide +kernel)
  · cases hs

end CallSteps

end ProteiCov
