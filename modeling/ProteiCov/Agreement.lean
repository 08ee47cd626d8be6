import ProteiCov.Frames
import ProteiCov.UpdateReply

/-
  What an update brings into agreement

  An update asks for the configuration up to five times without holding its lock, so
  it can apply parts of several configurations. Each phase brings one more part of
  the manager into agreement with the configuration of that moment
  (`Phase.Agreed`), and what an earlier phase brought stays until the next re-read.
  A party that re-read the file goes on to an update of its own, so as long as one
  is waiting nothing is claimed, and the last of them to hold `updateMtx` finds a
  configuration no one replaces: when it leaves, everything agrees.
-/

namespace ProteiCov
open Cpp

/-- The sizes a pool and a queue can have, as values of type `int`. -/
structure Settings.Usable (s : Settings) : Prop where
  operators : 0 ≤ s.AmountOfOperators ∧ s.AmountOfOperators < 2 ^ 31
  queue : 0 ≤ s.SizeOfQueue ∧ s.SizeOfQueue < 2 ^ 31

theorem Settings.InRange.usable {s : Settings} (h : s.InRange) : s.Usable := by
  have ho := h.operators
  have hq := h.queue
  exact ⟨by omega, by omega⟩

theorem toSizeT_cast {n : Int} (h : 0 ≤ n ∧ n < 2 ^ 31) : (toSizeT n : Int) = n := by
  unfold toSizeT
  omega

theorem toUnsigned_cast {n : Int} (h : 0 ≤ n ∧ n < 2 ^ 31) : (toUnsigned n : Int) = n := by
  unfold toUnsigned
  omega

theorem unsignedToInt_toUnsigned {n : Int} (h : 0 ≤ n ∧ n < 2 ^ 31) :
    unsignedToInt (toUnsigned n) = n := by
  have hcast := toUnsigned_cast h
  unfold unsignedToInt
  rw [if_pos (by omega), hcast]

theorem reservable_of_int {n : Int} (h : 0 ≤ n ∧ n < 2 ^ 31) : Manager.Reservable n := by
  unfold Manager.Reservable
  rw [unsignedToInt_toUnsigned h]
  exact h.1

/-! Agreement of a manager with its configuration. -/

namespace Center

/-- The values the getters return. -/
def settings (c : Center) : Settings := ProteiCov.settings c.config.data_

/-- The manager, its pool and the queue of the pool are objects of the heap. -/
structure Assembled (c : Center) (m : Manager) (q : QueueRef) : Prop where
  manager : c.manager = some m
  pool : m.threadPool_ < c.world.poolCount
  task_queue : (c.world.pools m.threadPool_).task_queue = some q
  queue : q < c.world.queueCount

/-- The manager, if there is one, has its pool and a queue. -/
def Ready (c : Center) : Prop :=
  ∀ m, c.manager = some m →
    (∃ q, c.Assembled m q) ∧ Manager.Reservable c.settings.SizeOfQueue

/-- The durations new tasks get. -/
def DurationsAgree (c : Center) (m : Manager) : Prop :=
  m.RMin_ = c.settings.RMin ∧ m.RMax_ = c.settings.RMax

/-- The limit of the queue. -/
def LimitAgrees (c : Center) (q : QueueRef) : Prop :=
  ((c.world.queues q).sizeOfQueue : Int) = c.settings.SizeOfQueue

/-- The number of threads of the installed pool. -/
def SizeAgrees (c : Center) (m : Manager) : Prop :=
  ((c.world.pools m.threadPool_).size : Int) = c.settings.AmountOfOperators

/-- The manager, its queue and its pool work with the values of the configuration. -/
structure Agrees (c : Center) (m : Manager) (q : QueueRef) : Prop where
  durations : c.DurationsAgree m
  limit : c.LimitAgrees q
  size : c.SizeAgrees m

end Center

namespace Phase

/-- The phases between the re-read of an update and the end of `Manager::update`. -/
def busy : Phase → Bool
  | reread | stamp => false
  | _ => true

theorem busy_of_holds {phase : Phase} (h : phase.holds = true) : phase.busy = true := by
  cases phase <;> first | rfl | cases h

theorem notify_or_holds {phase : Phase} (h : phase.busy = true) :
    phase = .notify ∨ phase.holds = true := by
  cases phase with
  | notify => exact Or.inl rfl
  | reread => cases h
  | stamp => cases h
  | _ => exact Or.inr rfl

/-- What the phases before this one brought into agreement. -/
def Agreed : Phase → Center → Manager → QueueRef → Prop
  | reread, _, _, _ | notify, _, _, _ | getMinMax, _, _, _ => True
  | updateQueue, c, m, _ => c.DurationsAgree m
  | compareOperators, c, m, q | readOperators, c, m, q => c.DurationsAgree m ∧ c.LimitAgrees q
  | readSize operators, c, m, q | install operators _, c, m, q =>
    (c.DurationsAgree m ∧ c.LimitAgrees q) ∧ operators = c.settings.AmountOfOperators
  | stamp, c, m, q => c.Agrees m q

/-- The size read for a new queue can be reserved. -/
def Reserves : Phase → Prop
  | install _ size => Manager.Reservable size
  | _ => True

end Phase

namespace Center
variable {c : Center} {m : Manager} {q : QueueRef} {content : FileContent}

/-- The center after the getter `x` was called. -/
def asked {α : Type} (c : Center) (x : Exec ThreadSafeConfig α) : Center :=
  { c with config := (x.run c.config).2 }

theorem run_onConfig {α : Type} {x : Exec ThreadSafeConfig α} {a : α}
    (h : (x.run c.config).1 = .ok a) : (onConfig x).run c = (.ok a, c.asked x) :=
  Prod.ext h rfl

theorem run_onWorld {α : Type} {x : Exec World α} {o : Outcome α} {w : World}
    (h : x.run c.world = (o, w)) : (onWorld x).run c = (o, { c with world := w }) := by
  show ((x.run c.world).1, { c with world := (x.run c.world).2 }) = _
  rw [h]

theorem run_notify (hm : c.manager = some m) :
    (Phase.notify.run content).run c = (.ok .getMinMax, { c with locked := true }) := by
  have hget : (Exec.get id : Exec Center Center).run c = (.ok c, c) := rfl
  have henter : Phase.enter c.manager = Phase.enter (some m) := congrArg Phase.enter hm
  calc (Phase.notify.run content).run c
      = (Phase.enter c.manager).run c := Exec.run_bind_ok hget
    _ = (.ok .getMinMax, { c with locked := true }) := by
      rw [henter]
      rfl

theorem run_notify_alone (hm : c.manager = none) :
    (Phase.notify.run content).run c = (.ok .stamp, c) := by
  have hget : (Exec.get id : Exec Center Center).run c = (.ok c, c) := rfl
  have henter : Phase.enter c.manager = Phase.enter none := congrArg Phase.enter hm
  calc (Phase.notify.run content).run c
      = (Phase.enter c.manager).run c := Exec.run_bind_ok hget
    _ = (.ok .stamp, c) := by
      rw [henter]
      rfl

theorem run_getMinMax (hm : c.manager = some m) :
    (Phase.getMinMax.run content).run c = (.ok .updateQueue,
      { c.asked ThreadSafeConfig.getMinMax with
        manager := some (m.setMinMax (c.settings.RMin, c.settings.RMax)) }) := by
  have hthis : this.run (c.asked ThreadSafeConfig.getMinMax) =
      (.ok m, c.asked ThreadSafeConfig.getMinMax) := run_this_some hm
  rw [Phase.run, Exec.run_bind_ok (run_onConfig (ThreadSafeConfig.getMinMax_result _)),
    Exec.run_bind_ok hthis]
  rfl

/-- The world after the limit of the queue was set. -/
def limited (c : Center) (q : QueueRef) (size : Int) : Center :=
  { c with world := c.world.setQueue q { c.world.queues q with sizeOfQueue := toSizeT size } }

theorem run_updateQueue (h : c.Assembled m q) :
    (Phase.updateQueue.run content).run c = (.ok .compareOperators,
      (c.asked ThreadSafeConfig.getSizeOfQueue).limited q c.settings.SizeOfQueue) := by
  have hthis : this.run (c.asked ThreadSafeConfig.getSizeOfQueue) =
      (.ok m, c.asked ThreadSafeConfig.getSizeOfQueue) := run_this_some h.manager
  have hqueue : (m.updateQueue c.settings.SizeOfQueue).run c.world = (.ok (),
      c.world.setQueue q { c.world.queues q with sizeOfQueue := toSizeT c.settings.SizeOfQueue }) := by
    have hpool : (readPool m.threadPool_).run c.world = (.ok (c.world.pools m.threadPool_), c.world) :=
      rfl
    rw [Manager.updateQueue, Exec.run_bind_ok hpool, h.task_queue]
    rfl
  rw [Phase.run, Exec.run_bind_ok (run_onConfig (ThreadSafeConfig.getSizeOfQueue_result _)),
    Exec.run_bind_ok hthis]
  exact Exec.run_bind_ok (run_onWorld (c := c.asked ThreadSafeConfig.getSizeOfQueue) hqueue)

/-- The pool of the manager does not have the size the configuration asks for. -/
abbrev Differs (c : Center) (m : Manager) : Prop :=
  toSizeT c.settings.AmountOfOperators ≠ (c.world.pools m.threadPool_).size

theorem run_compareOperators (hm : c.manager = some m) :
    (Phase.compareOperators.run content).run c =
      (Phase.afterCompare (c.Differs m)).run (c.asked ThreadSafeConfig.getAmountOfOperators) := by
  have hthis : this.run (c.asked ThreadSafeConfig.getAmountOfOperators) =
      (.ok m, c.asked ThreadSafeConfig.getAmountOfOperators) := run_this_some hm
  rw [Phase.run, Exec.run_bind_ok (run_onConfig (ThreadSafeConfig.getAmountOfOperators_result _)),
    Exec.run_bind_ok hthis]
  exact Exec.run_bind_ok (run_onWorld (c := c.asked ThreadSafeConfig.getAmountOfOperators) rfl)

theorem run_differs (hm : c.manager = some m) (h : c.Differs m) :
    (Phase.compareOperators.run content).run c =
      (.ok .readOperators, c.asked ThreadSafeConfig.getAmountOfOperators) := by
  rw [run_compareOperators hm, decide_eq_true h]
  rfl

theorem run_same (hm : c.manager = some m) (h : ¬ c.Differs m) :
    (Phase.compareOperators.run content).run c =
      (.ok .stamp, { c.asked ThreadSafeConfig.getAmountOfOperators with locked := false }) := by
  rw [run_compareOperators hm, decide_eq_false h]
  rfl

theorem run_readOperators (c : Center) :
    (Phase.readOperators.run content).run c = (.ok (.readSize c.settings.AmountOfOperators),
      c.asked ThreadSafeConfig.getAmountOfOperators) :=
  Exec.run_bind_ok (run_onConfig (ThreadSafeConfig.getAmountOfOperators_result _))

theorem run_readSize (c : Center) (operators : Int) :
    ((Phase.readSize operators).run content).run c =
      (.ok (.install operators c.settings.SizeOfQueue), c.asked ThreadSafeConfig.getSizeOfQueue) :=
  Exec.run_bind_ok (run_onConfig (ThreadSafeConfig.getSizeOfQueue_result _))

/-- The center after a pool was built. -/
def withPool (c : Center) (logger : Bool) (operators size : Int) : Center :=
  { c with
    world := c.world.withPool (toUnsigned operators) (toSizeT (unsignedToInt (toUnsigned size))) logger
    built := c.built ++ [(operators, size)] }

theorem run_buildPool {logger : Bool} {operators size : Int} (h : Manager.Reservable size) :
    (buildPool logger operators size).run c =
      (.ok c.world.poolCount, c.withPool logger operators size) :=
  run_onWorld (c := { c with built := c.built ++ [(operators, size)] })
    (Manager.run_buildPool h c.world)

/-- The world after a new pool took over from the pool of the manager. -/
def replaced (w : World) (m : Manager) (operators size : Int) : World :=
  let v := w.withPool (toUnsigned operators) (toSizeT (unsignedToInt (toUnsigned size))) m.logger_
  { v with pools := Manager.swapped v.pools w.poolCount m.threadPool_ }

theorem run_install {operators size : Int} (h : c.Assembled m q) (hsize : Manager.Reservable size) :
    ((Phase.install operators size).run content).run c = (.ok .stamp,
      { c with
        manager := some { m with threadPool_ := c.world.poolCount }
        world := replaced c.world m operators size
        locked := false
        built := c.built ++ [(operators, size)] }) := by
  have hne : c.world.poolCount ≠ m.threadPool_ := Nat.ne_of_gt h.pool
  rw [Phase.run, Exec.run_bind_ok (run_this_some h.manager), Exec.run_bind_ok (run_buildPool hsize),
    Exec.run_bind_ok (run_onWorld (Manager.run_setNewThreadPool hne _))]
  rfl

theorem replaced_queues {w : World} {m : Manager} {operators size : Int} (h : q < w.queueCount) :
    (replaced w m operators size).queues q = w.queues q := by
  simp [replaced, World.withPool, Nat.ne_of_lt h]

theorem replaced_task_queue {w : World} {m : Manager} {operators size : Int}
    (h : m.threadPool_ < w.poolCount) :
    ((replaced w m operators size).pools w.poolCount).task_queue =
      (w.pools m.threadPool_).task_queue := by
  simp [replaced, Manager.swapped, ThreadPool.resumed_task_queue, World.withPool, Nat.ne_of_lt h]

theorem replaced_size {w : World} {m : Manager} {operators size : Int} :
    ((replaced w m operators size).pools w.poolCount).size = toUnsigned operators := by
  simp [replaced, Manager.swapped, ThreadPool.resumed_size, World.withPool, ThreadPool.fresh]

/-- The center after `Construct` read the two sizes. -/
def sized (c : Center) : Center :=
  (c.asked ThreadSafeConfig.getAmountOfOperators).asked ThreadSafeConfig.getSizeOfQueue

/-- The manager that `Construct` builds. -/
def newManager (c : Center) : Manager :=
  { Manager.construct (c.settings.RMin, c.settings.RMax) c.world.poolCount with
    logger_ := c.config.logger_ }

/-- The center with the pool and the manager that `Construct` builds. -/
def constructed (c : Center) : Center :=
  { (c.sized.withPool c.config.logger_ c.settings.AmountOfOperators c.settings.SizeOfQueue).asked
      ThreadSafeConfig.getMinMax with
    manager := some c.newManager }

/-- The same pools, and queues with the same limits. -/
structure SameShape (w v : World) : Prop where
  pools : v.pools = w.pools
  poolCount : v.poolCount = w.poolCount
  queueCount : v.queueCount = w.queueCount
  limits : ∀ q, (v.queues q).sizeOfQueue = (w.queues q).sizeOfQueue

namespace SameShape

theorem refl (w : World) : SameShape w w := ⟨rfl, rfl, rfl, fun _ => rfl⟩

theorem trans (w v u : World) (h : SameShape w v) (h' : SameShape v u) : SameShape w u :=
  ⟨h'.pools.trans h.pools, h'.poolCount.trans h.poolCount, h'.queueCount.trans h.queueCount,
    fun q => (h'.limits q).trans (h.limits q)⟩

theorem submits : Submits SameShape where
  refl := refl
  trans := trans
  emit w _ := ⟨rfl, rfl, rfl, fun _ => rfl⟩
  taskId w _ _ := ⟨rfl, rfl, rfl, fun _ => rfl⟩
  cdr w _ _ := ⟨rfl, rfl, rfl, fun _ => rfl⟩
  promise w _ _ := ⟨rfl, rfl, rfl, fun _ => rfl⟩
  entries w q es := by
    refine ⟨rfl, rfl, rfl, fun r => ?_⟩
    by_cases h : r = q
    · subst h
      simp
    · simp [h]

theorem addTask (hash : ThreadId → UInt64) (m : Manager) (thread : ThreadId) (now pushNow : TimePoint)
    (number : List Char) : Respects SameShape (m.addTask hash thread now pushNow number) := by
  have hnew : ∀ k, Respects SameShape (newTask k) := fun k w => ⟨rfl, rfl, rfl, fun _ => rfl⟩
  refine Respects.bind trans (Respects.bind trans (hnew _) (fun t => ?_))
    (fun _ => submits.add_task _ _ _ _ _)
  exact Respects.bind trans (Respects.ite (submits.emit · _) refl) (fun _ => refl)

end SameShape

/-- The same manager over the same pools, limits and values. -/
structure SameSetup (c d : Center) : Prop where
  settings : d.settings = c.settings
  manager : d.manager = c.manager
  locked : d.locked = c.locked
  shape : SameShape c.world d.world

namespace SameSetup
variable {d : Center}

theorem refl (c : Center) : SameSetup c c := ⟨rfl, rfl, rfl, .refl _⟩

theorem trans (c d e : Center) (h : SameSetup c d) (h' : SameSetup d e) : SameSetup c e :=
  ⟨h'.settings.trans h.settings, h'.manager.trans h.manager, h'.locked.trans h.locked,
    .trans _ _ _ h.shape h'.shape⟩

theorem asked {α : Type} {x : Exec ThreadSafeConfig α} (hx : Respects ThreadSafeConfig.Same x)
    (c : Center) : SameSetup c (c.asked x) :=
  ⟨(hx c.config).settings, rfl, rfl, .refl _⟩

theorem assembled (h : SameSetup c d) (hc : c.Assembled m q) : d.Assembled m q where
  manager := h.manager.trans hc.manager
  pool := by
    rw [h.shape.poolCount]
    exact hc.pool
  task_queue := by
    rw [h.shape.pools]
    exact hc.task_queue
  queue := by
    rw [h.shape.queueCount]
    exact hc.queue

theorem durations (h : SameSetup c d) (hc : c.DurationsAgree m) : d.DurationsAgree m := by
  unfold DurationsAgree
  rw [h.settings]
  exact hc

theorem limit (h : SameSetup c d) (hc : c.LimitAgrees q) : d.LimitAgrees q := by
  unfold LimitAgrees
  rw [h.settings, h.shape.limits]
  exact hc

theorem size (h : SameSetup c d) (hc : c.SizeAgrees m) : d.SizeAgrees m := by
  unfold SizeAgrees
  rw [h.settings, h.shape.pools]
  exact hc

theorem agrees (h : SameSetup c d) (hc : c.Agrees m q) : d.Agrees m q :=
  ⟨h.durations hc.durations, h.limit hc.limit, h.size hc.size⟩

theorem agreed (h : SameSetup c d) {phase : Phase} (hc : phase.Agreed c m q) :
    phase.Agreed d m q := by
  cases phase with
  | reread => exact hc
  | notify => exact hc
  | getMinMax => exact hc
  | updateQueue => exact h.durations hc
  | compareOperators => exact ⟨h.durations hc.1, h.limit hc.2⟩
  | readOperators => exact ⟨h.durations hc.1, h.limit hc.2⟩
  | readSize operators =>
    exact ⟨⟨h.durations hc.1.1, h.limit hc.1.2⟩, hc.2.trans (congrArg _ h.settings.symm)⟩
  | install operators size =>
    exact ⟨⟨h.durations hc.1.1, h.limit hc.1.2⟩, hc.2.trans (congrArg _ h.settings.symm)⟩
  | stamp => exact h.agrees hc

end SameSetup

theorem asked_settings {α : Type} {x : Exec ThreadSafeConfig α}
    (hx : Respects ThreadSafeConfig.Same x) (c : Center) : (c.asked x).settings = c.settings :=
  (SameSetup.asked hx c).settings

theorem sized_settings (c : Center) : c.sized.settings = c.settings :=
  (asked_settings ThreadSafeConfig.Same.getSizeOfQueue _).trans
    (asked_settings ThreadSafeConfig.Same.getAmountOfOperators c)

/-- `Construct` up to the pool. -/
theorem run_sized {α : Type} (f : Center → Int → Int → Exec Center α) :
    (do
      let c ← .get id
      let operators ← onConfig ThreadSafeConfig.getAmountOfOperators
      let size ← onConfig ThreadSafeConfig.getSizeOfQueue
      f c operators size : Exec Center α).run c =
      (f c c.settings.AmountOfOperators c.settings.SizeOfQueue).run c.sized := by
  have hget : (Exec.get id : Exec Center Center).run c = (.ok c, c) := rfl
  have hsize : (onConfig ThreadSafeConfig.getSizeOfQueue).run
      (c.asked ThreadSafeConfig.getAmountOfOperators) = (.ok c.settings.SizeOfQueue, c.sized) := by
    rw [← asked_settings ThreadSafeConfig.Same.getAmountOfOperators c]
    exact run_onConfig (ThreadSafeConfig.getSizeOfQueue_result _)
  rw [Exec.run_bind_ok hget,
    Exec.run_bind_ok (run_onConfig (ThreadSafeConfig.getAmountOfOperators_result _)),
    Exec.run_bind_ok hsize]
  rfl

theorem run_buildManager (h : Manager.Reservable c.settings.SizeOfQueue) :
    Server.buildManager.run c = (.ok (), c.constructed) := by
  let d := c.sized.withPool c.config.logger_ c.settings.AmountOfOperators c.settings.SizeOfQueue
  have hminMax : (onConfig ThreadSafeConfig.getMinMax).run d =
      (.ok (c.settings.RMin, c.settings.RMax), d.asked ThreadSafeConfig.getMinMax) := by
    rw [← sized_settings c]
    exact run_onConfig (ThreadSafeConfig.getMinMax_result _)
  rw [Server.buildManager, run_sized, Exec.run_bind_ok (run_buildPool h), Exec.run_bind_ok hminMax]
  rfl

theorem constructed_settings (c : Center) : c.constructed.settings = c.settings :=
  (asked_settings ThreadSafeConfig.Same.getMinMax _).trans (sized_settings c)

theorem constructed_pool (c : Center) : c.constructed.world.pools c.world.poolCount =
    ThreadPool.fresh (toUnsigned c.settings.AmountOfOperators) c.world.queueCount c.config.logger_ :=
  Function.update_self _ _ _

theorem constructed_queue (c : Center) : c.constructed.world.queues c.world.queueCount =
    { queue_ := [], sizeOfQueue := toSizeT (unsignedToInt (toUnsigned c.settings.SizeOfQueue)),
      logger_ := c.config.logger_, recorders_ := [] } :=
  Function.update_self _ _ _

theorem constructed_assembled (c : Center) :
    c.constructed.Assembled c.newManager c.world.queueCount where
  manager := rfl
  pool := Nat.lt_succ_self _
  task_queue := congrArg ThreadPool.task_queue c.constructed_pool
  queue := Nat.lt_succ_self _

/-- The manager starts with the values of its configuration. -/
theorem constructed_agrees (c : Center) (h : c.settings.Usable) :
    c.constructed.Agrees c.newManager c.world.queueCount := by
  refine ⟨?_, ?_, ?_⟩
  · unfold DurationsAgree
    rw [constructed_settings]
    exact ⟨rfl, rfl⟩
  · unfold LimitAgrees
    rw [constructed_settings, constructed_queue]
    show (toSizeT _ : Int) = _
    rw [unsignedToInt_toUnsigned h.queue, toSizeT_cast h.queue]
  · unfold SizeAgrees
    show ((c.constructed.world.pools c.world.poolCount).size : Int) = _
    rw [constructed_settings, constructed_pool]
    exact toUnsigned_cast h.operators

/-- A negative size of the queue makes `Construct` throw. -/
theorem run_buildManager_throws (h : ¬ Manager.Reservable c.settings.SizeOfQueue) :
    ∃ d, Server.buildManager.run c = (.throws .length_error, d) ∧ d.manager = c.manager ∧
      d.locked = c.locked := by
  have hneg : unsignedToInt (toUnsigned c.settings.SizeOfQueue) < 0 := Int.not_le.mp h
  have hpool : ∀ logger operators, (Manager.buildPool logger operators c.settings.SizeOfQueue).run
      c.world = (.throws .length_error, c.world) := by
    intro logger operators
    refine Exec.run_bind_throws (Exec.run_bind_throws ?_)
    rw [Queue.construct, if_pos hneg]
    rfl
  have hbuild : ∀ logger operators, (buildPool logger operators c.settings.SizeOfQueue).run c.sized =
      (.throws .length_error,
        { c.sized with built := c.built ++ [(operators, c.settings.SizeOfQueue)] }) := by
    intro logger operators
    exact run_onWorld (c := { c.sized with
      built := c.built ++ [(operators, c.settings.SizeOfQueue)] }) (hpool logger operators)
  rw [Server.buildManager, run_sized, Exec.run_bind_throws (hbuild _ _)]
  exact ⟨_, rfl, rfl, rfl⟩

/-- A re-read goes on to `notify`, or fails without a logger and throws. -/
theorem run_reread_cases (content : FileContent) (c : Center) :
    (Phase.reread.run content).run c =
        (.ok .notify, { c with config := c.config.afterReread content }) ∨
      c.config.logger_ = false ∧
        ∃ e, ThreadSafeConfig.accepted c.config.logger_ content = .error e ∧
          (Phase.reread.run content).run c = (.throws e, c) := by
  have hcase : ((ThreadSafeConfig.updateConfig content).run c.config).1 = .ok () ∨
      c.config.logger_ = false ∧ ∃ e, ThreadSafeConfig.accepted c.config.logger_ content = .error e ∧
        (ThreadSafeConfig.updateConfig content).run c.config = (.throws e, c.config) := by
    cases hacc : ThreadSafeConfig.accepted c.config.logger_ content with
    | ok data => exact Or.inl (congrArg Prod.fst (ThreadSafeConfig.run_updateConfig_ok hacc))
    | error e =>
      have hrun := ThreadSafeConfig.run_updateConfig_error hacc
      cases hlog : c.config.logger_ with
      | true => exact Or.inl (by rw [hrun, hlog]; rfl)
      | false => exact Or.inr ⟨rfl, e, rfl, by rw [hrun, hlog]; rfl⟩
  rcases hcase with hok | ⟨hlog, e, hacc, hrun⟩
  · rw [← ThreadSafeConfig.updateConfig_state]
    exact Or.inl (Exec.run_bind_ok (run_onConfig hok))
  · refine Or.inr ⟨hlog, e, hacc, Exec.run_bind_throws ?_⟩
    show (((ThreadSafeConfig.updateConfig content).run c.config).1,
      { c with config := ((ThreadSafeConfig.updateConfig content).run c.config).2 }) = _
    rw [hrun]

/-- What one phase of a manager's update leaves for the next. -/
structure Continues (c d : Center) (m m' : Manager) (q : QueueRef) (phase next : Phase) : Prop where
  config : ThreadSafeConfig.Same c.config d.config
  onward : next.holds = true ∨ next = .stamp
  locked : d.locked = next.holds
  reserves : next.Reserves
  assembled : d.Assembled m' q
  agreed : c.settings.Usable → phase.Agreed c m q → next.Agreed d m' q

/-- A phase goes on to the next one, and brings one more part into agreement. -/
theorem continues {phase : Phase} (h : c.Assembled m q) (hbusy : phase.busy = true)
    (hlocked : phase.holds = true → c.locked = true) (hres : phase.Reserves)
    (hsize : Manager.Reservable c.settings.SizeOfQueue) :
    ∃ next d m', (phase.run content).run c = (.ok next, d) ∧ Continues c d m m' q phase next := by
  have hops := SameSetup.asked ThreadSafeConfig.Same.getAmountOfOperators c
  have hque := SameSetup.asked ThreadSafeConfig.Same.getSizeOfQueue c
  have hmin := SameSetup.asked ThreadSafeConfig.Same.getMinMax c
  have hopsSame := ThreadSafeConfig.Same.getAmountOfOperators c.config
  have hqueSame := ThreadSafeConfig.Same.getSizeOfQueue c.config
  cases phase with
  | reread => cases hbusy
  | stamp => cases hbusy
  | notify =>
    refine ⟨_, _, m, run_notify h.manager, .refl _, Or.inl rfl, rfl, trivial, ?_, fun _ _ => trivial⟩
    exact ⟨h.manager, h.pool, h.task_queue, h.queue⟩
  | getMinMax =>
    refine ⟨_, _, m.setMinMax (c.settings.RMin, c.settings.RMax), run_getMinMax h.manager,
      ThreadSafeConfig.Same.getMinMax c.config, Or.inl rfl, hlocked rfl, trivial, ?_, fun _ _ => ?_⟩
    · exact ⟨rfl, h.pool, h.task_queue, h.queue⟩
    · exact ⟨congrArg Settings.RMin hmin.settings.symm, congrArg Settings.RMax hmin.settings.symm⟩
  | updateQueue =>
    refine ⟨_, _, m, run_updateQueue h, hqueSame, Or.inl rfl, hlocked rfl, trivial, ?_, fun hU hd => ?_⟩
    · exact ⟨h.manager, h.pool, h.task_queue, h.queue⟩
    · refine ⟨hque.durations hd, ?_⟩
      show ((Function.update c.world.queues q _ q).sizeOfQueue : Int) = _
      rw [Function.update_self]
      exact (toSizeT_cast hU.queue).trans (congrArg Settings.SizeOfQueue hque.settings.symm)
  | compareOperators =>
    by_cases hdiff : c.Differs m
    · refine ⟨_, _, m, run_differs h.manager hdiff, hopsSame, Or.inl rfl, hlocked rfl, trivial, ?_,
        fun _ hd => ?_⟩
      · exact hops.assembled h
      · exact ⟨hops.durations hd.1, hops.limit hd.2⟩
    · refine ⟨_, _, m, run_same h.manager hdiff, hopsSame, Or.inr rfl, rfl, trivial, ?_, fun hU hd => ?_⟩
      · exact ⟨h.manager, h.pool, h.task_queue, h.queue⟩
      · refine ⟨hops.durations hd.1, hops.limit hd.2, hops.size ?_⟩
        -- the pool has the size that was asked for
        unfold SizeAgrees
        rw [← not_not.mp hdiff, toSizeT_cast hU.operators]
  | readOperators =>
    refine ⟨_, _, m, run_readOperators c, hopsSame, Or.inl rfl, hlocked rfl, trivial,
      hops.assembled h, fun _ hd => ?_⟩
    exact ⟨⟨hops.durations hd.1, hops.limit hd.2⟩, congrArg _ hops.settings.symm⟩
  | readSize operators =>
    refine ⟨_, _, m, run_readSize c operators, hqueSame, Or.inl rfl, hlocked rfl, hsize,
      hque.assembled h, fun _ hd => ?_⟩
    exact ⟨⟨hque.durations hd.1.1, hque.limit hd.1.2⟩,
      hd.2.trans (congrArg Settings.AmountOfOperators hque.settings.symm)⟩
  | install operators size =>
    refine ⟨_, _, { m with threadPool_ := c.world.poolCount }, run_install h hres, .refl _,
      Or.inr rfl, rfl, trivial, ?_, fun hU hd => ⟨hd.1.1, ?_, ?_⟩⟩
    · exact ⟨rfl, Nat.lt_succ_self _, (replaced_task_queue h.pool).trans h.task_queue,
        Nat.lt_succ_of_lt h.queue⟩
    · unfold LimitAgrees
      rw [replaced_queues h.queue]
      exact hd.1.2
    · unfold SizeAgrees
      rw [replaced_size, hd.2]
      exact toUnsigned_cast hU.operators

end Center

/-! The parties of a server. -/

/-- The phase of its update a caller of `processRequestForUpdate` stands at. -/
def Place.phase : Place → Option Phase
  | updating phase => some phase
  | _ => none

/-- The phase of its update the monitor stands at. -/
def Monitor.phase : Monitor → Option Phase
  | updating _ phase => some phase
  | _ => none

namespace Server

/-- The phase of its update a party stands at. -/
def phase (s : Server) : Party → Option Phase
  | .request i => s.requests[i]?.bind Place.phase
  | .monitor => s.monitor.phase
  | .caller => none

/-- Where a party stands between its re-read and the end of its `Manager::update`. -/
def busy (s : Server) (who : Party) : Option Phase := (s.phase who).filter Phase.busy

/-- No update is between its re-read and the end of its `Manager::update`. -/
def Quiescent (s : Server) : Prop := ∀ who, s.busy who = none

/-- The durations of the manager, the limit of its queue and the size of its pool
are the values of the configuration. -/
def Agrees (s : Server) : Prop := ∃ m q, s.toCenter.Assembled m q ∧ s.toCenter.Agrees m q

/-- What a move other than an update's own leaves: the same updates in progress. -/
structure Idle (s t : Server) : Prop where
  setup : Center.SameSetup s.toCenter t.toCenter
  busy : t.busy = s.busy

section
variable {s t : Server}

theorem idle_of_center (h : Center.SameSetup s.toCenter t.toCenter)
    (hreq : t.requests = s.requests)
    (hmon : t.monitor.phase.filter Phase.busy = s.monitor.phase.filter Phase.busy) : Idle s t := by
  refine ⟨h, funext (fun who => ?_)⟩
  cases who with
  | request i =>
    unfold busy
    rw [phase, phase, hreq]
  | monitor => exact hmon
  | caller => rfl

theorem phase_setRequest {i : Nat} {place place' : Place} (hi : s.requests[i]? = some place') :
    (s.setRequest i place).phase = Function.update s.phase (.request i) place.phase := by
  funext who
  cases who with
  | request j =>
    by_cases hij : i = j
    · subst hij
      obtain ⟨hlt, -⟩ := List.getElem?_eq_some_iff.mp hi
      simp [phase, setRequest, List.getElem?_set_self hlt]
    · have hne : Party.request j ≠ .request i := fun h => hij (Party.request.inj h).symm
      rw [Function.update_of_ne hne]
      simp [phase, setRequest, List.getElem?_set_ne hij]
  | monitor => rfl
  | caller => rfl

theorem phase_setMonitor (m : Monitor) :
    ({ s with monitor := m } : Server).phase = Function.update s.phase .monitor m.phase := by
  funext who
  cases who <;> rfl

theorem busy_of_phase {who : Party} {o : Option Phase} (h : t.phase = Function.update s.phase who o) :
    t.busy = Function.update s.busy who (o.filter Phase.busy) := by
  funext who'
  unfold busy
  rw [h]
  by_cases hw : who' = who
  · subst hw
    simp
  · simp [hw]

end

/-- `updateMtx` is held exactly by the one update that stands behind it. -/
structure Exclusive (locked : Bool) (busy : Party → Option Phase) : Prop where
  reserves : ∀ who phase, busy who = some phase → phase.Reserves
  locked : locked = true ↔ ∃ who phase, busy who = some phase ∧ phase.holds = true
  unique : ∀ who who' phase phase', busy who = some phase → busy who' = some phase' →
    phase.holds = true → phase'.holds = true → who = who'

/-- Every update can go on. -/
structure Steady (s : Server) : Prop where
  ready : s.toCenter.Ready
  waiting : s.manager = none → ∀ who phase, s.busy who = some phase → phase = .notify
  exclusive : Exclusive s.locked s.busy

/-- What a critical section of an update can do. -/
inductive Advances (s : Server) (who : Party) (phase : Phase) (r : Outcome Phase × Server) : Prop
  | manager {next : Phase} {m m' : Manager} {q : QueueRef} (hbusy : s.busy who = some phase)
      (hnotify : phase = .notify → s.locked = false) (hA : s.toCenter.Assembled m q)
      (hr : r.1 = .ok next) (h : Center.Continues s.toCenter r.2.toCenter m m' q phase next)
  | alone (hbusy : s.busy who = some phase) (hm : s.manager = none) (hphase : phase = .notify)
      (hr : r.1 = .ok .stamp) (hc : r.2.toCenter = s.toCenter)
  | reread (hphase : phase = .reread) (hr : r.1 = .ok .notify)
      (hc : r.2.toCenter = { s.toCenter with config := s.config.afterReread s.content })
  | failed {e : StdException} (hphase : phase = .reread) (hlogger : s.config.logger_ = false)
      (hr : r.1 = .throws e) (hc : r.2.toCenter = s.toCenter)
  | stamp (hphase : phase = .stamp) (hr : r.1 = .ok .stamp) (hc : r.2.toCenter = s.toCenter)

theorem busy_some {s : Server} {who : Party} {phase : Phase} :
    s.busy who = some phase ↔ s.phase who = some phase ∧ phase.busy = true :=
  Option.filter_eq_some_iff

theorem Steady.advances {s : Server} {who : Party} {phase : Phase} {r : Outcome Phase × Server}
    (hs : s.Steady) (hphase : s.phase who = some phase) (h : s.advance who phase = some r) :
    Advances s who phase r := by
  have hc := advance_center h
  cases hb : phase.busy with
  | true =>
    have hbusy : s.busy who = some phase := busy_some.mpr ⟨hphase, hb⟩
    cases hm : s.manager with
    | none =>
      have hnotify := hs.waiting hm who phase hbusy
      subst hnotify
      rw [Center.run_notify_alone hm] at hc
      obtain ⟨h₁, h₂⟩ := Prod.mk.inj hc
      exact .alone hbusy hm rfl h₁.symm h₂.symm
    | some m =>
      obtain ⟨⟨q, hA⟩, hsize⟩ := hs.ready m hm
      obtain ⟨next, d, m', hrun, hcont⟩ := @Center.continues _ m q s.content phase hA hb
        (fun hh => hs.exclusive.locked.mpr ⟨who, phase, hbusy, hh⟩)
        (hs.exclusive.reserves who phase hbusy) hsize
      obtain ⟨h₁, h₂⟩ := Prod.mk.inj (hrun.symm.trans hc)
      refine .manager hbusy (fun hn => ?_) hA h₁.symm (h₂ ▸ hcont)
      -- it could not have taken the mutex otherwise
      cases hl : s.locked with
      | false => rfl
      | true =>
        rw [advance, if_pos ⟨hn, by rw [hm]; exact Option.some_ne_none m, hl⟩] at h
        cases h
  | false =>
    cases phase with
    | reread =>
      rcases Center.run_reread_cases s.content s.toCenter with hrun | ⟨hlog, e, -, hrun⟩
      · obtain ⟨h₁, h₂⟩ := Prod.mk.inj (hrun.symm.trans hc)
        exact .reread rfl h₁.symm h₂.symm
      · obtain ⟨h₁, h₂⟩ := Prod.mk.inj (hrun.symm.trans hc)
        exact .failed rfl hlog h₁.symm h₂.symm
    | stamp =>
      obtain ⟨h₁, h₂⟩ := Prod.mk.inj hc
      exact .stamp rfl h₁.symm h₂.symm
    | _ => cases hb

theorem quiescent_of_places {s : Server}
    (hreq : ∀ place ∈ s.requests, place.phase.filter Phase.busy = none)
    (hmon : s.monitor.phase.filter Phase.busy = none) : s.Quiescent := by
  intro who
  cases who with
  | request i =>
    unfold busy
    cases hi : s.requests[i]? with
    | none => simp [phase, hi]
    | some place =>
      have hplace := hreq place (List.mem_of_getElem? hi)
      simpa [phase, hi] using hplace
  | monitor => exact hmon
  | caller => rfl

/-- What a move of the server is to the updates. -/
inductive Update (s : Server) (e : Step) (t : Server) : Prop
  | idle (h : Idle s t)
  | reread (who : Party) (hnot : s.busy who = none)
      (hbusy : t.busy = Function.update s.busy who (some .notify))
      (hc : t.toCenter = { s.toCenter with config := s.config.afterReread s.content })
  | bare (he : e = .updateConfig) (hbusy : t.busy = s.busy)
      (hc : t.toCenter = { s.toCenter with config := s.config.afterReread s.content })
  | alone (who : Party) (hat : s.busy who = some .notify) (hm : s.manager = none)
      (hbusy : t.busy = Function.update s.busy who none) (hc : t.toCenter = s.toCenter)
  | manager (who : Party) {phase next : Phase} {m m' : Manager} {q : QueueRef}
      (hat : s.busy who = some phase) (hnotify : phase = .notify → s.locked = false)
      (hA : s.toCenter.Assembled m q)
      (hbusy : t.busy = Function.update s.busy who ((some next).filter Phase.busy))
      (h : Center.Continues s.toCenter t.toCenter m m' q phase next)
  | construct (hm : s.manager = none) (hbusy : t.busy = s.busy) (hlocked : t.locked = s.locked)
      (h : t.manager = none ∨ Manager.Reservable s.settings.SizeOfQueue ∧
        t.toCenter = s.toCenter.constructed)

section
variable {s t : Server} {who : Party} {phase : Phase} {r : Outcome Phase × Server} {e : Step} {o : Option Phase}

theorem busy_none_of_phase (hphase : s.phase who = some phase) (h : phase.busy = false) :
    s.busy who = none := by
  unfold busy
  rw [hphase]
  simp [h]

theorem phase_of_places (hreq : t.requests = s.requests) (hmon : t.monitor = s.monitor) :
    t.phase = s.phase := by
  funext who
  cases who with
  | request j => rw [Server.phase, Server.phase, hreq]
  | monitor => rw [Server.phase, Server.phase, hmon]
  | caller => rfl

theorem busy_of_free (hphase : t.phase = Function.update s.phase who o)
    (hbefore : s.busy who = none) (hafter : o.filter Phase.busy = none) : t.busy = s.busy := by
  rw [busy_of_phase hphase, hafter, ← hbefore]
  exact Function.update_eq_self who s.busy

theorem Advances.update (h : Advances s who phase r) (hphase : s.phase who = some phase)
    (hok : ∀ next, r.1 = .ok next → t.toCenter = r.2.toCenter ∧
      t.phase = Function.update s.phase who (some next))
    (hfailed : ∀ e, r.1 = .throws e → phase = .reread → t.toCenter = r.2.toCenter ∧ t.busy = s.busy) :
    Update s e t := by
  cases h with
  | manager hbusy hnotify hA hr h =>
    obtain ⟨hc, hp⟩ := hok _ hr
    exact .manager who hbusy hnotify hA (busy_of_phase hp) (hc ▸ h)
  | alone hbusy hm hphase' hr hc =>
    obtain ⟨hc', hp⟩ := hok _ hr
    exact .alone who (hphase' ▸ hbusy) hm (busy_of_phase hp) (hc'.trans hc)
  | reread hphase' hr hc =>
    obtain ⟨hc', hp⟩ := hok _ hr
    exact .reread who (busy_none_of_phase hphase (by rw [hphase']; rfl)) (busy_of_phase hp) (hc'.trans hc)
  | failed hphase' hlogger hr hc =>
    obtain ⟨hc', hp⟩ := hfailed _ hr hphase'
    exact .idle ⟨by rw [hc', hc]; exact .refl _, hp⟩
  | stamp hphase' hr hc =>
    obtain ⟨hc', hp⟩ := hok _ hr
    refine .idle ⟨by rw [hc', hc]; exact .refl _, busy_of_free hp ?_ rfl⟩
    exact busy_none_of_phase hphase (by rw [hphase']; rfl)

theorem phase_request {i : Nat} {place : Place} (h : s.requests[i]? = some place) :
    s.phase (.request i) = place.phase := by
  simp [Server.phase, h]

theorem idle_setRequest {i : Nat} {place place' : Place} (hc : Center.SameSetup s.toCenter t.toCenter)
    (hreq : t.requests = s.requests) (hmon : t.monitor = s.monitor)
    (hi : s.requests[i]? = some place) (hbefore : place.phase.filter Phase.busy = none)
    (hafter : place'.phase.filter Phase.busy = none) : Idle s (t.setRequest i place') := by
  have hi' : t.requests[i]? = some place := by
    rw [hreq]
    exact hi
  have hp : (t.setRequest i place').phase = Function.update s.phase (.request i) place'.phase := by
    rw [phase_setRequest hi', phase_of_places hreq hmon]
  refine ⟨hc, busy_of_free hp ?_ hafter⟩
  unfold busy
  rw [phase_request hi]
  exact hbefore

theorem Update.of_request {i : Nat} (hs : s.Steady) (h : RequestStep s i t) :
    Update s (.advance i) t := by
  cases h with
  | stamp hi => exact .idle (idle_setRequest ⟨rfl, rfl, rfl, .refl _⟩ rfl rfl hi rfl rfl)
  | check hi => exact .idle (idle_setRequest ⟨rfl, rfl, rfl, .refl _⟩ rfl rfl hi rfl rfl)
  | @phase phase r hi hr =>
    have hphase : s.phase (.request i) = some phase := phase_request hi
    obtain ⟨-, -, hreq, hmon, -⟩ := advance_frame hr
    have hadv := hs.advances hphase hr
    obtain ⟨o, u⟩ := r
    have hreq' : u.requests[i]? = some (.updating phase) := (congrArg (·[i]?) hreq).trans hi
    have hu : u.phase = s.phase := phase_of_places hreq hmon
    refine hadv.update hphase (fun next hnext => ?_) (fun e he hp => ?_)
    · cases hnext
      refine ⟨rfl, ?_⟩
      rw [← hu]
      exact phase_setRequest hreq'
    · cases he
      subst hp
      refine ⟨rfl, busy_of_free (o := none) ?_ (busy_none_of_phase hphase rfl) rfl⟩
      rw [← hu]
      exact phase_setRequest hreq'

theorem endMonitor_free (u : Server) (h : u.monitor.phase.filter Phase.busy = none) :
    u.endMonitor.toCenter = u.toCenter ∧ u.endMonitor.requests = u.requests ∧
      u.endMonitor.monitor.phase.filter Phase.busy = none := by
  unfold endMonitor
  split
  · exact ⟨rfl, rfl, rfl⟩
  · exact ⟨rfl, rfl, h⟩

theorem loopMonitor_free (u : Server) : u.loopMonitor.monitor.phase.filter Phase.busy = none := by
  unfold loopMonitor
  cases u.config.stopThread <;> rfl

theorem Update.of_monitor (hs : s.Steady) (h : MonitorStep s t) : Update s .monitor t := by
  have hconfig : ∀ c : ThreadSafeConfig, c.data_ = s.config.data_ →
      Center.SameSetup s.toCenter { s.toCenter with config := c } :=
    fun c hc => ⟨congrArg settings hc, rfl, rfl, .refl _⟩
  cases h with
  | absent hm hf =>
    have hfree : s.monitor.phase.filter Phase.busy = none := by rw [hm]; rfl
    obtain ⟨hc, hreq, hmon⟩ := endMonitor_free s hfree
    exact .idle (idle_of_center (hc ▸ .refl _) hreq (hmon.trans hfree.symm))
  | removed hm hf =>
    have hfree : s.monitor.phase.filter Phase.busy = none := by rw [hm]; rfl
    obtain ⟨hc, hreq, hmon⟩ := endMonitor_free (s.observe .pollBegan) hfree
    exact .idle (idle_of_center (hc ▸ .refl _) hreq (hmon.trans hfree.symm))
  | started hm hf =>
    exact .idle (idle_of_center (hconfig _ rfl) rfl ((loopMonitor_free _).trans (by rw [hm]; rfl)))
  | newer hm hf hlt => exact .idle (idle_of_center (.refl _) rfl (by rw [hm]; rfl))
  | unchanged hm hf hlt =>
    exact .idle (idle_of_center (.refl _) rfl ((loopMonitor_free _).trans (by rw [hm]; rfl)))
  | stamp hm =>
    exact .idle (idle_of_center (hconfig _ rfl) rfl ((loopMonitor_free _).trans (by rw [hm]; rfl)))
  | @phase v phase r hm hr =>
    have hphase : s.phase .monitor = some phase := congrArg Monitor.phase hm
    obtain ⟨-, -, hreq, hmon, -⟩ := advance_frame hr
    have hadv := hs.advances hphase hr
    obtain ⟨o, u⟩ := r
    have hu : u.phase = s.phase := phase_of_places hreq hmon
    refine hadv.update hphase (fun next hnext => ?_) (fun e he hp => ?_)
    · cases hnext
      refine ⟨rfl, ?_⟩
      rw [← hu]
      exact phase_setMonitor _
    · cases he
      subst hp
      -- nothing to unwind before the handler of the loop
      have hfree : u.monitor.phase.filter Phase.busy = none := by
        rw [hmon, hm]
        rfl
      obtain ⟨hc, hreq', hmon'⟩ := endMonitor_free u hfree
      have hidle : Idle s { u.endMonitor with toCenter := s.toCenter } :=
        idle_of_center (.refl _) (hreq'.trans hreq) (hmon'.trans (by rw [hm]; rfl))
      exact ⟨hc, hidle.busy⟩

theorem Calls.sameSetup {hash : ThreadId → UInt64} {α : Type} {x : Exec Center α}
    (h : Calls hash s e α x) : Respects Center.SameSetup x := by
  have hget : ∀ {β : Type} {y : Exec ThreadSafeConfig β}, Respects ThreadSafeConfig.Same y →
      Respects Center.SameSetup (Center.onConfig y) := fun hy c => .asked hy c
  cases h with
  | getMinMax => exact hget ThreadSafeConfig.Same.getMinMax
  | getAmountOfOperators => exact hget ThreadSafeConfig.Same.getAmountOfOperators
  | getSizeOfQueue => exact hget ThreadSafeConfig.Same.getSizeOfQueue
  | addTask thread number =>
    have hthis : Respects Center.SameSetup Center.this := by
      intro c
      cases hm : c.manager with
      | none =>
        rw [Center.run_this_none hm]
        exact .refl c
      | some m =>
        rw [Center.run_this_some hm]
        exact .refl c
    refine Respects.bind Center.SameSetup.trans hthis (fun m c => ⟨rfl, rfl, rfl, ?_⟩)
    exact Center.SameShape.addTask hash m thread s.clock s.clock number c.world

theorem settleCall_center {α : Type} {x : Exec Center α} :
    (settleCall (s.perform x)).toCenter = (x.run s.toCenter).2 ∧
      (settleCall (s.perform x)).busy = s.busy := by
  cases h : s.perform x with
  | mk o u =>
    have hu : u = { s with toCenter := (x.run s.toCenter).2 } := (congrArg Prod.snd h).symm
    subst hu
    cases o <;> exact ⟨rfl, rfl⟩

/-- `Construct` builds its manager, or a negative size ends the process. -/
theorem construct_cases (s : Server) :
    (Manager.Reservable s.settings.SizeOfQueue ∧
      settleConstruct (s.perform buildManager) = { s with toCenter := s.toCenter.constructed }) ∨
    ¬ Manager.Reservable s.settings.SizeOfQueue ∧
      ∃ d : Center, d.manager = s.manager ∧ d.locked = s.locked ∧
        settleConstruct (s.perform buildManager) = { s with toCenter := d, terminated := true } := by
  by_cases hsize : Manager.Reservable s.settings.SizeOfQueue
  · have hrun := Center.run_buildManager (c := s.toCenter) hsize
    refine Or.inl ⟨hsize, ?_⟩
    unfold perform
    rw [hrun]
    rfl
  · obtain ⟨d, hrun, hd, hlocked⟩ := Center.run_buildManager_throws (c := s.toCenter) hsize
    refine Or.inr ⟨hsize, d, hd, hlocked, ?_⟩
    unfold perform
    rw [hrun]
    rfl

theorem Update.of_construct (hm : s.manager = none) :
    Update s .construct (settleConstruct (s.perform buildManager)) := by
  rcases construct_cases s with ⟨hsize, heq⟩ | ⟨-, d, hd, hlocked, heq⟩
  · rw [heq]
    exact .construct hm rfl rfl (Or.inr ⟨hsize, rfl⟩)
  · rw [heq]
    exact .construct hm rfl hlocked (Or.inl (hd.trans hm))

theorem idle_request : Idle s { s with requests := s.requests ++
    [if s.config.notToUpdate then .checking else .updating .reread] } := by
  refine ⟨.refl _, funext (fun who => ?_)⟩
  cases who with
  | request i =>
    unfold busy
    rcases Nat.lt_trichotomy i s.requests.length with hlt | heq | hgt
    · simp [Server.phase, List.getElem?_append_left hlt]
    · subst heq
      cases h : s.config.notToUpdate <;> simp [Server.phase, Place.phase, Phase.busy]
    · simp [Server.phase, List.getElem?_append_right (Nat.le_of_lt hgt),
        List.getElem?_eq_none (Nat.le_of_lt hgt), Nat.sub_ne_zero_of_lt hgt]
  | monitor => rfl
  | caller => rfl

theorem Update.of_move {hash : ThreadId → UInt64} (hs : s.Steady) (h : MoveStep hash s e t) :
    Update s e t := by
  cases h with
  | tick d => exact .idle (idle_of_center (.refl _) rfl rfl)
  | edit content => exact .idle (idle_of_center (.refl _) rfl rfl)
  | remove => exact .idle (idle_of_center (.refl _) rfl rfl)
  | construct hm => exact .of_construct hm
  | unmonitored _ => exact .idle (idle_of_center (.refl _) rfl rfl)
  | runMonitoring _ hm => exact .idle (idle_of_center (.refl _) rfl (by rw [hm]; rfl))
  | monitor hstep => exact .of_monitor hs hstep
  | stopThread => exact .idle (idle_of_center ⟨rfl, rfl, rfl, .refl _⟩ rfl rfl)
  | request => exact .idle idle_request
  | advance hstep => exact .of_request hs hstep
  | @call e α x hcall =>
    obtain ⟨hc, hbusy⟩ := settleCall_center (s := s) (x := x)
    exact .idle ⟨by rw [hc]; exact hcall.sameSetup s.toCenter, hbusy⟩
  | updateConfig =>
    obtain ⟨hc, hbusy⟩ := settleCall_center (s := s)
      (x := Center.onConfig (ThreadSafeConfig.updateConfig s.content))
    refine .bare rfl hbusy (hc.trans ?_)
    rw [← ThreadSafeConfig.updateConfig_state]
    rfl

/-- Only the party that takes its step stands behind `updateMtx`. -/
theorem Exclusive.others_free {locked : Bool} {busy : Party → Option Phase}
    (h : Exclusive locked busy) (hat : busy who = some phase) (hbusy : phase.busy = true)
    (hnotify : phase = .notify → locked = false) {who' : Party} {phase' : Phase}
    (hne : who' ≠ who) (h' : busy who' = some phase') : phase'.holds = false := by
  cases hholds : phase'.holds with
  | false => rfl
  | true =>
    have hlocked := h.locked.mpr ⟨who', phase', h', hholds⟩
    rcases Phase.notify_or_holds hbusy with hn | hh
    · rw [hnotify hn] at hlocked
      cases hlocked
    · exact absurd (h.unique _ _ _ _ h' hat hholds hh) hne

theorem Exclusive.update_free {locked : Bool} {busy : Party → Option Phase}
    (h : Exclusive locked busy) (hbefore : ∀ phase, busy who = some phase → phase.holds = false)
    (hafter : ∀ phase, o = some phase → phase.holds = false ∧ phase.Reserves) :
    Exclusive locked (Function.update busy who o) := by
  have hiff : ∀ who' phase', phase'.holds = true →
      (Function.update busy who o who' = some phase' ↔ busy who' = some phase') := by
    intro who' phase' hholds
    by_cases hw : who' = who
    · subst hw
      rw [Function.update_self]
      constructor
      · intro ho
        rw [(hafter phase' ho).1] at hholds
        cases hholds
      · intro hb
        rw [hbefore phase' hb] at hholds
        cases hholds
    · rw [Function.update_of_ne hw]
  refine ⟨fun who' phase' hb => ?_, ?_, fun w w' p p' hw hw' hp hp' => ?_⟩
  · by_cases hw : who' = who
    · subst hw
      rw [Function.update_self] at hb
      exact (hafter phase' hb).2
    · rw [Function.update_of_ne hw] at hb
      exact h.reserves who' phase' hb
  · rw [h.locked]
    refine exists_congr (fun who' => exists_congr (fun phase' => ?_))
    exact and_congr_left (fun hholds => (hiff who' phase' hholds).symm)
  · exact h.unique w w' p p' ((hiff w p hp).mp hw) ((hiff w' p' hp').mp hw') hp hp'

theorem Exclusive.update_holder {locked : Bool} {busy : Party → Option Phase}
    (h : Exclusive locked busy) (hothers : ∀ who' phase', who' ≠ who → busy who' = some phase' →
      phase'.holds = false) {next : Phase} (hres : next.Reserves) :
    Exclusive next.holds (Function.update busy who ((some next).filter Phase.busy)) := by
  have hwho : ∀ phase, Function.update busy who ((some next).filter Phase.busy) who = some phase →
      phase = next := by
    intro phase hp
    rw [Function.update_self] at hp
    exact (Option.some_inj.mp (Option.filter_eq_some_iff.mp hp).1).symm
  have honly : ∀ who' phase', Function.update busy who ((some next).filter Phase.busy) who' =
      some phase' → phase'.holds = true → who' = who := by
    intro who' phase' hb hholds
    by_contra hne
    rw [Function.update_of_ne hne] at hb
    rw [hothers who' phase' hne hb] at hholds
    cases hholds
  refine ⟨fun who' phase' hb => ?_, ⟨fun hn => ⟨who, next, ?_, hn⟩, ?_⟩, ?_⟩
  · by_cases hw : who' = who
    · subst hw
      rw [hwho phase' hb]
      exact hres
    · rw [Function.update_of_ne hw] at hb
      exact h.reserves who' phase' hb
  · rw [Function.update_self]
    exact Option.filter_eq_some_iff.mpr ⟨rfl, Phase.busy_of_holds hn⟩
  · rintro ⟨who', phase', hb, hholds⟩
    have hw := honly who' phase' hb hholds
    subst hw
    rw [← hwho phase' hb]
    exact hholds
  · intro w w' p p' hw hw' hp hp'
    rw [honly w p hw hp, honly w' p' hw' hp']

theorem afterReread_settings (c : ThreadSafeConfig) (content : FileContent) :
    settings (c.afterReread content).data_ = settings c.data_ ∨
      (settings (c.afterReread content).data_).InRange := by
  unfold ThreadSafeConfig.afterReread
  cases ThreadSafeConfig.accepted c.logger_ content with
  | ok data => exact Or.inr (normalizeData_inRange data)
  | error e => exact Or.inl rfl

theorem ready_afterReread {c : Center} (h : c.Ready) (content : FileContent) :
    ({ c with config := c.config.afterReread content } : Center).Ready := by
  intro m hm
  obtain ⟨⟨q, hA⟩, hsize⟩ := h m hm
  refine ⟨⟨q, hA.manager, hA.pool, hA.task_queue, hA.queue⟩, ?_⟩
  rcases afterReread_settings c.config content with hsame | hrange
  · show Manager.Reservable (settings (c.config.afterReread content).data_).SizeOfQueue
    rw [hsame]
    exact hsize
  · exact reservable_of_int hrange.usable.queue

theorem ready_constructed (c : Center) (hsize : Manager.Reservable c.settings.SizeOfQueue) :
    c.constructed.Ready := by
  intro m hm
  cases hm
  refine ⟨⟨_, c.constructed_assembled⟩, ?_⟩
  rw [c.constructed_settings]
  exact hsize

/-- Every move keeps a server steady. -/
theorem Steady.update (hs : s.Steady) (h : Update s e t) : t.Steady := by
  cases h with
  | idle h =>
    refine ⟨fun m hm => ?_, fun hm => ?_, ?_⟩
    · rw [h.setup.manager] at hm
      obtain ⟨⟨q, hA⟩, hsize⟩ := hs.ready m hm
      exact ⟨⟨q, h.setup.assembled hA⟩, h.setup.settings ▸ hsize⟩
    · rw [h.setup.manager] at hm
      rw [h.busy]
      exact hs.waiting hm
    · rw [h.busy, h.setup.locked]
      exact hs.exclusive
  | bare _ hbusy hc =>
    refine ⟨hc ▸ ready_afterReread hs.ready s.content, fun hm => ?_, ?_⟩
    · rw [hc] at hm
      rw [hbusy]
      exact hs.waiting hm
    · rw [hbusy, hc]
      exact hs.exclusive
  | reread who hnot hbusy hc =>
    refine ⟨hc ▸ ready_afterReread hs.ready s.content, fun hm who' phase' hb => ?_, ?_⟩
    · rw [hc] at hm
      rw [hbusy] at hb
      by_cases hw : who' = who
      · subst hw
        rw [Function.update_self] at hb
        exact (Option.some_inj.mp hb).symm
      · rw [Function.update_of_ne hw] at hb
        exact hs.waiting hm who' phase' hb
    · rw [hbusy, hc]
      refine hs.exclusive.update_free (fun phase hp => ?_) (fun phase hp => ?_)
      · rw [hnot] at hp
        cases hp
      · cases hp
        exact ⟨rfl, trivial⟩
  | alone who hat hm hbusy hc =>
    refine ⟨hc ▸ hs.ready, fun _ who' phase' hb => ?_, ?_⟩
    · rw [hbusy] at hb
      by_cases hw : who' = who
      · subst hw
        rw [Function.update_self] at hb
        cases hb
      · rw [Function.update_of_ne hw] at hb
        exact hs.waiting hm who' phase' hb
    · rw [hbusy, hc]
      refine hs.exclusive.update_free (fun phase hp => ?_) (fun phase hp => by cases hp)
      rw [hat] at hp
      cases hp
      rfl
  | @manager who phase next m m' q hat hnotify hA hbusy h =>
    obtain ⟨-, hsize⟩ := hs.ready m hA.manager
    refine ⟨fun m₁ hm₁ => ?_, fun hm => ?_, ?_⟩
    · rw [h.assembled.manager] at hm₁
      cases hm₁
      refine ⟨⟨q, h.assembled⟩, ?_⟩
      have hset : t.settings = s.settings := h.config.settings
      rw [hset]
      exact hsize
    · rw [h.assembled.manager] at hm
      cases hm
    · rw [hbusy, h.locked]
      exact hs.exclusive.update_holder (fun who' phase' => hs.exclusive.others_free hat
        (busy_some.mp hat).2 hnotify) h.reserves
  | construct hm hbusy hlocked h =>
    have hexcl : Exclusive t.locked t.busy := by
      rw [hbusy, hlocked]
      exact hs.exclusive
    rcases h with hnone | ⟨hsize, hc⟩
    · refine ⟨fun m hm' => ?_, fun _ => by rw [hbusy]; exact hs.waiting hm, hexcl⟩
      rw [hnone] at hm'
      cases hm'
    · refine ⟨hc ▸ ready_constructed s.toCenter hsize, fun hm' => ?_, hexcl⟩
      rw [hc] at hm'
      cases hm'

/-! The repair. -/

/-- Some update is about to begin, or the one that holds the mutex brought what it
has passed into agreement, or all is in agreement. -/
structure Repairing (s : Server) : Prop where
  steady : s.Steady
  usable : s.settings.Usable
  repair : ∃ m q, s.toCenter.Assembled m q ∧
    ((∃ who, s.busy who = some .notify) ∨
     (∃ who phase, s.busy who = some phase ∧ phase.holds = true ∧ phase.Agreed s.toCenter m q) ∨
     (∀ who phase, s.busy who = some phase → phase.holds = false) ∧ s.toCenter.Agrees m q)

/-- A server whose manager agrees with its configuration, and no update in progress. -/
structure Settled (s : Server) : Prop where
  agrees : s.Agrees
  usable : s.settings.Usable
  quiescent : s.Quiescent
  unlocked : s.locked = false

theorem Assembled.unique {c : Center} {m m' : Manager} {q q' : QueueRef} (h : c.Assembled m q)
    (h' : c.Assembled m' q') : m = m' ∧ q = q' := by
  have hm : m = m' := Option.some_inj.mp (h.manager.symm.trans h'.manager)
  subst hm
  exact ⟨rfl, Option.some_inj.mp (h.task_queue.symm.trans h'.task_queue)⟩

/-- Without an update in progress, a manager that is ready is all there is to it. -/
theorem Quiescent.steady (hq : s.Quiescent) (hready : s.toCenter.Ready) (hl : s.locked = false) :
    s.Steady := by
  have hfree : ∀ who phase, s.busy who ≠ some phase := by
    intro who phase h
    rw [hq who] at h
    cases h
  refine ⟨hready, fun _ who phase h => absurd h (hfree who phase), ?_, ?_, ?_⟩
  · exact fun who phase h => absurd h (hfree who phase)
  · rw [hl]
    constructor
    · intro h
      cases h
    · rintro ⟨who, phase, h, -⟩
      exact absurd h (hfree who phase)
  · exact fun who _ phase _ h => absurd h (hfree who phase)

theorem Settled.repairing (hs : s.Settled) : s.Repairing := by
  obtain ⟨m, q, hA, hagrees⟩ := hs.agrees
  have hready : s.toCenter.Ready := by
    intro m' hm'
    rw [hA.manager] at hm'
    cases hm'
    exact ⟨⟨q, hA⟩, reservable_of_int hs.usable.queue⟩
  refine ⟨hs.quiescent.steady hready hs.unlocked, hs.usable, m, q, hA, Or.inr (Or.inr ⟨?_, hagrees⟩)⟩
  intro who phase h
  rw [hs.quiescent who] at h
  cases h

/-- Where no other update waits, what the moving one has brought so far is still so. -/
theorem agreed_of_first {m : Manager} {q : QueueRef} (hat : s.busy who = some phase) (hbusy : phase.busy = true)
    (hothers : ∀ who' phase', who' ≠ who → s.busy who' = some phase' → phase'.holds = false)
    (hfirst : ∀ who', s.busy who' = some .notify → who' = who)
    (hrepair : (∃ who, s.busy who = some .notify) ∨
      (∃ who phase, s.busy who = some phase ∧ phase.holds = true ∧ phase.Agreed s.toCenter m q) ∨
      (∀ who phase, s.busy who = some phase → phase.holds = false) ∧ s.toCenter.Agrees m q) :
    phase.Agreed s.toCenter m q := by
  rcases hrepair with ⟨who', hb⟩ | ⟨who', phase', hb, hh, hd⟩ | ⟨hfree, -⟩
  · have hw : who' = who := hfirst who' hb
    subst hw
    rw [hat] at hb
    cases hb
    trivial
  · have hw : who' = who := by
      by_contra hne
      rw [hothers who' phase' hne hb] at hh
      cases hh
    subst hw
    rw [hat] at hb
    cases hb
    exact hd
  · rcases Phase.notify_or_holds hbusy with hn | hh
    · subst hn
      trivial
    · rw [hfree who phase hat] at hh
      cases hh

/-- Every move but a bare re-read keeps the server repairing. -/
theorem Repairing.update (hs : s.Repairing) (he : e ≠ .updateConfig) (h : Update s e t) :
    t.Repairing := by
  have hsteady := hs.steady.update h
  obtain ⟨m, q, hA, hrepair⟩ := hs.repair
  cases h with
  | idle h =>
    refine ⟨hsteady, ?_, m, q, h.setup.assembled hA, ?_⟩
    · have hset : t.settings = s.settings := h.setup.settings
      rw [hset]
      exact hs.usable
    · rw [h.busy]
      refine hrepair.imp id (Or.imp ?_ ?_)
      · rintro ⟨who, phase, hb, hh, hd⟩
        exact ⟨who, phase, hb, hh, h.setup.agreed hd⟩
      · rintro ⟨hfree, hd⟩
        exact ⟨hfree, h.setup.agrees hd⟩
  | bare he' => exact absurd he' he
  | reread who hnot hbusy hc =>
    -- this party goes on to an update of its own
    refine ⟨hsteady, ?_, m, q, ?_, Or.inl ⟨who, ?_⟩⟩
    · rw [hc]
      rcases afterReread_settings s.config s.content with hsame | hrange
      · unfold Center.settings
        rw [hsame]
        exact hs.usable
      · exact hrange.usable
    · rw [hc]
      exact ⟨hA.manager, hA.pool, hA.task_queue, hA.queue⟩
    · rw [hbusy, Function.update_self]
  | alone who hat hm =>
    rw [hA.manager] at hm
    cases hm
  | construct hm =>
    rw [hA.manager] at hm
    cases hm
  | @manager who phase next m₁ m' q₁ hat hnotify hA₁ hbusy h =>
    obtain ⟨rfl, rfl⟩ := Assembled.unique hA hA₁
    have hset : t.settings = s.settings := h.config.settings
    have hothers : ∀ who' phase', who' ≠ who → s.busy who' = some phase' → phase'.holds = false :=
      fun _ _ => hs.steady.exclusive.others_free hat (busy_some.mp hat).2 hnotify
    refine ⟨hsteady, by rw [hset]; exact hs.usable, m', q, h.assembled, ?_⟩
    by_cases hother : ∃ who', who' ≠ who ∧ s.busy who' = some .notify
    · obtain ⟨who', hne, hb⟩ := hother
      refine Or.inl ⟨who', ?_⟩
      rw [hbusy, Function.update_of_ne hne]
      exact hb
    · have hfirst : ∀ who', s.busy who' = some .notify → who' = who := by
        intro who' hb
        by_contra hne
        exact hother ⟨who', hne, hb⟩
      have hagreed : phase.Agreed s.toCenter m q := agreed_of_first hat (busy_some.mp hat).2 hothers hfirst hrepair
      have hnext := h.agreed hs.usable hagreed
      rcases h.onward with hh | hstamp
      · refine Or.inr (Or.inl ⟨who, next, ?_, hh, hnext⟩)
        rw [hbusy, Function.update_self]
        exact Option.filter_eq_some_iff.mpr ⟨rfl, Phase.busy_of_holds hh⟩
      · subst hstamp
        refine Or.inr (Or.inr ⟨fun who' phase' hb => ?_, hnext⟩)
        rw [hbusy] at hb
        by_cases hw : who' = who
        · subst hw
          rw [Function.update_self] at hb
          cases hb
        · rw [Function.update_of_ne hw] at hb
          exact hothers who' phase' hw hb

theorem Repairing.agrees (hs : s.Repairing) (hq : s.Quiescent) : s.Agrees := by
  obtain ⟨m, q, hA, hrepair⟩ := hs.repair
  rcases hrepair with ⟨who, hb⟩ | ⟨who, phase, hb, -⟩ | ⟨-, hd⟩
  · rw [hq who] at hb
    cases hb
  · rw [hq who] at hb
    cases hb
  · exact ⟨m, q, hA, hd⟩

theorem Repairing.run {hash : ThreadId → UInt64} {es : List Step} (hs : s.Repairing)
    (hes : ∀ e ∈ es, e ≠ .updateConfig) (h : (system hash).run s es = some t) : t.Repairing :=
  Transition.System.run_inv_events
    (fun _ _ _ hu he hstep => hu.update he (Update.of_move hu.steady (system_step hstep).2)) h hes hs

end

/-- In every state of every run without an update between its re-read and the end of
its `Manager::update`, the manager agrees with the configuration. -/
theorem agrees_of_quiescent (hash : ThreadId → UInt64) (s t : Server) (es : List Step)
    (hs : s.Settled) (hes : ∀ e ∈ es, e ≠ .updateConfig)
    (h : (system hash).run s es = some t) (hq : t.Quiescent) : t.Agrees :=
  (hs.repairing.run hes h).agrees hq

theorem step_construct (hash : ThreadId → UInt64) {s : Server} (ht : s.terminated = false)
    (hm : s.manager = none) :
    (system hash).step s .construct = some (settleConstruct (s.perform buildManager)) := by
  simp only [system, ht, move, hm]
  rfl

/-- The state `Construct` leaves is a settled one. -/
theorem settled_construct {s : Server} (hU : s.settings.Usable) (hq : s.Quiescent)
    (hl : s.locked = false) : (settleConstruct (s.perform buildManager)).Settled := by
  rcases construct_cases s with ⟨-, heq⟩ | ⟨hsize, -⟩
  · rw [heq]
    refine ⟨⟨_, _, s.toCenter.constructed_assembled, s.toCenter.constructed_agrees hU⟩, ?_, hq, hl⟩
    show s.toCenter.constructed.settings.Usable
    rw [s.toCenter.constructed_settings]
    exact hU
  · exact absurd (reservable_of_int hU.queue) hsize

/-! Two requests whose updates overlap: the first applies parts of both files. -/

def mixedFirst : FileContent :=
  some [("RMin", some 20), ("RMax", some 30), ("AmountOfOperators", some 4), ("SizeOfQueue", some 40)]

def mixedSecond : FileContent :=
  some [("RMin", some 6), ("RMax", some 9), ("AmountOfOperators", some 3), ("SizeOfQueue", some 50)]

/-- The second request re-reads after the first has taken its durations. -/
def mixedRun : List Step :=
  [.edit mixedFirst, .request, .advance 0, .advance 0, .advance 0, .edit mixedSecond, .request,
    .advance 1, .advance 0, .advance 0, .advance 0, .advance 0, .advance 0,
    .advance 1, .advance 1, .advance 1, .advance 1]

theorem agrees_mixed : ∃ s t, (system (fun _ => 7)).step (init (some baseFile) 0 true) .construct =
    some s ∧ (system (fun _ => 7)).run s mixedRun = some t ∧
    settings t.config.data_ = ⟨6, 9, 3, 50⟩ ∧ t.Agrees := by
  have hinit : (init (some baseFile) 0 true).settings.Usable := ⟨by decide, by decide⟩
  have hstep := step_construct (fun _ => 7) (s := init (some baseFile) 0 true) rfl rfl
  have hs := settled_construct hinit (fun who => by cases who <;> rfl) rfl
  have hsome : ((system (fun _ => 7)).run (init (some baseFile) 0 true)
      (.construct :: mixedRun)).isSome = true := by decide +kernel
  obtain ⟨t, ht⟩ := Option.isSome_iff_exists.mp hsome
  have hset : ((system (fun _ => 7)).run (init (some baseFile) 0 true) (.construct :: mixedRun)).map
      (fun s => settings s.config.data_) = some ⟨6, 9, 3, 50⟩ := by decide +kernel
  have hreq : ((system (fun _ => 7)).run (init (some baseFile) 0 true) (.construct :: mixedRun)).map
      (fun s => s.requests) = some [.updating .stamp, .updating .stamp] := by decide +kernel
  have hmon : ((system (fun _ => 7)).run (init (some baseFile) 0 true) (.construct :: mixedRun)).map
      (fun s => s.monitor) = some .off := by decide +kernel
  rw [ht, Option.map_some, Option.some_inj] at hset hreq hmon
  obtain ⟨s', hstep', hrun⟩ := Transition.System.run_cons_some.mp ht
  rw [hstep] at hstep'
  cases hstep'
  refine ⟨_, t, hstep, hrun, hset, agrees_of_quiescent (fun _ => 7) _ t mixedRun hs ?_ hrun ?_⟩
  · intro e he heq
    subst heq
    simp [mixedRun] at he
  · refine quiescent_of_places ?_ (by rw [hmon]; rfl)
    rw [hreq]
    decide

end Server

end ProteiCov
