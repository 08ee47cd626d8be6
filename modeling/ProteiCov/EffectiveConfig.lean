import ProteiCov.Frames
import ProteiCov.Reconfiguration

/-
  The values a server works with

  The range of the configuration values is kept by every step of every party:
  a re-read normalises, a read changes no value, and whatever a manager computes
  with came from a getter. The constructor alone takes the file's values as they
  are, so `effective_iff` says that the values are in range in every state of every
  run exactly when the initial file cannot be loaded or has them in range.
-/

namespace ProteiCov
open Cpp

/-- The getters, the tasks and the pools of a server have the values they need. -/
structure Server.Effective (s : Server) : Prop where
  settings : (settings s.config.data_).InRange
  tasks : ∀ t < s.world.taskCount, (s.world.tasks t).RMin_ ≤ (s.world.tasks t).RMax_
  built : ∀ a ∈ s.built, toUnsigned a.1 ≠ 0 ∧ (toUnsigned a.1 : Int) = a.1 ∧ 0 ≤ a.2

/-- The arguments of a pool that is built are in range. -/
def PoolArguments (operators size : Int) : Prop :=
  (2 ≤ operators ∧ operators ≤ 80) ∧ 15 ≤ size ∧ size ≤ 350

/-- Every task there is can draw its duration. -/
def TasksOrdered (w : World) : Prop := ∀ t < w.taskCount, (w.tasks t).RMin_ ≤ (w.tasks t).RMax_

/-- The same bounds in every task. -/
structure SameBounds (w v : World) : Prop where
  rMin : ∀ t, (v.tasks t).RMin_ = (w.tasks t).RMin_
  rMax : ∀ t, (v.tasks t).RMax_ = (w.tasks t).RMax_
  count : v.taskCount = w.taskCount

namespace SameBounds

theorem setTask (w : World) (t : TaskRef) (k : Task) (hmin : k.RMin_ = (w.tasks t).RMin_)
    (hmax : k.RMax_ = (w.tasks t).RMax_) : SameBounds w (w.setTask t k) := by
  refine ⟨fun u => ?_, fun u => ?_, rfl⟩
  · by_cases h : u = t
    · subst h
      simpa using hmin
    · simp [h]
  · by_cases h : u = t
    · subst h
      simpa using hmax
    · simp [h]

theorem submits : Submits SameBounds where
  refl _ := ⟨fun _ => rfl, fun _ => rfl, rfl⟩
  trans _ _ _ h h' :=
    ⟨fun t => (h'.rMin t).trans (h.rMin t), fun t => (h'.rMax t).trans (h.rMax t),
      h'.count.trans h.count⟩
  emit _ _ := ⟨fun _ => rfl, fun _ => rfl, rfl⟩
  taskId w t _ := setTask w t _ rfl rfl
  cdr w t f := ⟨fun u => w.mapCDR_RMin t u f, fun u => w.mapCDR_RMax t u f, rfl⟩
  promise w t _ := setTask w t _ rfl rfl
  entries _ _ _ := ⟨fun _ => rfl, fun _ => rfl, rfl⟩

theorem ordered {w v : World} (h : SameBounds w v) (hw : TasksOrdered w) : TasksOrdered v := by
  intro t ht
  rw [h.rMin, h.rMax]
  exact hw t (by rw [← h.count]; exact ht)

end SameBounds

theorem SameTasks.ordered {w v : World} (h : SameTasks w v) (hw : TasksOrdered w) :
    TasksOrdered v := by
  intro t ht
  rw [h.1]
  exact hw t (by rw [← h.2]; exact ht)

theorem keeps_construct {RMin RMax : Int} (h : RMin ≤ RMax) (number : List Char)
    (startTime : TimePoint) (logger : Bool) :
    Keeps TasksOrdered (Task.construct RMin RMax number startTime logger) (fun _ => True) := by
  have hnew : Keeps TasksOrdered (newTask (Task.make RMin RMax number startTime logger))
      (fun _ => True) := by
    intro w hw
    refine ⟨fun t ht => ?_, fun _ _ => trivial⟩
    by_cases hnt : t = w.taskCount
    · subst hnt
      simpa [newTask, Exec.run, Task.make] using h
    · have hlt : t < w.taskCount := by
        have hlt' : t < w.taskCount + 1 := ht
        omega
      simpa [newTask, Exec.run, hnt] using hw t hlt
  refine hnew.bind (fun t _ => Keeps.bind (Q := fun _ => True)
    (Keeps.ite (fun _ => ?_) (fun _ => Keeps.pure trivial)) (fun _ _ => Keeps.pure trivial))
  exact Keeps.of_respects (fun w => SameBounds.submits.emit w _) (fun _ _ => SameBounds.ordered)

theorem keeps_addTask {m : Manager} (h : m.RMin_ ≤ m.RMax_) (hash : ThreadId → UInt64)
    (thread : ThreadId) (now pushNow : TimePoint) (number : List Char) :
    Keeps TasksOrdered (m.addTask hash thread now pushNow number) (fun _ => True) :=
  (keeps_construct h number now m.logger_).bind (fun _ _ =>
    Keeps.of_respects (SameBounds.submits.add_task _ _ _ _ _) (fun _ _ => SameBounds.ordered))

/-! The center. -/

/-- Everything in the center is in range. -/
structure Center.Sound (c : Center) : Prop where
  settings : (settings c.config.data_).InRange
  manager : ∀ m, c.manager = some m → m.RMin_ ≤ m.RMax_
  tasks : TasksOrdered c.world
  built : ∀ a ∈ c.built, PoolArguments a.1 a.2

/-- What a phase read before is in range. -/
def Phase.Bounded : Phase → Prop
  | readSize operators => 2 ≤ operators ∧ operators ≤ 80
  | install operators size => PoolArguments operators size
  | _ => True

namespace Center.Sound

/-- The values of the configuration are in range. -/
def Ranged (c : ThreadSafeConfig) : Prop := (ProteiCov.settings c.data_).InRange

theorem onConfig {α : Type} {x : Exec ThreadSafeConfig α} {Q : α → Prop} (hx : Keeps Ranged x Q) :
    Keeps Sound (Center.onConfig x) Q := by
  intro c hc
  obtain ⟨hI, hQ⟩ := hx c.config hc.settings
  exact ⟨⟨hI, hc.manager, hc.tasks, hc.built⟩, hQ⟩

theorem onWorld {α : Type} {x : Exec World α} {Q : α → Prop} (hx : Keeps TasksOrdered x Q) :
    Keeps Sound (Center.onWorld x) Q := by
  intro c hc
  obtain ⟨hI, hQ⟩ := hx c.world hc.tasks
  exact ⟨⟨hc.settings, hc.manager, hI, hc.built⟩, hQ⟩

theorem sameTasks {α : Type} {x : Exec World α} (hx : Respects SameTasks x) :
    Keeps Sound (Center.onWorld x) (fun _ => True) :=
  onWorld (Keeps.of_respects hx (fun _ _ => SameTasks.ordered))

theorem this : Keeps Sound Center.this (fun m => m.RMin_ ≤ m.RMax_) := by
  intro c hc
  cases h : c.manager with
  | none =>
    rw [run_this_none h]
    exact ⟨hc, fun _ hm => by cases hm⟩
  | some m =>
    rw [run_this_some h]
    refine ⟨hc, fun _ hm => ?_⟩
    cases hm
    exact hc.manager m h

theorem setManager {m : Manager} (h : m.RMin_ ≤ m.RMax_) :
    Keeps Sound (Center.setManager m) (fun _ => True) := by
  refine Keeps.modify (fun c hc => ⟨hc.settings, fun m' hm' => ?_, hc.tasks, hc.built⟩) trivial
  cases hm'
  exact h

theorem leave : Keeps Sound Phase.leave Phase.Bounded :=
  Keeps.bind (Q := fun _ => True)
    (Keeps.modify (fun _ hc => ⟨hc.settings, hc.manager, hc.tasks, hc.built⟩) trivial)
    (fun _ _ => Keeps.pure trivial)

theorem buildPool {operators size : Int} (h : PoolArguments operators size) (logger : Bool) :
    Keeps Sound (Center.buildPool logger operators size) (fun _ => True) := by
  refine Keeps.bind (Q := fun _ => True) (Keeps.modify (fun c hc => ?_) trivial)
    (fun _ _ => sameTasks (SameTasks.buildPool _ _ _))
  refine ⟨hc.settings, hc.manager, hc.tasks, fun a ha => ?_⟩
  rcases List.mem_append.mp ha with ha | ha
  · exact hc.built a ha
  · rw [List.mem_singleton.mp ha]
    exact h

theorem getMinMax : Keeps Ranged ThreadSafeConfig.getMinMax (fun r => r.1 ≤ r.2) := by
  intro c hc
  refine ⟨?_, fun r hr => ?_⟩
  · unfold Ranged
    rw [(ThreadSafeConfig.Same.getMinMax c).settings]
    exact hc
  · rw [ThreadSafeConfig.getMinMax_result] at hr
    cases hr
    exact hc.ordered

theorem getAmountOfOperators :
    Keeps Ranged ThreadSafeConfig.getAmountOfOperators (fun n => 2 ≤ n ∧ n ≤ 80) := by
  intro c hc
  refine ⟨?_, fun r hr => ?_⟩
  · unfold Ranged
    rw [(ThreadSafeConfig.Same.getAmountOfOperators c).settings]
    exact hc
  · rw [ThreadSafeConfig.getAmountOfOperators_result] at hr
    cases hr
    exact hc.operators

theorem getSizeOfQueue : Keeps Ranged ThreadSafeConfig.getSizeOfQueue (fun n => 15 ≤ n ∧ n ≤ 350) := by
  intro c hc
  refine ⟨?_, fun r hr => ?_⟩
  · unfold Ranged
    rw [(ThreadSafeConfig.Same.getSizeOfQueue c).settings]
    exact hc
  · rw [ThreadSafeConfig.getSizeOfQueue_result] at hr
    cases hr
    exact hc.queue

/-- A re-read that succeeds normalises, and one that fails changes nothing. -/
theorem updateConfig (content : FileContent) :
    Keeps Ranged (ThreadSafeConfig.updateConfig content) (fun _ => True) := by
  intro c hc
  refine ⟨?_, fun _ _ => trivial⟩
  rw [ThreadSafeConfig.updateConfig_state]
  unfold ThreadSafeConfig.afterReread
  cases ThreadSafeConfig.accepted c.logger_ content with
  | ok data => exact normalizeData_inRange data
  | error e => exact hc

theorem run (content : FileContent) {phase : Phase} (h : phase.Bounded) :
    Keeps Sound (phase.run content) Phase.Bounded := by
  cases phase with
  | reread => exact (onConfig (updateConfig content)).bind (fun _ _ => Keeps.pure trivial)
  | notify =>
    apply Keeps.bind (Q := fun _ => True) (Keeps.get (fun _ _ => trivial))
    intro c _
    cases c.manager with
    | none => exact Keeps.pure trivial
    | some m =>
      exact Keeps.bind (Q := fun _ => True)
        (Keeps.modify (fun _ hc => ⟨hc.settings, hc.manager, hc.tasks, hc.built⟩) trivial)
        (fun _ _ => Keeps.pure trivial)
  | getMinMax =>
    exact (onConfig getMinMax).bind (fun r hr => this.bind (fun m _ =>
      (setManager (m := m.setMinMax r) hr).bind (fun _ _ => Keeps.pure trivial)))
  | updateQueue =>
    exact (onConfig getSizeOfQueue).bind (fun _ _ => this.bind (fun m _ =>
      (sameTasks (SameTasks.updateQueue m _)).bind (fun _ _ => Keeps.pure trivial)))
  | compareOperators =>
    refine (onConfig getAmountOfOperators).bind (fun _ _ => this.bind (fun m _ =>
      (sameTasks (SameTasks.sizeDiffers m _)).bind (fun _ _ => ?_)))
    exact Keeps.ite (fun _ => Keeps.pure trivial) (fun _ => leave)
  | readOperators => exact (onConfig getAmountOfOperators).bind (fun _ hn => Keeps.pure hn)
  | readSize operators =>
    exact (onConfig getSizeOfQueue).bind (fun _ hn => Keeps.pure ⟨h, hn⟩)
  | install operators size =>
    -- the two sizes were read in range by the phases before this one
    refine this.bind (fun m hm => (buildPool h _).bind (fun p _ => ?_))
    have hset : Keeps Sound (Center.onWorld (m.setNewThreadPool p)) (fun m' => m'.RMin_ ≤ m'.RMax_) := by
      refine onWorld (fun w hw => ⟨(SameTasks.setNewThreadPool m p w).ordered hw, fun m' hm' => ?_⟩)
      rw [Manager.setNewThreadPool_result (Prod.ext hm' rfl)]
      exact hm
    exact hset.bind (fun _ hm' => (setManager hm').bind (fun _ _ => leave))
  | stamp => exact Keeps.pure trivial

end Center.Sound

/-! The server. -/

namespace Server

/-- The center of a server is sound, and so is what its updates have read. -/
structure Sound (s : Server) : Prop where
  center : s.toCenter.Sound
  requests : ∀ phase, .updating phase ∈ s.requests → phase.Bounded
  monitor : ∀ t phase, s.monitor = .updating t phase → phase.Bounded

namespace Sound
variable {s : Server}

theorem of_center {t : Server} (hs : s.Sound) (hc : t.toCenter.Sound)
    (hr : t.requests = s.requests) (hm : t.monitor = s.monitor) : t.Sound :=
  ⟨hc, by rw [hr]; exact hs.requests, by rw [hm]; exact hs.monitor⟩

theorem setConfig (hs : s.Sound) {c : ThreadSafeConfig} (hc : c.data_ = s.config.data_) :
    (s.setConfig c).Sound :=
  hs.of_center ⟨by show (settings c.data_).InRange; rw [hc]; exact hs.center.settings,
    hs.center.manager, hs.center.tasks, hs.center.built⟩ rfl rfl

theorem observe (hs : s.Sound) (e : Effect) : (s.observe e).Sound :=
  hs.of_center hs.center rfl rfl

theorem stampWith (hs : s.Sound) (t : Int) : (s.stampWith t).Sound := hs.setConfig rfl

theorem setRequest (hs : s.Sound) (i : Nat) (place : Place)
    (h : ∀ phase, place = .updating phase → phase.Bounded) :
    (s.setRequest i place).Sound := by
  refine ⟨hs.center, fun phase hmem => ?_, hs.monitor⟩
  rcases List.mem_or_eq_of_mem_set hmem with hmem | heq
  · exact hs.requests phase hmem
  · exact h phase heq.symm

theorem setMonitor {m : Monitor} (hs : s.Sound)
    (h : ∀ t phase, m = .updating t phase → phase.Bounded) :
    ({ s with monitor := m } : Server).Sound :=
  ⟨hs.center, hs.requests, h⟩

theorem loopMonitor (hs : s.Sound) : s.loopMonitor.Sound := by
  apply hs.setMonitor
  intro t phase h
  split at h <;> cases h

theorem endMonitor (hs : s.Sound) : s.endMonitor.Sound := by
  unfold Server.endMonitor
  split
  · exact hs.setMonitor (fun _ _ h => by cases h)
  · exact hs.of_center hs.center rfl rfl

theorem unwind (hs : s.Sound) (phase : Phase) : (s.unwind phase).Sound := by
  unfold Server.unwind
  split
  · exact hs.of_center ⟨hs.center.settings, hs.center.manager, hs.center.tasks, hs.center.built⟩
      rfl rfl
  · exact hs

theorem perform (hs : s.Sound) {α : Type} {x : Exec Center α} {Q : α → Prop}
    (hx : Keeps Center.Sound x Q) : (s.perform x).2.Sound :=
  hs.of_center (hx s.toCenter hs.center).1 rfl rfl

theorem settleCall {α : Type} {r : Outcome α × Server} (h : r.2.Sound) :
    (Server.settleCall r).Sound := by
  obtain ⟨o, t⟩ := r
  cases o with
  | ok a => exact h
  | throws e => exact h
  | undefined => exact h.of_center h.center rfl rfl

theorem settleConstruct {r : Outcome Unit × Server} (h : r.2.Sound) :
    (Server.settleConstruct r).Sound := by
  obtain ⟨o, t⟩ := r
  cases o with
  | ok a => exact h
  | throws e => exact h.of_center h.center rfl rfl
  | undefined => exact h.of_center h.center rfl rfl

theorem advance {who : Party} {phase : Phase} {r : Outcome Phase × Server} (hs : s.Sound)
    (hb : phase.Bounded) (h : s.advance who phase = some r) :
    r.2.Sound ∧ ∀ next, r.1 = .ok next → next.Bounded := by
  obtain ⟨hI, hQ⟩ := (Center.Sound.run s.content hb).of_run hs.center (advance_center h)
  obtain ⟨-, -, hr, hm, -⟩ := advance_frame h
  exact ⟨hs.of_center hI hr hm, hQ⟩

theorem requestStep {i : Nat} {t : Server} (hs : s.Sound) (h : RequestStep s i t) : t.Sound := by
  cases h with
  | stamp _ => exact (hs.stampWith _).setRequest i .checking (fun _ hp => by cases hp)
  | @phase phase r hi hr =>
    obtain ⟨hI, hQ⟩ := hs.advance (hs.requests phase (List.mem_of_getElem? hi)) hr
    obtain ⟨o, u⟩ := r
    cases o with
    | ok next => exact hI.setRequest i _ (fun _ hp => by cases hp; exact hQ _ rfl)
    | throws e => exact (hI.unwind phase).setRequest i .failed (fun _ hp => by cases hp)
    | undefined => exact hI.of_center hI.center rfl rfl
  | check _ =>
    have hset : (s.setConfig { s.config with updated := false }).Sound := hs.setConfig rfl
    exact (hset.observe _).setRequest i _ (fun _ hp => by cases hp)

theorem monitorStep {t : Server} (hs : s.Sound) (h : MonitorStep s t) : t.Sound := by
  cases h with
  | absent _ _ => exact hs.endMonitor
  | started _ _ => exact (hs.stampWith _).loopMonitor
  | removed _ _ => exact (hs.observe _).endMonitor
  | newer _ _ _ =>
    -- the poll begins its update
    exact (hs.observe _).setMonitor (fun _ _ hp => by cases hp; trivial)
  | unchanged _ _ _ => exact ((hs.observe _).observe _).loopMonitor
  | stamp _ => exact ((hs.stampWith _).observe _).loopMonitor
  | @phase v phase r hm hr =>
    obtain ⟨hI, hQ⟩ := hs.advance (hs.monitor _ _ hm) hr
    obtain ⟨o, u⟩ := r
    cases o with
    | ok next => exact hI.setMonitor (fun _ _ hp => by cases hp; exact hQ _ rfl)
    | throws e => exact (hI.unwind phase).endMonitor
    | undefined => exact hI.of_center hI.center rfl rfl

theorem buildManager : Keeps Center.Sound Server.buildManager (fun _ => True) := by
  apply Keeps.bind (Q := fun _ => True) (Keeps.get (fun _ _ => trivial))
  intro c _
  apply (Center.Sound.onConfig Center.Sound.getAmountOfOperators).bind
  intro _ hn
  apply (Center.Sound.onConfig Center.Sound.getSizeOfQueue).bind
  intro _ hsize
  refine (Center.Sound.buildPool ⟨hn, hsize⟩ _).bind (fun _ _ => ?_)
  exact (Center.Sound.onConfig Center.Sound.getMinMax).bind (fun _ hr =>
    Center.Sound.setManager hr)

/-- The calls of clients keep the center sound: a task gets the bounds of the manager. -/
theorem calls {hash : ThreadId → UInt64} {e : Step} {α : Type} {x : Exec Center α}
    (h : Calls hash s e α x) : Keeps Center.Sound x (fun _ => True) := by
  cases h with
  | addTask thread number =>
    exact Center.Sound.this.bind (fun m hm => Center.Sound.onWorld (keeps_addTask hm _ _ _ _ _))
  | getMinMax => exact (Center.Sound.onConfig Center.Sound.getMinMax).mono (fun _ _ => trivial)
  | getAmountOfOperators =>
    exact (Center.Sound.onConfig Center.Sound.getAmountOfOperators).mono (fun _ _ => trivial)
  | getSizeOfQueue =>
    exact (Center.Sound.onConfig Center.Sound.getSizeOfQueue).mono (fun _ _ => trivial)

/-- Every move keeps the server sound. -/
theorem move {hash : ThreadId → UInt64} {e : Step} {t : Server} (hs : s.Sound)
    (h : MoveStep hash s e t) : t.Sound := by
  cases h with
  | tick d => exact hs.of_center hs.center rfl rfl
  | edit content => exact hs.of_center hs.center rfl rfl
  | remove => exact hs.of_center hs.center rfl rfl
  | construct _ => exact settleConstruct (hs.perform buildManager)
  | unmonitored _ => exact hs
  | runMonitoring _ _ => exact hs.setMonitor (fun _ _ hp => by cases hp)
  | monitor hstep => exact hs.monitorStep hstep
  | stopThread => exact hs.setConfig rfl
  | request =>
    -- the new request stands at its first phase, or at the check if updates are off
    refine ⟨hs.center, fun phase hmem => ?_, hs.monitor⟩
    rcases List.mem_append.mp hmem with hmem | hmem
    · exact hs.requests phase hmem
    · have heq := List.mem_singleton.mp hmem
      split at heq
      · cases heq
      · cases heq
        trivial
  | advance hstep => exact hs.requestStep hstep
  | call hcall => exact settleCall (hs.perform (calls hcall))
  | updateConfig =>
    exact (settleCall (hs.perform
      (Center.Sound.onConfig (Center.Sound.updateConfig s.content)))).observe _

theorem effective (hs : s.Sound) : s.Effective := by
  refine ⟨hs.center.settings, hs.center.tasks, fun a ha => ?_⟩
  obtain ⟨⟨hlo, hhi⟩, hqlo, -⟩ := hs.center.built a ha
  have hn : toUnsigned a.1 = a.1.toNat := toUnsigned_of_nonneg (by omega) (by omega)
  rw [hn]
  omega

end Sound

/-- The values the constructor takes from the file are in range, if it takes any. -/
def StartsInRange (content : FileContent) : Prop :=
  match ThreadSafeConfig.load content with
  | .ok data => (settings data).InRange
  | .error _ => True

theorem init_settings (file : Option File) (clock : TimePoint) (logger : Bool) :
    (settings (init file clock logger).config.data_).InRange ↔
      StartsInRange (file.bind (fun f => f.content)) := by
  unfold init ThreadSafeConfig.construct StartsInRange
  cases ThreadSafeConfig.load (file.bind (fun f => f.content)) with
  | ok data => rfl
  | error e => simp only [iff_true]; decide

/-- The values are in range in every state of every run exactly when the file
given to the constructor cannot be loaded or has them in range. -/
theorem effective_iff (hash : ThreadId → UInt64) (file : Option File) (clock : TimePoint)
    (logger : Bool) :
    (∀ es s, (system hash).run (init file clock logger) es = some s → s.Effective) ↔
      StartsInRange (file.bind (fun f => f.content)) := by
  constructor
  · intro h
    exact (init_settings file clock logger).mp (h [] _ rfl).settings
  · intro h es s hrun
    have hinit : (init file clock logger).Sound := by
      refine ⟨⟨(init_settings file clock logger).mpr h, ?_, ?_, ?_⟩, ?_, ?_⟩
      · intro m hm
        cases hm
      · intro t ht
        exact absurd ht (Nat.not_lt_zero t)
      · intro a ha
        cases ha
      · intro phase hmem
        cases hmem
      · intro t phase hm
        cases hm
    have hsound : s.Sound :=
      Transition.System.run_inv (fun u e v hu hstep => hu.move (system_step hstep).2) hrun hinit
    exact hsound.effective

/-! A file that parses, with its bounds the wrong way round and no operator. -/

def invertedFile : File where
  content := some [("RMin", some 20), ("RMax", some 10), ("AmountOfOperators", some 0),
    ("SizeOfQueue", some 15)]
  time := 0

/-- The manager is constructed and takes one call. -/
def invertedRun : Option Server :=
  (system (fun _ => 7)).run (init (some invertedFile) 0 true) [.construct, .addTask 1 ['1']]

theorem inverted_not_effective : ∃ s, invertedRun = some s ∧
    settings s.config.data_ = ⟨20, 10, 0, 15⟩ ∧ (s.world.pools 0).size = 0 ∧
    (s.world.tasks 0).RMin_ = 20 ∧ (s.world.tasks 0).RMax_ = 10 ∧ ¬ s.Effective := by
  have hsome : invertedRun.isSome = true := by decide
  obtain ⟨s, hs⟩ := Option.isSome_iff_exists.mp hsome
  have hset : invertedRun.map (fun s => settings s.config.data_) = some ⟨20, 10, 0, 15⟩ := by decide
  have hsize : invertedRun.map (fun s => (s.world.pools 0).size) = some 0 := by decide
  have hmin : invertedRun.map (fun s => (s.world.tasks 0).RMin_) = some 20 := by decide
  have hmax : invertedRun.map (fun s => (s.world.tasks 0).RMax_) = some 10 := by decide
  rw [hs, Option.map_some, Option.some_inj] at hset hsize hmin hmax
  refine ⟨s, hs, hset, hsize, hmin, hmax, fun h => ?_⟩
  have hrange := h.settings.ordered
  rw [hset] at hrange
  exact absurd hrange (by decide)

end Server

end ProteiCov
