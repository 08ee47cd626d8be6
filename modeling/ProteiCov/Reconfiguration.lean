import ProteiCov.Config
import ProteiCov.Manager
import ProteiCov.Lib.Invariant
import ProteiCov.Lib.Transition

/-
  A server and its configuration

  The parties are the callers of `/update`, the monitor thread, the callers of
  `addTask`, and whoever edits the file. A caller's `updateWithRequest` and the
  body of a poll go through the phases of `Phase`, one critical section at a time,
  so other parties move between any two of them. `step` is one move of one party,
  and `moveStep` says once what it can do.

  What happened is kept in `trace`, newest first; the code never reads it.
-/

namespace ProteiCov
open Cpp

/-- Who re-read the file. -/
inductive Party where
  | request (i : Nat)
  | monitor
  | caller
  deriving DecidableEq, Repr

/-- What an observer of a run sees. -/
inductive Effect where
  | edited
  | reread (who : Party) (succeeded : Bool)
  | isUpdated (i : Nat) (answer : Bool)
  | pollBegan
  | pollEnded
  deriving DecidableEq, Repr

/-- The configuration, and the manager once it is set. `locked` says that an update
holds `updateMtx`; `built` has the arguments of every pool built so far. -/
structure Center where
  config : ThreadSafeConfig
  manager : Option Manager
  world : World
  locked : Bool
  built : List (Int × Int)

namespace Center
variable {α : Type}

def onConfig (x : Exec ThreadSafeConfig α) : Exec Center α := fun c =>
  ((x.run c.config).1, { c with config := (x.run c.config).2 })

def onWorld (x : Exec World α) : Exec Center α := fun c =>
  ((x.run c.world).1, { c with world := (x.run c.world).2 })

/-- The manager a method of it runs on. -/
def this : Exec Center Manager := fun c =>
  match c.manager with
  | some m => (.ok m, c)
  | none => (.undefined, c)

def setManager (m : Manager) : Exec Center Unit := .modify (fun c => { c with manager := some m })

def setLocked (b : Bool) : Exec Center Unit := .modify (fun c => { c with locked := b })

/-- `std::make_shared<TP::ThreadPool>(operators, size)` with its logger. -/
def buildPool (logger : Bool) (operators size : Int) : Exec Center PoolRef := do
  .modify (fun c => { c with built := c.built ++ [(operators, size)] })
  onWorld (Manager.buildPool logger operators size)

end Center

/-- Where an update stands: what its thread does next. The stages between
`getMinMax` and `install` hold `updateMtx`. -/
inductive Phase where
  | reread
  | notify
  | getMinMax
  | updateQueue
  | compareOperators
  | readOperators
  | readSize (operators : Int)
  | install (operators size : Int)
  | stamp
  deriving DecidableEq, Repr

namespace Phase
open Center

/-- The phases that hold `updateMtx`. -/
def holds : Phase → Bool
  | reread | notify | stamp => false
  | _ => true

/-- The end of `Manager::update`. -/
def leave : Exec Center Phase := do
  setLocked false
  return stamp

/-- `threadPool_` is kept if its size is right. -/
def afterCompare (differs : Bool) : Exec Center Phase :=
  if differs then return readOperators else leave

/-- `notify`. -/
def enter : Option Manager → Exec Center Phase
  | none => return stamp
  | some _ => do
    setLocked true
    return getMinMax

/-- One critical section of an update, up to the write of `lastWriteTime`. -/
def run (content : FileContent) : Phase → Exec Center Phase
  | reread => do
    onConfig (ThreadSafeConfig.updateConfig content)
    return notify
  | notify => do
    let c ← .get id
    enter c.manager
  | getMinMax => do
    let minMax ← onConfig ThreadSafeConfig.getMinMax
    let m ← this
    setManager (m.setMinMax minMax)
    return updateQueue
  | updateQueue => do
    let size ← onConfig ThreadSafeConfig.getSizeOfQueue
    let m ← this
    onWorld (m.updateQueue size)
    return compareOperators
  | compareOperators => do
    let operators ← onConfig ThreadSafeConfig.getAmountOfOperators
    let m ← this
    let differs ← onWorld (m.sizeDiffers operators)
    afterCompare differs
  | readOperators => do
    let operators ← onConfig ThreadSafeConfig.getAmountOfOperators
    return readSize operators
  | readSize operators => do
    let size ← onConfig ThreadSafeConfig.getSizeOfQueue
    return install operators size
  | install operators size => do
    let m ← this
    let pool ← buildPool m.logger_ operators size
    let m ← onWorld (m.setNewThreadPool pool)
    setManager m
    leave
  | stamp => return stamp

end Phase

/-- Where the caller of `processRequestForUpdate` stands. -/
inductive Place where
  | updating (phase : Phase)
  | checking
  | replied (answer : Bool)
  | failed
  deriving DecidableEq, Repr

/-- Where the monitor thread stands. -/
inductive Monitor where
  | off
  | starting
  | sleeping
  | updating (currentWriteTime : Int) (phase : Phase)
  | ended
  deriving DecidableEq, Repr

/-- The file and the time it was last written. -/
structure File where
  content : FileContent
  time : TimePoint

structure Server extends Center where
  file : Option File
  clock : TimePoint
  requests : List Place
  monitor : Monitor
  terminated : Bool
  trace : List Effect

namespace Server

/-- What reading the file gives. -/
def content (s : Server) : FileContent := s.file.bind (fun f => f.content)

/-- A re-read of the file succeeds. -/
def readable (s : Server) : Bool := ThreadSafeConfig.readable s.config.logger_ s.content

/-- The state in which the constructor has returned. -/
def init (file : Option File) (clock : TimePoint) (logger : Bool) : Server where
  config := ThreadSafeConfig.construct (file.bind (fun f => f.content)) logger
  manager := none
  world := .empty
  locked := false
  built := []
  file := file
  clock := clock
  requests := []
  monitor := .off
  terminated := false
  trace := []

def observe (s : Server) (e : Effect) : Server := { s with trace := e :: s.trace }

def setConfig (s : Server) (c : ThreadSafeConfig) : Server := { s with config := c }

def setRequest (s : Server) (i : Nat) (place : Place) : Server :=
  { s with requests := s.requests.set i place }

/-- `lastWriteTime = t`. -/
def stampWith (s : Server) (t : Int) : Server :=
  s.setConfig { s.config with lastWriteTime := t }

/-- Run code on the center: it leaves the state it reached. -/
def perform {α : Type} (s : Server) (x : Exec Center α) : Outcome α × Server :=
  ((x.run s.toCenter).1, { s with toCenter := (x.run s.toCenter).2 })

/-- An exception that leaves a phase unlocks `updateMtx` on its way. -/
def unwind (s : Server) (phase : Phase) : Server :=
  if phase.holds then { s with locked := false } else s

/-- The update of a party takes its next critical section, unless another update
holds the mutex it needs. -/
def advance (s : Server) (who : Party) (phase : Phase) : Option (Outcome Phase × Server) :=
  if phase = .notify ∧ s.manager ≠ none ∧ s.locked = true then none
  else
    let r := s.perform (phase.run s.content)
    some (r.1, if phase = .reread then r.2.observe (.reread who s.readable) else r.2)

/-- The caller `i` after its phase ended. -/
def requestAfter (i : Nat) (phase : Phase) : Outcome Phase × Server → Server
  | (.ok next, t) => t.setRequest i (.updating next)
  | (.throws _, t) => (t.unwind phase).setRequest i .failed
  | (.undefined, t) => { t with terminated := true }

/-- The next move of a caller of `processRequestForUpdate`. -/
def stepRequest (s : Server) (i : Nat) : Option Server :=
  match s.requests[i]? with
  | some (.updating .stamp) =>
    some ((s.stampWith (toTimeT s.clock)).setRequest i .checking)
  | some (.updating phase) => (s.advance (.request i) phase).map (requestAfter i phase)
  | some .checking =>
    some (((s.setConfig { s.config with updated := false }).observe
      (.isUpdated i s.config.updated)).setRequest i (.replied s.config.updated))
  | _ => none

/-- The test of `while(!stopThread)`. -/
def loopMonitor (s : Server) : Server :=
  { s with monitor := if s.config.stopThread then .ended else .sleeping }

/-- The handler around the monitor's loop: without a logger it rethrows out of the
thread's function. -/
def endMonitor (s : Server) : Server :=
  if s.config.logger_ then { s with monitor := .ended } else { s with terminated := true }

/-- The monitor after its phase ended. -/
def monitorAfter (currentWriteTime : Int) (phase : Phase) : Outcome Phase × Server → Server
  | (.ok next, t) => { t with monitor := .updating currentWriteTime next }
  | (.throws _, t) => (t.unwind phase).endMonitor
  | (.undefined, t) => { t with terminated := true }

/-- The next move of the monitor thread. -/
def stepMonitor (s : Server) : Option Server :=
  match s.monitor with
  | .off | .ended => none
  | .starting =>
    match s.file with
    | none => some s.endMonitor
    | some f => some (s.stampWith (toTimeT f.time)).loopMonitor
  | .sleeping =>
    match s.file with
    | none => some (s.observe .pollBegan).endMonitor
    | some f =>
      if toTimeT f.time > s.config.lastWriteTime then
        some { s.observe .pollBegan with monitor := .updating (toTimeT f.time) .reread }
      else some ((s.observe .pollBegan).observe .pollEnded).loopMonitor
  | .updating currentWriteTime .stamp =>
    some ((s.stampWith currentWriteTime).observe .pollEnded).loopMonitor
  | .updating currentWriteTime phase =>
    (s.advance .monitor phase).map (monitorAfter currentWriteTime phase)

/-- `BuildThreadPool`, the constructor of the manager, and `setManager`. -/
def buildManager : Exec Center Unit := do
  let c ← .get id
  let operators ← Center.onConfig ThreadSafeConfig.getAmountOfOperators
  let size ← Center.onConfig ThreadSafeConfig.getSizeOfQueue
  let pool ← Center.buildPool c.config.logger_ operators size
  let minMax ← Center.onConfig ThreadSafeConfig.getMinMax
  Center.setManager { Manager.construct minMax pool with logger_ := c.config.logger_ }

/-- `addTask` of the manager. -/
def addTask (hash : ThreadId → UInt64) (thread : ThreadId) (now : TimePoint)
    (number : List Char) : Exec Center CallID := do
  let m ← Center.this
  Center.onWorld (m.addTask hash thread now now number)

/-- A call whose exceptions its caller catches. -/
def settleCall {α : Type} : Outcome α × Server → Server
  | (.undefined, t) => { t with terminated := true }
  | (_, t) => t

/-- A call that must return for the server to exist. -/
def settleConstruct : Outcome Unit × Server → Server
  | (.ok _, t) => t
  | (_, t) => { t with terminated := true }

/-- The moves of the parties. -/
inductive Step where
  | tick (d : Nat)
  | edit (content : FileContent)
  | remove
  | construct
  | runMonitoring
  | monitor
  | stopThread
  | request
  | advance (i : Nat)
  | addTask (thread : ThreadId) (number : List Char)
  | updateConfig
  | getMinMax
  | getAmountOfOperators
  | getSizeOfQueue

variable (hash : ThreadId → UInt64)

/-- One move, while the process runs. -/
def move (s : Server) : Step → Option Server
  | .tick d => some { s with clock := s.clock + d }
  | .edit content => some { s.observe .edited with file := some ⟨content, s.clock⟩ }
  | .remove => some { s.observe .edited with file := none }
  | .construct =>
    if s.manager = none then some (settleConstruct (s.perform buildManager)) else none
  | .runMonitoring =>
    if s.config.notToUpdate then some s
    else if s.monitor = .off then some { s with monitor := .starting } else none
  | .monitor => s.stepMonitor
  | .stopThread => some (s.setConfig { s.config with stopThread := true })
  | .request =>
    some { s with requests := s.requests ++
      [if s.config.notToUpdate then .checking else .updating .reread] }
  | .advance i => s.stepRequest i
  | .addTask thread number =>
    if s.manager ≠ none ∧ s.locked = false then
      some (settleCall (s.perform (addTask hash thread s.clock number)))
    else none
  | .updateConfig =>
    some ((settleCall (s.perform (Center.onConfig (ThreadSafeConfig.updateConfig s.content)))).observe
      (.reread .caller s.readable))
  | .getMinMax => some (settleCall (s.perform (Center.onConfig ThreadSafeConfig.getMinMax)))
  | .getAmountOfOperators =>
    some (settleCall (s.perform (Center.onConfig ThreadSafeConfig.getAmountOfOperators)))
  | .getSizeOfQueue => some (settleCall (s.perform (Center.onConfig ThreadSafeConfig.getSizeOfQueue)))

/-- The server and its configuration. -/
def system : Transition.System Server Step where
  step s e := if s.terminated then none else s.move hash e

end Server

/-! What a phase does to the configuration. -/

namespace Center

theorem run_this_some {c : Center} {m : Manager} (h : c.manager = some m) :
    this.run c = (.ok m, c) := by
  show (match c.manager with | some m => _ | none => _) = _
  rw [h]

theorem run_this_none {c : Center} (h : c.manager = none) : this.run c = (.undefined, c) := by
  show (match c.manager with | some m => _ | none => _) = _
  rw [h]

/-- The same configuration, up to keys a read inserted. -/
def SameConfig (c d : Center) : Prop := ThreadSafeConfig.Same c.config d.config

theorem SameConfig.refl (c : Center) : SameConfig c c := ThreadSafeConfig.Same.refl _

theorem SameConfig.trans (c d e : Center) (h : SameConfig c d) (h' : SameConfig d e) :
    SameConfig c e :=
  ThreadSafeConfig.Same.trans _ _ _ h h'

theorem SameConfig.bind {α β : Type} {x : Exec Center α} {f : α → Exec Center β}
    (hx : Respects SameConfig x) (hf : ∀ a, Respects SameConfig (f a)) :
    Respects SameConfig (x >>= f) :=
  Respects.bind trans hx hf

theorem SameConfig.onConfig {α : Type} {x : Exec ThreadSafeConfig α}
    (hx : Respects ThreadSafeConfig.Same x) : Respects SameConfig (onConfig x) :=
  fun c => hx c.config

theorem SameConfig.onWorld {α : Type} (x : Exec World α) : Respects SameConfig (onWorld x) :=
  fun c => refl c

theorem SameConfig.this : Respects SameConfig this := by
  intro c
  cases h : c.manager with
  | none =>
    rw [run_this_none h]
    exact refl c
  | some m =>
    rw [run_this_some h]
    exact refl c

theorem SameConfig.setManager (m : Manager) : Respects SameConfig (setManager m) := fun c => refl c

theorem SameConfig.buildPool (logger : Bool) (operators size : Int) :
    Respects SameConfig (buildPool logger operators size) :=
  bind (fun c => refl c) (fun _ => onWorld _)

theorem SameConfig.leave : Respects SameConfig Phase.leave := bind (fun c => refl c) (fun _ => refl)

/-- Only the re-read changes the configuration. -/
theorem SameConfig.run (content : FileContent) {phase : Phase} (h : phase ≠ .reread) :
    Respects SameConfig (phase.run content) := by
  cases phase with
  | reread => exact absurd rfl h
  | notify =>
    refine bind (fun c => refl c) (fun c => ?_)
    cases c.manager with
    | none => exact refl
    | some m => exact bind (fun c => refl c) (fun _ => refl)
  | getMinMax =>
    exact bind (onConfig ThreadSafeConfig.Same.getMinMax) (fun _ => bind this (fun _ =>
      bind (setManager _) (fun _ => refl)))
  | updateQueue =>
    exact bind (onConfig ThreadSafeConfig.Same.getSizeOfQueue) (fun _ => bind this (fun _ =>
      bind (onWorld _) (fun _ => refl)))
  | compareOperators =>
    exact bind (onConfig ThreadSafeConfig.Same.getAmountOfOperators) (fun _ => bind this (fun _ =>
      bind (onWorld _) (fun _ => Respects.ite refl leave)))
  | readOperators =>
    exact bind (onConfig ThreadSafeConfig.Same.getAmountOfOperators) (fun _ => refl)
  | readSize operators =>
    exact bind (onConfig ThreadSafeConfig.Same.getSizeOfQueue) (fun _ => refl)
  | install operators size =>
    exact bind this (fun _ => bind (buildPool _ _ _) (fun _ => bind (onWorld _) (fun _ =>
      bind (setManager _) (fun _ => leave))))
  | stamp => exact refl

theorem SameConfig.buildManager : Respects SameConfig Server.buildManager :=
  bind refl (fun _ => bind (onConfig ThreadSafeConfig.Same.getAmountOfOperators) (fun _ =>
    bind (onConfig ThreadSafeConfig.Same.getSizeOfQueue) (fun _ => bind (buildPool _ _ _) (fun _ =>
      bind (onConfig ThreadSafeConfig.Same.getMinMax) (fun _ => setManager _)))))

theorem SameConfig.addTask (hash : ThreadId → UInt64) (thread : ThreadId) (now : TimePoint)
    (number : List Char) : Respects SameConfig (Server.addTask hash thread now number) :=
  bind this (fun _ => onWorld _)

theorem run_reread (content : FileContent) (c : Center) :
    ((Phase.reread.run content).run c).2 =
      { c with config := c.config.afterReread content } := by
  rw [← ThreadSafeConfig.updateConfig_state, Phase.run, Exec.run_bind]
  cases h : (onConfig (ThreadSafeConfig.updateConfig content)).run c with
  | mk o d =>
    have hd : d = { c with config := ((ThreadSafeConfig.updateConfig content).run c.config).2 } :=
      (congrArg Prod.snd h).symm
    cases o <;> exact hd

end Center

namespace Server
variable {s : Server} {who : Party} {phase : Phase} {r : Outcome Phase × Server}

theorem advance_frame (h : s.advance who phase = some r) :
    r.2.file = s.file ∧ r.2.clock = s.clock ∧ r.2.requests = s.requests ∧
      r.2.monitor = s.monitor ∧ r.2.terminated = s.terminated := by
  unfold advance at h
  split at h
  · cases h
  · cases h
    by_cases hp : phase = .reread
    · simp [hp, observe, perform]
    · simp [hp, perform]

theorem advance_center (h : s.advance who phase = some r) :
    (phase.run s.content).run s.toCenter = (r.1, r.2.toCenter) := by
  unfold advance at h
  split at h
  · cases h
  · cases h
    by_cases hp : phase = .reread
    · simp [hp, observe, perform]
    · simp [hp, perform]

/-- What a critical section does to the configuration and to the trace. -/
theorem advance_config (h : s.advance who phase = some r) :
    (phase = .reread ∧ r.2.config = s.config.afterReread s.content ∧
      r.2.trace = .reread who s.readable :: s.trace) ∨
    (phase ≠ .reread ∧ ThreadSafeConfig.Same s.config r.2.config ∧ r.2.trace = s.trace) := by
  have hc := advance_center h
  by_cases hp : phase = .reread
  · refine Or.inl ⟨hp, ?_, ?_⟩
    · have hr := Center.run_reread s.content s.toCenter
      rw [← hp, hc] at hr
      exact congrArg Center.config hr
    · unfold advance at h
      rw [if_neg (by simp [hp])] at h
      cases h
      simp [hp, observe, perform]
  · refine Or.inr ⟨hp, (Center.SameConfig.run s.content hp).of_run hc, ?_⟩
    unfold advance at h
    split at h
    · cases h
    · cases h
      simp [perform]

theorem settleCall_fields {α : Type} (r : Outcome α × Server) :
    (settleCall r).toCenter = r.2.toCenter ∧ (settleCall r).trace = r.2.trace ∧
      (settleCall r).requests = r.2.requests ∧ (settleCall r).file = r.2.file := by
  obtain ⟨o, u⟩ := r
  cases o <;> exact ⟨rfl, rfl, rfl, rfl⟩

theorem settleConstruct_fields (r : Outcome Unit × Server) :
    (settleConstruct r).toCenter = r.2.toCenter ∧ (settleConstruct r).trace = r.2.trace ∧
      (settleConstruct r).requests = r.2.requests := by
  obtain ⟨o, u⟩ := r
  cases o <;> exact ⟨rfl, rfl, rfl⟩

/-! What one move can do. -/

/-- A move of the caller `i`. -/
inductive RequestStep (s : Server) (i : Nat) : Server → Prop
  | stamp (hi : s.requests[i]? = some (.updating .stamp)) :
      RequestStep s i ((s.stampWith (toTimeT s.clock)).setRequest i .checking)
  | phase {phase : Phase} {r : Outcome Phase × Server}
      (hi : s.requests[i]? = some (.updating phase)) (h : s.advance (.request i) phase = some r) :
      RequestStep s i (requestAfter i phase r)
  | check (hi : s.requests[i]? = some .checking) :
      RequestStep s i (((s.setConfig { s.config with updated := false }).observe
        (.isUpdated i s.config.updated)).setRequest i (.replied s.config.updated))

theorem requestStep {s t : Server} {i : Nat} (h : s.stepRequest i = some t) : RequestStep s i t := by
  unfold stepRequest at h
  split at h
  · rename_i hi
    cases h
    exact .stamp hi
  · rename_i hi
    obtain ⟨r, hr, rfl⟩ := Option.map_eq_some_iff.mp h
    exact .phase hi hr
  · rename_i hi
    cases h
    exact .check hi
  · cases h

/-- A move of the monitor. -/
inductive MonitorStep (s : Server) : Server → Prop
  | absent (hm : s.monitor = .starting) (hf : s.file = none) : MonitorStep s s.endMonitor
  | started {f : File} (hm : s.monitor = .starting) (hf : s.file = some f) :
      MonitorStep s (s.stampWith (toTimeT f.time)).loopMonitor
  | removed (hm : s.monitor = .sleeping) (hf : s.file = none) :
      MonitorStep s (s.observe .pollBegan).endMonitor
  | newer {f : File} (hm : s.monitor = .sleeping) (hf : s.file = some f)
      (h : toTimeT f.time > s.config.lastWriteTime) :
      MonitorStep s { s.observe .pollBegan with monitor := .updating (toTimeT f.time) .reread }
  | unchanged {f : File} (hm : s.monitor = .sleeping) (hf : s.file = some f)
      (h : ¬ toTimeT f.time > s.config.lastWriteTime) :
      MonitorStep s ((s.observe .pollBegan).observe .pollEnded).loopMonitor
  | stamp {v : Int} (hm : s.monitor = .updating v .stamp) :
      MonitorStep s ((s.stampWith v).observe .pollEnded).loopMonitor
  | phase {v : Int} {phase : Phase} {r : Outcome Phase × Server} (hm : s.monitor = .updating v phase)
      (h : s.advance .monitor phase = some r) : MonitorStep s (monitorAfter v phase r)

theorem monitorStep {s t : Server} (h : s.stepMonitor = some t) : MonitorStep s t := by
  unfold stepMonitor at h
  split at h
  · cases h
  · cases h
  · rename_i hm
    split at h
    · rename_i hf
      cases h
      exact .absent hm hf
    · rename_i hf
      cases h
      exact .started hm hf
  · rename_i hm
    split at h
    · rename_i hf
      cases h
      exact .removed hm hf
    · rename_i hf
      split at h
      · rename_i hlt
        cases h
        exact .newer hm hf hlt
      · rename_i hlt
        cases h
        exact .unchanged hm hf hlt
  · rename_i hm
    cases h
    exact .stamp hm
  · rename_i hm
    obtain ⟨r, hr, rfl⟩ := Option.map_eq_some_iff.mp h
    exact .phase hm hr

/-- The calls of clients that only read the configuration. -/
inductive Calls (hash : ThreadId → UInt64) (s : Server) : Step → (α : Type) → Exec Center α → Prop
  | addTask (thread : ThreadId) (number : List Char) :
      Calls hash s (.addTask thread number) CallID (addTask hash thread s.clock number)
  | getMinMax : Calls hash s .getMinMax (Int × Int) (Center.onConfig ThreadSafeConfig.getMinMax)
  | getAmountOfOperators :
      Calls hash s .getAmountOfOperators Int (Center.onConfig ThreadSafeConfig.getAmountOfOperators)
  | getSizeOfQueue :
      Calls hash s .getSizeOfQueue Int (Center.onConfig ThreadSafeConfig.getSizeOfQueue)

theorem Calls.sameConfig {hash : ThreadId → UInt64} {s : Server} {e : Step} {α : Type}
    {x : Exec Center α} (h : Calls hash s e α x) : Respects Center.SameConfig x := by
  cases h with
  | addTask thread number => exact Center.SameConfig.addTask _ _ _ _
  | getMinMax => exact .onConfig ThreadSafeConfig.Same.getMinMax
  | getAmountOfOperators => exact .onConfig ThreadSafeConfig.Same.getAmountOfOperators
  | getSizeOfQueue => exact .onConfig ThreadSafeConfig.Same.getSizeOfQueue

theorem Calls.not_advance {hash : ThreadId → UInt64} {s : Server} {e : Step} {α : Type}
    {x : Exec Center α} (h : Calls hash s e α x) (i : Nat) : e ≠ .advance i := by
  cases h <;> exact fun he => by cases he

inductive MoveStep (hash : ThreadId → UInt64) (s : Server) : Step → Server → Prop
  | tick (d : Nat) : MoveStep hash s (.tick d) { s with clock := s.clock + d }
  | edit (content : FileContent) :
      MoveStep hash s (.edit content) { s.observe .edited with file := some ⟨content, s.clock⟩ }
  | remove : MoveStep hash s .remove { s.observe .edited with file := none }
  | construct (h : s.manager = none) :
      MoveStep hash s .construct (settleConstruct (s.perform buildManager))
  | unmonitored (h : s.config.notToUpdate = true) : MoveStep hash s .runMonitoring s
  | runMonitoring (h : s.config.notToUpdate = false) (hm : s.monitor = .off) :
      MoveStep hash s .runMonitoring { s with monitor := .starting }
  | monitor {t : Server} (h : MonitorStep s t) : MoveStep hash s .monitor t
  | stopThread : MoveStep hash s .stopThread (s.setConfig { s.config with stopThread := true })
  | request : MoveStep hash s .request { s with requests := s.requests ++
      [if s.config.notToUpdate then .checking else .updating .reread] }
  | advance {i : Nat} {t : Server} (h : RequestStep s i t) : MoveStep hash s (.advance i) t
  | call {e : Step} {α : Type} {x : Exec Center α} (h : Calls hash s e α x) :
      MoveStep hash s e (settleCall (s.perform x))
  | updateConfig :
      MoveStep hash s .updateConfig ((settleCall (s.perform (Center.onConfig
        (ThreadSafeConfig.updateConfig s.content)))).observe (.reread .caller s.readable))

theorem moveStep {hash : ThreadId → UInt64} {s t : Server} {e : Step}
    (h : s.move hash e = some t) : MoveStep hash s e t := by
  cases e with
  | tick d =>
    cases h
    exact .tick d
  | edit content =>
    cases h
    exact .edit content
  | remove =>
    cases h
    exact .remove
  | construct =>
    simp only [move] at h
    split at h
    · rename_i hnone
      cases h
      exact .construct hnone
    · cases h
  | runMonitoring =>
    simp only [move] at h
    split at h
    · rename_i hno
      cases h
      exact .unmonitored hno
    · rename_i hno
      split at h
      · rename_i hoff
        cases h
        exact .runMonitoring (by simpa using hno) hoff
      · cases h
  | monitor => exact .monitor (monitorStep h)
  | stopThread =>
    cases h
    exact .stopThread
  | request =>
    cases h
    exact .request
  | advance i => exact .advance (requestStep h)
  | addTask thread number =>
    simp only [move] at h
    split at h
    · cases h
      exact .call (.addTask thread number)
    · cases h
  | updateConfig =>
    cases h
    exact .updateConfig
  | getMinMax =>
    cases h
    exact .call .getMinMax
  | getAmountOfOperators =>
    cases h
    exact .call .getAmountOfOperators
  | getSizeOfQueue =>
    cases h
    exact .call .getSizeOfQueue

theorem system_step {hash : ThreadId → UInt64} {s t : Server} {e : Step}
    (h : (system hash).step s e = some t) : s.terminated = false ∧ MoveStep hash s e t := by
  unfold system at h
  cases hs : s.terminated with
  | true => simp [hs] at h
  | false => exact ⟨rfl, moveStep (by simpa [hs] using h)⟩

/-! What an exception on its way out leaves. -/

theorem unwind_fields (u : Server) (phase : Phase) :
    (u.unwind phase).requests = u.requests ∧ (u.unwind phase).config = u.config ∧
      (u.unwind phase).trace = u.trace := by
  unfold unwind
  split <;> exact ⟨rfl, rfl, rfl⟩

theorem endMonitor_fields (u : Server) :
    u.endMonitor.requests = u.requests ∧ u.endMonitor.config = u.config ∧
      u.endMonitor.trace = u.trace := by
  unfold endMonitor
  split <;> exact ⟨rfl, rfl, rfl⟩

/-! What stays as the constructor left it. -/

/-- The logger, whether updates are off, and whether the monitor was told to stop. -/
structure SameBasis (c d : ThreadSafeConfig) : Prop where
  logger_ : d.logger_ = c.logger_
  notToUpdate : d.notToUpdate = c.notToUpdate
  stopThread : d.stopThread = c.stopThread

theorem sameBasis_of_same {c d : ThreadSafeConfig} (h : ThreadSafeConfig.Same c d) : SameBasis c d :=
  ⟨h.logger_, h.notToUpdate, h.stopThread⟩

theorem sameBasis_afterReread (c : ThreadSafeConfig) (content : FileContent) :
    SameBasis c (c.afterReread content) := by
  unfold ThreadSafeConfig.afterReread
  cases ThreadSafeConfig.accepted c.logger_ content <;> exact ⟨rfl, rfl, rfl⟩

theorem sameBasis_advance (h : s.advance who phase = some r) : SameBasis s.config r.2.config := by
  rcases advance_config h with ⟨-, hc, -⟩ | ⟨-, hc, -⟩
  · rw [hc]
    exact sameBasis_afterReread _ _
  · exact sameBasis_of_same hc

theorem RequestStep.sameBasis {t : Server} {i : Nat} (h : RequestStep s i t) :
    SameBasis s.config t.config := by
  cases h with
  | stamp _ => exact ⟨rfl, rfl, rfl⟩
  | check _ => exact ⟨rfl, rfl, rfl⟩
  | @phase phase r _ hr =>
    have hbasis := sameBasis_advance hr
    obtain ⟨o, u⟩ := r
    cases o with
    | ok next => exact hbasis
    | throws e =>
      show SameBasis s.config (u.unwind phase).config
      rw [(unwind_fields u phase).2.1]
      exact hbasis
    | undefined => exact hbasis

theorem MonitorStep.sameBasis {t : Server} (h : MonitorStep s t) : SameBasis s.config t.config := by
  cases h with
  | absent _ _ =>
    rw [(endMonitor_fields s).2.1]
    exact ⟨rfl, rfl, rfl⟩
  | removed _ _ =>
    rw [(endMonitor_fields _).2.1]
    exact ⟨rfl, rfl, rfl⟩
  | started _ _ => exact ⟨rfl, rfl, rfl⟩
  | newer _ _ _ => exact ⟨rfl, rfl, rfl⟩
  | unchanged _ _ _ => exact ⟨rfl, rfl, rfl⟩
  | stamp _ => exact ⟨rfl, rfl, rfl⟩
  | @phase v phase r _ hr =>
    have hbasis := sameBasis_advance hr
    obtain ⟨o, u⟩ := r
    cases o with
    | ok next => exact hbasis
    | throws e =>
      show SameBasis s.config (u.unwind phase).endMonitor.config
      rw [(endMonitor_fields _).2.1, (unwind_fields u phase).2.1]
      exact hbasis
    | undefined => exact hbasis

/-- No move but `stopThread` touches them. -/
theorem MoveStep.sameBasis {hash : ThreadId → UInt64} {t : Server} {e : Step}
    (h : MoveStep hash s e t) (he : e ≠ .stopThread) : SameBasis s.config t.config := by
  cases h with
  | construct _ =>
    rw [(settleConstruct_fields _).1]
    exact sameBasis_of_same (Center.SameConfig.buildManager s.toCenter)
  | monitor hstep => exact hstep.sameBasis
  | advance hstep => exact hstep.sameBasis
  | call hcall =>
    rw [(settleCall_fields _).1]
    exact sameBasis_of_same (hcall.sameConfig s.toCenter)
  | updateConfig =>
    have hconfig : ((settleCall (s.perform (Center.onConfig (ThreadSafeConfig.updateConfig
        s.content)))).observe (.reread .caller s.readable)).config =
        s.config.afterReread s.content := by
      rw [← ThreadSafeConfig.updateConfig_state]
      exact congrArg Center.config (settleCall_fields _).1
    rw [hconfig]
    exact sameBasis_afterReread s.config s.content
  | tick d => exact ⟨rfl, rfl, rfl⟩
  | edit content => exact ⟨rfl, rfl, rfl⟩
  | remove => exact ⟨rfl, rfl, rfl⟩
  | unmonitored _ => exact ⟨rfl, rfl, rfl⟩
  | runMonitoring _ _ => exact ⟨rfl, rfl, rfl⟩
  | stopThread => exact absurd rfl he
  | request => exact ⟨rfl, rfl, rfl⟩

theorem MoveStep.sameLogger {hash : ThreadId → UInt64} {t : Server} {e : Step}
    (h : MoveStep hash s e t) : t.config.logger_ = s.config.logger_ := by
  by_cases he : e = .stopThread
  · subst he
    cases h with
    | stopThread => rfl
    | call hcall => cases hcall
  · exact (h.sameBasis he).logger_

end Server

end ProteiCov
