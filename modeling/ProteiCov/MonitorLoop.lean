import ProteiCov.FailedReload

/-
  What the monitor thread survives

  With a logger `updateConfig` catches its own exceptions, and in a server whose
  updates can go on (`Steady`) `Manager::update` throws none, so the loop of
  `updateConfigThread` is left by an exception in one way only: `last_write_time`
  throws when the file is not there. The `try` block is around the loop, not in it,
  so that one exception ends the thread, and `isMonitoring`, which asks whether the
  thread is joinable, goes on saying that it runs.
-/

namespace ProteiCov
open Cpp

/-- The loop has begun and has not ended. -/
def Monitor.running : Monitor → Bool
  | starting | sleeping | updating _ _ => true
  | off | ended => false

namespace Server

/-- `isMonitoring()`: `updateThread.joinable()`, from the start of the thread until
it is joined. -/
def isMonitoring (s : Server) : Bool :=
  match s.monitor with
  | .off => false
  | _ => true

/-- The monitor works: the loop runs whenever `isMonitoring` says so, and the next
poll re-reads a file that is newer than the last stamp. -/
structure MonitorAlive (hash : ThreadId → UInt64) (s : Server) : Prop where
  running : s.isMonitoring = true → s.monitor.running = true
  rereads : s.terminated = false → s.monitor = .sleeping →
    ∀ f, s.file = some f → toTimeT f.time > s.config.lastWriteTime →
      ∃ t, (system hash).run s [.monitor, .monitor] = some t ∧
        t.trace = .reread .monitor s.readable :: .pollBegan :: s.trace

/-- When the monitor asks for the time of the file, at its start and at every poll,
the file is there. -/
def FindsFile (s : Server) (e : Step) : Prop :=
  e = .monitor → s.monitor = .starting ∨ s.monitor = .sleeping → s.file ≠ none

instance findsFileDecidable (s : Server) : DecidablePred (FindsFile s)
  | .monitor => decidable_of_iff (s.monitor = .starting ∨ s.monitor = .sleeping → s.file ≠ none)
    ⟨fun h _ => h, fun h => h rfl⟩
  | .tick _ | .edit _ | .remove | .construct | .runMonitoring | .stopThread | .request | .advance _
  | .addTask _ _ | .updateConfig | .getMinMax | .getAmountOfOperators | .getSizeOfQueue =>
    .isTrue (fun h => nomatch h)

/-- A monitor that can only be ended by an exception. -/
structure Looping (s : Server) : Prop where
  steady : s.Steady
  logger_ : s.config.logger_ = true
  stopThread : s.config.stopThread = false

section
variable {hash : ThreadId → UInt64} {s t : Server} {e : Step}

theorem Looping.move (hs : s.Looping) (he : e ≠ .stopThread) (h : MoveStep hash s e t) :
    t.Looping :=
  ⟨hs.steady.update (Update.of_move hs.steady h), h.sameLogger.trans hs.logger_,
    (h.sameBasis he).stopThread.trans hs.stopThread⟩

/-- Whether the loop runs if `isMonitoring` says so. -/
def Honest (s : Server) : Prop := s.isMonitoring = true → s.monitor.running = true

theorem honest_iff {s : Server} : s.Honest ↔ s.monitor ≠ .ended := by
  unfold Honest isMonitoring
  cases s.monitor <;> simp [Monitor.running]

theorem loopMonitor_running {u : Server} (h : u.config.stopThread = false) :
    u.loopMonitor.monitor = .sleeping := by
  unfold loopMonitor
  rw [h]
  rfl

theorem endMonitor_ended {u : Server} (h : u.config.logger_ = true) :
    u.endMonitor.monitor = .ended := by
  unfold endMonitor
  rw [if_pos h]

/-- A move of the monitor ends its loop exactly when the file is not found. -/
theorem monitorStep_ended (hs : s.Looping) (h : MonitorStep s t) :
    t.monitor ≠ .ended ↔ s.FindsFile .monitor := by
  have hfinds : ∀ {f : File}, s.file = some f → s.FindsFile .monitor := by
    intro f hf _ _ hnone
    rw [hf] at hnone
    cases hnone
  have hbusy : (∀ m, m = .starting ∨ m = .sleeping → s.monitor ≠ m) → s.FindsFile .monitor :=
    fun hm _ hor => absurd rfl (hm s.monitor hor)
  cases h with
  | absent hm hf =>
    rw [endMonitor_ended hs.logger_]
    exact ⟨fun hc => absurd rfl hc, fun hc => absurd hf (hc rfl (Or.inl hm))⟩
  | removed hm hf =>
    rw [endMonitor_ended (u := s.observe .pollBegan) hs.logger_]
    exact ⟨fun hc => absurd rfl hc, fun hc => absurd hf (hc rfl (Or.inr hm))⟩
  | @started f hm hf =>
    rw [loopMonitor_running (u := s.stampWith (toTimeT f.time)) hs.stopThread]
    exact ⟨fun _ => hfinds hf, fun _ hc => by cases hc⟩
  | newer hm hf hlt => exact ⟨fun _ => hfinds hf, fun _ hc => by cases hc⟩
  | unchanged hm hf hlt =>
    rw [loopMonitor_running (u := (s.observe .pollBegan).observe .pollEnded) hs.stopThread]
    exact ⟨fun _ => hfinds hf, fun _ hc => by cases hc⟩
  | @stamp v hm =>
    rw [loopMonitor_running (u := (s.stampWith v).observe .pollEnded) hs.stopThread]
    refine ⟨fun _ => hbusy (fun m hor hc => ?_), fun _ hc => by cases hc⟩
    rw [hm] at hc
    rcases hor with rfl | rfl <;> cases hc
  | @phase v phase r hm hr =>
    have hphase : s.phase .monitor = some phase := congrArg Monitor.phase hm
    have hadv := hs.steady.advances hphase hr
    obtain ⟨o, u⟩ := r
    have hother : s.FindsFile .monitor := by
      refine hbusy (fun m hor hc => ?_)
      rw [hm] at hc
      rcases hor with rfl | rfl <;> cases hc
    refine ⟨fun _ => hother, fun _ => ?_⟩
    -- no phase throws: the re-read has a logger
    cases hadv with
    | manager _ _ _ ho => cases ho; exact fun hc => by cases hc
    | alone _ _ _ ho => cases ho; exact fun hc => by cases hc
    | reread _ ho => cases ho; exact fun hc => by cases hc
    | stamp _ ho => cases ho; exact fun hc => by cases hc
    | failed _ hlogger =>
      rw [hs.logger_] at hlogger
      cases hlogger

theorem monitorStep_running (h : MonitorStep s t) : s.monitor ≠ .ended := by
  intro hc
  cases h <;> simp_all

theorem requestStep_monitor {i : Nat} (h : RequestStep s i t) : t.monitor = s.monitor := by
  cases h with
  | stamp _ => rfl
  | check _ => rfl
  | @phase phase r _ hr =>
    obtain ⟨-, -, -, hmon, -⟩ := advance_frame hr
    obtain ⟨o, u⟩ := r
    cases o with
    | ok next => exact hmon
    | throws e =>
      show (u.unwind phase).monitor = s.monitor
      unfold unwind
      split <;> exact hmon
    | undefined => exact hmon

theorem settleCall_monitor {α : Type} {r : Outcome α × Server} :
    (settleCall r).monitor = r.2.monitor := by
  obtain ⟨o, u⟩ := r
  cases o <;> rfl

theorem settleConstruct_monitor {r : Outcome Unit × Server} :
    (settleConstruct r).monitor = r.2.monitor := by
  obtain ⟨o, u⟩ := r
  cases o <;> rfl

theorem move_ended (h : MoveStep hash s e t) (he : e ≠ .monitor) :
    t.monitor ≠ .ended ↔ s.monitor ≠ .ended := by
  cases h with
  | monitor _ => exact absurd rfl he
  | runMonitoring _ hm =>
    rw [hm]
    exact ⟨fun _ hc => (by cases hc), fun _ hc => (by cases hc)⟩
  | construct _ =>
    rw [settleConstruct_monitor]
    exact Iff.rfl
  | call hcall =>
    rw [settleCall_monitor]
    exact Iff.rfl
  | updateConfig =>
    show (settleCall _).monitor ≠ .ended ↔ _
    rw [settleCall_monitor]
    exact Iff.rfl
  | advance hstep => rw [requestStep_monitor hstep]
  | tick d => exact Iff.rfl
  | edit content => exact Iff.rfl
  | remove => exact Iff.rfl
  | unmonitored _ => exact Iff.rfl
  | stopThread => exact Iff.rfl
  | request => exact Iff.rfl

/-- One move keeps the loop as `isMonitoring` says exactly when the file is found. -/
theorem honest_step (hs : s.Looping) (h : MoveStep hash s e t) :
    t.Honest ↔ s.Honest ∧ s.FindsFile e := by
  rw [honest_iff, honest_iff]
  by_cases he : e = .monitor
  · subst he
    cases h with
    | monitor hstep =>
      rw [monitorStep_ended hs hstep]
      exact (and_iff_right (monitorStep_running hstep)).symm
    | call hcall => cases hcall
  · rw [move_ended h he]
    exact (and_iff_left (fun hc => absurd hc he)).symm

theorem rereads_next (hs : s.Looping) (hrun : s.terminated = false) (hm : s.monitor = .sleeping)
    {f : File} (hf : s.file = some f) (hnewer : toTimeT f.time > s.config.lastWriteTime) :
    ∃ t, (system hash).run s [.monitor, .monitor] = some t ∧
      t.trace = .reread .monitor s.readable :: .pollBegan :: s.trace := by
  let u : Server := { s.observe .pollBegan with monitor := .updating (toTimeT f.time) .reread }
  have hpoll : (system hash).step s .monitor = some u := by
    simp only [system, hrun, move, stepMonitor, hm, hf, if_pos hnewer]
    rfl
  obtain ⟨⟨o, v⟩, hadv⟩ : ∃ r, u.advance .monitor .reread = some r :=
    ⟨_, if_neg (fun hc => by cases hc.1)⟩
  have hreread : (system hash).step u .monitor =
      some (monitorAfter (toTimeT f.time) .reread (o, v)) := by
    have hstep : u.stepMonitor = (u.advance .monitor .reread).map
        (monitorAfter (toTimeT f.time) .reread) := rfl
    show (if s.terminated then none else u.stepMonitor) = _
    rw [hstep, hadv, hrun]
    rfl
  -- the logger keeps a failed re-read from throwing
  have ho : o = .ok .notify := by
    have hc := advance_center hadv
    rcases Center.run_reread_cases u.content u.toCenter with hr | ⟨hlogger, -⟩
    · rw [hr] at hc
      exact (congrArg Prod.fst hc).symm
    · exact absurd (hs.logger_.symm.trans hlogger) (by decide)
  subst ho
  refine ⟨_, Transition.System.run_cons_some.mpr
    ⟨u, hpoll, Transition.System.run_cons_some.mpr ⟨_, hreread, rfl⟩⟩, ?_⟩
  rcases advance_config hadv with ⟨-, -, htrace⟩ | ⟨hne, -⟩
  · exact htrace
  · exact absurd rfl hne

end

/-- After a run without `stopThread`, the monitor is alive exactly when the file was
there each time the monitor asked for its time. -/
theorem monitorAlive_iff (hash : ThreadId → UInt64) (file : Option File) (clock : TimePoint)
    (es : List Step) (s : Server) (hes : ∀ e ∈ es, e ≠ .stopThread)
    (h : (system hash).run (init file clock true) es = some s) :
    s.MonitorAlive hash ↔ (system hash).Along FindsFile (init file clock true) es := by
  have hinit : (init file clock true).Looping := by
    have hq : (init file clock true).Quiescent := fun who => by cases who <;> rfl
    refine ⟨hq.steady (fun m hm => ?_) rfl, init_logger file clock true, ?_⟩
    · cases hm
    · unfold init ThreadSafeConfig.construct
      cases ThreadSafeConfig.load (file.bind (fun f => f.content)) <;> rfl
  have hinv : ∀ u e v, u.Looping → e ≠ .stopThread → (system hash).step u e = some v → v.Looping :=
    fun u e v hu he hstep => hu.move he (system_step hstep).2
  have hlooping : s.Looping := Transition.System.run_inv_events hinv h hes hinit
  have halive : s.MonitorAlive hash ↔ s.Honest := by
    refine ⟨fun hs => hs.running, fun hs => ⟨hs, fun hrun hm f hf hnewer => ?_⟩⟩
    exact rereads_next hlooping hrun hm hf hnewer
  have hrun := Transition.System.run_iff_along_events hinv
    (fun u e v hu _ hstep => honest_step hu (system_step hstep).2) h hes hinit
  rw [halive, hrun]
  exact and_iff_right (honest_iff.mpr (fun hc => by cases hc))

/-! A monitor that polls a broken file, and one that misses its file once. -/

/-- The file is broken and then repaired, and a poll comes after each. -/
def brokenPolled : List Step :=
  [.runMonitoring, .monitor, .tick 60000000000, .edit none, .monitor, .monitor, .monitor, .monitor,
    .tick 60000000000, .edit baseFile.content, .monitor, .monitor, .monitor, .monitor]

theorem monitorAlive_brokenPolled : ∃ s,
    (system (fun _ => 7)).run (init (some baseFile) 0 true) brokenPolled = some s ∧
    s.monitor = .sleeping ∧ s.MonitorAlive (fun _ => 7) ∧
    (s.MonitorAlive (fun _ => 7) ↔
      (system (fun _ => 7)).Along FindsFile (init (some baseFile) 0 true) brokenPolled) := by
  have hmon : ((system (fun _ => 7)).run (init (some baseFile) 0 true) brokenPolled).map
      (fun s => s.monitor) = some .sleeping := by decide +kernel
  obtain ⟨s, hs, hsleeping⟩ := Option.map_eq_some_iff.mp hmon
  have hfinds : (system (fun _ => 7)).Along FindsFile (init (some baseFile) 0 true) brokenPolled := by
    decide +kernel
  have halive := monitorAlive_iff (fun _ => 7) (some baseFile) 0 brokenPolled s (by simp [brokenPolled]) hs
  exact ⟨s, hs, hsleeping, halive.mpr hfinds, halive⟩

/-- The file is away during one poll and then comes back. -/
def missedOnce : Option Server :=
  (system (fun _ => 7)).run (init (some baseFile) 0 true)
    [.runMonitoring, .monitor, .remove, .tick 60000000000, .monitor, .edit baseFile.content]

theorem missedOnce_not_alive : ∃ s, missedOnce = some s ∧ s.readable = true ∧
    s.config.stopThread = false ∧ s.isMonitoring = true ∧ s.monitor = .ended ∧
    ¬ s.MonitorAlive (fun _ => 7) := by
  have hsome : missedOnce.isSome = true := by decide +kernel
  obtain ⟨s, hs⟩ := Option.isSome_iff_exists.mp hsome
  have hread : missedOnce.map (fun s => s.readable) = some true := by decide +kernel
  have hstop : missedOnce.map (fun s => s.config.stopThread) = some false := by decide +kernel
  have hmon : missedOnce.map (fun s => s.monitor) = some .ended := by decide +kernel
  rw [hs, Option.map_some, Option.some_inj] at hread hstop hmon
  have his : s.isMonitoring = true := by
    unfold isMonitoring
    rw [hmon]
  refine ⟨s, hs, hread, hstop, his, hmon, fun halive => ?_⟩
  have hrun := halive.running his
  rw [hmon] at hrun
  cases hrun

end Server

end ProteiCov
