import ProteiCov.LoggedConfiguration
import ProteiCov.Lib.Transition

/-
  The two implementations of `IConfig` side by side

  A `Config` and a `ThreadSafeConfig` are built on the same file and then re-read the
  same files, one after the other (`Twins.histories`). Both normalise what they read, neither
  takes over a file it cannot read, and where both take a file over they hold the same
  values whatever they held before. So they can only part where one takes over a file
  and the other does not, which is where the second one cannot print it
  (`agree_step`), and `twins_agree_iff` says in which histories they never do.
-/

namespace ProteiCov
open Cpp

/-- Two configurations over one file. -/
structure Twins where
  plain : Config
  safe : ThreadSafeConfig

namespace Twins

def construct (file : FileContent) (logger : Bool) : Twins where
  plain := Config.construct file logger
  safe := ThreadSafeConfig.construct file logger

/-- `updateConfig` of both. A call that throws is over and done with. -/
def update (s : Twins) (file : FileContent) : Twins where
  plain := ((Config.updateConfig file).run s.plain).2
  safe := ((ThreadSafeConfig.updateConfig file).run s.safe).2

/-- The getters of both return the same. -/
structure Agree (s : Twins) : Prop where
  minMax : (Config.getMinMax.run s.plain).1 = (ThreadSafeConfig.getMinMax.run s.safe).1
  operators : (Config.getAmountOfOperators.run s.plain).1 =
    (ThreadSafeConfig.getAmountOfOperators.run s.safe).1
  queue : (Config.getSizeOfQueue.run s.plain).1 = (ThreadSafeConfig.getSizeOfQueue.run s.safe).1

theorem agree_iff {s : Twins} : s.Agree ↔ settings s.plain.data_ = settings s.safe.data_ := by
  rw [← Settings.reads_iff, ← Config.getMinMax_result, ← ThreadSafeConfig.getMinMax_result,
    ← Config.getAmountOfOperators_result, ← ThreadSafeConfig.getAmountOfOperators_result,
    ← Config.getSizeOfQueue_result, ← ThreadSafeConfig.getSizeOfQueue_result]
  exact ⟨fun h => ⟨h.minMax, h.operators, h.queue⟩, fun h => ⟨h.1, h.2.1, h.2.2⟩⟩

/-- The next file is one both take over, or one that changes nothing. -/
def Harmless (s : Twins) (file : FileContent) : Prop :=
  s.safe.logger_ = true → ∀ tree, file = some tree → JsonParser.Incomplete tree →
    settings s.safe.data_ = (JsonParser.lastMembers tree).normalize

/-- Every history of the file. -/
def histories : Transition.System Twins FileContent where
  step s file := some (s.update file)

theorem agree_construct (file : FileContent) (logger : Bool) : (construct file logger).Agree := by
  rw [agree_iff]
  show settings (Config.construct file logger).data_ =
    settings (ThreadSafeConfig.construct file logger).data_
  have hload : Config.load file = ThreadSafeConfig.load file := rfl
  unfold Config.construct ThreadSafeConfig.construct
  rw [hload]
  cases ThreadSafeConfig.load file with
  | ok data => rfl
  | error e => rfl

theorem load_eq_accepted (file : FileContent) :
    Config.load file = ThreadSafeConfig.accepted false file := by
  cases file with
  | none => rfl
  | some tree => rfl

/-- The second takes over what the first does, unless it has to print a key that is not there. -/
theorem accepted_iff_load {logger : Bool} {file : FileContent} {data : Data} :
    ThreadSafeConfig.accepted logger file = .ok data ↔
      Config.load file = .ok data ∧
        (logger = true → ∀ tree, file = some tree → ¬ JsonParser.Incomplete tree) := by
  rw [load_eq_accepted]
  cases logger with
  | false => simp
  | true => simpa using ThreadSafeConfig.accepted_logger

theorem plain_update {s : Twins} {file : FileContent} :
    (s.update file).plain.data_ = match Config.load file with
      | .ok data => normalizeData data
      | .error _ => s.plain.data_ := by
  show ((Config.updateConfig file).run s.plain).2.data_ = _
  rw [Config.run_updateConfig]
  cases Config.load file with
  | ok data => rfl
  | error e => rfl

theorem safe_update {s : Twins} {file : FileContent} :
    (s.update file).safe.data_ = match ThreadSafeConfig.accepted s.safe.logger_ file with
      | .ok data => normalizeData data
      | .error _ => s.safe.data_ := by
  show ((ThreadSafeConfig.updateConfig file).run s.safe).2.data_ = _
  rw [ThreadSafeConfig.updateConfig_state, ThreadSafeConfig.afterReread]
  cases ThreadSafeConfig.accepted s.safe.logger_ file with
  | ok data => rfl
  | error e => rfl

/-- A file only the first takes over brings it to the values of the last members. -/
theorem update_incomplete {s : Twins} {tree : PropertyTree} (hlogger : s.safe.logger_ = true)
    (htree : JsonParser.Incomplete tree) :
    settings (s.update (some tree)).plain.data_ = (JsonParser.lastMembers tree).normalize ∧
      (s.update (some tree)).safe.data_ = s.safe.data_ := by
  obtain ⟨⟨data, hdata⟩, -⟩ := JsonParser.incomplete_iff.mp htree
  have hload : Config.load (some tree) = .ok data := hdata
  constructor
  · rw [plain_update, hload]
    show settings (normalizeData data) = _
    rw [settings_normalizeData, JsonParser.settings_outputConfig hdata]
  · rw [safe_update]
    cases hacc : ThreadSafeConfig.accepted s.safe.logger_ (some tree) with
    | ok data' => exact absurd htree ((accepted_iff_load.mp hacc).2 hlogger tree rfl)
    | error e => rfl

/-- Any other file is taken over by both, or by neither. -/
theorem update_together {s : Twins} {file : FileContent}
    (hs : settings s.plain.data_ = settings s.safe.data_)
    (h : s.safe.logger_ = true → ∀ tree, file = some tree → ¬ JsonParser.Incomplete tree) :
    settings (s.update file).plain.data_ = settings (s.update file).safe.data_ := by
  rw [plain_update, safe_update]
  cases hload : Config.load file with
  | ok data => rw [accepted_iff_load.mpr ⟨hload, h⟩]
  | error e =>
    cases hacc : ThreadSafeConfig.accepted s.safe.logger_ file with
    | ok data =>
      rw [(accepted_iff_load.mp hacc).1] at hload
      cases hload
    | error e' => exact hs

theorem agree_step {s : Twins} (hs : s.Agree) (file : FileContent) :
    (s.update file).Agree ↔ s.Harmless file := by
  rw [agree_iff] at hs ⊢
  by_cases hparts : s.safe.logger_ = true ∧ ∃ tree, file = some tree ∧ JsonParser.Incomplete tree
  · obtain ⟨hlogger, tree, rfl, htree⟩ := hparts
    obtain ⟨hplain, hsafe⟩ := update_incomplete hlogger htree
    rw [hplain, hsafe]
    constructor
    · intro h _ other hother _
      cases hother
      exact h.symm
    · intro h
      exact (h hlogger tree rfl htree).symm
  · have hcomplete : s.safe.logger_ = true → ∀ tree, file = some tree → ¬ JsonParser.Incomplete tree :=
      fun hlogger tree hfile htree => hparts ⟨hlogger, tree, hfile, htree⟩
    refine iff_of_true (update_together hs hcomplete) (fun hlogger tree hfile htree => ?_)
    exact absurd htree (hcomplete hlogger tree hfile)

/-- The two agree all through a history exactly where no file in it parts them. -/
theorem twins_agree_iff (file : FileContent) (logger : Bool) (files : List FileContent) :
    (∀ before, before <+: files → ∀ s, histories.run (construct file logger) before = some s → s.Agree) ↔
      histories.Along Harmless (construct file logger) files := by
  refine Transition.System.forall_prefix_iff_along (fun s e => ⟨s.update e, rfl⟩) ?_ files
    (agree_construct file logger)
  intro s e t hs hstep
  cases hstep
  exact agree_step hs e

/-- `{"RMin": 25}` changes one of the two and not the other. -/
theorem twins_part : ¬ ∀ (file : FileContent) (logger : Bool) (files : List FileContent) before,
    before <+: files → ∀ s, histories.run (construct file logger) before = some s → s.Agree := by
  intro h
  have hagree := h (some JsonParser.fourKeys) true [some [("RMin", some 25)]] _ (List.prefix_refl _) _ rfl
  have hminMax := hagree.minMax
  revert hminMax
  decide

end Twins

end ProteiCov
