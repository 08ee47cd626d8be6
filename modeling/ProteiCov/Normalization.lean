import Mathlib.Tactic.SplitIfs
import ProteiCov.PlainConfig

/-
  Normalisation as a projection

  `normalizeData` works on a map, key by key, and inserts what is missing.
  Seen through the four values it is `Settings.normalize`, and it writes what that
  gives back under the four keys and nothing else (`normalizeData_eq_write`).

  The two durations are clamped to different intervals and then put in order, so an
  exchange gives each of them a value from the interval of the other. That the
  exchanged values are in their new intervals is what makes a second normalisation
  find nothing to do: the values normalisation leaves alone are those it can give
  (`Settings.normalize_eq_iff`).
-/

namespace ProteiCov
open Cpp

/-- The number of the interval nearest to `n`. -/
def clamp (lo hi n : Int) : Int := max lo (min hi n)

/-- The keys a configuration is used through. -/
def keys : List String := ["RMin", "RMax", "AmountOfOperators", "SizeOfQueue"]

namespace Settings

/-- The values a normalised configuration has. -/
structure Valid (s : Settings) : Prop where
  rMin : 4 ≤ s.RMin ∧ s.RMin ≤ 100
  rMax : 5 ≤ s.RMax ∧ s.RMax ≤ 140
  ordered : s.RMin ≤ s.RMax
  operators : 2 ≤ s.AmountOfOperators ∧ s.AmountOfOperators ≤ 80
  queue : 15 ≤ s.SizeOfQueue ∧ s.SizeOfQueue ≤ 350

/-- An exchange needs a duration that is in both intervals, so both values stay in theirs. -/
theorem normalize_valid (s : Settings) : s.normalize.Valid := by
  refine ⟨⟨?_, ?_⟩, ⟨?_, ?_⟩, ?_, ⟨?_, ?_⟩, ⟨?_, ?_⟩⟩ <;> simp only [normalize] <;> omega

theorem normalize_of_valid {s : Settings} (h : s.Valid) : s.normalize = s := by
  obtain ⟨hmin, hmax, hordered, hoperators, hqueue⟩ := h
  obtain ⟨rMin, rMax, operators, queue⟩ := s
  simp only at hmin hmax hordered hoperators hqueue
  simp only [normalize, mk.injEq]
  omega

theorem normalize_eq_iff {s : Settings} : s.normalize = s ↔ s.Valid := by
  constructor
  · intro h
    rw [← h]
    exact normalize_valid s
  · exact normalize_of_valid

theorem normalize_normalize (s : Settings) : s.normalize.normalize = s.normalize :=
  normalize_of_valid (normalize_valid s)

/-- The map with the four values under their keys. -/
def write (s : Settings) (data : Data) : Data :=
  (((data.assign "RMin" s.RMin).assign "RMax" s.RMax).assign "AmountOfOperators"
    s.AmountOfOperators).assign "SizeOfQueue" s.SizeOfQueue

theorem write_other (s : Settings) (data : Data) {key : String} (h : key ∉ keys) :
    s.write data key = data key := by
  simp only [keys, List.mem_cons, List.not_mem_nil, or_false, not_or] at h
  simp [write, Map.assign, h]

/-- Nothing is left of what was there under the four keys. -/
theorem write_congr (s : Settings) {data data' : Data} (h : ∀ key, key ∉ keys → data key = data' key) :
    s.write data = s.write data' := by
  funext key
  by_cases hkey : key ∈ keys
  · simp only [keys, List.mem_cons, List.not_mem_nil, or_false] at hkey
    rcases hkey with rfl | rfl | rfl | rfl <;> simp [write, Map.assign]
  · rw [write_other s data hkey, write_other s data' hkey, h key hkey]

theorem write_settings {data : Data} (h : Complete data) : (settings data).write data = data := by
  have hvalue : ∀ {key : String}, data.Holds key → some (data.value key) = data key := by
    intro key hkey
    obtain ⟨n, hn⟩ := Option.ne_none_iff_exists'.mp hkey
    rw [Map.value, hn]
    rfl
  obtain ⟨hmin, hmax, hoperators, hqueue⟩ := h
  funext key
  simp only [write, Map.assign, Function.update_apply, settings]
  split_ifs with h1 h2 h3 h4
  · rw [h1]
    exact hvalue hqueue
  · rw [h2]
    exact hvalue hoperators
  · rw [h3]
    exact hvalue hmax
  · rw [h4]
    exact hvalue hmin
  · rfl

end Settings

/-! Key by key. -/

theorem capAt_eq_assign (key : String) (bound : Int) (data : Data) :
    capAt key bound data = data.assign key (min bound (data.value key)) := by
  unfold capAt
  split
  · rename_i h
    rw [Int.min_eq_left h]
    funext k
    by_cases hk : k = key <;> simp [Map.assign, Map.touched, hk]
  · rename_i h
    rw [Int.min_eq_right (by omega)]
    rfl

theorem raiseTo_eq_assign (key : String) (bound : Int) (data : Data) :
    raiseTo key bound data = data.assign key (max bound (data.value key)) := by
  unfold raiseTo
  split
  · rename_i h
    rw [Int.max_eq_left h]
    funext k
    by_cases hk : k = key <;> simp [Map.assign, Map.touched, hk]
  · rename_i h
    rw [Int.max_eq_right (by omega)]
    rfl

theorem orderRMinRMax_eq_assign (data : Data) :
    orderRMinRMax data = (data.assign "RMin" (min (data.value "RMin") (data.value "RMax"))).assign "RMax"
      (max (data.value "RMin") (data.value "RMax")) := by
  unfold orderRMinRMax
  split
  · rename_i h
    rw [Int.min_eq_right (by omega), Int.max_eq_left (by omega)]
    rfl
  · rename_i h
    rw [Int.min_eq_left (by omega), Int.max_eq_right (by omega)]
    simp [Map.touched, Map.assign, Map.value]

theorem normalizeData_other (data : Data) {key : String} (h : key ∉ keys) :
    normalizeData data key = data key := by
  simp only [keys, List.mem_cons, List.not_mem_nil, or_false, not_or] at h
  simp [normalizeData, normalizeSizeOfQueue, normalizeAmountOfOperators, normalizeRMinRMax,
    raiseTo_eq_assign, capAt_eq_assign, orderRMinRMax_eq_assign, Map.assign, h]

theorem normalizeData_eq_write (data : Data) :
    normalizeData data = (settings data).normalize.write data := by
  calc normalizeData data
      = (settings (normalizeData data)).write (normalizeData data) :=
        (Settings.write_settings (complete_normalizeData data)).symm
    _ = (settings data).normalize.write (normalizeData data) := by rw [settings_normalizeData]
    _ = (settings data).normalize.write data :=
        Settings.write_congr _ (fun _ hkey => normalizeData_other data hkey)

/-! The projection. -/

/-- `f` takes every map to one with valid values. -/
structure Projects (f : Data → Data) : Prop where
  operators : ∀ data, (f data).value "AmountOfOperators" = clamp 2 80 (data.value "AmountOfOperators")
  queue : ∀ data, (f data).value "SizeOfQueue" = clamp 15 350 (data.value "SizeOfQueue")
  rMin : ∀ data, (f data).value "RMin" =
    min (clamp 4 100 (data.value "RMin")) (clamp 5 140 (data.value "RMax"))
  rMax : ∀ data, (f data).value "RMax" =
    max (clamp 4 100 (data.value "RMin")) (clamp 5 140 (data.value "RMax"))
  complete : ∀ data, Complete (f data)
  others : ∀ data key, key ∉ keys → f data key = data key
  again : ∀ data, f (f data) = f data
  fixed : ∀ data, Complete data → (f data = data ↔ (settings data).Valid)

theorem normalizeData_again (data : Data) : normalizeData (normalizeData data) = normalizeData data := by
  calc normalizeData (normalizeData data)
      = (settings data).normalize.normalize.write (normalizeData data) := by
        rw [normalizeData_eq_write (normalizeData data), settings_normalizeData]
    _ = (settings data).normalize.write data := by
        rw [Settings.normalize_normalize]
        exact Settings.write_congr _ (fun _ hkey => normalizeData_other data hkey)
    _ = normalizeData data := (normalizeData_eq_write data).symm

theorem normalizeData_fixed {data : Data} (h : Complete data) :
    normalizeData data = data ↔ (settings data).Valid := by
  rw [← Settings.normalize_eq_iff]
  constructor
  · intro heq
    rw [← settings_normalizeData, heq]
  · intro heq
    rw [normalizeData_eq_write, heq, Settings.write_settings h]

theorem normalizeData_projects : Projects normalizeData where
  operators data := congrArg Settings.AmountOfOperators (settings_normalizeData data)
  queue data := congrArg Settings.SizeOfQueue (settings_normalizeData data)
  rMin data := congrArg Settings.RMin (settings_normalizeData data)
  rMax data := congrArg Settings.RMax (settings_normalizeData data)
  complete := complete_normalizeData
  others data _ hkey := normalizeData_other data hkey
  again := normalizeData_again
  fixed _ h := normalizeData_fixed h

/-- Both classes normalise alike, by a projection onto the valid configurations. -/
theorem normalizations_project : Projects normalizeData ∧ Projects Config.normalizeData := by
  have hcopy : Config.normalizeData = normalizeData := by
    funext data
    exact Config.normalizeData_eq data
  rw [hcopy]
  exact ⟨normalizeData_projects, normalizeData_projects⟩

end ProteiCov
