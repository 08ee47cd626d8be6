import ProteiCov.CommonStructures
import ProteiCov.JsonParser
import ProteiCov.Lib.Invariant

/-
  `utility::ThreadSafeConfig`

  Every method here is one critical section of `configMutex`, or the code of one
  thread between two of them. `updateConfig` re-reads the file: it replaces `data_`
  only after the whole file was read, and `run_updateConfig` says what it leaves on
  each path.

  The constructor assigns what it read as it is; only `updateConfig` normalises.
  The monitor thread's own loop is in `Reconfiguration`.
-/

namespace ProteiCov
open Cpp

/-! Normalisation. -/

/-- `if(data_[key] >= bound) data_[key] = bound;`. -/
def capAt (key : String) (bound : Int) (data : Data) : Data :=
  if data.value key ≥ bound then (data.touched key).assign key bound else data.touched key

/-- `if(data_[key] <= bound) data_[key] = bound;`. -/
def raiseTo (key : String) (bound : Int) (data : Data) : Data :=
  if data.value key ≤ bound then (data.touched key).assign key bound else data.touched key

/-- `if(data_["RMin"] > data_["RMax"]) std::swap(data_["RMin"], data_["RMax"]);`. -/
def orderRMinRMax (data : Data) : Data :=
  if data.value "RMin" > data.value "RMax" then data.swap "RMin" "RMax"
  else (data.touched "RMin").touched "RMax"

def normalizeRMinRMax (data : Data) : Data :=
  let data := capAt "RMin" 100 data
  let data := capAt "RMax" 140 data
  let data := raiseTo "RMin" 4 data
  let data := raiseTo "RMax" 5 data
  orderRMinRMax data

def normalizeAmountOfOperators (data : Data) : Data :=
  raiseTo "AmountOfOperators" 2 (capAt "AmountOfOperators" 80 data)

def normalizeSizeOfQueue (data : Data) : Data :=
  raiseTo "SizeOfQueue" 15 (capAt "SizeOfQueue" 350 data)

def normalizeData (data : Data) : Data :=
  normalizeSizeOfQueue (normalizeAmountOfOperators (normalizeRMinRMax data))

/-! What the getters see. -/

/-- The four values a configuration is used through. -/
structure Settings where
  RMin : Int
  RMax : Int
  AmountOfOperators : Int
  SizeOfQueue : Int
  deriving DecidableEq, Repr

namespace Settings

/-- The values a call centre can work with. -/
structure InRange (s : Settings) : Prop where
  rMin : 4 ≤ s.RMin
  ordered : s.RMin ≤ s.RMax
  rMax : s.RMax ≤ 140
  operators : 2 ≤ s.AmountOfOperators ∧ s.AmountOfOperators ≤ 80
  queue : 15 ≤ s.SizeOfQueue ∧ s.SizeOfQueue ≤ 350

theorem inRange_iff (s : Settings) :
    s.InRange ↔ 4 ≤ s.RMin ∧ s.RMin ≤ s.RMax ∧ s.RMax ≤ 140 ∧
      (2 ≤ s.AmountOfOperators ∧ s.AmountOfOperators ≤ 80) ∧
      15 ≤ s.SizeOfQueue ∧ s.SizeOfQueue ≤ 350 :=
  ⟨fun h => ⟨h.rMin, h.ordered, h.rMax, h.operators, h.queue⟩,
    fun ⟨h1, h2, h3, h4, h5⟩ => ⟨h1, h2, h3, h4, h5⟩⟩

instance (s : Settings) : Decidable s.InRange := decidable_of_iff' _ (inRange_iff s)

/-- What normalisation is for: clamp each value, then put the two bounds of a
call's duration in order. -/
def normalize (s : Settings) : Settings where
  RMin := min (max 4 (min 100 s.RMin)) (max 5 (min 140 s.RMax))
  RMax := max (max 4 (min 100 s.RMin)) (max 5 (min 140 s.RMax))
  AmountOfOperators := max 2 (min 80 s.AmountOfOperators)
  SizeOfQueue := max 15 (min 350 s.SizeOfQueue)

theorem normalize_inRange (s : Settings) : s.normalize.InRange := by
  refine ⟨?_, ?_, ?_, ⟨?_, ?_⟩, ⟨?_, ?_⟩⟩ <;> simp only [normalize] <;> omega

end Settings

/-- The values of the four keys. -/
def settings (data : Data) : Settings where
  RMin := data.value "RMin"
  RMax := data.value "RMax"
  AmountOfOperators := data.value "AmountOfOperators"
  SizeOfQueue := data.value "SizeOfQueue"

theorem settings_touched (data : Data) (key : String) :
    settings (data.touched key) = settings data := by
  simp [settings]

theorem value_capAt (key key' : String) (bound : Int) (data : Data) :
    (capAt key bound data).value key' =
      if key' = key then min bound (data.value key) else data.value key' := by
  unfold capAt
  by_cases hb : data.value key ≥ bound
  · rw [if_pos hb, Int.min_eq_left hb]
    by_cases h : key' = key <;> simp [h]
  · rw [if_neg hb, Int.min_eq_right (by omega)]
    by_cases h : key' = key <;> simp [h]

theorem value_raiseTo (key key' : String) (bound : Int) (data : Data) :
    (raiseTo key bound data).value key' =
      if key' = key then max bound (data.value key) else data.value key' := by
  unfold raiseTo
  by_cases hb : data.value key ≤ bound
  · rw [if_pos hb, Int.max_eq_left hb]
    by_cases h : key' = key <;> simp [h]
  · rw [if_neg hb, Int.max_eq_right (by omega)]
    by_cases h : key' = key <;> simp [h]

theorem value_orderRMinRMax (data : Data) (key : String) :
    (orderRMinRMax data).value key =
      if key = "RMin" then min (data.value "RMin") (data.value "RMax")
      else if key = "RMax" then max (data.value "RMin") (data.value "RMax")
      else data.value key := by
  unfold orderRMinRMax
  by_cases h : data.value "RMin" > data.value "RMax"
  · rw [if_pos h, Int.min_eq_right (by omega), Int.max_eq_left (by omega)]
    by_cases hmin : key = "RMin" <;> by_cases hmax : key = "RMax" <;> simp [Map.swap, hmin, hmax]
  · rw [if_neg h, Int.min_eq_left (by omega), Int.max_eq_right (by omega)]
    by_cases hmin : key = "RMin" <;> by_cases hmax : key = "RMax" <;> simp [hmin, hmax]

/-- `normalizeData` is `Settings.normalize` on what the getters see. -/
theorem settings_normalizeData (data : Data) :
    settings (normalizeData data) = (settings data).normalize := by
  simp [settings, Settings.normalize, normalizeData, normalizeSizeOfQueue,
    normalizeAmountOfOperators, normalizeRMinRMax, value_raiseTo, value_capAt, value_orderRMinRMax]

/-- All four keys are in the map. -/
def Complete (data : Data) : Prop :=
  data.Holds "RMin" ∧ data.Holds "RMax" ∧ data.Holds "AmountOfOperators" ∧ data.Holds "SizeOfQueue"

theorem holds_capAt {key' : String} (key : String) (bound : Int) {data : Data}
    (h : data.Holds key' ∨ key' = key) : (capAt key bound data).Holds key' := by
  have htouch : (data.touched key).Holds key' := by
    rcases h with h | h
    · exact Map.holds_touched key h
    · rw [h]
      exact Map.holds_touched_self data key
  unfold capAt
  split
  · exact Map.holds_assign key bound htouch
  · exact htouch

theorem holds_raiseTo {key' : String} (key : String) (bound : Int) {data : Data}
    (h : data.Holds key' ∨ key' = key) : (raiseTo key bound data).Holds key' := by
  have htouch : (data.touched key).Holds key' := by
    rcases h with h | h
    · exact Map.holds_touched key h
    · rw [h]
      exact Map.holds_touched_self data key
  unfold raiseTo
  split
  · exact Map.holds_assign key bound htouch
  · exact htouch

theorem holds_orderRMinRMax {key : String} {data : Data} (h : data.Holds key) :
    (orderRMinRMax data).Holds key := by
  unfold orderRMinRMax
  split
  · exact Map.holds_assign _ _ (Map.holds_assign _ _ h)
  · exact Map.holds_touched _ (Map.holds_touched _ h)

theorem complete_normalizeData (data : Data) : Complete (normalizeData data) := by
  have hdurations : ∀ key, key = "RMin" ∨ key = "RMax" → (normalizeRMinRMax data).Holds key := by
    intro key hkey
    unfold normalizeRMinRMax
    apply holds_orderRMinRMax
    rcases hkey with rfl | rfl
    · exact holds_raiseTo _ _ (Or.inl (holds_raiseTo _ _ (Or.inr rfl)))
    · exact holds_raiseTo _ _ (Or.inr rfl)
  have hkeep : ∀ key, (normalizeRMinRMax data).Holds key ∨ key = "AmountOfOperators" →
      (normalizeData data).Holds key := by
    intro key hkey
    unfold normalizeData normalizeSizeOfQueue normalizeAmountOfOperators
    apply holds_raiseTo _ _ (Or.inl (holds_capAt _ _ (Or.inl _)))
    rcases hkey with hkey | rfl
    · exact holds_raiseTo _ _ (Or.inl (holds_capAt _ _ (Or.inl hkey)))
    · exact holds_raiseTo _ _ (Or.inr rfl)
  refine ⟨hkeep _ (Or.inl (hdurations _ (Or.inl rfl))), hkeep _ (Or.inl (hdurations _ (Or.inr rfl))),
    hkeep _ (Or.inr rfl), ?_⟩
  exact holds_raiseTo _ _ (Or.inr rfl)

theorem normalizeData_inRange (data : Data) : (settings (normalizeData data)).InRange := by
  rw [settings_normalizeData]
  exact Settings.normalize_inRange _

/-! The object. -/

/-- `ThreadSafeConfig` without its thread and mutex. `lastWriteTime` is in seconds;
the constructor leaves it uninitialised, and the monitor writes it before it reads it. -/
structure ThreadSafeConfig where
  data_ : Data
  stopThread : Bool
  updated : Bool
  lastWriteTime : Int
  logger_ : Bool
  notToUpdate : Bool

/-- The values used when the file could not be read at construction. -/
def defaultData : Data :=
  (((Map.empty.assign "RMin" 10).assign "RMax" 15).assign "AmountOfOperators" 2).assign
    "SizeOfQueue" 15

namespace ThreadSafeConfig

/-- The `try` block of the constructor. -/
def load (file : FileContent) : Except StdException Data := do
  let tree ← JsonParser.parse file
  JsonParser.outputConfig tree

def construct (file : FileContent) (logger : Bool) : ThreadSafeConfig :=
  match load file with
  | .ok data =>
    { data_ := data, stopThread := false, updated := false, lastWriteTime := 0,
      logger_ := logger, notToUpdate := false }
  | .error _ =>
    { data_ := defaultData, stopThread := false, updated := false, lastWriteTime := 0,
      logger_ := logger, notToUpdate := true }

/-- `data_[key]`. -/
def subscript (key : String) : Exec ThreadSafeConfig Int := fun c =>
  (.ok (c.data_.value key), { c with data_ := c.data_.touched key })

def getMinMax : Exec ThreadSafeConfig (Int × Int) := do
  let rMin ← subscript "RMin"
  let rMax ← subscript "RMax"
  return (rMin, rMax)

def getAmountOfOperators : Exec ThreadSafeConfig Int := subscript "AmountOfOperators"

def getSizeOfQueue : Exec ThreadSafeConfig Int := subscript "SizeOfQueue"

/-- The log statement of `updateConfig` that prints the new configuration. -/
def logNewConfiguration (logger : Bool) (tree : PropertyTree) : Except StdException Unit :=
  if logger then (JsonParser.output tree).map (fun _ => ()) else .ok ()

/-- The `try` block of `updateConfig`. -/
def reread (file : FileContent) : Exec ThreadSafeConfig Unit := do
  let c ← .get id
  let tree ← .ofExcept (JsonParser.parse file)
  .ofExcept (logNewConfiguration c.logger_ tree)
  let data ← .ofExcept (JsonParser.outputConfig tree)
  .modify (fun c => { c with data_ := data })
  .modify (fun c => { c with data_ := normalizeData c.data_ })
  .modify (fun c => { c with updated := true })

/-- The handler of `updateConfig`: without a logger it rethrows. -/
def rereadHandler (e : StdException) : Exec ThreadSafeConfig Unit := do
  let c ← .get id
  if c.logger_ then pure () else .throw e

def updateConfig (file : FileContent) : Exec ThreadSafeConfig Unit :=
  .tryCatch (reread file) rereadHandler

def isUpdated : Exec ThreadSafeConfig Bool := do
  let c ← .get id
  .modify (fun c => { c with updated := false })
  return c.updated

end ThreadSafeConfig

/-- `to_time_t` of a clock reading: whole seconds. -/
def toTimeT (t : TimePoint) : Int := durationCastSeconds t

/-! What a re-read leaves. -/

namespace ThreadSafeConfig

/-- The members a re-read takes over, where it succeeds: with a logger the four
keys must have an int at their first place, since the new values are printed. -/
def accepted (logger : Bool) (file : FileContent) : Except StdException Data := do
  let tree ← JsonParser.parse file
  logNewConfiguration logger tree
  JsonParser.outputConfig tree

/-- The object after a successful re-read. -/
def reloaded (c : ThreadSafeConfig) (data : Data) : ThreadSafeConfig :=
  { c with data_ := normalizeData data, updated := true }

theorem run_reread (c : ThreadSafeConfig) (file : FileContent) :
    (reread file).run c = match accepted c.logger_ file with
      | .ok data => (.ok (), c.reloaded data)
      | .error e => (.throws e, c) := by
  have hget : (Exec.get id : Exec ThreadSafeConfig ThreadSafeConfig).run c = (.ok c, c) := rfl
  unfold accepted
  rw [reread, Exec.run_bind_ok hget]
  cases hp : JsonParser.parse file with
  | error e => rfl
  | ok tree =>
    rw [Exec.run_bind_ok (Exec.run_ofExcept_ok _ _)]
    show (Exec.ofExcept (logNewConfiguration c.logger_ tree) >>= _).run c =
      match (logNewConfiguration c.logger_ tree >>= fun _ => JsonParser.outputConfig tree) with
      | .ok data => (.ok (), c.reloaded data)
      | .error e => (.throws e, c)
    cases hl : logNewConfiguration c.logger_ tree with
    | error e => rfl
    | ok u =>
      rw [Exec.run_bind_ok (Exec.run_ofExcept_ok _ _)]
      show (Exec.ofExcept (JsonParser.outputConfig tree) >>= _).run c =
        match JsonParser.outputConfig tree with
        | .ok data => (.ok (), c.reloaded data)
        | .error e => (.throws e, c)
      cases hd : JsonParser.outputConfig tree with
      | error e => rfl
      | ok data => rfl

theorem run_updateConfig_ok {c : ThreadSafeConfig} {file : FileContent} {data : Data}
    (h : accepted c.logger_ file = .ok data) :
    (updateConfig file).run c = (.ok (), c.reloaded data) := by
  have hr := run_reread c file
  rw [h] at hr
  exact Exec.run_tryCatch_ok hr

/-- A failed re-read changes nothing; without a logger it throws. -/
theorem run_updateConfig_error {c : ThreadSafeConfig} {file : FileContent} {e : StdException}
    (h : accepted c.logger_ file = .error e) :
    (updateConfig file).run c = (if c.logger_ then .ok () else .throws e, c) := by
  have hr := run_reread c file
  rw [h] at hr
  rw [updateConfig, Exec.run_tryCatch_throws hr]
  cases hl : c.logger_ with
  | true => simp [rereadHandler, Exec.run_bind, hl]
  | false => simp [rereadHandler, Exec.run_bind, hl]

/-- A re-read of the file succeeds. -/
def readable (logger : Bool) (file : FileContent) : Bool :=
  match accepted logger file with
  | .ok _ => true
  | .error _ => false

theorem readable_iff {logger : Bool} {file : FileContent} :
    readable logger file = true ↔ ∃ data, accepted logger file = .ok data := by
  unfold readable
  cases accepted logger file with
  | ok data => simp
  | error e => simp

/-- The object a re-read leaves. -/
def afterReread (c : ThreadSafeConfig) (file : FileContent) : ThreadSafeConfig :=
  match accepted c.logger_ file with
  | .ok data => c.reloaded data
  | .error _ => c

theorem updateConfig_state (c : ThreadSafeConfig) (file : FileContent) :
    ((updateConfig file).run c).2 = c.afterReread file := by
  unfold afterReread
  cases h : accepted c.logger_ file with
  | ok data => rw [run_updateConfig_ok h]
  | error e => rw [run_updateConfig_error h]

/-! Reading through the getters. -/

/-- The same object up to keys a read inserted: a complete map is the same. -/
structure Same (c d : ThreadSafeConfig) : Prop where
  settings : ProteiCov.settings d.data_ = ProteiCov.settings c.data_
  data : Complete c.data_ → d.data_ = c.data_
  stopThread : d.stopThread = c.stopThread
  updated : d.updated = c.updated
  lastWriteTime : d.lastWriteTime = c.lastWriteTime
  logger_ : d.logger_ = c.logger_
  notToUpdate : d.notToUpdate = c.notToUpdate

namespace Same

theorem refl (c : ThreadSafeConfig) : Same c c := ⟨rfl, fun _ => rfl, rfl, rfl, rfl, rfl, rfl⟩

theorem trans (c d e : ThreadSafeConfig) (h : Same c d) (h' : Same d e) : Same c e := by
  refine ⟨h'.settings.trans h.settings, fun hc => ?_, h'.stopThread.trans h.stopThread,
    h'.updated.trans h.updated, h'.lastWriteTime.trans h.lastWriteTime,
    h'.logger_.trans h.logger_, h'.notToUpdate.trans h.notToUpdate⟩
  have hd := h.data hc
  rw [h'.data (by rw [hd]; exact hc), hd]

theorem subscript {key : String} (hkey : ∀ data : Data, Complete data → data.Holds key) :
    Respects Same (ThreadSafeConfig.subscript key) := fun c =>
  ⟨settings_touched c.data_ key, fun h => Map.touched_of_holds (hkey _ h), rfl, rfl, rfl, rfl, rfl⟩

theorem getMinMax : Respects Same ThreadSafeConfig.getMinMax :=
  Respects.bind trans (subscript fun _ h => h.1) (fun _ =>
    Respects.bind trans (subscript fun _ h => h.2.1) (fun _ => refl))

theorem getAmountOfOperators : Respects Same ThreadSafeConfig.getAmountOfOperators :=
  subscript fun _ h => h.2.2.1

theorem getSizeOfQueue : Respects Same ThreadSafeConfig.getSizeOfQueue :=
  subscript fun _ h => h.2.2.2

end Same

theorem getMinMax_result (c : ThreadSafeConfig) :
    (getMinMax.run c).1 = .ok ((settings c.data_).RMin, (settings c.data_).RMax) := by
  show Outcome.ok (c.data_.value "RMin", (c.data_.touched "RMin").value "RMax") = _
  rw [Map.value_touched]
  rfl

theorem getAmountOfOperators_result (c : ThreadSafeConfig) :
    (getAmountOfOperators.run c).1 = .ok (settings c.data_).AmountOfOperators := rfl

theorem getSizeOfQueue_result (c : ThreadSafeConfig) :
    (getSizeOfQueue.run c).1 = .ok (settings c.data_).SizeOfQueue := rfl

end ThreadSafeConfig

end ProteiCov
