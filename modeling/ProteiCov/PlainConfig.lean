import ProteiCov.Config

/-
  `utility::Config`

  The second implementation of `IConfig`, without a mutex and without a thread. It
  has its own copy of the constructor, of the getters and of the normalisation.
  `updateConfig` prints nothing and catches nothing, so an exception of the parser
  leaves it.
-/

namespace ProteiCov
open Cpp

/-- `Config`. -/
structure Config where
  data_ : Data
  logger_ : Bool
  notToUpdate : Bool

namespace Config

/-! Normalisation. -/

def normalizeRMinRMax (data : Data) : Data :=
  let data := capAt "RMin" 100 data
  let data := capAt "RMax" 140 data
  let data := raiseTo "RMin" 4 data
  let data := raiseTo "RMax" 5 data
  orderRMinRMax data

def normalizeAmountOfOperators (data : Data) : Data :=
  raiseTo "AmountOfOperators" 2 (capAt "AmountOfOperators" 80 data)

def normalizeSizeOfQueue (data : Data) : Data :=
  raiseTo "SizeOfQueue" 15 (capAt "SizeOfQueue" 350 data)

def normalizeData (data : Data) : Data :=
  normalizeSizeOfQueue (normalizeAmountOfOperators (normalizeRMinRMax data))

theorem normalizeData_eq (data : Data) : normalizeData data = ProteiCov.normalizeData data := rfl

/-! The object. -/

/-- The `try` block of the constructor. -/
def load (file : FileContent) : Except StdException Data := do
  let tree ← JsonParser.parse file
  JsonParser.outputConfig tree

def construct (file : FileContent) (logger : Bool) : Config :=
  match load file with
  | .ok data => { data_ := data, logger_ := logger, notToUpdate := false }
  | .error _ => { data_ := defaultData, logger_ := logger, notToUpdate := true }

/-- `data_[key]`. -/
def subscript (key : String) : Exec Config Int := fun c =>
  (.ok (c.data_.value key), { c with data_ := c.data_.touched key })

def getMinMax : Exec Config (Int × Int) := do
  let rMin ← subscript "RMin"
  let rMax ← subscript "RMax"
  return (rMin, rMax)

def getAmountOfOperators : Exec Config Int := subscript "AmountOfOperators"

def getSizeOfQueue : Exec Config Int := subscript "SizeOfQueue"

def updateConfig (file : FileContent) : Exec Config Unit := do
  let tree ← .ofExcept (JsonParser.parse file)
  let data ← .ofExcept (JsonParser.outputConfig tree)
  .modify (fun c => { c with data_ := data })
  .modify (fun c => { c with data_ := normalizeData c.data_ })

/-! What each method does. -/

theorem getMinMax_result (c : Config) :
    (getMinMax.run c).1 = .ok ((settings c.data_).RMin, (settings c.data_).RMax) := by
  show Outcome.ok (c.data_.value "RMin", (c.data_.touched "RMin").value "RMax") = _
  rw [Map.value_touched]
  rfl

theorem getAmountOfOperators_result (c : Config) :
    (getAmountOfOperators.run c).1 = .ok (settings c.data_).AmountOfOperators := rfl

theorem getSizeOfQueue_result (c : Config) :
    (getSizeOfQueue.run c).1 = .ok (settings c.data_).SizeOfQueue := rfl

/-- A re-read replaces the values, or throws and changes nothing. -/
theorem run_updateConfig (c : Config) (file : FileContent) :
    (updateConfig file).run c = match load file with
      | .ok data => (.ok (), { c with data_ := ProteiCov.normalizeData data })
      | .error e => (.throws e, c) := by
  unfold load
  cases hp : JsonParser.parse file with
  | error e =>
    rw [updateConfig, hp]
    rfl
  | ok tree =>
    rw [updateConfig, hp, Exec.run_bind_ok (Exec.run_ofExcept_ok _ _)]
    show (Exec.ofExcept (JsonParser.outputConfig tree) >>= _).run c = match JsonParser.outputConfig tree with
      | .ok data => (.ok (), { c with data_ := ProteiCov.normalizeData data })
      | .error e => (.throws e, c)
    cases JsonParser.outputConfig tree with
    | error e => rfl
    | ok data => rfl

end Config

end ProteiCov
