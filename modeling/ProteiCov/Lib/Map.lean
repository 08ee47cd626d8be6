import Mathlib.Logic.Function.Basic

/-
  `std::map` with a numeric value type

  A map is the partial function it represents. `operator[]` gives a reference to
  the value of a key and inserts `0` where the key is missing, so a read through
  it changes the map: `value` is what is read and `touched` is the map after it.
-/

namespace Cpp

/-- `std::map<κ, int>`. -/
abbrev Map (κ : Type) := κ → Option Int

namespace Map
variable {κ : Type} [DecidableEq κ]

def empty : Map κ := fun _ => none

/-- The number `m[k]` reads. -/
def value (m : Map κ) (k : κ) : Int := (m k).getD 0

/-- The map after `m[k]` was evaluated. -/
def touched (m : Map κ) (k : κ) : Map κ := Function.update m k (some (m.value k))

/-- The map after `m[k] = v`. -/
def assign (m : Map κ) (k : κ) (v : Int) : Map κ := Function.update m k (some v)

/-- The map after `std::swap(m[j], m[k])`. -/
def swap (m : Map κ) (j k : κ) : Map κ := (m.assign j (m.value k)).assign k (m.value j)

/-- The key is in the map. -/
def Holds (m : Map κ) (k : κ) : Prop := m k ≠ none

@[simp] theorem value_assign (m : Map κ) (j k : κ) (v : Int) :
    (m.assign k v).value j = if j = k then v else m.value j := by
  by_cases h : j = k <;> simp [assign, value, h]

@[simp] theorem value_touched (m : Map κ) (j k : κ) : (m.touched k).value j = m.value j := by
  by_cases h : j = k <;> simp [touched, value, h]

theorem holds_touched_self (m : Map κ) (k : κ) : (m.touched k).Holds k := by
  simp [Holds, touched]

theorem holds_touched {m : Map κ} {j : κ} (k : κ) (h : m.Holds j) : (m.touched k).Holds j := by
  by_cases hj : j = k
  · rw [hj]
    exact holds_touched_self m k
  · simpa [Holds, touched, hj] using h

theorem holds_assign_self (m : Map κ) (k : κ) (v : Int) : (m.assign k v).Holds k := by
  simp [Holds, assign]

theorem holds_assign {m : Map κ} {j : κ} (k : κ) (v : Int) (h : m.Holds j) :
    (m.assign k v).Holds j := by
  by_cases hj : j = k
  · rw [hj]
    exact holds_assign_self m k v
  · simpa [Holds, assign, hj] using h

/-- Reading a key the map holds leaves the map as it is. -/
theorem touched_of_holds {m : Map κ} {k : κ} (h : m.Holds k) : m.touched k = m := by
  obtain ⟨v, hv⟩ := Option.ne_none_iff_exists'.mp h
  funext j
  by_cases hj : j = k
  · rw [hj, touched, Function.update_self, value, hv]
    rfl
  · rw [touched, Function.update_of_ne hj]

end Map

end Cpp
