import Mathlib.Logic.Function.Basic

/-
  Mutual exclusion

  Threads `ι` take and release mutexes `κ`. `owner k` is who holds the mutex `k`,
  as the mutex knows it; `holds i k` is what the position of the thread `i` in its
  own code says. `Disciplined` is the agreement of the two, and the rules say how a
  step of one thread keeps it: by staying where it is with respect to every mutex,
  by taking a free one, or by releasing one.
-/

namespace Mutex

section
variable {ι κ : Type}

/-- The positions of the threads agree with the owners of the mutexes. -/
def Disciplined (owner : κ → Option ι) (holds : ι → κ → Prop) : Prop :=
  ∀ i k, holds i k ↔ owner k = some i

namespace Disciplined
variable {owner owner' : κ → Option ι} {holds holds' : ι → κ → Prop}

/-- Two threads that hold one mutex are one thread. -/
theorem unique (h : Disciplined owner holds) {i j : ι} {k : κ} (hi : holds i k) (hj : holds j k) :
    i = j := by
  have h1 := (h i k).mp hi
  have h2 := (h j k).mp hj
  rw [h1] at h2
  exact Option.some_inj.mp h2

theorem free (h : Disciplined owner holds) {k : κ} (hk : owner k = none) (i : ι) : ¬ holds i k := by
  intro hi
  rw [(h i k).mp hi] at hk
  cases hk

theorem stay (h : Disciplined owner holds) (hown : owner' = owner)
    (hholds : ∀ i k, holds' i k ↔ holds i k) : Disciplined owner' holds' := by
  intro i k
  rw [hholds, hown]
  exact h i k

variable [DecidableEq κ]

theorem acquire (h : Disciplined owner holds) {i : ι} {k : κ} (hfree : owner k = none)
    (hown : owner' = Function.update owner k (some i))
    (hholds : ∀ j m, holds' j m ↔ holds j m ∨ (j = i ∧ m = k)) : Disciplined owner' holds' := by
  intro j m
  rw [hholds, hown]
  by_cases hm : m = k
  · subst hm
    have hno := h.free hfree j
    simp [hno, eq_comm]
  · simp [hm, h j m]

theorem release (h : Disciplined owner holds) {i : ι} {k : κ} (hi : holds i k)
    (hown : owner' = Function.update owner k none)
    (hholds : ∀ j m, holds' j m ↔ holds j m ∧ ¬ (j = i ∧ m = k)) : Disciplined owner' holds' := by
  intro j m
  rw [hholds, hown]
  by_cases hm : m = k
  · subst hm
    simp only [Function.update_self, and_true, reduceCtorEq, iff_false, not_and, not_not]
    intro hj
    exact h.unique hj hi
  · simp [hm, h j m]

end Disciplined

end

end Mutex
