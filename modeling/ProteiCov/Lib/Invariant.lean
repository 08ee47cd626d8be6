import ProteiCov.Lib.Cpp

/-
  Rules for what code leaves alone and what it keeps

  `Respects R x`: however `x` ends, the state it leaves is related to the one it
  started in. With `R` reflexive and transitive this is the frame rule.

  `Keeps I x Q`: from a state with the invariant `I`, `x` leaves a state with `I`
  however it ends, and a result it returns meets `Q`.
-/

namespace Cpp

section
variable {σ α β : Type}

/-- However the code ends, it leaves a state related to the one it started in. -/
def Respects (R : σ → σ → Prop) (x : Exec σ α) : Prop := ∀ s, R s (x.run s).2

namespace Respects
variable {R : σ → σ → Prop}

theorem of_run {x : Exec σ α} {s t : σ} {o : Outcome α} (h : Respects R x)
    (hx : x.run s = (o, t)) : R s t := by
  have hR := h s
  rw [hx] at hR
  exact hR

theorem bind (htrans : ∀ s t u, R s t → R t u → R s u) {x : Exec σ α} {f : α → Exec σ β}
    (hx : Respects R x) (hf : ∀ a, Respects R (f a)) : Respects R (x >>= f) := by
  intro s
  cases h : x.run s with
  | mk o t =>
    have hR : R s t := hx.of_run h
    cases o with
    | ok a =>
      rw [Exec.run_bind_ok h]
      exact htrans s t _ hR (hf a t)
    | throws e =>
      rw [Exec.run_bind_throws h]
      exact hR
    | undefined =>
      rw [Exec.run_bind_undefined h]
      exact hR

theorem ite {c : Prop} [Decidable c] {x y : Exec σ α} (hx : Respects R x) (hy : Respects R y) :
    Respects R (if c then x else y) := by
  split
  · exact hx
  · exact hy

theorem tryCatch (htrans : ∀ s t u, R s t → R t u → R s u) {x : Exec σ α} {h : StdException → Exec σ α}
    (hx : Respects R x) (hh : ∀ e, Respects R (h e)) : Respects R (Exec.tryCatch x h) := by
  intro s
  cases hrun : x.run s with
  | mk o t =>
    have hR : R s t := hx.of_run hrun
    cases o with
    | ok a =>
      rw [Exec.run_tryCatch_ok hrun]
      exact hR
    | throws e =>
      rw [Exec.run_tryCatch_throws hrun]
      exact htrans s t _ hR (hh e t)
    | undefined =>
      rw [Exec.run_tryCatch_undefined hrun]
      exact hR

end Respects

/-- The code keeps `I`, and what it returns meets `Q`. -/
def Keeps (I : σ → Prop) (x : Exec σ α) (Q : α → Prop) : Prop :=
  ∀ s, I s → I (x.run s).2 ∧ ∀ a, (x.run s).1 = .ok a → Q a

namespace Keeps
variable {I : σ → Prop} {Q : α → Prop} {Q' : β → Prop}

theorem of_run {x : Exec σ α} {s t : σ} {o : Outcome α} (h : Keeps I x Q) (hs : I s)
    (hx : x.run s = (o, t)) : I t ∧ ∀ a, o = .ok a → Q a := by
  have hk := h s hs
  rw [hx] at hk
  exact hk

theorem mono {x : Exec σ α} {P : α → Prop} (hx : Keeps I x Q) (h : ∀ a, Q a → P a) : Keeps I x P := by
  intro s hs
  obtain ⟨ht, hQ⟩ := hx s hs
  exact ⟨ht, fun a ha => h a (hQ a ha)⟩

theorem pure {a : α} (h : Q a) : Keeps I (Pure.pure a : Exec σ α) Q := by
  intro s hs
  refine ⟨hs, fun b hb => ?_⟩
  cases hb
  exact h

theorem throw (e : StdException) : Keeps I (Exec.throw e : Exec σ α) Q :=
  fun _ hs => ⟨hs, fun _ hb => by cases hb⟩

theorem undefined : Keeps I (Exec.undefined : Exec σ α) Q :=
  fun _ hs => ⟨hs, fun _ hb => by cases hb⟩

theorem get {f : σ → α} (h : ∀ s, I s → Q (f s)) : Keeps I (Exec.get f) Q := by
  intro s hs
  refine ⟨hs, fun b hb => ?_⟩
  cases hb
  exact h s hs

theorem modify {f : σ → σ} {Q : Unit → Prop} (h : ∀ s, I s → I (f s)) (hQ : Q ()) :
    Keeps I (Exec.modify f) Q :=
  fun s hs => ⟨h s hs, fun _ _ => hQ⟩

theorem bind {x : Exec σ α} {f : α → Exec σ β} (hx : Keeps I x Q)
    (hf : ∀ a, Q a → Keeps I (f a) Q') : Keeps I (x >>= f) Q' := by
  intro s hs
  cases h : x.run s with
  | mk o t =>
    obtain ⟨ht, hQ⟩ := hx.of_run hs h
    cases o with
    | ok a =>
      rw [Exec.run_bind_ok h]
      exact hf a (hQ a rfl) t ht
    | throws e =>
      rw [Exec.run_bind_throws h]
      exact ⟨ht, fun _ hb => by cases hb⟩
    | undefined =>
      rw [Exec.run_bind_undefined h]
      exact ⟨ht, fun _ hb => by cases hb⟩

theorem ite {c : Prop} [Decidable c] {x y : Exec σ α} (hx : c → Keeps I x Q)
    (hy : ¬ c → Keeps I y Q) : Keeps I (if c then x else y) Q := by
  split
  · rename_i h
    exact hx h
  · rename_i h
    exact hy h

/-- Code that respects a relation the invariant survives keeps the invariant. -/
theorem of_respects {R : σ → σ → Prop} {x : Exec σ α} (hx : Respects R x)
    (hI : ∀ s t, R s t → I s → I t) : Keeps I x (fun _ => True) :=
  fun s hs => ⟨hI s _ (hx s) hs, fun _ _ => trivial⟩

end Keeps

end

end Cpp
