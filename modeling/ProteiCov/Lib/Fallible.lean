import ProteiCov.Lib.Cpp

/-
  Code made of steps that may each throw

  `fails st` is the exception the step `st` throws, if it throws. `Performs` says
  that a piece of code carries out a list of steps in order: where none of them
  throws it returns a known result in a known state, and where one throws the code
  leaves with the exception of the first that does, in a state related by `R` to
  the one it started in. The relation carries what must survive an exception; it
  is reflexive and transitive, so pieces of code compose by appending their steps.
-/

namespace Cpp

section
variable {σ ι α β : Type}

/-- Code that carries out `steps` in order: it returns `a` in `t` where none of
them throws, and leaves with the exception of the first that does. -/
structure Performs (fails : ι → Option StdException) (R : σ → σ → Prop) (x : Exec σ α) (s : σ)
    (steps : List ι) (a : α) (t : σ) : Prop where
  returns : (∀ st ∈ steps, fails st = none) → x.run s = (.ok a, t)
  throws : ∀ e, steps.findSome? fails = some e → ∃ u, x.run s = (.throws e, u) ∧ R s u
  keeps : R s t

namespace Performs
variable {fails : ι → Option StdException} {R : σ → σ → Prop}

theorem findSome?_eq_none {steps : List ι} :
    steps.findSome? fails = none ↔ ∀ st ∈ steps, fails st = none := by
  simp

theorem findSome?_of_fails {steps : List ι} (h : ∃ st ∈ steps, fails st ≠ none) :
    ∃ e, steps.findSome? fails = some e := by
  apply Option.ne_none_iff_exists'.mp
  intro hnone
  obtain ⟨st, hst, hne⟩ := h
  exact hne (findSome?_eq_none.mp hnone st hst)

/-- Code that returns carries out no fallible step. -/
theorem of_run {x : Exec σ α} {s t : σ} {a : α} (h : x.run s = (.ok a, t)) (hR : R s t) :
    Performs fails R x s [] a t :=
  ⟨fun _ => h, fun _ he => (by cases he), hR⟩

theorem step {x : Exec σ Unit} {s : σ} {st : ι} (hR : R s s)
    (hnone : fails st = none → x.run s = (.ok (), s))
    (hsome : ∀ e, fails st = some e → x.run s = (.throws e, s)) :
    Performs fails R x s [st] () s := by
  refine ⟨fun h => hnone (h st (by simp)), fun e he => ⟨s, hsome e ?_, hR⟩, hR⟩
  rw [List.findSome?_singleton] at he
  exact he

theorem bind (htrans : ∀ s t u, R s t → R t u → R s u) {x : Exec σ α} {f : α → Exec σ β}
    {s t u : σ} {l m : List ι} {a : α} {b : β} (hx : Performs fails R x s l a t)
    (hf : Performs fails R (f a) t m b u) : Performs fails R (x >>= f) s (l ++ m) b u := by
  refine ⟨?_, ?_, htrans s t u hx.keeps hf.keeps⟩
  · intro h
    rw [Exec.run_bind_ok (hx.returns (fun st hst => h st (by simp [hst])))]
    exact hf.returns (fun st hst => h st (by simp [hst]))
  · intro e he
    rw [List.findSome?_append, Option.or_eq_some_iff] at he
    rcases he with he | ⟨hnone, he⟩
    · obtain ⟨v, hv, hR⟩ := hx.throws e he
      exact ⟨v, Exec.run_bind_throws hv, hR⟩
    · obtain ⟨v, hv, hR⟩ := hf.throws e he
      refine ⟨v, ?_, htrans s t v hx.keeps hR⟩
      rw [Exec.run_bind_ok (hx.returns (findSome?_eq_none.mp hnone)), hv]

theorem congr {x : Exec σ α} {s t t' : σ} {steps steps' : List ι} {a a' : α}
    (hx : Performs fails R x s steps a t) (hsteps : steps = steps') (ha : a = a') (ht : t = t') :
    Performs fails R x s steps' a' t' := by
  subst hsteps ha ht
  exact hx

end Performs

/-- Code that carries out steps and then runs into undefined behaviour, unless one
of the steps throws first. -/
structure Derails (fails : ι → Option StdException) (R : σ → σ → Prop) (x : Exec σ α) (s : σ)
    (steps : List ι) : Prop where
  undefined : (∀ st ∈ steps, fails st = none) → ∃ u, x.run s = (.undefined, u)
  throws : ∀ e, steps.findSome? fails = some e → ∃ u, x.run s = (.throws e, u) ∧ R s u

namespace Derails
variable {fails : ι → Option StdException} {R : σ → σ → Prop}

theorem of_run {x : Exec σ α} {s u : σ} (h : x.run s = (.undefined, u)) :
    Derails fails R x s [] :=
  ⟨fun _ => ⟨u, h⟩, fun _ he => (by cases he)⟩

theorem bind_left {x : Exec σ α} {f : α → Exec σ β} {s : σ} {l : List ι}
    (hx : Derails fails R x s l) : Derails fails R (x >>= f) s l := by
  refine ⟨fun h => ?_, fun e he => ?_⟩
  · obtain ⟨u, hu⟩ := hx.undefined h
    exact ⟨u, Exec.run_bind_undefined hu⟩
  · obtain ⟨u, hu, hR⟩ := hx.throws e he
    exact ⟨u, Exec.run_bind_throws hu, hR⟩

theorem bind_right (htrans : ∀ s t u, R s t → R t u → R s u) {x : Exec σ α} {f : α → Exec σ β}
    {s t : σ} {l m : List ι} {a : α} (hx : Performs fails R x s l a t)
    (hf : Derails fails R (f a) t m) : Derails fails R (x >>= f) s (l ++ m) := by
  refine ⟨?_, ?_⟩
  · intro h
    rw [Exec.run_bind_ok (hx.returns (fun st hst => h st (by simp [hst])))]
    exact hf.undefined (fun st hst => h st (by simp [hst]))
  · intro e he
    rw [List.findSome?_append, Option.or_eq_some_iff] at he
    rcases he with he | ⟨hnone, he⟩
    · obtain ⟨v, hv, hR⟩ := hx.throws e he
      exact ⟨v, Exec.run_bind_throws hv, hR⟩
    · obtain ⟨v, hv, hR⟩ := hf.throws e he
      refine ⟨v, ?_, htrans s t v hx.keeps hR⟩
      rw [Exec.run_bind_ok (hx.returns (Performs.findSome?_eq_none.mp hnone)), hv]

end Derails

end

end Cpp
