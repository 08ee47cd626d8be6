import Mathlib.Algebra.BigOperators.Ring.List
import Mathlib.Algebra.Order.BigOperators.Group.List
import Mathlib.Algebra.Order.Ring.Nat
import ProteiCov.Lib.Transition

/-
  Runs seen from another system, and runs that end

  Two rules about whole runs, beside the invariants of `Transition`.

  A system refines another where each of its steps is a run of the other: none of its
  steps, or one, or several. `project` is what a schedule amounts to there, read off
  the state before each step, and `run_project` says that the other system can do just
  that.

  Where every step lowers a number, no schedule is longer than the number
  (`length_add_rank_le`), and there is one after which nothing can happen any more
  (`exists_run_stuck`). Such a number is often a sum over parties, of which one moves
  (`sum_map_set`) or leaves (`sum_map_eraseIdx`).
-/

namespace Transition

namespace System
variable {σ ε τ δ : Type} {S : System σ ε}

/-- What the schedule amounts to in another system, where `points s e` is what the step
`e` from `s` does there. -/
def project (S : System σ ε) (points : σ → ε → List δ) : σ → List ε → List δ
  | _, [] => []
  | s, e :: es => points s e ++
      match S.step s e with
      | some t => project S points t es
      | none => []

theorem project_cons_some {points : σ → ε → List δ} {s t : σ} {e : ε} (es : List ε)
    (h : S.step s e = some t) :
    S.project points s (e :: es) = points s e ++ S.project points t es := by
  rw [project, h]

/-- A relation that every step keeps, with what the other system does meanwhile, relates
the ends of the two runs. -/
theorem run_project {A : System τ δ} {points : σ → ε → List δ} {R : σ → τ → Prop}
    (hstep : ∀ s e t a, R s a → S.step s e = some t → ∃ b, A.run a (points s e) = some b ∧ R t b)
    {s t : σ} {a : τ} {es : List ε} (h : S.run s es = some t) (hs : R s a) :
    ∃ b, A.run a (S.project points s es) = some b ∧ R t b := by
  induction es generalizing s a with
  | nil =>
    cases h
    exact ⟨a, rfl, hs⟩
  | cons e es ih =>
    obtain ⟨u, hu, ht⟩ := run_cons_some.mp h
    obtain ⟨b, hb, hub⟩ := hstep s e u a hs hu
    obtain ⟨c, hc, htc⟩ := ih ht hub
    refine ⟨c, ?_, htc⟩
    rw [project_cons_some es hu, run_append, hb, Option.bind_some, hc]

theorem along_append {ok : σ → ε → Prop} {s : σ} {es fs : List ε} (hes : S.Along ok s es)
    (hfs : ∀ t, S.run s es = some t → S.Along ok t fs) : S.Along ok s (es ++ fs) := by
  induction es generalizing s with
  | nil => exact hfs s rfl
  | cons e es ih =>
    refine ⟨hes.1, fun u hu => ih (hes.2 u hu) (fun t ht => hfs t ?_)⟩
    exact run_cons_some.mpr ⟨u, hu, ht⟩

/-- A condition that the other system meets in each step, it meets along the whole run. -/
theorem along_project {A : System τ δ} {points : σ → ε → List δ} {R : σ → τ → Prop} {ok : τ → δ → Prop}
    (hstep : ∀ s e t a, R s a → S.step s e = some t → ∃ b, A.run a (points s e) = some b ∧ R t b)
    (hok : ∀ s e t a, R s a → S.step s e = some t → A.Along ok a (points s e))
    {s t : σ} {a : τ} {es : List ε} (h : S.run s es = some t) (hs : R s a) :
    A.Along ok a (S.project points s es) := by
  induction es generalizing s a with
  | nil => trivial
  | cons e es ih =>
    obtain ⟨u, hu, ht⟩ := run_cons_some.mp h
    obtain ⟨b, hb, hub⟩ := hstep s e u a hs hu
    rw [project_cons_some es hu]
    refine along_append (hok s e u a hs hu) (fun c hc => ?_)
    rw [hb] at hc
    cases hc
    exact ih ht hub

theorem countP_project {points : σ → ε → List δ} {p : δ → Bool} {q : ε → Bool}
    (hcount : ∀ s e t, S.step s e = some t → (points s e).countP p = if q e then 1 else 0)
    {s t : σ} {es : List ε} (h : S.run s es = some t) :
    (S.project points s es).countP p = es.countP q := by
  induction es generalizing s with
  | nil => rfl
  | cons e es ih =>
    obtain ⟨u, hu, ht⟩ := run_cons_some.mp h
    rw [project_cons_some es hu, List.countP_append, hcount s e u hu, ih ht, List.countP_cons, Nat.add_comm]

section
variable {I : σ → Prop} {P : ε → Prop} {rank : σ → Nat}

/-- A number that every step lowers bounds the schedules. -/
theorem length_add_rank_le (hinv : ∀ s e t, I s → P e → S.step s e = some t → I t)
    (hrank : ∀ s e t, I s → P e → S.step s e = some t → rank t < rank s)
    {s t : σ} {es : List ε} (h : S.run s es = some t) (hes : ∀ e ∈ es, P e) (hs : I s) :
    es.length + rank t ≤ rank s := by
  induction es generalizing s with
  | nil =>
    cases h
    simp
  | cons e es ih =>
    obtain ⟨u, hu, ht⟩ := run_cons_some.mp h
    have he : P e := hes e List.mem_cons_self
    have hrest := ih ht (fun e' he' => hes e' (List.mem_cons_of_mem e he')) (hinv s e u hs he hu)
    have hlt := hrank s e u hs he hu
    rw [List.length_cons]
    omega

/-- Some schedule goes on until nothing can happen. -/
theorem exists_run_stuck (hinv : ∀ s e t, I s → P e → S.step s e = some t → I t)
    (hrank : ∀ s e t, I s → P e → S.step s e = some t → rank t < rank s) {s : σ} (hs : I s) :
    ∃ es t, (∀ e ∈ es, P e) ∧ S.run s es = some t ∧ ∀ e, P e → S.step t e = none := by
  induction hn : rank s using Nat.strongRecOn generalizing s with
  | ind n ih =>
    by_cases hstuck : ∀ e, P e → S.step s e = none
    · exact ⟨[], s, by simp, rfl, hstuck⟩
    · obtain ⟨e, hmove⟩ := Classical.not_forall.mp hstuck
      obtain ⟨he, hne⟩ := Classical.not_imp.mp hmove
      obtain ⟨u, hu⟩ := Option.ne_none_iff_exists'.mp hne
      have hlt := hrank s e u hs he hu
      obtain ⟨es, t, hes, ht, hend⟩ := ih (rank u) (hn ▸ hlt) (hinv s e u hs he hu) rfl
      refine ⟨e :: es, t, ?_, run_cons_some.mpr ⟨u, hu, ht⟩, hend⟩
      intro e' he'
      rcases List.mem_cons.mp he' with rfl | he'
      · exact he
      · exact hes e' he'

end

end System

/-- A sum after one of its parties has moved. -/
theorem sum_map_set {β : Type} (f : β → Nat) {l : List β} {i : Nat} {x : β} (h : l[i]? = some x) (y : β) :
    ((l.set i y).map f).sum + f x = (l.map f).sum + f y := by
  induction l generalizing i with
  | nil => cases h
  | cons z l ih =>
    cases i with
    | zero =>
      obtain rfl : z = x := Option.some_inj.mp h
      rw [List.set_cons_zero, List.map_cons, List.map_cons, List.sum_cons, List.sum_cons]
      omega
    | succ i =>
      have hrest := ih h
      rw [List.set_cons_succ, List.map_cons, List.map_cons, List.sum_cons, List.sum_cons]
      omega

end Transition
