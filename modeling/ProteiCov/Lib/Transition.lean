/-
  Labelled transition systems with a step function

  A system is a partial step function on states: `step s e` is the state the
  event `e` leads to, `none` where `e` cannot happen in `s`. Interleaving lives
  in the events: an event names the party that moves and what it chooses, so a
  list of events is one schedule and a property of every run is a property of
  every interleaving.

  What is here:
    1. `run`, the state a schedule ends in;
    2. `Along`, a condition met by every step of a run, for results of the form
       "in every run whose steps all meet the condition";
    3. the induction rules: an invariant kept by every step holds after every
       run (`run_inv`), also when only the steps or the events meeting a condition
       keep it (`run_inv_along`, `run_inv_events`), and a property kept by exactly those steps survives
       exactly the runs along the condition (`run_iff_along`), or holds in each of their
       states (`forall_prefix_iff_along`).
-/

namespace Transition

/-- A transition system over states `σ` and events `ε`. -/
structure System (σ ε : Type) where
  step : σ → ε → Option σ

namespace System
variable {σ ε : Type} (S : System σ ε)

/-- The state the schedule `es` ends in, if each of its events can happen. -/
def run : σ → List ε → Option σ
  | s, [] => some s
  | s, e :: es => (S.step s e).bind (fun t => run t es)

/-- Every step of the run meets `ok`, read on the state before the step. -/
def Along (ok : σ → ε → Prop) : σ → List ε → Prop
  | _, [] => True
  | s, e :: es => ok s e ∧ ∀ t, S.step s e = some t → Along ok t es

@[simp] theorem run_nil (s : σ) : S.run s [] = some s := rfl

theorem run_cons (s : σ) (e : ε) (es : List ε) :
    S.run s (e :: es) = (S.step s e).bind (fun t => S.run t es) := rfl

variable {S}

theorem run_cons_some {s u : σ} {e : ε} {es : List ε} :
    S.run s (e :: es) = some u ↔ ∃ t, S.step s e = some t ∧ S.run t es = some u := by
  rw [run_cons, Option.bind_eq_some_iff]

theorem run_append (s : σ) (es fs : List ε) :
    S.run s (es ++ fs) = (S.run s es).bind (fun t => S.run t fs) := by
  induction es generalizing s with
  | nil => rfl
  | cons e es ih =>
    rw [List.cons_append, run_cons, run_cons]
    cases S.step s e with
    | none => rfl
    | some t => exact ih t

theorem run_concat {s t u : σ} {es : List ε} {e : ε} (h : S.run s es = some t)
    (hstep : S.step t e = some u) : S.run s (es ++ [e]) = some u := by
  rw [run_append, h, Option.bind_some, run_cons, hstep]
  rfl

/-- An invariant every step keeps holds after every run. -/
theorem run_inv {I : σ → Prop} (hstep : ∀ s e t, I s → S.step s e = some t → I t)
    {s t : σ} {es : List ε} (h : S.run s es = some t) (hs : I s) : I t := by
  induction es generalizing s with
  | nil =>
    cases h
    exact hs
  | cons e es ih =>
    obtain ⟨u, hu, ht⟩ := run_cons_some.mp h
    exact ih ht (hstep s e u hs hu)

/-- An invariant kept by the steps meeting `ok` holds after every run all of
whose steps meet `ok`. -/
theorem run_inv_along {I : σ → Prop} {ok : σ → ε → Prop}
    (hstep : ∀ s e t, I s → ok s e → S.step s e = some t → I t)
    {s t : σ} {es : List ε} (h : S.run s es = some t) (hok : S.Along ok s es) (hs : I s) : I t := by
  induction es generalizing s with
  | nil =>
    cases h
    exact hs
  | cons e es ih =>
    obtain ⟨u, hu, ht⟩ := run_cons_some.mp h
    exact ih ht (hok.2 u hu) (hstep s e u hs hok.1 hu)

/-- An invariant the events meeting `P` keep holds after every run of such events. -/
theorem run_inv_events {I : σ → Prop} {P : ε → Prop}
    (hstep : ∀ s e t, I s → P e → S.step s e = some t → I t)
    {s t : σ} {es : List ε} (h : S.run s es = some t) (hes : ∀ e ∈ es, P e) (hs : I s) : I t := by
  induction es generalizing s with
  | nil =>
    cases h
    exact hs
  | cons e es ih =>
    obtain ⟨u, hu, ht⟩ := run_cons_some.mp h
    have hrest : ∀ e' ∈ es, P e' := fun e' he' => hes e' (List.mem_cons_of_mem e he')
    exact ih ht hrest (hstep s e u hs (hes e List.mem_cons_self) hu)

/-- A property that a step keeps exactly when it meets `ok` holds at the end of a
run exactly when it held at its start and every step met `ok`; the events of the
run meet `Q`. -/
theorem run_iff_along_events {I P : σ → Prop} {Q : ε → Prop} {ok : σ → ε → Prop}
    (hinv : ∀ s e t, I s → Q e → S.step s e = some t → I t)
    (hstep : ∀ s e t, I s → Q e → S.step s e = some t → (P t ↔ P s ∧ ok s e))
    {s t : σ} {es : List ε} (h : S.run s es = some t) (hes : ∀ e ∈ es, Q e) (hs : I s) :
    P t ↔ P s ∧ S.Along ok s es := by
  induction es generalizing s with
  | nil =>
    cases h
    simp [Along]
  | cons e es ih =>
    obtain ⟨u, hu, ht⟩ := run_cons_some.mp h
    have he : Q e := hes e List.mem_cons_self
    have hrest : ∀ e' ∈ es, Q e' := fun e' he' => hes e' (List.mem_cons_of_mem e he')
    rw [ih ht hrest (hinv s e u hs he hu), hstep s e u hs he hu, and_assoc]
    refine and_congr_right (fun _ => and_congr_right (fun _ => ⟨fun hal v hv => ?_, fun hal => hal u hu⟩))
    rw [hu] at hv
    cases hv
    exact hal

/-- The same with no condition on the events. -/
theorem run_iff_along {I P : σ → Prop} {ok : σ → ε → Prop}
    (hinv : ∀ s e t, I s → S.step s e = some t → I t)
    (hstep : ∀ s e t, I s → S.step s e = some t → (P t ↔ P s ∧ ok s e))
    {s t : σ} {es : List ε} (h : S.run s es = some t) (hs : I s) :
    P t ↔ P s ∧ S.Along ok s es :=
  run_iff_along_events (Q := fun _ => True) (fun s e u hu _ => hinv s e u hu)
    (fun s e u hu _ => hstep s e u hu) h (fun _ _ => trivial) hs

theorem along_cons {ok : σ → ε → Prop} {s t : σ} {e : ε} {es : List ε}
    (h : S.step s e = some t) (hok : ok s e) (hes : S.Along ok t es) : S.Along ok s (e :: es) := by
  refine ⟨hok, fun u hu => ?_⟩
  rw [h] at hu
  cases hu
  exact hes

/-- Where every event can happen, a property that the steps meeting `ok` keep and no
others do holds all through a run exactly when the run is along `ok`. -/
theorem forall_prefix_iff_along {P : σ → Prop} {ok : σ → ε → Prop}
    (htotal : ∀ s e, ∃ t, S.step s e = some t)
    (hstep : ∀ s e t, P s → S.step s e = some t → (P t ↔ ok s e)) {s : σ} (es : List ε) (hs : P s) :
    (∀ before, before <+: es → ∀ t, S.run s before = some t → P t) ↔ S.Along ok s es := by
  induction es generalizing s with
  | nil =>
    refine ⟨fun _ => trivial, fun _ before hbefore t ht => ?_⟩
    rw [List.prefix_nil.mp hbefore] at ht
    cases ht
    exact hs
  | cons e es ih =>
    obtain ⟨t, ht⟩ := htotal s e
    constructor
    · intro h
      have hPt : P t := h [e] (by simp) t (by rw [run_cons, ht]; rfl)
      refine along_cons ht ((hstep s e t hs ht).mp hPt) ((ih hPt).mp ?_)
      intro before hbefore u hu
      exact h (e :: before) (List.cons_prefix_cons.mpr ⟨rfl, hbefore⟩) u (run_cons_some.mpr ⟨t, ht, hu⟩)
    · intro hal before hbefore u hu
      rcases List.prefix_cons_iff.mp hbefore with rfl | ⟨rest, rfl, hrest⟩
      · cases hu
        exact hs
      · obtain ⟨v, hv, hu⟩ := run_cons_some.mp hu
        have hPv : P v := (hstep s e v hs hv).mpr hal.1
        exact (ih hPv).mpr (hal.2 v hv) rest hrest u hu

/-- Whether the steps of a schedule meet a condition that can be tested. -/
instance decidableAlong (ok : σ → ε → Prop) [∀ s e, Decidable (ok s e)] :
    ∀ (s : σ) (es : List ε), Decidable (S.Along ok s es)
  | _, [] => .isTrue trivial
  | s, e :: es =>
    match h : S.step s e with
    | none => decidable_of_iff (ok s e) (by simp [Along, h])
    | some t =>
      have := decidableAlong ok t es
      decidable_of_iff (ok s e ∧ S.Along ok t es) (by simp [Along, h])

/-- A condition an invariant implies holds along every run from a state with it. -/
theorem along_of_inv {I : σ → Prop} {ok : σ → ε → Prop} (hok : ∀ s e, I s → ok s e)
    (hstep : ∀ s e t, I s → S.step s e = some t → I t) {s : σ} (hs : I s) (es : List ε) :
    S.Along ok s es := by
  induction es generalizing s with
  | nil => trivial
  | cons e es ih => exact ⟨hok s e hs, fun t ht => ih (hstep s e t hs ht)⟩

end System

end Transition
