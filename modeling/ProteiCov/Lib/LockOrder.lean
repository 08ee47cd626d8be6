import Mathlib.Data.Finset.Max
import Mathlib.Data.Set.Finite.Basic

/-
  Threads over locks, and deadlock freedom from an order on the locks

  A thread runs a program of operations: it takes a resource, alone or with others,
  releases one, waits until nobody has one, blocks on something that is no resource,
  or calls a procedure; what the body of a call is, is decided by who runs it. A
  resource has no state of its own: who has it is what the threads hold, so a lock is
  a resource that is taken and released, and a thread that may be joined is a resource
  it holds itself until it ends.

  A `Discipline` ranks the resources and says what a thread may hold where it calls a
  procedure and where it blocks. A thread conforms if it only ever asks for a
  resource that ranks above all it holds.

  What is proved:
    1. `conforms_step`, `conforms_call` — the operations keep a thread conforming, and
       so does a call whose body fits.
    2. `no_cycle` — of conforming threads, no non-empty finite set is such that each
       asks for a resource that a member holds.
-/

namespace LockOrder

inductive Mode where
  | exclusive
  | shared
  deriving DecidableEq, Repr

/-- An operation of a thread over the resources `ρ`; its procedures are `γ`. -/
inductive Op (ρ γ : Type) where
  | acquire (m : Mode) (r : ρ)
  | release (r : ρ)
  | await (r : ρ)
  | block
  | call (c : γ)
  deriving DecidableEq, Repr

structure Thread (ρ γ : Type) where
  held : List (ρ × Mode)
  todo : List (Op ρ γ)
  deriving DecidableEq, Repr

namespace Thread
variable {ρ γ : Type}

/-- The resources a thread holds. -/
def holds (t : Thread ρ γ) : List ρ := t.held.map Prod.fst

/-- The resource a thread asks for. -/
def wants (t : Thread ρ γ) : Option ρ :=
  match t.todo with
  | .acquire _ r :: _ | .await r :: _ => some r
  | _ => none

variable [DecidableEq ρ]

/-- A resource is free to be taken in the mode. -/
def Free (threads : List (Thread ρ γ)) (r : ρ) : Mode → Prop
  | .exclusive => ∀ t ∈ threads, r ∉ t.holds
  | .shared => ∀ t ∈ threads, (r, .exclusive) ∉ t.held

instance freeDecidable (threads : List (Thread ρ γ)) (r : ρ) : ∀ m, Decidable (Free threads r m)
  | .exclusive => inferInstanceAs (Decidable (∀ t ∈ threads, r ∉ t.holds))
  | .shared => inferInstanceAs (Decidable (∀ t ∈ threads, (r, Mode.exclusive) ∉ t.held))

/-- The next operation of a thread among `threads`; a call is none of them. -/
def step (threads : List (Thread ρ γ)) (t : Thread ρ γ) : Option (Thread ρ γ) :=
  match t.todo with
  | .acquire m r :: ops => if Free threads r m then some ⟨(r, m) :: t.held, ops⟩ else none
  | .release r :: ops => some ⟨t.held.eraseP (fun h => h.1 = r), ops⟩
  | .await r :: ops => if Free threads r .exclusive then some ⟨t.held, ops⟩ else none
  | .block :: ops => some ⟨t.held, ops⟩
  | .call _ :: _ | [] => none

theorem holds_eraseP (held : List (ρ × Mode)) (r : ρ) :
    (held.eraseP (fun h => h.1 = r)).map Prod.fst = (held.map Prod.fst).erase r := by
  induction held with
  | nil => rfl
  | cons h held ih =>
    by_cases hr : h.1 = r
    · simp [hr]
    · simp [hr, ih]

/-- A thread does its operations one after another, and loses only what it releases. -/
theorem step_todo {threads : List (Thread ρ γ)} {t u : Thread ρ γ} (h : t.step threads = some u) :
    ∃ op, t.todo = op :: u.todo ∧ ∀ r ∈ t.holds, op ≠ .release r → r ∈ u.holds := by
  obtain ⟨held, todo⟩ := t
  cases todo with
  | nil => cases h
  | cons op ops =>
    refine ⟨op, ?_⟩
    cases op with
    | acquire m r =>
      simp only [step] at h
      split at h
      · cases h
        exact ⟨rfl, fun x hx _ => List.mem_cons_of_mem _ hx⟩
      · cases h
    | release r =>
      cases h
      refine ⟨rfl, fun x hx hne => ?_⟩
      show x ∈ (held.eraseP _).map Prod.fst
      rw [holds_eraseP]
      exact (List.mem_erase_of_ne (fun heq => hne (congrArg Op.release heq.symm))).mpr hx
    | await r =>
      simp only [step] at h
      split at h
      · cases h
        exact ⟨rfl, fun x hx _ => hx⟩
      · cases h
    | block =>
      cases h
      exact ⟨rfl, fun x hx _ => hx⟩
    | call c => cases h

end Thread

/-- An order on the resources, the ones a blocked thread may keep, and what a caller of
a procedure holds. -/
structure Discipline (ρ γ κ : Type) where
  rank : ρ → κ
  keeps : ρ → Prop
  pre : γ → List ρ → Prop

namespace Discipline
variable {ρ γ κ : Type} [DecidableEq ρ] [LinearOrder κ] (D : Discipline ρ γ κ)

/-- All that is held ranks below the resource. -/
def Below (held : List ρ) (r : ρ) : Prop := ∀ x ∈ held, D.rank x < D.rank r

/-- A program that starts with `held` and ends with `last` keeps to the discipline. -/
def Fits (last : List ρ) : List ρ → List (Op ρ γ) → Prop
  | held, [] => held = last
  | held, .acquire _ r :: ops => D.Below held r ∧ Fits last (r :: held) ops
  | held, .release r :: ops => Fits last (held.erase r) ops
  | held, .await r :: ops => D.Below held r ∧ Fits last held ops
  | held, .block :: ops => (∀ r ∈ held, D.keeps r) ∧ Fits last held ops
  | held, .call c :: ops => D.pre c held ∧ Fits last held ops

/-- The thread keeps to the discipline and ends with nothing. -/
def Conforms (t : Thread ρ γ) : Prop := D.Fits [] t.holds t.todo

variable {D}

theorem Fits.append {last mid held : List ρ} {ops rest : List (Op ρ γ)} (h : D.Fits mid held ops)
    (hrest : D.Fits last mid rest) : D.Fits last held (ops ++ rest) := by
  induction ops generalizing held with
  | nil =>
    have heq : held = mid := h
    exact heq ▸ hrest
  | cons op ops ih =>
    cases op with
    | acquire m r => exact ⟨h.1, ih h.2⟩
    | release r => exact ih h
    | await r => exact ⟨h.1, ih h.2⟩
    | block => exact ⟨h.1, ih h.2⟩
    | call c => exact ⟨h.1, ih h.2⟩

theorem Fits.release {last held : List ρ} {r : ρ} {ops : List (Op ρ γ)} (h : D.Fits last held ops) :
    D.Fits last (r :: held) (.release r :: ops) := by
  show D.Fits last ((r :: held).erase r) ops
  rw [List.erase_cons_head]
  exact h

theorem Fits.awaits {held rs : List ρ} (h : ∀ r ∈ rs, D.Below held r) :
    D.Fits held held (rs.map (Op.await (γ := γ))) := by
  induction rs with
  | nil => rfl
  | cons r rs ih =>
    exact ⟨h r List.mem_cons_self, ih (fun x hx => h x (List.mem_cons_of_mem _ hx))⟩

theorem Fits.sections {held rs : List ρ} (m : Mode) (h : ∀ r ∈ rs, D.Below held r) :
    D.Fits held held (rs.flatMap (fun r => [.acquire m r, .release r])) := by
  induction rs with
  | nil => rfl
  | cons r rs ih =>
    exact ⟨h r List.mem_cons_self, Fits.release (ih (fun x hx => h x (List.mem_cons_of_mem _ hx)))⟩

/-- An operation keeps a thread conforming. -/
theorem conforms_step {threads : List (Thread ρ γ)} {t u : Thread ρ γ} (ht : D.Conforms t)
    (h : t.step threads = some u) : D.Conforms u := by
  obtain ⟨held, todo⟩ := t
  cases todo with
  | nil => cases h
  | cons op ops =>
    cases op with
    | acquire m r =>
      simp only [Thread.step] at h
      split at h
      · cases h
        exact ht.2
      · cases h
    | release r =>
      cases h
      show D.Fits [] ((held.eraseP _).map Prod.fst) ops
      rw [Thread.holds_eraseP]
      exact ht
    | await r =>
      simp only [Thread.step] at h
      split at h
      · cases h
        exact ht.2
      · cases h
    | block =>
      cases h
      exact ht.2
    | call c => cases h

/-- So does a call, if the body fits what the caller holds. -/
theorem conforms_call {held : List (ρ × Mode)} {c : γ} {body ops : List (Op ρ γ)}
    (ht : D.Conforms ⟨held, .call c :: ops⟩)
    (hbody : D.pre c (held.map Prod.fst) → D.Fits (held.map Prod.fst) (held.map Prod.fst) body) :
    D.Conforms ⟨held, body ++ ops⟩ :=
  (hbody ht.1).append ht.2

/-- What a thread asks for ranks above all it holds. -/
theorem below_of_wants {t : Thread ρ γ} (ht : D.Conforms t) {r : ρ} (h : t.wants = some r) :
    D.Below t.holds r := by
  obtain ⟨held, todo⟩ := t
  cases todo with
  | nil => cases h
  | cons op ops =>
    cases op with
    | acquire m x =>
      cases h
      exact ht.1
    | await x =>
      cases h
      exact ht.1
    | release x => cases h
    | block => cases h
    | call c => cases h

/-- The rank of what a thread asks for. -/
def level (D : Discipline ρ γ κ) (t : Thread ρ γ) : WithBot κ :=
  match t.wants with
  | some r => D.rank r
  | none => ⊥

/-- No set of conforming threads waits in a circle: the one that asks for the highest
resource asks for one that no member holds. -/
theorem no_cycle {ι : Type} {threads : ι → Thread ρ γ} {S : Set ι} (hfin : S.Finite) (hne : S.Nonempty)
    (h : ∀ i ∈ S, D.Conforms (threads i)) :
    ¬ ∀ i ∈ S, ∃ j ∈ S, ∃ r, (threads i).wants = some r ∧ r ∈ (threads j).holds := by
  intro hall
  obtain ⟨i, hi, hmax⟩ := Finset.exists_max_image hfin.toFinset
    (fun i => D.level (threads i)) (hfin.toFinset_nonempty.mpr hne)
  obtain ⟨j, hj, r, hr, hheld⟩ := hall i (hfin.mem_toFinset.mp hi)
  obtain ⟨_, _, x, hx, _⟩ := hall j hj
  have hlt : D.rank r < D.rank x := below_of_wants (h j hj) hx r hheld
  have hle := hmax j (hfin.mem_toFinset.mpr hj)
  simp only [level, hr, hx] at hle
  exact absurd (WithBot.coe_le_coe.mp hle) (not_le.mpr hlt)

end Discipline

end LockOrder
