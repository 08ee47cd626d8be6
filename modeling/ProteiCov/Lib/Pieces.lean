import ProteiCov.Lib.Cpp
import ProteiCov.Lib.Transition

/-
  Code that is run in pieces

  Code that other threads can interrupt is given in pieces: `piece p` is what happens
  from the point `p` to the next point, which it returns. A step of a system is then
  one piece of one thread.

  `Pieces.whole` is the same code in one go. `run_pieces` says that a thread nobody
  interrupts does what the whole does, and ends the way it ends: that is how the source,
  which has no points, and a system made of pieces of it are compared. That comparison
  puts binds in another order, so two of the monad laws are here as well.
-/

namespace Cpp

namespace Exec
variable {σ : Type}

protected theorem pure_bind {α β : Type} (a : α) (f : α → Exec σ β) : pure a >>= f = f a := rfl

/-- By how the first part ends. -/
protected theorem bind_assoc {α β γ : Type} (x : Exec σ α) (f : α → Exec σ β) (g : β → Exec σ γ) :
    x >>= f >>= g = x >>= fun a => f a >>= g := by
  funext s
  show (x >>= f >>= g).run s = (x >>= fun a => f a >>= g).run s
  cases hx : x.run s with
  | mk o t =>
    cases o with
    | ok a => rw [run_bind, run_bind_ok hx, run_bind_ok hx, run_bind]
    | throws e => rw [run_bind_throws (run_bind_throws hx), run_bind_throws hx]
    | undefined => rw [run_bind_undefined (run_bind_undefined hx), run_bind_undefined hx]

end Exec

/-- Code in pieces. No more than `rank p` of them are left at the point `p`. -/
structure Pieces (σ π : Type) where
  piece : π → Exec σ π
  rank : π → Nat
  lowers : ∀ {p q : π} {s t : σ}, rank p ≠ 0 → (piece p).run s = (.ok q, t) → rank q < rank p

namespace Pieces
variable {σ π τ ε : Type} (P : Pieces σ π)

/-- At most `n` pieces in one go. -/
def whole : Nat → π → Exec σ π
  | 0, p => pure p
  | n + 1, p => if P.rank p = 0 then pure p else P.piece p >>= whole n

variable {P}

theorem whole_end {p : π} (h : P.rank p = 0) (n : Nat) : P.whole n p = pure p := by
  cases n with
  | zero => rfl
  | succ n => exact if_pos h

theorem whole_succ {p : π} (h : P.rank p ≠ 0) (n : Nat) :
    P.whole (n + 1) p = P.piece p >>= P.whole n := if_neg h

/-- A thread whose every step is the next piece ends as the whole does: `Stands u o s`
says that the thread came to `o` in the state `u` of the system, of which `s` is the
state the code is about. -/
theorem run_pieces {S : Transition.System τ ε} {e : ε} {Stands : τ → Outcome π → σ → Prop}
    (hstep : ∀ u p s, Stands u (.ok p) s → P.rank p ≠ 0 →
      ∃ v, S.step u e = some v ∧ Stands v ((P.piece p).run s).1 ((P.piece p).run s).2)
    {n : Nat} {u : τ} {p : π} {s : σ} (hn : P.rank p ≤ n) (hu : Stands u (.ok p) s) :
    ∃ k ≤ n, ∃ v, S.run u (List.replicate k e) = some v ∧
      Stands v ((P.whole n p).run s).1 ((P.whole n p).run s).2 := by
  induction n generalizing u p s with
  | zero => exact ⟨0, Nat.le_refl 0, u, rfl, hu⟩
  | succ n ih =>
    by_cases hp : P.rank p = 0
    · rw [whole_end hp]
      exact ⟨0, Nat.zero_le _, u, rfl, hu⟩
    · obtain ⟨v, hv, hstands⟩ := hstep u p s hu hp
      rw [whole_succ hp]
      cases hrun : (P.piece p).run s with
      | mk o t =>
        rw [hrun] at hstands
        have hone : S.run u (List.replicate 1 e) = some v := Transition.System.run_cons_some.mpr ⟨v, hv, rfl⟩
        cases o with
        | throws x =>
          rw [Exec.run_bind_throws hrun]
          exact ⟨1, Nat.succ_le_succ (Nat.zero_le n), v, hone, hstands⟩
        | undefined =>
          rw [Exec.run_bind_undefined hrun]
          exact ⟨1, Nat.succ_le_succ (Nat.zero_le n), v, hone, hstands⟩
        | ok q =>
          -- the rest has one piece less
          have hlt := P.lowers hp hrun
          obtain ⟨k, hk, w, hw, hend⟩ := ih (by omega) hstands
          rw [Exec.run_bind_ok hrun]
          refine ⟨k + 1, Nat.succ_le_succ hk, w, ?_, hend⟩
          rw [List.replicate_succ]
          exact Transition.System.run_cons_some.mpr ⟨v, hv, hw⟩

end Pieces

end Cpp
