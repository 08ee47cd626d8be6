import Mathlib.Algebra.Group.Int.Defs
import Mathlib.Algebra.Group.Nat.Defs

/-
  Executions of C++ code over a state, and the parts of the standard library a
  model needs

  `Exec σ α` is a piece of C++ code acting on a state `σ`: it returns, leaves
  with an exception (the changes made so far stay, as in C++), or runs into
  undefined behaviour, which nothing can catch. `tryCatch` is a `try` block with
  a handler.

  `Promise` is the shared state of a `std::promise`: settling it twice and
  retrieving its future twice throw `std::future_error`. `stoll` is `std::stoll`
  in base 10: white space, an optional sign, at least one digit, and whatever
  follows the digits is ignored.
-/

namespace Cpp

/-- The standard exceptions told apart; `other` stands for any further
`std::exception`. -/
inductive StdException where
  | invalid_argument
  | out_of_range
  | length_error
  | promise_already_satisfied
  | future_already_retrieved
  | broken_promise
  | other (code : Nat)
  deriving DecidableEq, Repr

/-- The exceptions that are a `std::future_error`. -/
def StdException.isFutureError : StdException → Bool
  | promise_already_satisfied | future_already_retrieved | broken_promise => true
  | _ => false

theorem except_bind_eq_ok {α β : Type} {x : Except StdException α}
    {f : α → Except StdException β} {b : β} :
    (x >>= f) = .ok b ↔ ∃ a, x = .ok a ∧ f a = .ok b := by
  cases x with
  | error e => simp [bind, Except.bind]
  | ok a => simp [bind, Except.bind]

/-- How a piece of code ends. -/
inductive Outcome (α : Type) where
  | ok (a : α)
  | throws (e : StdException)
  | undefined
  deriving DecidableEq, Repr

/-- Code over the state `σ` with a result in `α`. -/
def Exec (σ α : Type) := σ → Outcome α × σ

namespace Exec
variable {σ α β : Type}

/-- Run the code from a state. -/
def run (x : Exec σ α) (s : σ) : Outcome α × σ := x s

protected def pure (a : α) : Exec σ α := fun s => (.ok a, s)

protected def bind (x : Exec σ α) (f : α → Exec σ β) : Exec σ β := fun s =>
  match x.run s with
  | (.ok a, t) => (f a).run t
  | (.throws e, t) => (.throws e, t)
  | (.undefined, t) => (.undefined, t)

instance : Monad (Exec σ) where
  pure := Exec.pure
  bind := Exec.bind

def throw (e : StdException) : Exec σ α := fun s => (.throws e, s)

/-- Code whose behaviour the language does not define. -/
def undefined : Exec σ α := fun s => (.undefined, s)

/-- `try { x } catch (...) { h }`: undefined behaviour is not caught. -/
def tryCatch (x : Exec σ α) (h : StdException → Exec σ α) : Exec σ α := fun s =>
  match x.run s with
  | (.ok a, t) => (.ok a, t)
  | (.throws e, t) => (h e).run t
  | (.undefined, t) => (.undefined, t)

/-- Read the state. -/
def get (f : σ → α) : Exec σ α := fun s => (.ok (f s), s)

/-- Change the state. -/
def modify (f : σ → σ) : Exec σ Unit := fun s => (.ok (), f s)

/-- A fallible pure step. -/
def ofExcept (x : Except StdException α) : Exec σ α := fun s =>
  match x with
  | .ok a => (.ok a, s)
  | .error e => (.throws e, s)

/-! The equations of each construct. -/

@[simp] theorem run_pure (a : α) (s : σ) : (pure a : Exec σ α).run s = (.ok a, s) := rfl

@[simp] theorem run_throw (e : StdException) (s : σ) :
    (throw e : Exec σ α).run s = (.throws e, s) := rfl

@[simp] theorem run_undefined (s : σ) : (undefined : Exec σ α).run s = (.undefined, s) := rfl

@[simp] theorem run_get (f : σ → α) (s : σ) : (get f).run s = (.ok (f s), s) := rfl

@[simp] theorem run_modify (f : σ → σ) (s : σ) : (modify f).run s = (.ok (), f s) := rfl

@[simp] theorem run_ofExcept_ok (a : α) (s : σ) : (ofExcept (.ok a)).run s = (.ok a, s) := rfl

@[simp] theorem run_ofExcept_error (e : StdException) (s : σ) :
    (ofExcept (.error e) : Exec σ α).run s = (.throws e, s) := rfl

theorem run_bind (x : Exec σ α) (f : α → Exec σ β) (s : σ) :
    (x >>= f).run s = match x.run s with
      | (.ok a, t) => (f a).run t
      | (.throws e, t) => (.throws e, t)
      | (.undefined, t) => (.undefined, t) := rfl

theorem run_bind_ok {x : Exec σ α} {f : α → Exec σ β} {s t : σ} {a : α}
    (h : x.run s = (.ok a, t)) : (x >>= f).run s = (f a).run t := by
  rw [run_bind, h]

theorem run_bind_throws {x : Exec σ α} {f : α → Exec σ β} {s t : σ} {e : StdException}
    (h : x.run s = (.throws e, t)) : (x >>= f).run s = (.throws e, t) := by
  rw [run_bind, h]

theorem run_bind_undefined {x : Exec σ α} {f : α → Exec σ β} {s t : σ}
    (h : x.run s = (.undefined, t)) : (x >>= f).run s = (.undefined, t) := by
  rw [run_bind, h]

theorem run_tryCatch_ok {x : Exec σ α} {h : StdException → Exec σ α} {s t : σ} {a : α}
    (hx : x.run s = (.ok a, t)) : (tryCatch x h).run s = (.ok a, t) := by
  show (match x.run s with | (.ok a, t) => _ | (.throws e, t) => _ | (.undefined, t) => _) = _
  rw [hx]

theorem run_tryCatch_throws {x : Exec σ α} {h : StdException → Exec σ α} {s t : σ}
    {e : StdException} (hx : x.run s = (.throws e, t)) : (tryCatch x h).run s = (h e).run t := by
  show (match x.run s with | (.ok a, t) => _ | (.throws e, t) => _ | (.undefined, t) => _) = _
  rw [hx]

theorem run_tryCatch_undefined {x : Exec σ α} {h : StdException → Exec σ α} {s t : σ}
    (hx : x.run s = (.undefined, t)) : (tryCatch x h).run s = (.undefined, t) := by
  show (match x.run s with | (.ok a, t) => _ | (.throws e, t) => _ | (.undefined, t) => _) = _
  rw [hx]

/-- Code that returns returned from its first part. -/
theorem bind_eq_ok {x : Exec σ α} {f : α → Exec σ β} {s u : σ} {b : β}
    (h : (x >>= f).run s = (.ok b, u)) : ∃ a t, x.run s = (.ok a, t) ∧ (f a).run t = (.ok b, u) := by
  rw [run_bind] at h
  cases hx : x.run s with
  | mk o t =>
    rw [hx] at h
    cases o with
    | ok a => exact ⟨a, t, rfl, h⟩
    | throws e => cases h
    | undefined => cases h

end Exec

/-! Promises. -/

/-- What a promise was settled with. -/
inductive Settled (ρ : Type) where
  | value (r : ρ)
  | exception (e : StdException)
  deriving DecidableEq, Repr

/-- The shared state of a promise: whether its future was retrieved, and what it
was settled with. -/
structure Promise (ρ : Type) where
  retrieved : Bool
  state : Option (Settled ρ)
  deriving DecidableEq, Repr, Inhabited

namespace Promise
variable {ρ : Type}

/-- A promise just made. -/
def fresh : Promise ρ := ⟨false, none⟩

/-- `set_value` and `set_exception`. -/
def settle (p : Promise ρ) (v : Settled ρ) : Except StdException (Promise ρ) :=
  match p.state with
  | none => .ok { p with state := some v }
  | some _ => .error .promise_already_satisfied

/-- `get_future`. -/
def get_future (p : Promise ρ) : Except StdException (Promise ρ) :=
  if p.retrieved then .error .future_already_retrieved else .ok { p with retrieved := true }

end Promise

/-! Numbers in text. -/

/-- The characters `isspace` accepts in the C locale. -/
def isspace (c : Char) : Bool := [9, 10, 11, 12, 13, 32].contains c.toNat

/-- The value of a row of decimal digits. -/
def decimal (ds : List Char) : Nat := ds.foldl (fun n c => n * 10 + (c.toNat - 48)) 0

/-- The sign and the text after it. -/
def signed : List Char → Int × List Char
  | '-' :: cs => (-1, cs)
  | '+' :: cs => (1, cs)
  | cs => (1, cs)

/-- `std::stoll(s)`. -/
def stoll (s : List Char) : Except StdException Int64 :=
  let (sign, rest) := signed (s.dropWhile isspace)
  let digits := rest.takeWhile Char.isDigit
  if digits = [] then .error .invalid_argument
  else
    let n : Int := sign * decimal digits
    if -2 ^ 63 ≤ n ∧ n < 2 ^ 63 then .ok (Int64.ofInt n) else .error .out_of_range

theorem stoll_error {s : List Char} {e : StdException} (h : stoll s = .error e) : e.isFutureError = false := by
  unfold stoll at h
  simp only at h
  split at h
  · cases h
    rfl
  · split at h
    · cases h
    · cases h
      rfl

end Cpp
