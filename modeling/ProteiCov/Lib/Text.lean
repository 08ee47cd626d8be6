import Mathlib.Data.List.Basic

/-
  Lines of fields between separators, and decimal numbers in them

  A line written as fields with a separator between them splits back into the fields
  exactly when no field has the separator in it (`splitOn_intercalate_iff`); how many
  parts it splits into already tells (`length_splitOn_intercalate_iff`). `lines` ends
  each line with the separator instead.

  `integer` and `setw` write what a C++ stream writes for an integer and for a number
  padded with zeros; `readInteger` and `Nat.ofDigitChars` read it back. `labelledLine`
  writes a number after a label; the first line with a label is the one
  `readLabelled` finds.
-/

namespace Text

section
variable {α : Type} [DecidableEq α] (sep : α)

theorem length_splitOn (l : List α) : (l.splitOn sep).length = l.count sep + 1 := by
  induction l with
  | nil => rfl
  | cons x l ih =>
    rw [List.splitOn_cons_eq_if_modifyHead]
    by_cases h : x = sep
    · subst h
      simp [ih]
    · simp [h, ih]

theorem count_intercalate {fields : List (List α)} (h : fields ≠ []) :
    ([sep].intercalate fields).count sep + 1 = fields.length + fields.flatten.count sep := by
  induction fields with
  | nil => exact absurd rfl h
  | cons f fields ih =>
    cases fields with
    | nil => simp [Nat.add_comm]
    | cons g fields =>
      have hrest := ih (by simp)
      rw [List.intercalate_cons_cons, List.count_append, List.count_append, List.count_singleton_self,
        List.flatten_cons, List.count_append, List.length_cons]
      omega

/-- The number of parts tells whether a field has the separator in it. -/
theorem length_splitOn_intercalate_iff {fields : List (List α)} (h : fields ≠ []) :
    (([sep].intercalate fields).splitOn sep).length = fields.length ↔ ∀ f ∈ fields, sep ∉ f := by
  rw [length_splitOn, count_intercalate sep h, Nat.add_eq_left, List.count_eq_zero]
  simp [List.mem_flatten]

/-- So do the parts. -/
theorem splitOn_intercalate_iff {fields : List (List α)} (h : fields ≠ []) :
    ([sep].intercalate fields).splitOn sep = fields ↔ ∀ f ∈ fields, sep ∉ f := by
  constructor
  · intro heq
    exact (length_splitOn_intercalate_iff sep h).mp (by rw [heq])
  · intro hfields
    exact List.splitOn_intercalate sep hfields h

theorem not_mem_of_mem_splitOn {l part : List α} (h : part ∈ l.splitOn sep) : sep ∉ part := by
  have hall := (splitOn_intercalate_iff sep (List.splitOn_ne_nil sep l)).mp
    (by rw [List.intercalate_splitOn])
  exact hall part h

omit [DecidableEq α] in
theorem mem_intercalate_of_mem {fields : List (List α)} {f : List α} (hf : f ∈ fields) {x : α} (hx : x ∈ f) :
    x ∈ [sep].intercalate fields := by
  induction fields with
  | nil => cases hf
  | cons g fields ih =>
    cases fields with
    | nil =>
      rw [List.mem_singleton.mp hf] at hx
      simpa using hx
    | cons g' fields =>
      rw [List.intercalate_cons_cons, List.mem_append]
      rcases List.mem_cons.mp hf with rfl | hf
      · exact Or.inl (List.mem_append_left _ hx)
      · exact Or.inr (ih hf)

theorem mem_of_mem_splitOn {l part : List α} (h : part ∈ l.splitOn sep) {x : α} (hx : x ∈ part) : x ∈ l := by
  have hmem := mem_intercalate_of_mem sep h hx
  rwa [List.intercalate_splitOn] at hmem

/-- Every line is ended by a separator. -/
def lines (ls : List (List α)) : List α := ls.flatMap (· ++ [sep])

omit [DecidableEq α] in
theorem lines_append (ls ms : List (List α)) : lines sep (ls ++ ms) = lines sep ls ++ lines sep ms :=
  List.flatMap_append

theorem splitOn_lines {ls : List (List α)} (h : ∀ l ∈ ls, sep ∉ l) :
    (lines sep ls).splitOn sep = ls ++ [[]] := by
  induction ls with
  | nil => rfl
  | cons l ls ih =>
    have hcons : lines sep (l :: ls) = l ++ sep :: lines sep ls := by simp [lines]
    rw [hcons, List.splitOn_append_cons_self_of_not_mem (h l List.mem_cons_self),
      ih (fun m hm => h m (List.mem_cons_of_mem l hm)), List.cons_append]

end

/-! Parts that are read each for itself. -/

section
variable {α β : Type} {f : α → Option β}

theorem mapM_eq_map {l : List α} {g : α → β} (h : ∀ x ∈ l, f x = some (g x)) : l.mapM f = some (l.map g) := by
  induction l with
  | nil => rfl
  | cons x l ih =>
    have hrest := ih (fun y hy => h y (List.mem_cons_of_mem x hy))
    rw [List.mapM_cons, h x List.mem_cons_self, hrest]
    rfl

theorem mem_of_mapM {l : List α} {ys : List β} (h : l.mapM f = some ys) {y : β} (hy : y ∈ ys) :
    ∃ x ∈ l, f x = some y := by
  induction l generalizing ys with
  | nil =>
    cases h
    cases hy
  | cons x l ih =>
    rw [List.mapM_cons] at h
    obtain ⟨z, hz, h⟩ := Option.bind_eq_some_iff.mp h
    obtain ⟨zs, hzs, h⟩ := Option.bind_eq_some_iff.mp h
    cases h
    rcases List.mem_cons.mp hy with rfl | hy
    · exact ⟨x, List.mem_cons_self, hz⟩
    · obtain ⟨x', hx', hf⟩ := ih hzs hy
      exact ⟨x', List.mem_cons_of_mem x hx', hf⟩

end

/-! Numbers. -/

/-- What `<<` writes for an integer. -/
def integer (n : Int) : List Char :=
  if n < 0 then '-' :: Nat.toDigits 10 n.natAbs else Nat.toDigits 10 n.natAbs

/-- The integer a stream wrote. -/
def readInteger : List Char → Int
  | '-' :: ds => -(Nat.ofDigitChars 10 ds 0 : Int)
  | ds => (Nat.ofDigitChars 10 ds 0 : Int)

theorem mem_toDigits {n : Nat} {c : Char} (h : c ∈ Nat.toDigits 10 n) : c.isDigit = true :=
  Nat.isDigit_of_mem_toDigits (by decide) (by decide) h

theorem not_mem_integer {c : Char} (hdigit : c.isDigit = false) (hsign : c ≠ '-') (n : Int) :
    c ∉ integer n := by
  have hdigits : c ∉ Nat.toDigits 10 n.natAbs := by
    intro hc
    rw [mem_toDigits hc] at hdigit
    cases hdigit
  unfold integer
  split
  · simp [hsign, hdigits]
  · exact hdigits

theorem readInteger_integer (n : Int) : readInteger (integer n) = n := by
  unfold integer
  split
  · rename_i hneg
    show -((Nat.ofDigitChars 10 (Nat.toDigits 10 n.natAbs) 0 : Nat) : Int) = n
    rw [Nat.ofDigitChars_ten_toDigits]
    omega
  · rename_i hpos
    have hread : readInteger (Nat.toDigits 10 n.natAbs) = (n.natAbs : Int) := by
      unfold readInteger
      split
      · rename_i ds heq
        have hsign : '-' ∈ Nat.toDigits 10 n.natAbs := by simp [heq]
        cases mem_toDigits hsign
      · rw [Nat.ofDigitChars_ten_toDigits]
    rw [hread]
    omega

theorem integer_injective : Function.Injective integer := by
  intro m n h
  rw [← readInteger_integer m, h, readInteger_integer]

theorem toList_toString (n : Int) : (toString n).toList = integer n := by
  cases n with
  | ofNat m =>
    show (Nat.repr m).toList = integer (Int.ofNat m)
    rw [Nat.toList_repr]
    simp [integer]
  | negSucc m =>
    show ("-" ++ Nat.repr (m + 1)).toList = integer (Int.negSucc m)
    rw [String.toList_append, Nat.toList_repr]
    simp [integer, Int.negSucc_lt_zero]

/-- `setw(width)` with `setfill('0')`. -/
def setw (width : Nat) (text : List Char) : List Char := text.leftpad width '0'

theorem length_setw {width : Nat} {text : List Char} (h : text.length ≤ width) :
    (setw width text).length = width := by
  unfold setw List.leftpad
  rw [List.length_append, List.length_replicate]
  omega

theorem ofDigitChars_setw (width n : Nat) :
    Nat.ofDigitChars 10 (setw width (Nat.toDigits 10 n)) 0 = n := by
  unfold setw List.leftpad
  rw [Nat.ofDigitChars_append, Nat.ofDigitChars_replicate_zero, Nat.mul_zero,
    Nat.ofDigitChars_ten_toDigits]

theorem mem_setw {width : Nat} {text : List Char} {c : Char} (h : c ∈ setw width text) :
    c = '0' ∨ c ∈ text := by
  unfold setw List.leftpad at h
  rcases List.mem_append.mp h with h | h
  · exact Or.inl (List.eq_of_mem_replicate h)
  · exact Or.inr h

/-! Numbers after labels. -/

/-- The line `label: n`. -/
def labelledLine (label : List Char) (n : Int) : List Char := label ++ ':' :: ' ' :: integer n

/-- The number on the first line with the label. -/
def readLabelled (label text : List Char) : Option Int :=
  ((text.splitOn '\n').find? (fun line => line.takeWhile (· ≠ ':') = label)).map
    (fun line => readInteger ((line.dropWhile (· ≠ ':')).drop 2))

theorem newline_not_mem_labelledLine {label : List Char} (h : '\n' ∉ label) (n : Int) :
    '\n' ∉ labelledLine label n := by
  have hn : '\n' ∉ integer n := not_mem_integer (by decide) (by decide) n
  simp [labelledLine, h, hn]

theorem takeWhile_labelledLine {label : List Char} (h : ':' ∉ label) (n : Int) :
    (labelledLine label n).takeWhile (· ≠ ':') = label := by
  have hlabel : ∀ c ∈ label, decide (c ≠ ':') = true := by
    intro c hc
    exact decide_eq_true (fun heq => h (heq ▸ hc))
  rw [labelledLine, List.takeWhile_append_of_pos hlabel]
  simp

theorem dropWhile_labelledLine {label : List Char} (h : ':' ∉ label) (n : Int) :
    (labelledLine label n).dropWhile (· ≠ ':') = ':' :: ' ' :: integer n := by
  have hlabel : ∀ c ∈ label, decide (c ≠ ':') = true := by
    intro c hc
    exact decide_eq_true (fun heq => h (heq ▸ hc))
  rw [labelledLine, List.dropWhile_append_of_pos hlabel]
  simp

/-- The first line of a text is read, or passed over. -/
theorem readLabelled_cons {label : List Char} (hcolon : ':' ∉ label) (hnewline : '\n' ∉ label)
    (sought rest : List Char) (n : Int) :
    readLabelled sought (labelledLine label n ++ '\n' :: rest) =
      if label = sought then some n else readLabelled sought rest := by
  unfold readLabelled
  rw [List.splitOn_append_cons_self_of_not_mem (newline_not_mem_labelledLine hnewline n),
    List.find?_cons, takeWhile_labelledLine hcolon]
  by_cases h : label = sought
  · simp only [h, decide_true, if_true, Option.map_some]
    rw [← h, dropWhile_labelledLine hcolon]
    exact congrArg some (readInteger_integer n)
  · simp only [h, decide_false, if_false]

end Text
