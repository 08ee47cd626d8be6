import ProteiCov.CommonStructures
import ProteiCov.Lib.Text
import Mathlib.Logic.Function.Basic

/-
  The line a CDR is written as

  Eight columns with `;` between them, as the heading of the journal names them. The
  number of the caller is one of the columns and is written as it came: a line splits
  into eight columns, and they give the CDR back, exactly where the number has no `;`
  in it (`CDR.decodable_iff`). The admission of calls does not keep such numbers out:
  `stoll` reads the digits at the front and ignores what follows them.

  `put_time` is `localtime` and `put_time` with the format of the source, at a number of
  whole seconds since the epoch. That it renders different seconds differently and
  writes no `;` are hypotheses.
-/

namespace ProteiCov
open Cpp Text

/-- `duration_cast<milliseconds>` of a clock difference: it truncates toward zero. -/
def durationCastMillis (d : Int) : Int := d.tdiv 1000000

/-- `system_clock::to_time_t`. -/
def to_time_t (timeP : TimePoint) : Int := durationCastSeconds timeP

namespace utility

def to_string : CallStatus → List Char
  | .Awaiting => "Awaiting".toList
  | .Completed => "Completed".toList
  | .Duplication => "Duplication".toList
  | .Overloaded => "Overloaded".toList
  | .Rejected => "Rejected".toList
  | .Timeout => "Timeout".toList

def prepareTime (put_time : Int → List Char) (timeP : TimePoint) : List Char :=
  if timeP = 0 then []
  else
    let seconds_ := durationCastSeconds timeP
    let milliseconds_ := durationCastMillis (timeP - seconds_ * nanosPerSecond)
    put_time (to_time_t timeP) ++ ['.'] ++ setw 3 (integer milliseconds_)

end utility
open utility

/-- `out << cdr`. -/
def CDR.out (put_time : Int → List Char) (cdr : CDR) : List Char :=
  prepareTime put_time cdr.startTime ++ [';'] ++ Nat.toDigits 10 cdr.callID.toNat ++ [';'] ++
    cdr.number ++ [';'] ++ prepareTime put_time cdr.endTime ++ [';'] ++
    to_string cdr.status ++ [';'] ++ prepareTime put_time cdr.operatorCallTime ++ [';'] ++
    Nat.toDigits 10 cdr.operatorID.toNat ++ [';'] ++
    integer cdr.callDuration ++ ['s']

/-! Reading a line. -/

/-- What a line tells of a CDR. A time is in milliseconds, `none` for a default time
point. -/
structure Reading where
  startTime : Option Int
  callID : CallID
  number : List Char
  endTime : Option Int
  status : CallStatus
  operatorCallTime : Option Int
  operatorID : UInt64
  callDuration : Int
  deriving DecidableEq, Repr

/-- A time point to the millisecond. -/
def millis (timeP : TimePoint) : Option Int :=
  if timeP = 0 then none else some (durationCastMillis timeP)

def CDR.reading (cdr : CDR) : Reading where
  startTime := millis cdr.startTime
  callID := cdr.callID
  number := cdr.number
  endTime := millis cdr.endTime
  status := cdr.status
  operatorCallTime := millis cdr.operatorCallTime
  operatorID := cdr.operatorID
  callDuration := cdr.callDuration

/-- The status with the name. -/
def readStatus (text : List Char) : CallStatus :=
  ([.Completed, .Duplication, .Overloaded, .Rejected, .Timeout].find?
    (fun status => to_string status = text)).getD .Awaiting

/-- The last four characters of a time are a point and the milliseconds. -/
noncomputable def readTime (put_time : Int → List Char) (text : List Char) : Option Int :=
  if text = [] then none
  else some (Function.invFun put_time (text.take (text.length - 4)) * 1000 +
    Nat.ofDigitChars 10 (text.drop (text.length - 3)) 0)

/-- The columns, each read for itself. -/
noncomputable def readColumns (put_time : Int → List Char) : List (List Char) → Option Reading
  | [startTime, callID, number, endTime, status, operatorCallTime, operatorID, callDuration] =>
    some {
      startTime := readTime put_time startTime
      callID := UInt64.ofNat (Nat.ofDigitChars 10 callID 0)
      number := number
      endTime := readTime put_time endTime
      status := readStatus status
      operatorCallTime := readTime put_time operatorCallTime
      operatorID := UInt64.ofNat (Nat.ofDigitChars 10 operatorID 0)
      callDuration := readInteger callDuration.dropLast }
  | _ => none

/-- No time of the CDR is before the epoch. -/
structure CDR.Timely (cdr : CDR) : Prop where
  startTime : 0 ≤ cdr.startTime
  endTime : 0 ≤ cdr.endTime
  operatorCallTime : 0 ≤ cdr.operatorCallTime

instance CDR.decidableTimely (cdr : CDR) : Decidable cdr.Timely :=
  decidable_of_iff (0 ≤ cdr.startTime ∧ 0 ≤ cdr.endTime ∧ 0 ≤ cdr.operatorCallTime)
    ⟨fun ⟨h₁, h₂, h₃⟩ => ⟨h₁, h₂, h₃⟩, fun ⟨h₁, h₂, h₃⟩ => ⟨h₁, h₂, h₃⟩⟩

/-- The line of the CDR has eight columns, they give back what was written, and a CDR
that differs in any of it writes another line. -/
structure CDR.Decodable (put_time : Int → List Char) (cdr : CDR) : Prop where
  eight : ((cdr.out put_time).splitOn ';').length = 8
  recovers : readColumns put_time ((cdr.out put_time).splitOn ';') = some cdr.reading
  told_apart : ∀ d : CDR, d.Timely → d.reading ≠ cdr.reading → d.out put_time ≠ cdr.out put_time

/-! The columns. -/

section
variable (put_time : Int → List Char)

def CDR.columns (cdr : CDR) : List (List Char) :=
  [prepareTime put_time cdr.startTime, Nat.toDigits 10 cdr.callID.toNat, cdr.number,
    prepareTime put_time cdr.endTime, to_string cdr.status,
    prepareTime put_time cdr.operatorCallTime, Nat.toDigits 10 cdr.operatorID.toNat,
    integer cdr.callDuration ++ ['s']]

theorem CDR.out_eq (cdr : CDR) : cdr.out put_time = [';'].intercalate (cdr.columns put_time) := by
  simp [CDR.out, CDR.columns]

theorem separator_not_in_digits (n : Nat) : ';' ∉ Nat.toDigits 10 n := by
  intro h
  cases mem_toDigits h

theorem separator_not_in_integer (n : Int) : ';' ∉ integer n :=
  not_mem_integer (by decide) (by decide) n

theorem separator_not_in_status (status : CallStatus) : ';' ∉ to_string status := by
  cases status <;> decide

variable {put_time}

theorem separator_not_in_time (hsep : ∀ s, ';' ∉ put_time s) (timeP : TimePoint) :
    ';' ∉ prepareTime put_time timeP := by
  unfold prepareTime
  split
  · exact List.not_mem_nil
  · intro h
    rcases List.mem_append.mp h with h | h
    · rcases List.mem_append.mp h with h | h
      · exact hsep _ h
      · exact absurd h (by decide)
    · rcases mem_setw h with h | h
      · exact absurd h (by decide)
      · exact separator_not_in_integer _ h

/-- Only the number can have a separator in it. -/
theorem separator_in_columns (hsep : ∀ s, ';' ∉ put_time s) (cdr : CDR) :
    (∀ f ∈ cdr.columns put_time, ';' ∉ f) ↔ ';' ∉ cdr.number := by
  constructor
  · intro h
    exact h cdr.number (by simp [CDR.columns])
  · intro hnumber f hf
    simp only [CDR.columns, List.mem_cons, List.not_mem_nil, or_false] at hf
    rcases hf with rfl | rfl | rfl | rfl | rfl | rfl | rfl | rfl
    · exact separator_not_in_time hsep _
    · exact separator_not_in_digits _
    · exact hnumber
    · exact separator_not_in_time hsep _
    · exact separator_not_in_status _
    · exact separator_not_in_time hsep _
    · exact separator_not_in_digits _
    · simp [separator_not_in_integer]

theorem length_splitOn_out (hsep : ∀ s, ';' ∉ put_time s) (cdr : CDR) :
    ((cdr.out put_time).splitOn ';').length = 8 ↔ ';' ∉ cdr.number := by
  rw [CDR.out_eq, ← separator_in_columns hsep]
  exact length_splitOn_intercalate_iff ';' (by simp [CDR.columns])

theorem splitOn_out (hsep : ∀ s, ';' ∉ put_time s) {cdr : CDR} (h : ';' ∉ cdr.number) :
    (cdr.out put_time).splitOn ';' = cdr.columns put_time := by
  rw [CDR.out_eq]
  exact (splitOn_intercalate_iff ';' (by simp [CDR.columns])).mpr ((separator_in_columns hsep cdr).mpr h)

/-! What each column gives back. -/

theorem readStatus_to_string (status : CallStatus) : readStatus (to_string status) = status := by
  cases status <;> decide

theorem millis_split {d : Int} (h : 0 ≤ d) :
    ∃ m : Nat, m < 1000 ∧ durationCastMillis (d - durationCastSeconds d * nanosPerSecond) = m ∧
      durationCastMillis d = durationCastSeconds d * 1000 + m := by
  have hseconds : durationCastSeconds d = d / 1000000000 := Int.tdiv_eq_ediv_of_nonneg h
  have hrest : 0 ≤ d - d / 1000000000 * 1000000000 := by omega
  have hmillis : durationCastMillis (d - durationCastSeconds d * nanosPerSecond) =
      (d - d / 1000000000 * 1000000000) / 1000000 := by
    rw [hseconds]
    exact Int.tdiv_eq_ediv_of_nonneg hrest
  have hwhole : durationCastMillis d = d / 1000000 := Int.tdiv_eq_ediv_of_nonneg h
  refine ⟨((d - d / 1000000000 * 1000000000) / 1000000).toNat, by omega, ?_, ?_⟩
  · rw [hmillis]
    omega
  · rw [hwhole, hseconds]
    omega

theorem readTime_prepareTime (hinj : Function.Injective put_time) {timeP : TimePoint}
    (h : 0 ≤ timeP) : readTime put_time (prepareTime put_time timeP) = millis timeP := by
  unfold prepareTime millis
  by_cases hzero : timeP = 0
  · simp [hzero, readTime]
  · obtain ⟨m, hlt, hm, hwhole⟩ := millis_split h
    have hdigits : integer (m : Int) = Nat.toDigits 10 m := by simp [integer]
    have hwidth : (setw 3 (Nat.toDigits 10 m)).length = 3 :=
      length_setw ((Nat.length_toDigits_le_iff (by decide) (by decide)).mpr (by omega))
    have htake : (put_time (to_time_t timeP) ++ ['.'] ++ setw 3 (Nat.toDigits 10 m)).take
        ((put_time (to_time_t timeP) ++ ['.'] ++ setw 3 (Nat.toDigits 10 m)).length - 4) =
        put_time (to_time_t timeP) := by
      simp [hwidth]
    have hdrop : (put_time (to_time_t timeP) ++ ['.'] ++ setw 3 (Nat.toDigits 10 m)).drop
        ((put_time (to_time_t timeP) ++ ['.'] ++ setw 3 (Nat.toDigits 10 m)).length - 3) =
        setw 3 (Nat.toDigits 10 m) := by
      refine List.drop_left' ?_
      simp [hwidth]
    simp only [if_neg hzero, hm, hdigits]
    unfold readTime
    rw [if_neg (by simp), htake, hdrop, ofDigitChars_setw, Function.leftInverse_invFun hinj, hwhole]
    rfl

theorem readColumns_columns (hinj : Function.Injective put_time) {cdr : CDR} (h : cdr.Timely) :
    readColumns put_time (cdr.columns put_time) = some cdr.reading := by
  simp only [CDR.columns, readColumns, CDR.reading, readTime_prepareTime hinj h.startTime,
    readTime_prepareTime hinj h.endTime, readTime_prepareTime hinj h.operatorCallTime,
    Nat.ofDigitChars_ten_toDigits, readStatus_to_string, List.dropLast_concat, readInteger_integer,
    UInt64.ofNat_toNat]

end

/-- A line can be decoded exactly when the number has no separator in it. -/
theorem CDR.decodable_iff {put_time : Int → List Char} (hinj : Function.Injective put_time)
    (hsep : ∀ s, ';' ∉ put_time s) {cdr : CDR} (htimes : cdr.Timely) :
    cdr.Decodable put_time ↔ ';' ∉ cdr.number := by
  constructor
  · intro h
    exact (length_splitOn_out hsep cdr).mp h.eight
  · intro hnumber
    refine ⟨(length_splitOn_out hsep cdr).mpr hnumber, ?_, ?_⟩
    · rw [splitOn_out hsep hnumber]
      exact readColumns_columns hinj htimes
    · intro d hd hne hout
      -- the same line has as many columns, so the other number has no separator either
      have hd' : ';' ∉ d.number := by
        rw [← length_splitOn_out hsep d, hout]
        exact (length_splitOn_out hsep cdr).mpr hnumber
      have hcolumns : d.columns put_time = cdr.columns put_time := by
        rw [← splitOn_out hsep hd', hout, splitOn_out hsep hnumber]
      have hread := readColumns_columns hinj hd
      rw [hcolumns, readColumns_columns hinj htimes] at hread
      exact hne (Option.some_inj.mp hread).symm

/-- The first minute after the epoch as UTC renders it; later times get a text of their
own. -/
def firstMinute (s : Int) : List Char :=
  if 0 ≤ s ∧ s < 60 then "1970-01-01 00:00:".toList ++ setw 2 (integer s) else integer s

theorem firstMinute_separator (s : Int) : ';' ∉ firstMinute s := by
  unfold firstMinute
  split
  · intro h
    rcases List.mem_append.mp h with h | h
    · exact absurd h (by decide)
    · rcases mem_setw h with h | h
      · exact absurd h (by decide)
      · exact separator_not_in_integer s h
  · exact separator_not_in_integer s

theorem firstMinute_injective : Function.Injective firstMinute := by
  have hcolon : ∀ s, ':' ∉ integer s := not_mem_integer (by decide) (by decide)
  have hread : ∀ s : Int, 0 ≤ s → (Nat.ofDigitChars 10 (setw 2 (integer s)) 0 : Int) = s := by
    intro s hs
    have hdigits : integer s = Nat.toDigits 10 s.natAbs := by
      unfold integer
      rw [if_neg (by omega)]
    rw [hdigits, ofDigitChars_setw]
    omega
  intro s s' h
  unfold firstMinute at h
  split at h <;> split at h
  · rename_i hs hs'
    have hsame := List.append_cancel_left h
    rw [← hread s hs.1, hsame, hread s' hs'.1]
  · exact absurd (h ▸ by simp : ':' ∈ integer s') (hcolon s')
  · exact absurd (h ▸ by simp : ':' ∈ integer s) (hcolon s)
  · exact integer_injective h

/-- A call that came five seconds after the epoch and was answered at once. -/
def earlyCall (number : List Char) : CDR where
  startTime := 5250000000
  endTime := 15251000000
  callID := 123456789
  status := .Completed
  operatorCallTime := 5251000000
  operatorID := 12
  callDuration := 10
  number := number

theorem decodable_earlyCall : (earlyCall "79161234567".toList).Decodable firstMinute :=
  (CDR.decodable_iff firstMinute_injective firstMinute_separator (by decide)).mpr (by decide)

example : (earlyCall "5;6".toList).out firstMinute =
    ("1970-01-01 00:00:05.250;123456789;5;6;1970-01-01 00:00:15.251;Completed;" ++
      "1970-01-01 00:00:05.251;12;10s").toList := by decide

/-- `stoll` accepts the number `5;6`, and its line has nine columns. -/
theorem admitted_not_decodable :
    ¬ ∀ cdr : CDR, (∃ n, stoll cdr.number = .ok n) → cdr.Timely → cdr.Decodable firstMinute := by
  intro h
  have hdecodable := h (earlyCall "5;6".toList) ⟨5, by decide⟩ (by decide)
  have hnumber := (length_splitOn_out firstMinute_separator _).mp hdecodable.eight
  exact hnumber (by decide)

end ProteiCov
