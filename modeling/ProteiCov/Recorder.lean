import ProteiCov.CdrLines

/-
  The file of a recorder

  A `FileRecorder` opens its file for appending and writes a heading of three lines, each
  of which begins with `#`; every CDR is one line more. So the file of a server that was
  started several times has several headings.

  `readJournal` reads it back: lines that begin with `#` are skipped, and the others are
  taken apart at `;`. `readJournal_iff` says when that gives back the CDRs that were
  recorded: no number may have a separator in it, of columns or of lines.
-/

namespace ProteiCov
open Cpp Text

/-- The stream, as the text of its file. -/
structure FileRecorder where
  file : List Char
  logger_ : Bool
  deriving DecidableEq, Repr

namespace FileRecorder

/-- `newL` -/
def newL : List Char := List.replicate 136 '#'

def columnNames : List Char :=
  "#DT of the incoming call;Incoming Call ID;Caller number;DT of call termination;Call status;".toList ++
    "DT operator answer;Operator ID;Call duration#".toList

/-- The constructor, where the file has the text already. -/
def construct (text : List Char) : FileRecorder where
  file := text ++ newL ++ ['\n'] ++ columnNames ++ ['\n'] ++ newL ++ ['\n']
  logger_ := false

def makeRecord (put_time : Int → List Char) (cdr : CDR) (recorder : FileRecorder) : FileRecorder :=
  { recorder with file := recorder.file ++ cdr.out put_time ++ ['\n'] }

def setLogger (logger : Bool) (recorder : FileRecorder) : FileRecorder :=
  { recorder with logger_ := logger }

end FileRecorder

/-- What happens to the file: a recorder is made for it, or the last one records a
call. -/
inductive Recording where
  | construct
  | makeRecord (cdr : CDR)
  deriving DecidableEq, Repr

def Recording.cdr? : Recording → Option CDR
  | construct => none
  | makeRecord cdr => some cdr

/-- The CDRs, the first one first. -/
def recorded (recordings : List Recording) : List CDR := recordings.filterMap Recording.cdr?

namespace FileRecorder

def record (put_time : Int → List Char) (recorder : FileRecorder) : Recording → FileRecorder
  | .construct => construct recorder.file
  | .makeRecord cdr => recorder.makeRecord put_time cdr

/-- The file, which is empty at first. -/
def journal (put_time : Int → List Char) (recordings : List Recording) : List Char :=
  (recordings.foldl (record put_time) ⟨[], false⟩).file

/-- The lines one recording adds. -/
def linesOf (put_time : Int → List Char) : Recording → List (List Char)
  | .construct => [newL, columnNames, newL]
  | .makeRecord cdr => [cdr.out put_time]

theorem record_file (put_time : Int → List Char) (recorder : FileRecorder) (r : Recording) :
    (record put_time recorder r).file = recorder.file ++ lines '\n' (linesOf put_time r) := by
  cases r <;> simp [record, construct, makeRecord, linesOf, lines]

theorem journal_eq_lines (put_time : Int → List Char) (recordings : List Recording) :
    journal put_time recordings = lines '\n' (recordings.flatMap (linesOf put_time)) := by
  have hfile : ∀ recorder : FileRecorder, (recordings.foldl (record put_time) recorder).file =
      recorder.file ++ lines '\n' (recordings.flatMap (linesOf put_time)) := by
    induction recordings with
    | nil => simp [lines]
    | cons r recordings ih =>
      intro recorder
      rw [List.foldl_cons, ih, record_file, List.flatMap_cons, lines_append, List.append_assoc]
  exact hfile _

end FileRecorder

/-! Reading the file. -/

/-- A line that is neither empty nor a line of a heading. -/
def isRecord : List Char → Bool
  | [] => false
  | c :: _ => c ≠ '#'

noncomputable def readJournal (put_time : Int → List Char) (text : List Char) : Option (List Reading) :=
  ((text.splitOn '\n').filter isRecord).mapM (fun line => readColumns put_time (line.splitOn ';'))

/-- The text of a time has none of the characters the file is made of. -/
def Unmarked (put_time : Int → List Char) : Prop :=
  ∀ s, ';' ∉ put_time s ∧ '\n' ∉ put_time s ∧ '#' ∉ put_time s

/-- A number that leaves the file as it is made. -/
def Separable (number : List Char) : Prop := ';' ∉ number ∧ '\n' ∉ number

instance (number : List Char) : Decidable (Separable number) := inferInstanceAs (Decidable (_ ∧ _))

section
variable {put_time : Int → List Char}

open FileRecorder

theorem not_mem_time {c : Char} (hc : ∀ s, c ∉ put_time s) (hdigit : c.isDigit = false)
    (hother : c ≠ '-' ∧ c ≠ '.' ∧ c ≠ '0') (timeP : TimePoint) : c ∉ utility.prepareTime put_time timeP := by
  unfold utility.prepareTime
  split
  · exact List.not_mem_nil
  · intro h
    rcases List.mem_append.mp h with h | h
    · rcases List.mem_append.mp h with h | h
      · exact hc _ h
      · exact hother.2.1 (List.mem_singleton.mp h)
    · rcases mem_setw h with h | h
      · exact hother.2.2 h
      · exact not_mem_integer hdigit hother.1 _ h

/-- A line of a CDR is one line, -/
theorem newline_not_mem_out (hmarks : Unmarked put_time) {cdr : CDR} (h : '\n' ∉ cdr.number) :
    '\n' ∉ cdr.out put_time := by
  have htime : ∀ timeP, '\n' ∉ utility.prepareTime put_time timeP :=
    not_mem_time (fun s => (hmarks s).2.1) (by decide) (by decide)
  have hdigits : ∀ n : Nat, '\n' ∉ Nat.toDigits 10 n := by
    intro n hn
    cases mem_toDigits hn
  have hstatus : '\n' ∉ utility.to_string cdr.status := by
    cases cdr.status <;> decide
  have hinteger : '\n' ∉ integer cdr.callDuration := not_mem_integer (by decide) (by decide) _
  simp [CDR.out, htime, hdigits, hstatus, hinteger, h]

/-- and none of a heading. -/
theorem isRecord_out (hmarks : Unmarked put_time) (cdr : CDR) : isRecord (cdr.out put_time) = true := by
  have htime : '#' ∉ utility.prepareTime put_time cdr.startTime :=
    not_mem_time (fun s => (hmarks s).2.2) (by decide) (by decide) _
  rw [CDR.out_eq, CDR.columns, List.intercalate_cons_cons]
  cases hstart : utility.prepareTime put_time cdr.startTime with
  | nil => rfl
  | cons c text =>
    rw [hstart, List.mem_cons, not_or] at htime
    exact decide_eq_true (Ne.symm htime.1)

theorem isRecord_heading : [newL, columnNames, newL].filter isRecord = [] := by
  have hnew : isRecord newL = false := rfl
  have hcolumns : isRecord columnNames = false := by decide
  simp [hnew, hcolumns]

theorem filter_linesOf (hmarks : Unmarked put_time) (recordings : List Recording) :
    (recordings.flatMap (linesOf put_time)).filter isRecord =
      (recorded recordings).map (CDR.out put_time) := by
  induction recordings with
  | nil => rfl
  | cons r recordings ih =>
    rw [List.flatMap_cons, List.filter_append, ih]
    cases r with
    | construct =>
      rw [linesOf, isRecord_heading]
      rfl
    | makeRecord cdr =>
      rw [linesOf, List.filter_singleton, isRecord_out hmarks]
      rfl

/-- Where the numbers have no separator, the file splits into the lines it was made of. -/
theorem splitOn_journal (hmarks : Unmarked put_time) {recordings : List Recording}
    (hnumbers : ∀ cdr ∈ recorded recordings, '\n' ∉ cdr.number) :
    ((journal put_time recordings).splitOn '\n').filter isRecord =
      (recorded recordings).map (CDR.out put_time) := by
  rw [journal_eq_lines, splitOn_lines, List.filter_append, filter_linesOf hmarks]
  · simp [isRecord]
  · intro line hline
    obtain ⟨r, hr, hline⟩ := List.mem_flatMap.mp hline
    cases r with
    | construct =>
      simp only [linesOf, List.mem_cons, List.not_mem_nil, or_false] at hline
      rcases hline with rfl | rfl | rfl <;> decide
    | makeRecord cdr =>
      rw [List.mem_singleton.mp hline]
      exact newline_not_mem_out hmarks (hnumbers cdr (List.mem_filterMap.mpr ⟨_, hr, rfl⟩))

/-- What is read has numbers without separators, for it is a part of a part. -/
theorem separable_of_readJournal {text : List Char} {readings : List Reading}
    (h : readJournal put_time text = some readings) : ∀ x ∈ readings, Separable x.number := by
  intro x hx
  obtain ⟨line, hline, hread⟩ := mem_of_mapM h hx
  have hnewline := not_mem_of_mem_splitOn '\n' (List.mem_filter.mp hline).1
  have hcolumn : x.number ∈ line.splitOn ';' := by
    unfold readColumns at hread
    split at hread
    · rename_i heq
      cases hread
      simp [heq]
    · cases hread
  exact ⟨not_mem_of_mem_splitOn ';' hcolumn, fun hmem => hnewline (mem_of_mem_splitOn ';' hcolumn hmem)⟩

theorem readJournal_of_separable (hinj : Function.Injective put_time) (hmarks : Unmarked put_time)
    {recordings : List Recording} (htimes : ∀ cdr ∈ recorded recordings, cdr.Timely)
    (hnumbers : ∀ cdr ∈ recorded recordings, Separable cdr.number) :
    readJournal put_time (journal put_time recordings) = some ((recorded recordings).map CDR.reading) := by
  rw [readJournal, splitOn_journal hmarks (fun cdr hcdr => (hnumbers cdr hcdr).2), List.mapM_map]
  refine mapM_eq_map (g := CDR.reading) (fun cdr hcdr => ?_)
  rw [Function.comp_apply, splitOn_out (fun s => (hmarks s).1) (hnumbers cdr hcdr).1]
  exact readColumns_columns hinj (htimes cdr hcdr)

/-- The file gives back every CDR, in the order in which they were recorded and whatever
the headings between them, exactly when no number has a separator in it. -/
theorem readJournal_iff (hinj : Function.Injective put_time) (hmarks : Unmarked put_time)
    {recordings : List Recording} (htimes : ∀ cdr ∈ recorded recordings, cdr.Timely) :
    readJournal put_time (journal put_time recordings) = some ((recorded recordings).map CDR.reading) ↔
      ∀ cdr ∈ recorded recordings, Separable cdr.number := by
  constructor
  · intro h cdr hcdr
    exact separable_of_readJournal h cdr.reading (List.mem_map_of_mem hcdr)
  · exact readJournal_of_separable hinj hmarks htimes

end

theorem firstMinute_unmarked : Unmarked firstMinute := by
  have hnot : ∀ c : Char, c.isDigit = false → c ≠ '-' → c ∉ "1970-01-01 00:00:".toList →
      ∀ s, c ∉ firstMinute s := by
    intro c hdigit hsign htext s
    unfold firstMinute
    split
    · intro h
      rcases List.mem_append.mp h with h | h
      · exact htext h
      · rcases mem_setw h with rfl | h
        · cases hdigit
        · exact not_mem_integer hdigit hsign s h
    · exact not_mem_integer hdigit hsign s
  exact fun s => ⟨hnot _ (by decide) (by decide) (by decide) s, hnot _ (by decide) (by decide) (by decide) s,
    hnot _ (by decide) (by decide) (by decide) s⟩

/-- The server was started twice, and had two calls the second time. -/
def twoSessions : List Recording :=
  [.construct, .makeRecord (earlyCall "79161234567".toList), .construct,
    .makeRecord (earlyCall "#5".toList), .makeRecord (earlyCall "79161234567".toList)]

theorem readJournal_twoSessions :
    readJournal firstMinute (FileRecorder.journal firstMinute twoSessions) =
      some ((recorded twoSessions).map CDR.reading) :=
  (readJournal_iff firstMinute_injective firstMinute_unmarked (by decide)).mpr (by decide)

end ProteiCov
