import ProteiCov.Normalization
import ProteiCov.Lib.Text

/-
  What is logged as the new configuration

  `output` finds the first member with a key and `outputConfig` keeps the last one, so
  the text that is logged and the map that is applied agree exactly where these two
  members do (`printed_iff`).

  `output` also throws where a key is missing, which `outputConfig` does not. It is
  called only to fill in a log statement, before `data_` is assigned: with a logger
  such a file is rejected and without one it is applied, and `logger_neutral_iff`
  says from which states the two runs end alike all the same.
-/

namespace ProteiCov
open Cpp

namespace JsonParser

/-- `outputConfig` keeps the last member with a key. -/
theorem outputMembers_lookup {tree : PropertyTree} {res data : Data}
    (h : outputMembers res tree = .ok data) (key : String) :
    (tree.reverse.lookup key).or ((res key).map some) = (data key).map some := by
  induction tree generalizing res with
  | nil =>
    cases h
    rfl
  | cons m rest ih =>
    obtain ⟨k, v⟩ := m
    cases v with
    | none => cases h
    | some n =>
      have hrest := ih h
      rw [List.reverse_cons, List.lookup_append, Option.or_assoc, ← hrest]
      congr 1
      by_cases hk : key = k
      · simp [hk, Map.assign]
      · simp [hk, Map.assign, List.lookup_cons, beq_false_of_ne hk]

theorem outputConfig_lookup {tree : PropertyTree} {data : Data} (h : outputConfig tree = .ok data)
    (key : String) : tree.reverse.lookup key = (data key).map some := by
  have hkey := outputMembers_lookup h key
  rwa [Map.empty, Option.map_none, Option.or_none] at hkey

theorem outputMembers_ok_iff (tree : PropertyTree) (res : Data) :
    (∃ data, outputMembers res tree = .ok data) ↔ ∀ m ∈ tree, m.2 ≠ none := by
  induction tree generalizing res with
  | nil => simp [outputMembers]
  | cons m rest ih =>
    obtain ⟨k, v⟩ := m
    cases v with
    | none => simp [outputMembers]
    | some n => simpa [outputMembers] using ih (res.assign k n)

theorem lookup_reverse_eq_none (tree : PropertyTree) (key : String) :
    tree.reverse.lookup key = none ↔ tree.lookup key = none := by
  simp [List.lookup_eq_none_iff]

theorem get_eq_ok_iff {tree : PropertyTree} {key : String} {n : Int} :
    get tree key = .ok n ↔ tree.lookup key = some (some n) := by
  unfold get
  split
  · rename_i heq
    simp [heq]
  · rename_i heq
    simp [heq]
  · rename_i heq
    simp [heq]

/-- `output` reads the four first members and prints a line for each. -/
theorem output_eq_ok {tree : PropertyTree} {text : String} (h : output tree = .ok text) :
    ∃ rMin rMax operators queue,
      tree.lookup "RMin" = some (some rMin) ∧ tree.lookup "RMax" = some (some rMax) ∧
      tree.lookup "AmountOfOperators" = some (some operators) ∧
      tree.lookup "SizeOfQueue" = some (some queue) ∧
      text.toList = Text.labelledLine "RMin".toList rMin ++ '\n' ::
        (Text.labelledLine "RMax".toList rMax ++ '\n' ::
          (Text.labelledLine "AmountOfOperators".toList operators ++ '\n' ::
            (Text.labelledLine "SizeOfQueue".toList queue ++ '\n' :: []))) := by
  obtain ⟨rMin, hmin, h⟩ := except_bind_eq_ok.mp h
  obtain ⟨rMax, hmax, h⟩ := except_bind_eq_ok.mp h
  obtain ⟨operators, hoperators, h⟩ := except_bind_eq_ok.mp h
  obtain ⟨queue, hqueue, h⟩ := except_bind_eq_ok.mp h
  refine ⟨rMin, rMax, operators, queue, get_eq_ok_iff.mp hmin, get_eq_ok_iff.mp hmax,
    get_eq_ok_iff.mp hoperators, get_eq_ok_iff.mp hqueue, ?_⟩
  cases h
  simp only [String.toList_append, Text.toList_toString]
  simp [Text.labelledLine]

/-- The number printed after a key. -/
def printed (text key : String) : Option Int := Text.readLabelled key.toList text.toList

/-- What is printed is the first member. -/
theorem printed_output {tree : PropertyTree} {text key : String} (h : output tree = .ok text)
    (hkey : key ∈ keys) : ∃ n, tree.lookup key = some (some n) ∧ printed text key = some n := by
  obtain ⟨rMin, rMax, operators, queue, hmin, hmax, hoperators, hqueue, htext⟩ := output_eq_ok h
  have hprinted : printed text key =
      if "RMin".toList = key.toList then some rMin
      else if "RMax".toList = key.toList then some rMax
      else if "AmountOfOperators".toList = key.toList then some operators
      else if "SizeOfQueue".toList = key.toList then some queue
      else Text.readLabelled key.toList [] := by
    rw [printed, htext]
    rw [Text.readLabelled_cons (by decide) (by decide), Text.readLabelled_cons (by decide) (by decide),
      Text.readLabelled_cons (by decide) (by decide), Text.readLabelled_cons (by decide) (by decide)]
  rw [hprinted]
  simp only [keys, List.mem_cons, List.not_mem_nil, or_false] at hkey
  rcases hkey with rfl | rfl | rfl | rfl
  · exact ⟨rMin, hmin, rfl⟩
  · exact ⟨rMax, hmax, rfl⟩
  · exact ⟨operators, hoperators, rfl⟩
  · exact ⟨queue, hqueue, rfl⟩

/-- What is applied is the last member. -/
theorem value_outputConfig {tree : PropertyTree} {data : Data} {key : String} {n : Int}
    (h : outputConfig tree = .ok data) (hkey : tree.lookup key ≠ none) :
    data.value key = n ↔ tree.reverse.lookup key = some (some n) := by
  have hlast := outputConfig_lookup h key
  have hholds : data key ≠ none := by
    intro hnone
    rw [hnone, Option.map_none] at hlast
    exact hkey ((lookup_reverse_eq_none tree key).mp hlast)
  obtain ⟨m, hm⟩ := Option.ne_none_iff_exists'.mp hholds
  rw [hlast, Map.value, hm]
  simp

/-- The logged values are the applied ones where no key is repeated with another value. -/
theorem printed_iff {tree : PropertyTree} {text : String} {data : Data}
    (hprinted : output tree = .ok text) (happlied : outputConfig tree = .ok data) :
    (∀ key ∈ keys, printed text key = some (data.value key)) ↔
      ∀ key ∈ keys, tree.lookup key = tree.reverse.lookup key := by
  refine forall₂_congr (fun key hkey => ?_)
  obtain ⟨n, hfirst, htext⟩ := printed_output hprinted hkey
  have hlast : data.value key = n ↔ tree.reverse.lookup key = some (some n) :=
    value_outputConfig happlied (by rw [hfirst]; simp)
  rw [htext, hfirst, Option.some_inj, eq_comm, hlast, eq_comm]

/-- A file with the four keys. -/
def fourKeys : PropertyTree :=
  [("RMin", some 20), ("RMax", some 30), ("AmountOfOperators", some 5), ("SizeOfQueue", some 40)]

/-- The same with a key repeated. -/
def repeated (n : Int) : PropertyTree := fourKeys ++ [("RMin", some n)]

theorem output_repeated (n : Int) :
    output (repeated n) = .ok "RMin: 20\nRMax: 30\nAmountOfOperators: 5\nSizeOfQueue: 40\n" := by
  rfl

theorem printed_repeated : ∃ text data,
    output (repeated 20) = .ok text ∧ outputConfig (repeated 20) = .ok data ∧
      ∀ key ∈ keys, printed text key = some (data.value key) :=
  ⟨_, _, output_repeated 20, rfl, (printed_iff (output_repeated 20) rfl).mpr (by decide)⟩

theorem repeated_disagree : ¬ ∀ (tree : PropertyTree) (text : String) (data : Data),
    output tree = .ok text → outputConfig tree = .ok data →
      ∀ key ∈ keys, printed text key = some (data.value key) := by
  intro h
  have hprinted := h (repeated 25) _ _ (output_repeated 25) rfl "RMin" (by decide)
  revert hprinted
  decide

/-- Where every member is an int, `output` needs the four keys and nothing else. -/
theorem output_ok_iff {tree : PropertyTree} (hints : ∀ m ∈ tree, m.2 ≠ none) :
    (∃ text, output tree = .ok text) ↔ ∀ key ∈ keys, tree.lookup key ≠ none := by
  constructor
  · rintro ⟨text, htext⟩ key hkey
    obtain ⟨n, hn, -⟩ := printed_output htext hkey
    rw [hn]
    simp
  · intro hkeys
    have hget : ∀ key ∈ keys, ∃ n, get tree key = .ok n := by
      intro key hkey
      obtain ⟨v, hv⟩ := Option.ne_none_iff_exists'.mp (hkeys key hkey)
      obtain ⟨before, after, htree, -⟩ := List.lookup_eq_some_iff.mp hv
      have hint : v ≠ none := hints (key, v) (by simp [htree])
      obtain ⟨n, hn⟩ := Option.ne_none_iff_exists'.mp hint
      exact ⟨n, get_eq_ok_iff.mpr (by rw [hv, hn])⟩
    obtain ⟨rMin, hmin⟩ := hget "RMin" (by decide)
    obtain ⟨rMax, hmax⟩ := hget "RMax" (by decide)
    obtain ⟨operators, hoperators⟩ := hget "AmountOfOperators" (by decide)
    obtain ⟨queue, hqueue⟩ := hget "SizeOfQueue" (by decide)
    rw [output, hmin, hmax, hoperators, hqueue]
    exact ⟨_, rfl⟩

/-- Every member is an int, but one of the four keys is not there. -/
def Incomplete (tree : PropertyTree) : Prop :=
  (∀ m ∈ tree, m.2 ≠ none) ∧ ∃ key ∈ keys, tree.lookup key = none

/-- The values of the last members, `0` where there is none. -/
def lastMembers (tree : PropertyTree) : Settings where
  RMin := (tree.reverse.lookup "RMin").join.getD 0
  RMax := (tree.reverse.lookup "RMax").join.getD 0
  AmountOfOperators := (tree.reverse.lookup "AmountOfOperators").join.getD 0
  SizeOfQueue := (tree.reverse.lookup "SizeOfQueue").join.getD 0

theorem settings_outputConfig {tree : PropertyTree} {data : Data} (h : outputConfig tree = .ok data) :
    settings data = lastMembers tree := by
  have hvalue : ∀ key, data.value key = (tree.reverse.lookup key).join.getD 0 := by
    intro key
    rw [outputConfig_lookup h key, Map.value]
    cases data key with
    | none => rfl
    | some n => rfl
  simp only [settings, lastMembers, hvalue]

/-- The files on which only `output` throws. -/
theorem incomplete_iff {tree : PropertyTree} :
    Incomplete tree ↔ (∃ data, outputConfig tree = .ok data) ∧ ∃ e, output tree = .error e := by
  unfold Incomplete outputConfig
  rw [outputMembers_ok_iff tree Map.empty]
  refine and_congr_right (fun hints => ?_)
  have hok := output_ok_iff hints
  cases htext : output tree with
  | ok text =>
    have hkeys := hok.mp ⟨text, htext⟩
    simpa using hkeys
  | error e =>
    have hmissing : ¬ ∀ key ∈ keys, tree.lookup key ≠ none := by
      intro hkeys
      obtain ⟨text, htext'⟩ := hok.mpr hkeys
      rw [htext] at htext'
      cases htext'
    push Not at hmissing
    simpa using hmissing

end JsonParser

theorem Settings.reads_iff {s t : Settings} :
    (Outcome.ok (s.RMin, s.RMax) = .ok (t.RMin, t.RMax) ∧
      Outcome.ok s.AmountOfOperators = .ok t.AmountOfOperators ∧
      Outcome.ok s.SizeOfQueue = .ok t.SizeOfQueue) ↔ s = t := by
  obtain ⟨rMin, rMax, operators, queue⟩ := s
  obtain ⟨rMin', rMax', operators', queue'⟩ := t
  simp [and_assoc]

namespace ThreadSafeConfig

/-- The getters return the same, and the flag is the same. -/
structure Alike (c d : ThreadSafeConfig) : Prop where
  minMax : (getMinMax.run c).1 = (getMinMax.run d).1
  operators : (getAmountOfOperators.run c).1 = (getAmountOfOperators.run d).1
  queue : (getSizeOfQueue.run c).1 = (getSizeOfQueue.run d).1
  updated : c.updated = d.updated

theorem alike_iff {c d : ThreadSafeConfig} :
    Alike c d ↔ ProteiCov.settings c.data_ = ProteiCov.settings d.data_ ∧ c.updated = d.updated := by
  rw [← Settings.reads_iff, ← getMinMax_result, ← getMinMax_result, ← getAmountOfOperators_result,
    ← getAmountOfOperators_result, ← getSizeOfQueue_result, ← getSizeOfQueue_result]
  exact ⟨fun h => ⟨⟨h.minMax, h.operators, h.queue⟩, h.updated⟩,
    fun h => ⟨h.1.1, h.1.2.1, h.1.2.2, h.2⟩⟩

/-- The object with a logger, or with none. -/
def withLogger (c : ThreadSafeConfig) (logger : Bool) : ThreadSafeConfig :=
  { c with logger_ := logger }

theorem accepted_silent (tree : PropertyTree) :
    accepted false (some tree) = JsonParser.outputConfig tree := rfl

theorem accepted_logging (tree : PropertyTree) :
    accepted true (some tree) = JsonParser.output tree >>= fun _ => JsonParser.outputConfig tree := by
  show ((JsonParser.output tree).map (fun _ => ()) >>= fun _ => JsonParser.outputConfig tree) = _
  cases JsonParser.output tree with
  | error e => rfl
  | ok text => rfl

/-- A logger only makes a difference to a file that lacks a key. -/
theorem accepted_logger {file : FileContent} {data : Data} :
    accepted true file = .ok data ↔
      accepted false file = .ok data ∧ ∀ tree, file = some tree → ¬ JsonParser.Incomplete tree := by
  cases file with
  | none => simp [accepted, JsonParser.parse, bind, Except.bind]
  | some tree =>
    rw [accepted_logging, accepted_silent]
    cases htext : JsonParser.output tree with
    | ok text =>
      have hcomplete : ¬ JsonParser.Incomplete tree := by
        intro h
        obtain ⟨-, e, he⟩ := JsonParser.incomplete_iff.mp h
        rw [htext] at he
        cases he
      simp [bind, Except.bind, hcomplete]
    | error e =>
      simp only [bind, Except.bind, reduceCtorEq, false_iff, not_and]
      intro hdata hcomplete
      exact hcomplete tree rfl (JsonParser.incomplete_iff.mpr ⟨⟨data, hdata⟩, e, htext⟩)

theorem afterReread_ok {c : ThreadSafeConfig} {file : FileContent} {data : Data}
    (h : accepted c.logger_ file = .ok data) : c.afterReread file = c.reloaded data := by
  rw [afterReread, h]

theorem afterReread_error {c : ThreadSafeConfig} {file : FileContent} {e : StdException}
    (h : accepted c.logger_ file = .error e) : c.afterReread file = c := by
  rw [afterReread, h]

theorem afterReread_incomplete {c : ThreadSafeConfig} {tree : PropertyTree}
    (h : JsonParser.Incomplete tree) :
    (c.withLogger true).afterReread (some tree) = c.withLogger true ∧
      ProteiCov.settings ((c.withLogger false).afterReread (some tree)).data_ =
        (JsonParser.lastMembers tree).normalize ∧
      ((c.withLogger false).afterReread (some tree)).updated = true := by
  obtain ⟨⟨data, hdata⟩, e, htext⟩ := JsonParser.incomplete_iff.mp h
  have hlogging : accepted true (some tree) = .error e := by
    rw [accepted_logging, htext]
    rfl
  have hsilent : accepted false (some tree) = .ok data := hdata
  rw [afterReread_error (c := c.withLogger true) hlogging, afterReread_ok (c := c.withLogger false) hsilent]
  refine ⟨rfl, ?_, rfl⟩
  show ProteiCov.settings (normalizeData data) = _
  rw [settings_normalizeData, JsonParser.settings_outputConfig hdata]

theorem afterReread_logger {c : ThreadSafeConfig} {file : FileContent}
    (h : ∀ tree, file = some tree → ¬ JsonParser.Incomplete tree) :
    (c.withLogger true).afterReread file = ((c.withLogger false).afterReread file).withLogger true := by
  cases hsilent : accepted false file with
  | ok data =>
    have hlogging := accepted_logger.mpr ⟨hsilent, h⟩
    rw [afterReread_ok (c := c.withLogger true) hlogging, afterReread_ok (c := c.withLogger false) hsilent]
    rfl
  | error e =>
    cases hlogging : accepted true file with
    | ok data =>
      rw [(accepted_logger.mp hlogging).1] at hsilent
      cases hsilent
    | error e' =>
      rw [afterReread_error (c := c.withLogger true) hlogging,
        afterReread_error (c := c.withLogger false) hsilent]
      rfl

/-- The two runs end alike where the file has the four keys, or where it would change nothing. -/
theorem logger_neutral_iff (c : ThreadSafeConfig) (file : FileContent) :
    Alike ((updateConfig file).run (c.withLogger true)).2 ((updateConfig file).run (c.withLogger false)).2 ↔
      ∀ tree, file = some tree → JsonParser.Incomplete tree →
        c.updated = true ∧ ProteiCov.settings c.data_ = (JsonParser.lastMembers tree).normalize := by
  rw [updateConfig_state, updateConfig_state, alike_iff]
  by_cases hincomplete : ∃ tree, file = some tree ∧ JsonParser.Incomplete tree
  · obtain ⟨tree, rfl, htree⟩ := hincomplete
    obtain ⟨hlogging, hsettings, hupdated⟩ := afterReread_incomplete (c := c) htree
    rw [hlogging, hsettings, hupdated]
    constructor
    · rintro ⟨hc, hflag⟩ other hother -
      cases hother
      exact ⟨hflag, hc⟩
    · intro h
      obtain ⟨hflag, hc⟩ := h tree rfl htree
      exact ⟨hc, hflag⟩
  · have hcomplete : ∀ tree, file = some tree → ¬ JsonParser.Incomplete tree :=
      fun tree hfile htree => hincomplete ⟨tree, hfile, htree⟩
    rw [afterReread_logger hcomplete]
    exact ⟨fun _ tree hfile htree => absurd htree (hcomplete tree hfile), fun _ => ⟨rfl, rfl⟩⟩

/-- With a logger `{"RMin": 25}` is rejected, without one it is applied. -/
theorem logger_not_neutral : ¬ ∀ (c : ThreadSafeConfig) (file : FileContent),
    Alike ((updateConfig file).run (c.withLogger true)).2
      ((updateConfig file).run (c.withLogger false)).2 := by
  intro h
  have hflag := (h (construct (some JsonParser.fourKeys) false) (some [("RMin", some 25)])).updated
  revert hflag
  decide

end ThreadSafeConfig

end ProteiCov
