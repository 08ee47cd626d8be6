import Mathlib.Data.Int.ModEq
import ProteiCov.CallFlow

/-
  Which calls share a CallID

  `generateCallID` adds the number of a call to the hash of the thread that submits
  it, in 64 bits. Nothing is asked of the hash, and the id of a thread that ended may
  name a later one, so the ids are as far apart as the sums are modulo 2^64, and no
  further. The calls of a run have different CallIDs exactly when no call came whose
  sum is that of an earlier one.

  What is proved:
    1. `generateCallID_eq_iff` — two ids are equal exactly when the sums are, modulo
       2^64; for one thread, exactly when the numbers are (`clash_thread`).
    2. `distinct_iff_along` — the ids of a run are distinct exactly when every call
       that came met no clash.
-/

namespace ProteiCov
open Cpp

namespace CallFlow

/-- The hash of the thread and the number, added as integers. -/
def ticket (hash : ThreadId → UInt64) (thread : ThreadId) (n : Int64) : Int :=
  (hash thread).toNat + n.toInt

theorem ofInt_eq_iff {w : Nat} (a b : Int) :
    BitVec.ofInt w a = BitVec.ofInt w b ↔ a ≡ b [ZMOD 2 ^ w] := by
  have hpos : (0 : Int) < (2 ^ w : Nat) := by exact_mod_cast Nat.two_pow_pos w
  have ha := Int.emod_nonneg a (Int.ne_of_gt hpos)
  have hb := Int.emod_nonneg b (Int.ne_of_gt hpos)
  rw [← BitVec.toNat_inj, BitVec.toNat_ofInt, BitVec.toNat_ofInt, Int.ModEq]
  push_cast at *
  omega

theorem toBitVec_generateCallID (hash : ThreadId → UInt64) (thread : ThreadId) (n : Int64) :
    (ThreadPool.generateCallID hash thread n).toBitVec = BitVec.ofInt 64 (ticket hash thread n) := by
  calc (ThreadPool.generateCallID hash thread n).toBitVec
      = (hash thread).toBitVec + n.toBitVec := rfl
    _ = BitVec.ofInt 64 (hash thread).toNat + BitVec.ofInt 64 n.toInt := by
        rw [BitVec.ofInt_natCast]
        simp
    _ = BitVec.ofInt 64 (ticket hash thread n) := (BitVec.ofInt_add _ _).symm

theorem generateCallID_eq_iff (hash : ThreadId → UInt64) (a b : ThreadId) (n m : Int64) :
    ThreadPool.generateCallID hash a n = ThreadPool.generateCallID hash b m ↔
      ticket hash a n ≡ ticket hash b m [ZMOD 2 ^ 64] := by
  rw [← UInt64.toBitVec_inj, toBitVec_generateCallID, toBitVec_generateCallID, ofInt_eq_iff]

/-- The sums of two calls agree modulo 2^64. -/
def Clash (hash : ThreadId → UInt64) (a b : ThreadId × List Char) : Prop :=
  ∃ n m, stoll a.2 = .ok n ∧ stoll b.2 = .ok m ∧ ticket hash a.1 n ≡ ticket hash b.1 m [ZMOD 2 ^ 64]

/-- Two calls of one thread, or of threads of one hash, clash exactly when `stoll`
reads the same number. -/
theorem clash_thread {hash : ThreadId → UInt64} {a b : ThreadId × List Char} {n m : Int64}
    (h : hash a.1 = hash b.1) (hn : stoll a.2 = .ok n) (hm : stoll b.2 = .ok m) :
    Clash hash a b ↔ n = m := by
  unfold Clash
  constructor
  · rintro ⟨n', m', hn', hm', hmod⟩
    rw [hn] at hn'
    rw [hm] at hm'
    cases hn'
    cases hm'
    unfold ticket at hmod
    rw [h] at hmod
    have hnm : BitVec.ofInt 64 n.toInt = BitVec.ofInt 64 m.toInt :=
      (ofInt_eq_iff _ _).mpr (Int.ModEq.add_left_cancel' _ hmod)
    simpa [Int64.toBitVec_inj] using hnm
  · intro heq
    refine ⟨n, m, hn, hm, ?_⟩
    rw [ticket, ticket, h, heq]

/-- Who submitted the call, and its number. -/
def Call.source (c : Call) : ThreadId × List Char := (c.thread, c.number)

/-- The CallID is the one generated for the thread and the number. -/
def Issued (hash : ThreadId → UInt64) (c : Call) : Prop :=
  ∃ n, stoll c.number = .ok n ∧ c.callID = ThreadPool.generateCallID hash c.thread n

theorem Issued.callID_eq_iff {hash : ThreadId → UInt64} {c d : Call} (hc : Issued hash c)
    (hd : Issued hash d) : c.callID = d.callID ↔ Clash hash c.source d.source := by
  obtain ⟨n, hn, hcid⟩ := hc
  obtain ⟨m, hm, hdid⟩ := hd
  rw [hcid, hdid, generateCallID_eq_iff]
  constructor
  · intro h
    exact ⟨n, m, hn, hm, h⟩
  · rintro ⟨n', m', hn', hm', h⟩
    have heqn : (Except.ok n : Except StdException Int64) = .ok n' := hn.symm.trans hn'
    have heqm : (Except.ok m : Except StdException Int64) = .ok m' := hm.symm.trans hm'
    cases heqn
    cases heqm
    exact h

/-- What a step adds to the history of the calls. -/
def Adds (hash : ThreadId → UInt64) (s t : State) : Step → Prop
  | .addTask thread _ _ number => ∃ c, Issued hash c ∧ c.source = (thread, number) ∧
      t.calls = s.calls ++ [c]
  | _ => t.calls = s.calls

section
variable {s t : State}

theorem flags_calls {x : Exec World Unit} {next : Option Stage} (h : s.flags x next = some t) :
    t.calls = s.calls := by
  unfold State.flags at h
  split at h
  · cases h
    rfl
  · cases h

theorem proceed_calls {operators amount size : Int} (h : s.proceed operators amount size = some t) :
    t.calls = s.calls := by
  unfold State.proceed at h
  split at h
  · cases h
  · exact flags_calls h
  · unfold State.resize at h
    split at h
    · cases h
      rfl
    · split at h <;> cases h <;> rfl
    · cases h
  · exact flags_calls h
  · exact flags_calls h
  · unfold State.assign at h
    split at h <;> cases h
    rfl
  · unfold State.join at h
    split at h <;> cases h
    rfl
  · exact flags_calls h

theorem adds {hash : ThreadId → UInt64} {e : Step} (h : (system hash).step s e = some t) :
    Adds hash s t e := by
  cases e with
  | addTask thread now pushNow number =>
    have h' := Flow.idle h
    unfold State.addTask at h'
    split at h'
    · rename_i id v hrun
      cases h'
      obtain ⟨_, n, hnum, hid⟩ := addTask_ok hrun
      exact ⟨⟨thread, number, id⟩, ⟨n, hnum, hid⟩, rfl, rfl⟩
    · cases h'
  | take i thread =>
    have h' : s.take hash i thread = some t := h
    unfold State.take at h'
    split at h'
    · split at h' <;> cases h'
      rfl
    · cases h'
  | finish i env =>
    have h' : s.finish i env = some t := h
    unfold State.finish at h'
    split at h'
    · split at h' <;> cases h'
      rfl
    · cases h'
  | leave i =>
    have h' : s.leave i = some t := h
    unfold State.leave at h'
    split at h'
    · split at h' <;> cases h'
      rfl
    · cases h'
  | startThreadPool =>
    exact flags_calls (show s.flags s.manager.startThreadPool s.updating = some t from h)
  | stopThreadPool =>
    exact flags_calls (show s.flags s.manager.stopThreadPool s.updating = some t from h)
  | update minMax =>
    have h' := Flow.idle h
    cases h'
    rfl
  | proceed operators amount size => exact proceed_calls h

end

/-- Any two calls of the history have different CallIDs. -/
def Distinct (s : State) : Prop := (s.calls.map Call.callID).Nodup

/-- The call that comes clashes with no earlier one. -/
def Apart (hash : ThreadId → UInt64) (s : State) : Step → Prop
  | .addTask thread _ _ number => ∀ c ∈ s.calls, ¬ Clash hash c.source (thread, number)
  | _ => True

/-- A step keeps the CallIDs distinct exactly when its call meets no clash. -/
theorem distinct_step {hash : ThreadId → UInt64} {s t : State} {e : Step}
    (hs : ∀ c ∈ s.calls, Issued hash c) (h : (system hash).step s e = some t) :
    Distinct t ↔ Distinct s ∧ Apart hash s e := by
  have hadds := adds h
  cases e with
  | addTask thread now pushNow number =>
    obtain ⟨d, hd, hsource, hcalls⟩ := hadds
    -- the new CallID is one of the earlier ones exactly where two calls clash
    have hapart : (∀ c ∈ s.calls, c.callID ≠ d.callID) ↔
        ∀ c ∈ s.calls, ¬ Clash hash c.source (thread, number) := by
      refine forall₂_congr (fun c hc => not_congr ?_)
      rw [(hs c hc).callID_eq_iff hd, hsource]
    show Distinct t ↔ Distinct s ∧ ∀ c ∈ s.calls, ¬ Clash hash c.source (thread, number)
    unfold Distinct
    rw [hcalls, List.map_append, ← hapart]
    simp [List.nodup_append]
  | take | finish | leave | startThreadPool | stopThreadPool | update | proceed =>
    have hcalls : t.calls = s.calls := hadds
    unfold Distinct Apart
    rw [hcalls, and_true]

theorem issued_step {hash : ThreadId → UInt64} {s t : State} {e : Step}
    (hs : ∀ c ∈ s.calls, Issued hash c) (h : (system hash).step s e = some t) :
    ∀ c ∈ t.calls, Issued hash c := by
  have hadds := adds h
  intro c hc
  cases e with
  | addTask thread now pushNow number =>
    obtain ⟨d, hd, _, hcalls⟩ := hadds
    rw [hcalls] at hc
    rcases List.mem_append.mp hc with hc | hc
    · exact hs c hc
    · rw [List.mem_singleton.mp hc]
      exact hd
  | take | finish | leave | startThreadPool | stopThreadPool | update | proceed =>
    have hcalls : t.calls = s.calls := hadds
    exact hs c (hcalls ▸ hc)

/-- The calls of a run have different CallIDs exactly when no call came whose hash and
number add up, in 64 bits, to those of an earlier call. -/
theorem distinct_iff_along {hash : ThreadId → UInt64} {operators : Nat} {m : Manager} {w : World}
    {events : List Step} {s : State}
    (h : (system hash).run (initial operators m w) events = some s) :
    Distinct s ↔ (system hash).Along (Apart hash) (initial operators m w) events := by
  have hdistinct : Distinct (initial operators m w) := List.nodup_nil
  rw [Transition.System.run_iff_along (fun s e t hs hstep => issued_step hs hstep)
    (fun s e t hs hstep => distinct_step hs hstep) h (fun c hc => (by cases hc))]
  exact and_iff_right hdistinct

instance (s : State) : Decidable (Distinct s) := inferInstanceAs (Decidable (List.Nodup _))

/-- Thread 1 submits the number 5 and ends when its call is finished; then a thread
submits a number. -/
def afterOne (thread : ThreadId) (number : List Char) : List Step :=
  [.startThreadPool, .addTask 1 0 0 ['5'], .take 0 9, .finish 0 (.calm 0 0 0 12),
    .addTask thread 100 100 number]

/-- Where that leads. -/
def secondCall (thread : ThreadId) (number : List Char) : Option State :=
  match (assemble 2 15 [0] (10, 15) true).run .empty with
  | (.ok m, w) => (system UInt64.ofNat).run (initial 2 m w) (afterOne thread number)
  | _ => none

theorem distinct_iff_along_afterOne : ∃ m w, (system UInt64.ofNat).Along (Apart UInt64.ofNat)
    (initial 2 m w) (afterOne 2 ['7']) ∧
    ∃ s, (system UInt64.ofNat).run (initial 2 m w) (afterOne 2 ['7']) = some s ∧ s.calls.length = 2 := by
  have hsome : (secondCall 2 ['7']).isSome = true := by decide +kernel
  obtain ⟨s, hs⟩ := Option.isSome_iff_exists.mp hsome
  have hcalls : (secondCall 2 ['7']).map (fun s => s.calls.length) = some 2 := by decide +kernel
  have hdistinct : (secondCall 2 ['7']).map (fun s => decide (Distinct s)) = some true := by
    decide +kernel
  rw [hs, Option.map_some, Option.some_inj] at hcalls hdistinct
  unfold secondCall at hs
  split at hs
  · rename_i m w hrun
    exact ⟨m, w, (distinct_iff_along hs).mp (of_decide_eq_true hdistinct), s, hs, hcalls⟩
  · cases hs

/-- A thread with the id of one that ended submits the number that one submitted. -/
theorem reused_not_distinct : ∃ s, secondCall 1 ['5'] = some s ∧ s.calls.length = 2 ∧ ¬ Distinct s := by
  have hsome : (secondCall 1 ['5']).isSome = true := by decide +kernel
  obtain ⟨s, hs⟩ := Option.isSome_iff_exists.mp hsome
  have hcalls : (secondCall 1 ['5']).map (fun s => s.calls.length) = some 2 := by decide +kernel
  have hdistinct : (secondCall 1 ['5']).map (fun s => decide (Distinct s)) = some false := by
    decide +kernel
  rw [hs, Option.map_some, Option.some_inj] at hcalls hdistinct
  exact ⟨s, hs, hcalls, of_decide_eq_false hdistinct⟩

end CallFlow

end ProteiCov
