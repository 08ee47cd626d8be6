import Mathlib.Data.List.Nodup
import ProteiCov.Lib.Transition

/-
  Bounded queues in which a new entry replaces a waiting one with its key

  A push onto a queue at its limit is rejected. Otherwise the first waiting entry
  with the key of the new one is taken out and the new one goes to the back. The
  limit can be changed at any time; entries above it stay.

  `step` is the machine; it keeps a history, oldest first. `waiting` says from the
  history alone which entries there should be: those accepted that were neither
  popped nor superseded. Taking out the first entry with a key is taking out the
  only one, because different keys are themselves an invariant of the machine.

  What is proved:
    1. `Stepped.consistent` — after every step the entries are `waiting`, their keys
       differ, the limit is the last one set and the length is bounded by some limit
       that was in force (`Consistent`);
    2. `run_full` — pushes and pops that leave at least as many entries as the limit
       only take entries from the front.
    3. `Stepped.in_order` — what was popped, followed by what waits, is in the order in
       which it was accepted;
    4. `fate_rejected`, `fate_accepted`, `fate_popped`, `fate_resized` — what a step makes
       of each entry, where every entry is pushed once;
    5. `run_ahead` — then no entry overtakes another, and each pop brings those that wait
       one place forward.
-/

namespace BoundedQueue

/-- What happened to a queue. -/
inductive Record (α : Type) where
  | accepted (e : α)
  | rejected (e : α)
  | popped (e : α)
  | resized (limit : Nat)
  deriving DecidableEq, Repr

/-- The operations. -/
inductive Op (α : Type) where
  | push (e : α)
  | pop
  | resize (limit : Nat)
  deriving DecidableEq, Repr

def Op.isPop {α : Type} : Op α → Bool
  | .pop => true
  | _ => false

structure State (α : Type) where
  entries : List α
  limit : Nat
  history : List (Record α)
  deriving DecidableEq, Repr

section
variable {α : Type}

/-- The limits in force at some time, the first one first. -/
def limits (limit : Nat) : List (Record α) → List Nat
  | [] => [limit]
  | .resized n :: later => limit :: limits n later
  | _ :: later => limits limit later

/-- The limit in force in the end. -/
def currentLimit (limit : Nat) : List (Record α) → Nat
  | [] => limit
  | .resized n :: later => currentLimit n later
  | _ :: later => currentLimit limit later

theorem limits_append (n : Nat) (h : List (Record α)) (r : Record α) :
    limits n (h ++ [r]) = limits n h ++ (match r with | .resized m => [m] | _ => []) := by
  induction h generalizing n with
  | nil => cases r <;> rfl
  | cons x h ih => cases x <;> simp [limits, ih]

theorem currentLimit_append (n : Nat) (h : List (Record α)) (r : Record α) :
    currentLimit n (h ++ [r]) = (match r with | .resized m => m | _ => currentLimit n h) := by
  induction h generalizing n with
  | nil => cases r <;> rfl
  | cons x h ih => cases x <;> simp [currentLimit, ih]

theorem currentLimit_mem (n : Nat) (h : List (Record α)) : currentLimit n h ∈ limits n h := by
  induction h generalizing n with
  | nil => simp [currentLimit, limits]
  | cons x h ih =>
    cases x with
    | resized m => exact List.mem_cons_of_mem n (ih m)
    | accepted e => exact ih n
    | rejected e => exact ih n
    | popped e => exact ih n

/-- The queue that was just made. -/
def initial (limit : Nat) : State α where
  entries := []
  limit := limit
  history := []

end

section
variable {α κ : Type} [DecidableEq κ] (key : α → κ)

/-- The entries after a push that is accepted. -/
def enqueue (es : List α) (e : α) : List α := es.eraseP (fun d => key d = key e) ++ [e]

def push (s : State α) (e : α) : State α :=
  if s.limit ≤ s.entries.length then { s with history := s.history ++ [.rejected e] }
  else { s with entries := enqueue key s.entries e, history := s.history ++ [.accepted e] }

def pop (s : State α) : Option (State α) :=
  match s.entries with
  | [] => none
  | e :: rest => some { s with entries := rest, history := s.history ++ [.popped e] }

def step (s : State α) : Op α → Option (State α)
  | .push e => some (push key s e)
  | .pop => pop s
  | .resize n => some { s with limit := n, history := s.history ++ [.resized n] }

def system : Transition.System (State α) (Op α) where
  step := step key

/-- What a step can do. -/
inductive Stepped (s : State α) : Op α → State α → Prop
  | rejected (e : α) (h : s.limit ≤ s.entries.length) :
      Stepped s (.push e) { s with history := s.history ++ [.rejected e] }
  | accepted (e : α) (h : s.entries.length < s.limit) :
      Stepped s (.push e)
        { s with entries := enqueue key s.entries e, history := s.history ++ [.accepted e] }
  | popped (e : α) (rest : List α) (h : s.entries = e :: rest) :
      Stepped s .pop { s with entries := rest, history := s.history ++ [.popped e] }
  | resized (n : Nat) :
      Stepped s (.resize n) { s with limit := n, history := s.history ++ [.resized n] }

theorem stepped {s t : State α} {op : Op α} (h : step key s op = some t) : Stepped key s op t := by
  cases op with
  | push e =>
    have ht : push key s e = t := Option.some_inj.mp h
    subst ht
    unfold push
    split
    · rename_i hfull
      exact .rejected e hfull
    · rename_i hroom
      exact .accepted e (Nat.lt_of_not_le hroom)
  | pop =>
    have hp : pop s = some t := h
    unfold pop at hp
    split at hp
    · cases hp
    · rename_i e rest hes
      cases hp
      exact .popped e rest hes
  | resize n =>
    cases h
    exact .resized n

/-- Where the keys differ, the first entry with a key is the only one. -/
theorem eraseP_eq_filter {es : List α} (h : (es.map key).Nodup) (e : α) :
    es.eraseP (fun d => key d = key e) = es.filter (fun d => key e ≠ key d) := by
  induction es with
  | nil => rfl
  | cons d es ih =>
    rw [List.map_cons, List.nodup_cons] at h
    by_cases hd : key d = key e
    · have hrest : es.filter (fun x => key e ≠ key x) = es := by
        refine List.filter_eq_self.mpr (fun x hx => ?_)
        have hne : key e ≠ key x := fun hk =>
          h.1 (List.mem_map.mpr ⟨x, hx, (hd.trans hk).symm⟩)
        simpa using hne
      rw [List.eraseP_cons_of_pos (by simpa using hd), List.filter_cons_of_neg (by simpa using hd.symm),
        hrest]
    · rw [List.eraseP_cons_of_neg (by simpa using hd),
        List.filter_cons_of_pos (by simpa using Ne.symm hd), ih h.2]

theorem nodup_enqueue {es : List α} (h : (es.map key).Nodup) (e : α) :
    ((enqueue key es e).map key).Nodup := by
  unfold enqueue
  rw [eraseP_eq_filter key h, List.map_append, List.map_singleton, List.nodup_append]
  refine ⟨h.sublist (List.filter_sublist.map key), List.nodup_singleton _, ?_⟩
  intro k hk k' hk'
  obtain ⟨d, hd, rfl⟩ := List.mem_map.mp hk
  rw [List.mem_singleton.mp hk']
  have hne := (List.mem_filter.mp hd).2
  exact Ne.symm (by simpa using hne)

theorem enqueue_of_new {es : List α} {e : α} (h : ∀ d ∈ es, key d ≠ key e) :
    enqueue key es e = es ++ [e] := by
  unfold enqueue
  rw [List.eraseP_of_forall_not (fun d hd => by simpa using h d hd)]

/-- An entry with the key of a waiting one takes just that one out. -/
theorem enqueue_of_waiting {before after : List α} {d e : α}
    (h : ((before ++ d :: after).map key).Nodup) (hd : key d = key e) :
    enqueue key (before ++ d :: after) e = before ++ after ++ [e] := by
  have hbefore : ∀ x ∈ before, ¬ decide (key x = key e) = true := by
    intro x hx hkey
    rw [List.map_append, List.nodup_append] at h
    refine h.2.2 (key x) (List.mem_map_of_mem hx) (key d) (List.mem_map_of_mem List.mem_cons_self) ?_
    rw [of_decide_eq_true hkey, hd]
  unfold enqueue
  rw [List.eraseP_append_right _ hbefore, List.eraseP_cons_of_pos (by simpa using hd)]

theorem length_enqueue_le (es : List α) (e : α) : (enqueue key es e).length ≤ es.length + 1 := by
  unfold enqueue
  rw [List.length_append, List.length_singleton]
  exact Nat.succ_le_succ List.length_eraseP_le

variable {key} in
/-- Pushes and pops that leave the queue at its limit or above it take entries from
the front, and every push is rejected. -/
theorem run_full {s t : State α} {ops : List (Op α)} (h : (system key).run s ops = some t)
    (hops : ∀ m, .resize m ∉ ops) (pops : Nat) (hpops : pops = ops.countP Op.isPop)
    (hfull : s.limit + pops ≤ s.entries.length) :
    t.entries = s.entries.drop pops ∧ t.limit = s.limit ∧
      ∀ e, .accepted e ∈ t.history → .accepted e ∈ s.history := by
  induction ops generalizing s pops with
  | nil =>
    cases h
    subst hpops
    exact ⟨rfl, rfl, fun _ he => he⟩
  | cons op ops ih =>
    obtain ⟨u, hu, ht⟩ := Transition.System.run_cons_some.mp h
    have hrest : ∀ m, .resize m ∉ ops := fun m hm => hops m (List.mem_cons_of_mem op hm)
    cases stepped key hu with
    | rejected e hle =>
      obtain ⟨h1, h2, h3⟩ := ih ht hrest pops (by simpa [Op.isPop] using hpops) hfull
      exact ⟨h1, h2, fun d hd => by simpa using h3 d hd⟩
    | accepted e hlt => omega
    | popped e rest hes =>
      have hcount : pops = ops.countP Op.isPop + 1 := by
        rw [hpops, List.countP_cons_of_pos rfl]
      rw [hes, List.length_cons, hcount] at hfull
      obtain ⟨h1, h2, h3⟩ := ih ht hrest _ rfl (Nat.le_of_succ_le_succ hfull)
      refine ⟨?_, h2, fun d hd => by simpa using h3 d hd⟩
      rw [hes, hcount, List.drop_succ_cons]
      exact h1
    | resized m => exact absurd List.mem_cons_self (hops m)

end

section
variable {α κ : Type} [DecidableEq α] [DecidableEq κ] (key : α → κ)

/-- The record takes `e` out of the queue: it was popped, or superseded. -/
def takesOut (e : α) : Record α → Bool
  | .popped d => d = e
  | .accepted d => key d = key e
  | _ => false

/-- The accepted entries that were neither popped nor superseded later, in the order
they were accepted. -/
def waiting : List (Record α) → List α
  | [] => []
  | .accepted e :: later => if later.any (takesOut key e) then waiting later else e :: waiting later
  | _ :: later => waiting later

theorem accepted_of_waiting {e : α} {h : List (Record α)} (he : e ∈ waiting key h) :
    .accepted e ∈ h := by
  induction h with
  | nil => cases he
  | cons x h ih =>
    cases x with
    | accepted d =>
      rw [waiting] at he
      split at he
      · exact List.mem_cons_of_mem _ (ih he)
      · rcases List.mem_cons.mp he with rfl | he
        · exact List.mem_cons_self
        · exact List.mem_cons_of_mem _ (ih he)
    | rejected d => exact List.mem_cons_of_mem _ (ih he)
    | popped d => exact List.mem_cons_of_mem _ (ih he)
    | resized m => exact List.mem_cons_of_mem _ (ih he)

theorem waiting_append_filter {r : Record α} (hw : ∀ h, waiting key (r :: h) = waiting key h)
    (h : List (Record α)) :
    waiting key (h ++ [r]) = (waiting key h).filter (fun e => !takesOut key e r) := by
  induction h with
  | nil => exact hw []
  | cons x h ih =>
    cases x with
    | accepted e =>
      by_cases hgone : h.any (takesOut key e) = true
      · simp [waiting, ih, hgone]
      · by_cases hr : takesOut key e r = true
        · simp [waiting, ih, hgone, hr]
        · simp [waiting, ih, hgone, hr]
    | rejected e => simpa [waiting] using ih
    | popped e => simpa [waiting] using ih
    | resized n => simpa [waiting] using ih

theorem waiting_append_quiet {r : Record α} (hr : ∀ e, takesOut key e r = false)
    (hw : ∀ h, waiting key (r :: h) = waiting key h) (h : List (Record α)) :
    waiting key (h ++ [r]) = waiting key h := by
  rw [waiting_append_filter key hw]
  exact List.filter_eq_self.mpr (fun e _ => by simp [hr e])

/-- An entry that is accepted takes out the one with its key and goes to the back. -/
theorem waiting_append_accepted (h : List (Record α)) (e : α) :
    waiting key (h ++ [.accepted e]) = (waiting key h).filter (fun d => key e ≠ key d) ++ [e] := by
  induction h with
  | nil => simp [waiting]
  | cons x h ih =>
    cases x with
    | accepted d =>
      by_cases hgone : h.any (takesOut key d) = true
      · simp [waiting, ih, hgone]
      · by_cases hk : key e = key d
        · simp [waiting, ih, hgone, hk, takesOut]
        · simp [waiting, ih, hgone, hk, takesOut]
    | rejected d => simpa [waiting] using ih
    | popped d => simpa [waiting] using ih
    | resized n => simpa [waiting] using ih

theorem filter_ne_head {e : α} {rest : List α} (h : ((e :: rest).map key).Nodup) :
    (e :: rest).filter (fun d => !takesOut key d (.popped e)) = rest := by
  rw [List.map_cons, List.nodup_cons] at h
  rw [List.filter_cons_of_neg (by simp [takesOut])]
  refine List.filter_eq_self.mpr (fun x hx => ?_)
  have hne : e ≠ x := fun hk => h.1 (List.mem_map.mpr ⟨x, hx, by rw [hk]⟩)
  simpa [takesOut] using hne

/-- The entries are the ones the history says, their keys differ, the limit is the
last one set, and there was room for them under some limit. -/
structure Consistent (n : Nat) (s : State α) : Prop where
  entries : s.entries = waiting key s.history
  distinct : (s.entries.map key).Nodup
  limit : s.limit = currentLimit n s.history
  bounded : ∃ l ∈ limits n s.history, s.entries.length ≤ l

variable {n : Nat} {s t : State α}

theorem initial_consistent (n : Nat) : Consistent key n (initial n) :=
  ⟨rfl, List.nodup_nil, rfl, n, by simp [limits, initial], Nat.zero_le n⟩

variable {key}

theorem Stepped.consistent {op : Op α} (h : Stepped key s op t) (hs : Consistent key n s) :
    Consistent key n t := by
  obtain ⟨l, hl, hlen⟩ := hs.bounded
  have hkeep : ∀ r : Record α, l ∈ limits n (s.history ++ [r]) := by
    intro r
    rw [limits_append]
    exact List.mem_append_left _ hl
  cases h with
  | rejected e hfull =>
    refine ⟨?_, hs.distinct, ?_, l, hkeep _, hlen⟩
    · rw [waiting_append_quiet key (fun _ => rfl) (fun _ => rfl)]
      exact hs.entries
    · rw [currentLimit_append]
      exact hs.limit
  | accepted e hroom =>
    refine ⟨?_, nodup_enqueue key hs.distinct e, ?_, s.limit, ?_, ?_⟩
    · rw [waiting_append_accepted, ← hs.entries, ← eraseP_eq_filter key hs.distinct]
      rfl
    · rw [currentLimit_append]
      exact hs.limit
    · rw [limits_append, hs.limit]
      exact List.mem_append_left _ (currentLimit_mem n s.history)
    · have hle := length_enqueue_le key s.entries e
      show (enqueue key s.entries e).length ≤ s.limit
      omega
  | popped e rest hes =>
    have hdistinct := hs.distinct
    rw [hes] at hdistinct hlen
    refine ⟨?_, (List.nodup_cons.mp hdistinct).2, ?_, l, hkeep _, Nat.le_of_succ_le hlen⟩
    · rw [waiting_append_filter key (fun _ => rfl), ← hs.entries, hes]
      exact (filter_ne_head key hdistinct).symm
    · rw [currentLimit_append]
      exact hs.limit
  | resized m =>
    refine ⟨?_, hs.distinct, ?_, l, hkeep _, hlen⟩
    · rw [waiting_append_quiet key (fun _ => rfl) (fun _ => rfl)]
      exact hs.entries
    · rw [currentLimit_append]

end

/-! The order of the entries. -/

section
variable {α κ : Type} [DecidableEq κ] {key : α → κ}

def Record.accepted? : Record α → Option α
  | accepted e => some e
  | _ => none

def Record.popped? : Record α → Option α
  | popped e => some e
  | _ => none

/-- The entries that were accepted, the first one first. -/
def admitted (h : List (Record α)) : List α := h.filterMap Record.accepted?

/-- The entries that were popped, the first one first. -/
def taken (h : List (Record α)) : List α := h.filterMap Record.popped?

theorem admitted_append (h : List (Record α)) (r : Record α) :
    admitted (h ++ [r]) = admitted h ++ r.accepted?.toList := by
  cases r <;> simp [admitted, Record.accepted?]

theorem admitted_append_none {r : Record α} (hr : r.accepted? = none) (h : List (Record α)) :
    admitted (h ++ [r]) = admitted h := by
  rw [admitted_append, hr, Option.toList_none, List.append_nil]

theorem taken_append (h : List (Record α)) (r : Record α) :
    taken (h ++ [r]) = taken h ++ r.popped?.toList := by
  cases r <;> simp [taken, Record.popped?]

/-- What came out of the queue, followed by what is still in it, is what was accepted
with some entries left out. -/
def InOrder (s : State α) : Prop := (taken s.history ++ s.entries).Sublist (admitted s.history)

theorem initial_in_order (n : Nat) : InOrder (initial n : State α) := List.Sublist.refl []

theorem Stepped.in_order {s t : State α} {op : Op α} (h : Stepped key s op t) (hs : InOrder s) :
    InOrder t := by
  unfold InOrder at hs ⊢
  cases h with
  | rejected e _ | resized m =>
    simpa [taken_append, admitted_append, Record.popped?, Record.accepted?] using hs
  | accepted e _ =>
    -- superseding an entry leaves it out, and the new one comes last on both sides
    have herase : (s.entries.eraseP (fun d => key d = key e)).Sublist s.entries := List.eraseP_sublist
    have hrest := (herase.append_left (taken s.history)).trans hs
    simpa [taken_append, admitted_append, Record.popped?, Record.accepted?, enqueue] using
      hrest.append (List.Sublist.refl [e])
  | popped e rest hes =>
    rw [hes] at hs
    simpa [taken_append, admitted_append, Record.popped?, Record.accepted?] using hs

theorem run_in_order {s t : State α} {ops : List (Op α)} (h : (system key).run s ops = some t)
    (hs : InOrder s) : InOrder t :=
  Transition.System.run_inv (I := InOrder) (fun _ _ _ hs hstep => (stepped key hstep).in_order hs) h hs

def Op.pushed? : Op α → Option α
  | push e => some e
  | _ => none

/-- The entries that were pushed, the first one first. -/
def pushes (ops : List (Op α)) : List α := ops.filterMap Op.pushed?

/-- Entries are accepted in the order in which they are pushed. -/
theorem run_admitted {s t : State α} {ops : List (Op α)} (h : (system key).run s ops = some t) :
    (admitted t.history).Sublist (admitted s.history ++ pushes ops) := by
  induction ops generalizing s with
  | nil =>
    cases h
    simp [pushes]
  | cons op ops ih =>
    obtain ⟨u, hu, ht⟩ := Transition.System.run_cons_some.mp h
    have hrest := ih ht
    cases stepped key hu with
    | rejected e _ =>
      rw [admitted_append_none rfl] at hrest
      exact hrest.trans ((List.sublist_cons_self e _).append_left _)
    | popped e rest _ | resized m =>
      rw [admitted_append_none rfl] at hrest
      exact hrest
    | accepted e _ =>
      rw [admitted_append] at hrest
      simpa [Record.accepted?, pushes, Op.pushed?] using hrest

end

/-! What becomes of an entry. -/

/-- What became of an entry that was pushed. -/
inductive Fate where
  | waiting
  | rejected
  | superseded
  | popped
  deriving DecidableEq, Repr

section
variable {α κ : Type} [DecidableEq α] {key : α → κ}

/-- An entry that was accepted and is gone was superseded, unless it was popped. -/
def fate (s : State α) (e : α) : Option Fate :=
  if .rejected e ∈ s.history then some .rejected
  else if .popped e ∈ s.history then some .popped
  else if .accepted e ∈ s.history then if e ∈ s.entries then some .waiting else some .superseded
  else none

/-- Where every entry is pushed once, those in the queue are the ones that wait. -/
structure Fated (key : α → κ) (s : State α) : Prop where
  distinct : (s.entries.map key).Nodup
  waiting : ∀ e ∈ s.entries, fate s e = some .waiting

variable {s : State α} {e d : α}

theorem fate_none (h : fate s e = none) :
    .rejected e ∉ s.history ∧ .popped e ∉ s.history ∧ .accepted e ∉ s.history := by
  unfold fate at h
  split at h
  · cases h
  · rename_i hr
    split at h
    · cases h
    · rename_i hp
      split at h
      · split at h <;> cases h
      · rename_i ha
        exact ⟨hr, hp, ha⟩

theorem fate_waiting_iff : fate s e = some .waiting ↔ .rejected e ∉ s.history ∧ .popped e ∉ s.history ∧
    .accepted e ∈ s.history ∧ e ∈ s.entries := by
  unfold fate
  split
  · simp [*]
  · split
    · simp [*]
    · split
      · split <;> simp [*]
      · simp [*]

theorem fate_append {es : List α} {n : Nat} {r : Record α} (hentries : e ∈ es ↔ e ∈ s.entries)
    (hrejected : r ≠ .rejected e) (hpopped : r ≠ .popped e) (haccepted : r ≠ .accepted e) :
    fate ⟨es, n, s.history ++ [r]⟩ e = fate s e := by
  simp [fate, hentries, Ne.symm hrejected, Ne.symm hpopped, Ne.symm haccepted]

theorem fate_rejected (s : State α) (e d : α) :
    fate { s with history := s.history ++ [.rejected e] } d = if d = e then some .rejected else fate s d := by
  by_cases hd : d = e
  · simp [fate, hd]
  · rw [if_neg hd]
    exact fate_append Iff.rfl (by simpa using Ne.symm hd) (by simp) (by simp)

theorem fate_popped {rest : List α} (hs : Fated key s) (hes : s.entries = e :: rest) (d : α) :
    fate { s with entries := rest, history := s.history ++ [.popped e] } d =
      if d = e then some .popped else fate s d := by
  by_cases hd : d = e
  · obtain ⟨hr, _⟩ := fate_waiting_iff.mp (hs.waiting e (hes ▸ List.mem_cons_self))
    simp [fate, hd, hr]
  · rw [if_neg hd]
    have hentries : d ∈ rest ↔ d ∈ s.entries := by
      rw [hes, List.mem_cons, or_iff_right hd]
    exact fate_append hentries (by simp) (by simpa using Ne.symm hd) (by simp)

theorem fate_resized (s : State α) (n : Nat) (d : α) :
    fate { s with limit := n, history := s.history ++ [.resized n] } d = fate s d :=
  fate_append Iff.rfl (by simp) (by simp) (by simp)

theorem fate_none_of (hr : .rejected e ∉ s.history) (hp : .popped e ∉ s.history) (ha : .accepted e ∉ s.history) :
    fate s e = none := by
  rw [fate, if_neg hr, if_neg hp, if_neg ha]

/-- The number of entries before it. -/
def ahead (s : State α) (e : α) : Nat := s.entries.idxOf e

theorem ahead_of_getElem? (hs : Fated key s) {i : Nat} (h : s.entries[i]? = some e) : ahead s e = i := by
  obtain ⟨hlen, heq⟩ := List.getElem?_eq_some_iff.mp h
  rw [ahead, ← heq]
  exact (List.Nodup.of_map key hs.distinct).idxOf_getElem i hlen

theorem idxOf_eraseP_le {p : α → Bool} {l : List α} (hnodup : l.Nodup) (h : e ∈ l.eraseP p) :
    (l.eraseP p).idxOf e ≤ l.idxOf e := by
  induction l with
  | nil => cases h
  | cons d l ih =>
    rw [List.nodup_cons] at hnodup
    by_cases hd : p d = true
    · rw [List.eraseP_cons_of_pos hd] at h ⊢
      have hne : d ≠ e := by
        rintro rfl
        exact hnodup.1 h
      rw [List.idxOf_cons_ne l hne]
      exact Nat.le_succ _
    · rw [List.eraseP_cons_of_neg hd] at h ⊢
      by_cases hde : d = e
      · rw [List.idxOf_cons_eq _ hde]
        exact Nat.zero_le _
      · rw [List.idxOf_cons_ne _ hde, List.idxOf_cons_ne _ hde]
        exact Nat.succ_le_succ (ih hnodup.2 ((List.mem_cons.mp h).resolve_left (Ne.symm hde)))

variable [DecidableEq κ]

theorem mem_enqueue (hs : Fated key s) :
    d ∈ enqueue key s.entries e ↔ d = e ∨ d ∈ s.entries ∧ key e ≠ key d := by
  rw [enqueue, eraseP_eq_filter key hs.distinct, List.mem_append, List.mem_filter, List.mem_singleton, or_comm,
    decide_eq_true_iff]

/-- A push that is accepted supersedes the waiting entry with its key. -/
theorem fate_accepted (hs : Fated key s) (h : fate s e = none) (d : α) :
    fate { s with entries := enqueue key s.entries e, history := s.history ++ [.accepted e] } d =
      if d = e then some .waiting
      else if fate s d = some .waiting ∧ key d = key e then some .superseded else fate s d := by
  have hmem := mem_enqueue hs (e := e) (d := d)
  by_cases hd : d = e
  · obtain ⟨hr, hp, _⟩ := fate_none h
    subst hd
    rw [if_pos rfl]
    exact fate_waiting_iff.mpr ⟨by simpa using hr, by simpa using hp, by simp, hmem.mpr (Or.inl rfl)⟩
  · rw [if_neg hd]
    have hne : (Record.accepted e : Record α) ≠ .accepted d := by simpa using Ne.symm hd
    by_cases hin : d ∈ s.entries
    · have hwaiting := hs.waiting d hin
      obtain ⟨hr, hp, ha, _⟩ := fate_waiting_iff.mp hwaiting
      by_cases hkey : key d = key e
      · have hgone : d ∉ enqueue key s.entries e := by
          rw [hmem]
          rintro (heq | ⟨_, hother⟩)
          · exact hd heq
          · exact hother hkey.symm
        rw [if_pos ⟨hwaiting, hkey⟩]
        simp [fate, hr, hp, ha, hgone]
      · rw [if_neg (fun hboth => hkey hboth.2)]
        refine fate_append (hmem.trans ⟨?_, fun _ => Or.inr ⟨hin, Ne.symm hkey⟩⟩) (by simp) (by simp) hne
        exact fun _ => hin
    · have hnot : fate s d ≠ some .waiting := fun hw => hin (fate_waiting_iff.mp hw).2.2.2
      rw [if_neg (fun hboth => hnot hboth.1)]
      refine fate_append (hmem.trans ⟨?_, fun hmem => absurd hmem hin⟩) (by simp) (by simp) hne
      rintro (heq | ⟨hmem, _⟩)
      · exact absurd heq hd
      · exact hmem

theorem Stepped.fated {t : State α} {op : Op α} (h : Stepped key s op t) (hs : Fated key s)
    (hfresh : ∀ e, op = .push e → fate s e = none) : Fated key t := by
  cases h with
  | rejected e hfull =>
    refine ⟨hs.distinct, fun d hd => ?_⟩
    have hwaiting := hs.waiting d hd
    have hne : d ≠ e := by
      rintro rfl
      rw [hfresh d rfl] at hwaiting
      cases hwaiting
    rw [fate_rejected, if_neg hne]
    exact hwaiting
  | accepted e hroom =>
    refine ⟨nodup_enqueue key hs.distinct e, fun d hd => ?_⟩
    rw [fate_accepted hs (hfresh e rfl)]
    rcases (mem_enqueue hs).mp hd with heq | ⟨hmem, hkey⟩
    · rw [if_pos heq]
    · by_cases heq : d = e
      · rw [if_pos heq]
      · rw [if_neg heq, if_neg (fun hboth => hkey hboth.2.symm)]
        exact hs.waiting d hmem
  | popped e rest hes =>
    have hdistinct := hs.distinct
    rw [hes, List.map_cons, List.nodup_cons] at hdistinct
    refine ⟨hdistinct.2, fun d hd => ?_⟩
    have hne : d ≠ e := by
      rintro rfl
      exact hdistinct.1 (List.mem_map_of_mem hd)
    rw [fate_popped hs hes, if_neg hne]
    exact hs.waiting d (hes ▸ List.mem_cons_of_mem e hd)
  | resized n =>
    refine ⟨hs.distinct, fun d hd => ?_⟩
    rw [fate_resized]
    exact hs.waiting d hd

/-! How long an entry waits. -/

/-- Nothing that was pushed is forgotten. -/
theorem Stepped.fate_kept {t : State α} {op : Op α} (h : Stepped key s op t) (he : fate s e ≠ none) :
    fate t e ≠ none := by
  intro hnone
  obtain ⟨hr, hp, ha⟩ := fate_none hnone
  have hgrown : ∀ r ∈ s.history, r ∈ t.history := by
    intro r hmem
    cases h <;> exact List.mem_append_left _ hmem
  exact he (fate_none_of (fun h => hr (hgrown _ h)) (fun h => hp (hgrown _ h)) (fun h => ha (hgrown _ h)))

theorem run_fate_kept {t : State α} {ops : List (Op α)} (h : (system key).run s ops = some t)
    (he : fate s e ≠ none) : fate t e ≠ none :=
  Transition.System.run_inv (I := fun s => fate s e ≠ none)
    (fun _ _ _ hs hstep => (stepped key hstep).fate_kept hs) h he

theorem Stepped.fate_pushed {t : State α} (h : Stepped key s (.push e) t) : fate t e ≠ none := by
  intro hnone
  obtain ⟨hr, _, ha⟩ := fate_none hnone
  cases h with
  | rejected e hfull => exact hr (List.mem_append_right _ List.mem_cons_self)
  | accepted e hroom => exact ha (List.mem_append_right _ List.mem_cons_self)

/-- A push is of an entry that was not pushed before. -/
def FreshPush (s : State α) (op : Op α) : Prop := ∀ e, op = .push e → fate s e = none

/-- The entry was popped or superseded. -/
def Gone (s : State α) (e : α) : Prop := fate s e = some .popped ∨ fate s e = some .superseded

/-- An entry that is gone stays gone. -/
theorem Stepped.gone {t : State α} {op : Op α} (h : Stepped key s op t) (hs : Fated key s)
    (hfresh : FreshPush s op) (he : Gone s e) : Gone t e := by
  have hother : ∀ d, op = .push d → e ≠ d := by
    rintro d hop rfl
    rcases he with he | he <;> cases (hfresh e hop).symm.trans he
  unfold Gone at he ⊢
  cases h with
  | rejected d hfull =>
    rw [fate_rejected, if_neg (hother d rfl)]
    exact he
  | accepted d hroom =>
    have hnot : ¬ (fate s e = some .waiting ∧ key e = key d) := by
      rintro ⟨hw, _⟩
      rcases he with he | he <;> cases hw.symm.trans he
    rw [fate_accepted hs (hfresh d rfl), if_neg (hother d rfl), if_neg hnot]
    exact he
  | popped d rest hes =>
    rw [fate_popped hs hes]
    split
    · exact Or.inl rfl
    · exact he
  | resized n =>
    rw [fate_resized]
    exact he

/-- Nobody gets ahead of an entry that waits, and each pop brings it forward. -/
theorem Stepped.ahead_le {t : State α} {op : Op α} (h : Stepped key s op t) (hs : Fated key s)
    (hfresh : FreshPush s op) (he : fate s e = some .waiting) :
    (fate t e = some .waiting ∧ ahead t e + (if op.isPop then 1 else 0) ≤ ahead s e) ∨ Gone t e := by
  have hother : ∀ d, op = .push d → e ≠ d := by
    rintro d hop rfl
    cases (hfresh e hop).symm.trans he
  cases h with
  | rejected d hfull =>
    rw [fate_rejected, if_neg (hother d rfl)]
    exact Or.inl ⟨he, Nat.le_refl _⟩
  | accepted d hroom =>
    have hfate := fate_accepted hs (hfresh d rfl) e
    rw [if_neg (hother d rfl)] at hfate
    by_cases hkey : key e = key d
    · rw [if_pos ⟨he, hkey⟩] at hfate
      exact Or.inr (Or.inr hfate)
    · rw [if_neg (fun hboth => hkey hboth.2)] at hfate
      have hmem : e ∈ s.entries.eraseP (fun x => key x = key d) := by
        refine (List.mem_eraseP_of_neg (by simpa using hkey)).mpr ?_
        exact (fate_waiting_iff.mp he).2.2.2
      refine Or.inl ⟨hfate.trans he, ?_⟩
      show (s.entries.eraseP (fun x => key x = key d) ++ [d]).idxOf e + 0 ≤ s.entries.idxOf e
      rw [List.idxOf_append_of_mem hmem]
      exact idxOf_eraseP_le (List.Nodup.of_map key hs.distinct) hmem
  | popped d rest hes =>
    have hfate := fate_popped hs hes e
    by_cases hed : e = d
    · rw [if_pos hed] at hfate
      exact Or.inr (Or.inl hfate)
    · rw [if_neg hed] at hfate
      refine Or.inl ⟨hfate.trans he, ?_⟩
      rw [ahead, ahead, hes, List.idxOf_cons_ne rest (Ne.symm hed)]
      exact Nat.le_refl _
  | resized n =>
    rw [fate_resized]
    exact Or.inl ⟨he, Nat.le_refl _⟩

/-- An entry that still waits had all the pops of the run ahead of it. -/
theorem run_ahead {t : State α} {ops : List (Op α)} (h : (system key).run s ops = some t)
    (hfresh : (system key).Along FreshPush s ops) (hs : Fated key s) (he : fate s e = some .waiting) :
    (fate t e = some .waiting ∧ ahead t e + ops.countP Op.isPop ≤ ahead s e) ∨ Gone t e := by
  induction ops generalizing s with
  | nil =>
    cases h
    exact Or.inl ⟨he, Nat.le_refl _⟩
  | cons op ops ih =>
    obtain ⟨u, hu, ht⟩ := Transition.System.run_cons_some.mp h
    have hstepped := stepped key hu
    have hsu := hstepped.fated hs hfresh.1
    rcases hstepped.ahead_le hs hfresh.1 he with ⟨hwaiting, hle⟩ | hgone
    · rcases ih ht (hfresh.2 u hu) hsu hwaiting with ⟨hend, hle'⟩ | hgone
      · refine Or.inl ⟨hend, ?_⟩
        rw [List.countP_cons]
        omega
      · exact Or.inr hgone
    · right
      have hinv : ∀ (s : State α) (op : Op α) (t : State α), Fated key s ∧ Gone s e → FreshPush s op →
          (system key).step s op = some t → Fated key t ∧ Gone t e :=
        fun s op t hboth hok hstep => ⟨(stepped key hstep).fated hboth.1 hok, (stepped key hstep).gone hboth.1 hok hboth.2⟩
      exact (Transition.System.run_inv_along hinv ht (hfresh.2 u hu) ⟨hsu, hgone⟩).2

end

end BoundedQueue
