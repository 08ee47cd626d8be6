import ProteiCov.Queue
import ProteiCov.Lib.BoundedQueue

/-
  The queue over whole runs

  A queue is pushed to, popped and given other limits in any order; a history keeps
  what came of it. Seen through its entries, its limit and the history it is the
  bounded queue of `BoundedQueue` with the number of a call as key (`step_refines`),
  so what it holds can be read off the history alone.

  `find_if` finds the first entry with a number and only that one is erased. It is
  the only one, because different numbers are part of what every step keeps.
-/

namespace ProteiCov
open Cpp

/-- The number of the call of an entry. -/
def World.numberOf (w : World) (e : TaskRef × CallID) : List Char := (w.tasks e.1).number_

namespace Queue

/-- What a user of the queue asks for; `now` is the clock a push reads. -/
inductive Op where
  | push (e : TaskRef × CallID) (now : TimePoint)
  | pop
  | update (size : Int)
  deriving DecidableEq, Repr

def Op.isPop : Op → Bool
  | .pop => true
  | _ => false

abbrev History := List (BoundedQueue.Record (TaskRef × CallID))

/-- The world a queue is in, and what happened to the queue. -/
structure Life where
  world : World
  history : History

/-- `front()` and then `pop()`. -/
def takeFront (q : QueueRef) : Exec World (TaskRef × CallID) := do
  let e ← front q
  pop q
  return e

/-- One call of the interface; `none` where it does not return. -/
def Life.step (q : QueueRef) (s : Life) : Op → Option Life
  | .push e now =>
    match (push q now e).run s.world with
    | (.ok true, v) => some ⟨v, s.history ++ [.accepted e]⟩
    | (.ok false, v) => some ⟨v, s.history ++ [.rejected e]⟩
    | _ => none
  | .pop =>
    match (takeFront q).run s.world with
    | (.ok e, v) => some ⟨v, s.history ++ [.popped e]⟩
    | _ => none
  | .update size =>
    match (update q size).run s.world with
    | (.ok _, v) => some ⟨v, s.history ++ [.resized size.toNat]⟩
    | _ => none

def lives (q : QueueRef) : Transition.System Life Op where
  step := Life.step q

/-- The tasks pushes were tried with. -/
def offered : History → List TaskRef
  | [] => []
  | .accepted e :: later => e.1 :: offered later
  | .rejected e :: later => e.1 :: offered later
  | _ :: later => offered later

theorem offered_append (h h' : History) : offered (h ++ h') = offered h ++ offered h' := by
  induction h with
  | nil => rfl
  | cons r h ih => cases r <;> simp [offered, ih]

theorem offered_of_accepted {e : TaskRef × CallID} {h : History} (he : .accepted e ∈ h) :
    e.1 ∈ offered h := by
  obtain ⟨before, after, rfl⟩ := List.append_of_mem he
  rw [offered_append]
  exact List.mem_append_right _ List.mem_cons_self

/-- The task was pushed at no time and nobody settled its promise. -/
def Fresh (w₀ : World) (s : Life) (t : TaskRef) : Prop :=
  (w₀.tasks t).promise_.state = none ∧ t ∉ offered s.history

/-- A push is with a fresh task, and a limit is an `int` that is not negative. -/
def Op.Allowed (w₀ : World) (s : Life) : Op → Prop
  | push e _ => Fresh w₀ s e.1
  | pop => True
  | update size => 0 ≤ size ∧ size < 2 ^ 31

instance (w₀ : World) (s : Life) (op : Op) : Decidable (op.Allowed w₀ s) :=
  match op with
  | .push e _ => inferInstanceAs (Decidable ((w₀.tasks e.1).promise_.state = none ∧ e.1 ∉ offered s.history))
  | .pop => inferInstanceAs (Decidable True)
  | .update size => inferInstanceAs (Decidable (0 ≤ size ∧ size < 2 ^ 31))

/-! What each call does. -/

/-- Erasing the entry that was found is erasing the first one with the number. -/
theorem eraseIdx_of_findNumber {w : World} {number : List Char} {es : List (TaskRef × CallID)}
    {i : Nat} {d : TaskRef × CallID} (h : findNumber w.tasks number es = some (i, d)) :
    es.eraseIdx i = es.eraseP (fun x => w.numberOf x = number) := by
  induction es generalizing i with
  | nil => cases h
  | cons e es ih =>
    rw [findNumber] at h
    split at h
    · rename_i hn
      cases h
      exact (List.eraseP_cons_of_pos (p := fun x => decide (w.numberOf x = number))
        (decide_eq_true hn)).symm
    · rename_i hn
      obtain ⟨⟨j, d'⟩, hj, he⟩ := Option.map_eq_some_iff.mp h
      cases he
      rw [List.eraseP_cons_of_neg (p := fun x => decide (w.numberOf x = number))
        (fun hc => hn (of_decide_eq_true hc)), List.eraseIdx_cons_succ, ih hj]

theorem eraseP_of_findNumber_none {w : World} {number : List Char} {es : List (TaskRef × CallID)}
    (h : findNumber w.tasks number es = none) :
    es.eraseP (fun x => w.numberOf x = number) = es :=
  List.eraseP_of_forall_not (fun x hx hc => findNumber_none.mp h x hx (of_decide_eq_true hc))

/-- A push of `e` between two worlds that answered `b`. -/
structure PushEffect (q : QueueRef) (e : TaskRef × CallID) (b : Bool) (w u : World) : Prop where
  rejected : b = false ↔ (w.queues q).sizeOfQueue ≤ (w.queues q).queue_.length
  queue : u.queues q =
    if b then { w.queues q with queue_ := BoundedQueue.enqueue w.numberOf (w.queues q).queue_ e }
    else w.queues q
  numbers : ∀ t, (u.tasks t).number_ = (w.tasks t).number_
  spared : ∀ t, (b = false → t ≠ e.1) →
    (b = true → ∀ d ∈ (w.queues q).queue_, w.numberOf d = w.numberOf e → t ≠ d.1) →
    (u.tasks t).promise_ = (w.tasks t).promise_

theorem refused_tasks (w : World) (q : QueueRef) (now : TimePoint) (d : TaskRef × CallID)
    (isDuplication : Bool) (t : TaskRef) :
    ((w.refused q now d isDuplication).tasks t).number_ = (w.tasks t).number_ ∧
      (t ≠ d.1 → ((w.refused q now d isDuplication).tasks t).promise_ = (w.tasks t).promise_) := by
  by_cases h : t = d.1
  · subst h
    simp [World.refused, World.closed, World.journal, World.settled]
  · simp [World.refused, World.closed, World.journal, World.settled, h]

/-- A push returns where the calls that wait and the pushed one are pending. -/
theorem push_effect {w : World} {q : QueueRef} {e : TaskRef × CallID} (now : TimePoint)
    (hwaiting : ∀ d ∈ (w.queues q).queue_, (w.tasks d.1).promise_.state = none)
    (he : (w.tasks e.1).promise_.state = none) :
    ∃ b u, (push q now e).run w = (.ok b, u) ∧ PushEffect q e b w u := by
  rcases Nat.lt_or_ge (w.queues q).queue_.length (w.queues q).sizeOfQueue with hroom | hfull
  · have hrejected : true = false ↔ (w.queues q).sizeOfQueue ≤ (w.queues q).queue_.length := by
      constructor
      · intro h
        cases h
      · intro h
        omega
    cases hfind : findNumber w.tasks (w.tasks e.1).number_ (w.queues q).queue_ with
    | none =>
      refine ⟨true, _, run_push_fresh now hroom hfind, hrejected, ?_, fun t => rfl, fun t _ _ => rfl⟩
      have hes := eraseP_of_findNumber_none hfind
      simp only [World.setEntries, World.setQueue_queues, Function.update_self, if_true,
        BoundedQueue.enqueue]
      rw [show w.numberOf e = (w.tasks e.1).number_ from rfl, hes]
      rfl
    | some found =>
      obtain ⟨i, d⟩ := found
      obtain ⟨hi, hnumber, _⟩ := findNumber_some hfind
      have hmem := List.mem_of_getElem? hi
      refine ⟨true, _, run_push_duplicate now hroom hfind (hwaiting d hmem), hrejected, ?_, ?_, ?_⟩
      · have hes := eraseIdx_of_findNumber hfind
        simp only [World.setEntries, World.setQueue_queues, Function.update_self, if_true,
          BoundedQueue.enqueue]
        rw [hes]
        rfl
      · intro t
        exact (refused_tasks (searched w q e.1) q now d true t).1
      · intro t _ hne
        exact (refused_tasks (searched w q e.1) q now d true t).2 (hne rfl d hmem hnumber)
  · refine ⟨false, _, run_push_overloaded now hfull he, ⟨fun _ => hfull, fun _ => rfl⟩, rfl, ?_, ?_⟩
    · intro t
      exact (refused_tasks w q now e false t).1
    · intro t hne _
      exact (refused_tasks w q now e false t).2 (hne rfl)

theorem run_takeFront {w : World} {q : QueueRef} {e : TaskRef × CallID}
    {rest : List (TaskRef × CallID)} (h : (w.queues q).queue_ = e :: rest) :
    (takeFront q).run w = (.ok e, w.setEntries q rest) := by
  have hread : (readQueue q).run w = (.ok (w.queues q), w) := rfl
  have hfront : (front q).run w = (.ok e, w) := by
    rw [front, Exec.run_bind_ok hread, h]
    rfl
  have hpop : (pop q).run w = (.ok (), w.setEntries q rest) := by
    rw [pop, Exec.run_bind_ok hread, h]
    rfl
  rw [takeFront, Exec.run_bind_ok hfront, Exec.run_bind_ok hpop]
  rfl

theorem run_takeFront_empty {w : World} {q : QueueRef} (h : (w.queues q).queue_ = []) :
    (takeFront q).run w = (.undefined, w) := by
  have hread : (readQueue q).run w = (.ok (w.queues q), w) := rfl
  have hfront : (front q).run w = (.undefined, w) := by
    rw [front, Exec.run_bind_ok hread, h]
    rfl
  rw [takeFront, Exec.run_bind_undefined hfront]

theorem run_update (q : QueueRef) (size : Int) (w : World) :
    (update q size).run w =
      (.ok (), w.setQueue q { w.queues q with sizeOfQueue := toSizeT size }) := rfl

theorem toSizeT_of_int {n : Int} (h : 0 ≤ n) (hlt : n < 2 ^ 31) : toSizeT n = n.toNat := by
  unfold toSizeT
  rw [Int.emod_eq_of_lt h (by omega)]

/-! The queue as a bounded queue. -/

/-- What the bounded queue sees of a queue and its history. -/
def Life.bounded (q : QueueRef) (s : Life) : BoundedQueue.State (TaskRef × CallID) where
  entries := (s.world.queues q).queue_
  limit := (s.world.queues q).sizeOfQueue
  history := s.history

def Op.bounded : Op → BoundedQueue.Op (TaskRef × CallID)
  | push e _ => .push e
  | pop => .pop
  | update size => .resize size.toNat

/-- What holds of a queue made with the limit `n` in the world `w₀`, whatever was
done with it: its calls are pending, and those never pushed are as they were. -/
structure Sound (w₀ : World) (q : QueueRef) (n : Nat) (s : Life) : Prop where
  consistent : BoundedQueue.Consistent w₀.numberOf n (s.bounded q)
  numbers : ∀ t, (s.world.tasks t).number_ = (w₀.tasks t).number_
  waiting : ∀ e ∈ (s.world.queues q).queue_, (s.world.tasks e.1).promise_.state = none
  unoffered : ∀ t, t ∉ offered s.history →
    (s.world.tasks t).promise_.state = (w₀.tasks t).promise_.state

/-- What a call that returns did. -/
inductive Stepped (q : QueueRef) (s : Life) : Op → Life → Prop
  | pushed (e : TaskRef × CallID) (now : TimePoint) (b : Bool) (u : World)
      (h : PushEffect q e b s.world u) :
      Stepped q s (.push e now) ⟨u, s.history ++ [if b then .accepted e else .rejected e]⟩
  | popped (e : TaskRef × CallID) (rest : List (TaskRef × CallID))
      (h : (s.world.queues q).queue_ = e :: rest) :
      Stepped q s .pop ⟨s.world.setEntries q rest, s.history ++ [.popped e]⟩
  | updated (size : Int) :
      Stepped q s (.update size)
        ⟨s.world.setQueue q { s.world.queues q with sizeOfQueue := toSizeT size },
          s.history ++ [.resized size.toNat]⟩

section
variable {w₀ : World} {q : QueueRef} {n : Nat} {s t : Life} {op : Op}

theorem Sound.numberOf (hs : Sound w₀ q n s) : s.world.numberOf = w₀.numberOf := by
  funext e
  exact hs.numbers e.1

theorem Sound.offered (hs : Sound w₀ q n s) {e : TaskRef × CallID}
    (he : e ∈ (s.world.queues q).queue_) : e.1 ∈ offered s.history := by
  have hwaiting : (s.world.queues q).queue_ = BoundedQueue.waiting w₀.numberOf s.history :=
    hs.consistent.entries
  rw [hwaiting] at he
  exact offered_of_accepted (BoundedQueue.accepted_of_waiting w₀.numberOf he)

theorem Sound.pending (hs : Sound w₀ q n s) {x : TaskRef} (hx : Fresh w₀ s x) :
    (s.world.tasks x).promise_.state = none :=
  (hs.unoffered x hx.2).trans hx.1

theorem stepped (hs : Sound w₀ q n s) (hok : op.Allowed w₀ s) (h : (lives q).step s op = some t) :
    Stepped q s op t := by
  cases op with
  | push e now =>
    obtain ⟨b, u, hu, heffect⟩ := push_effect now hs.waiting (hs.pending hok)
    have ht : t = ⟨u, s.history ++ [if b then .accepted e else .rejected e]⟩ := by
      simp only [lives, Life.step, hu] at h
      cases b <;> exact (Option.some_inj.mp h).symm
    rw [ht]
    exact .pushed e now b u heffect
  | pop =>
    cases hq : (s.world.queues q).queue_ with
    | nil =>
      simp only [lives, Life.step, run_takeFront_empty hq] at h
      cases h
    | cons e rest =>
      simp only [lives, Life.step, run_takeFront hq] at h
      cases h
      exact .popped e rest hq
  | update size =>
    cases h
    exact .updated size

/-- Every call is the same call on the bounded queue. -/
theorem step_refines (hs : Sound w₀ q n s) (hok : op.Allowed w₀ s) (h : Stepped q s op t) :
    (BoundedQueue.system w₀.numberOf).step (s.bounded q) op.bounded = some (t.bounded q) := by
  cases h with
  | pushed e now b u heffect =>
    have hq := heffect.queue
    rw [hs.numberOf] at hq
    show some (BoundedQueue.push w₀.numberOf (s.bounded q) e) = _
    unfold BoundedQueue.push
    cases b with
    | true =>
      have hroom : ¬ (s.bounded q).limit ≤ (s.bounded q).entries.length := fun hle =>
        Bool.noConfusion (heffect.rejected.mpr hle)
      rw [if_neg hroom]
      simp only [Life.bounded, hq, if_true]
    | false =>
      have hfull : (s.bounded q).limit ≤ (s.bounded q).entries.length := heffect.rejected.mp rfl
      rw [if_pos hfull]
      simp [Life.bounded, hq]
  | popped e rest hq =>
    show BoundedQueue.pop (s.bounded q) = _
    have hentries : (s.bounded q).entries = e :: rest := hq
    unfold BoundedQueue.pop
    rw [hentries]
    simp [Life.bounded, World.setEntries]
  | updated size =>
    have hsize := toSizeT_of_int hok.1 hok.2
    show some _ = some _
    simp [Life.bounded, hsize]

theorem step_sound (hs : Sound w₀ q n s) (hok : op.Allowed w₀ s) (h : Stepped q s op t) :
    Sound w₀ q n t := by
  have hconsistent : BoundedQueue.Consistent w₀.numberOf n (t.bounded q) :=
    (BoundedQueue.stepped _ (step_refines hs hok h)).consistent hs.consistent
  cases h with
  | pushed e now b u heffect =>
    have hfresh : Fresh w₀ s e.1 := hok
    have hspared : ∀ x, x ≠ e.1 → (∀ d ∈ (s.world.queues q).queue_,
        s.world.numberOf d = s.world.numberOf e → x ≠ d.1) →
        (u.tasks x).promise_ = (s.world.tasks x).promise_ :=
      fun x hx hd => heffect.spared x (fun _ => hx) (fun _ => hd)
    refine ⟨hconsistent, fun x => (heffect.numbers x).trans (hs.numbers x), ?_, ?_⟩
    · intro x hx
      have hq := heffect.queue
      cases b with
      | false =>
        -- nothing was put in: the calls that wait were offered, the rejected one was not
        rw [hq] at hx
        have hne : x.1 ≠ e.1 := fun heq => hfresh.2 (heq ▸ hs.offered hx)
        rw [heffect.spared x.1 (fun _ => hne) (fun hb => by cases hb)]
        exact hs.waiting x hx
      | true =>
        have hdistinct : ((s.world.queues q).queue_.map s.world.numberOf).Nodup := by
          rw [hs.numberOf]
          exact hs.consistent.distinct
        rw [hq] at hx
        simp only [if_true, BoundedQueue.enqueue,
          BoundedQueue.eraseP_eq_filter s.world.numberOf hdistinct] at hx
        rcases List.mem_append.mp hx with hx | hx
        · -- a call that still waits has another number than the pushed one
          obtain ⟨hx, hkey⟩ := List.mem_filter.mp hx
          have hother : s.world.numberOf e ≠ s.world.numberOf x := by simpa using hkey
          have hsame : ∀ d ∈ (s.world.queues q).queue_,
              s.world.numberOf d = s.world.numberOf e → x.1 ≠ d.1 := by
            intro d _ hd heq
            refine hother (hd.symm.trans ?_)
            unfold World.numberOf
            rw [heq]
          have hne : x.1 ≠ e.1 := fun heq => hfresh.2 (heq ▸ hs.offered hx)
          rw [hspared x.1 hne hsame]
          exact hs.waiting x hx
        · rw [List.mem_singleton.mp hx]
          have hself : ∀ d ∈ (s.world.queues q).queue_,
              s.world.numberOf d = s.world.numberOf e → e.1 ≠ d.1 := by
            intro d hd _ heq
            exact hfresh.2 (heq ▸ hs.offered hd)
          rw [heffect.spared e.1 (fun hb => by cases hb) (fun _ => hself)]
          exact hs.pending hfresh
    · intro x hx
      have hx' : x ∉ offered s.history ∧ x ≠ e.1 := by
        rw [offered_append, List.mem_append, not_or] at hx
        refine ⟨hx.1, fun heq => hx.2 ?_⟩
        cases b <;> simp [Queue.offered, heq]
      have hout : ∀ d ∈ (s.world.queues q).queue_,
          s.world.numberOf d = s.world.numberOf e → x ≠ d.1 := by
        intro d hd _ heq
        exact hx'.1 (heq ▸ hs.offered hd)
      rw [hspared x hx'.2 hout]
      exact hs.unoffered x hx'.1
  | popped e rest hq =>
    refine ⟨hconsistent, hs.numbers, ?_, ?_⟩
    · intro x hx
      have hrest : x ∈ rest := by simpa [World.setEntries] using hx
      exact hs.waiting x (hq ▸ List.mem_cons_of_mem e hrest)
    · intro x hx
      rw [offered_append] at hx
      exact hs.unoffered x (fun h => hx (List.mem_append_left _ h))
  | updated size =>
    refine ⟨hconsistent, hs.numbers, ?_, ?_⟩
    · intro x hx
      exact hs.waiting x (by simpa using hx)
    · intro x hx
      rw [offered_append] at hx
      exact hs.unoffered x (fun h => hx (List.mem_append_left _ h))

end

/-! The runs from a queue that was just made. -/

/-- A queue that was just made. -/
def opened (n : Int) (w₀ : World) : Life where
  world := ((construct n).run w₀).2
  history := []

theorem run_construct {n : Int} (h : 0 ≤ n) (w₀ : World) :
    (construct n).run w₀ = (.ok w₀.queueCount, (opened n w₀).world) := by
  have hnew : construct n = newQueue
      { queue_ := [], sizeOfQueue := toSizeT n, logger_ := false, recorders_ := [] } := by
    rw [construct, if_neg (by omega)]
  unfold opened
  rw [hnew]
  rfl

theorem opened_sound {n : Int} (h : 0 ≤ n) (hlt : n < 2 ^ 31) (w₀ : World) :
    Sound w₀ w₀.queueCount n.toNat (opened n w₀) := by
  have hworld : (opened n w₀).world = { w₀.setQueue w₀.queueCount
      { queue_ := [], sizeOfQueue := n.toNat, logger_ := false, recorders_ := [] } with
      queueCount := w₀.queueCount + 1 } := by
    rw [← toSizeT_of_int h hlt]
    unfold opened
    rw [construct, if_neg (by omega)]
    rfl
  have hentries : ((opened n w₀).world.queues w₀.queueCount).queue_ = [] := by simp [hworld]
  have hbounded : (opened n w₀).bounded w₀.queueCount = BoundedQueue.initial n.toNat := by
    unfold Life.bounded BoundedQueue.initial
    simp [hworld]
    rfl
  refine ⟨hbounded ▸ BoundedQueue.initial_consistent _ _, ?_, ?_, ?_⟩
  · intro t
    rw [hworld]
    rfl
  · intro e he
    rw [hentries] at he
    cases he
  · intro t _
    rw [hworld]
    rfl

section
variable {w₀ : World} {q : QueueRef} {n : Nat} {s t : Life} {ops : List Op}

theorem run_refines (hs : Sound w₀ q n s) (h : (lives q).run s ops = some t)
    (hok : (lives q).Along (fun s op => op.Allowed w₀ s) s ops) :
    Sound w₀ q n t ∧ (BoundedQueue.system w₀.numberOf).run (s.bounded q) (ops.map Op.bounded) =
      some (t.bounded q) := by
  induction ops generalizing s with
  | nil =>
    cases h
    exact ⟨hs, rfl⟩
  | cons op ops ih =>
    obtain ⟨u, hu, ht⟩ := Transition.System.run_cons_some.mp h
    have hstepped := stepped hs hok.1 hu
    obtain ⟨hsound, hrun⟩ := ih (step_sound hs hok.1 hstepped) ht (hok.2 u hu)
    exact ⟨hsound, Transition.System.run_cons_some.mpr ⟨_, step_refines hs hok.1 hstepped, hrun⟩⟩

/-- What a push of `e` does, by the entries and the limit before it. -/
structure Pushes (q : QueueRef) (e : TaskRef × CallID) (b : Bool) (w u : World) : Prop where
  rejected : b = false ↔ (w.queues q).sizeOfQueue ≤ (w.queues q).queue_.length
  unchanged : b = false → u.queues q = w.queues q
  limit : (u.queues q).sizeOfQueue = (w.queues q).sizeOfQueue
  fits : b = true → (u.queues q).queue_.length ≤ (u.queues q).sizeOfQueue
  back : b = true → (∀ d ∈ (w.queues q).queue_, w.numberOf d ≠ w.numberOf e) →
    (u.queues q).queue_ = (w.queues q).queue_ ++ [e]
  replaces : b = true → ∀ before d after, (w.queues q).queue_ = before ++ d :: after →
    w.numberOf d = w.numberOf e → (u.queues q).queue_ = before ++ after ++ [e]

theorem PushEffect.pushes {e : TaskRef × CallID} {b : Bool} {w u : World}
    (h : PushEffect q e b w u) (hdistinct : ((w.queues q).queue_.map w.numberOf).Nodup) :
    Pushes q e b w u := by
  have hq := h.queue
  have hlimit : (u.queues q).sizeOfQueue = (w.queues q).sizeOfQueue := by
    rw [hq]
    cases b <;> rfl
  refine ⟨h.rejected, ?_, hlimit, ?_, ?_, ?_⟩
  · intro hb
    simpa [hb] using hq
  · intro hb
    have hroom : (w.queues q).queue_.length < (w.queues q).sizeOfQueue := by
      apply Nat.lt_of_not_le
      intro hle
      rw [h.rejected.mpr hle] at hb
      cases hb
    have hlength := BoundedQueue.length_enqueue_le w.numberOf (w.queues q).queue_ e
    rw [hlimit, hq, hb]
    show (BoundedQueue.enqueue w.numberOf (w.queues q).queue_ e).length ≤ _
    omega
  · intro hb hnew
    rw [hq, hb]
    exact BoundedQueue.enqueue_of_new w.numberOf hnew
  · intro hb before d after hsplit hd
    rw [hsplit] at hdistinct
    rw [hq, hb]
    show BoundedQueue.enqueue w.numberOf (w.queues q).queue_ e = _
    rw [hsplit]
    exact BoundedQueue.enqueue_of_waiting w.numberOf hdistinct hd

/-- A queue made with the limit `n` in the world `w₀` behaves: what it holds and
bounds can be read off its history, what a push, a pop and an update do off what it
holds, and above its limit it only shrinks. -/
structure Behaves (w₀ : World) (q : QueueRef) (n : Nat) (s : Life) : Prop where
  holds : (s.world.queues q).queue_ = BoundedQueue.waiting w₀.numberOf s.history
  numbers : ((s.world.queues q).queue_.map s.world.numberOf).Nodup
  limit : (s.world.queues q).sizeOfQueue = BoundedQueue.currentLimit n s.history
  bounded : ∃ l ∈ BoundedQueue.limits n s.history, (s.world.queues q).queue_.length ≤ l
  push : ∀ e now, Fresh w₀ s e.1 →
    ∃ b u, (push q now e).run s.world = (.ok b, u) ∧ Pushes q e b s.world u
  pop : ∀ e rest, (s.world.queues q).queue_ = e :: rest →
    (takeFront q).run s.world = (.ok e, s.world.setEntries q rest)
  update : ∀ m : Int, 0 ≤ m → m < 2 ^ 31 → (update q m).run s.world =
    (.ok (), s.world.setQueue q { s.world.queues q with sizeOfQueue := m.toNat })
  full : ∀ ops t, (lives q).run s ops = some t →
    (lives q).Along (fun s op => op.Allowed w₀ s) s ops → (∀ m, .update m ∉ ops) →
    (s.world.queues q).sizeOfQueue + ops.countP Op.isPop ≤ (s.world.queues q).queue_.length →
    (t.world.queues q).queue_ = (s.world.queues q).queue_.drop (ops.countP Op.isPop) ∧
      ∀ e, .accepted e ∈ t.history → .accepted e ∈ s.history

theorem Sound.behaves (hs : Sound w₀ q n s) : Behaves w₀ q n s where
  holds := hs.consistent.entries
  numbers := by
    rw [hs.numberOf]
    exact hs.consistent.distinct
  limit := hs.consistent.limit
  bounded := hs.consistent.bounded
  push := by
    intro e now he
    obtain ⟨b, u, hu, heffect⟩ := push_effect now hs.waiting (hs.pending he)
    refine ⟨b, u, hu, heffect.pushes ?_⟩
    rw [hs.numberOf]
    exact hs.consistent.distinct
  pop := fun _ _ hq => run_takeFront hq
  update := by
    intro m hm hlt
    rw [run_update, toSizeT_of_int hm hlt]
  full := by
    intro ops t h hok hops hfull
    obtain ⟨_, hrun⟩ := run_refines hs h hok
    have hpops : ops.countP Op.isPop = (ops.map Op.bounded).countP BoundedQueue.Op.isPop := by
      rw [List.countP_map]
      refine List.countP_congr (fun op _ => ?_)
      cases op <;> simp [Op.bounded, Op.isPop, BoundedQueue.Op.isPop]
    have hresize : ∀ m, .resize m ∉ ops.map Op.bounded := by
      intro m hm
      obtain ⟨op, hop, heq⟩ := List.mem_map.mp hm
      cases op with
      | update size => exact hops size hop
      | push e now => cases heq
      | pop => cases heq
    obtain ⟨hentries, _, haccepted⟩ := BoundedQueue.run_full hrun hresize _ hpops hfull
    exact ⟨hentries, haccepted⟩

end

/-- Whatever is done with a queue, it behaves. -/
theorem behaves_of_run {n : Int} (hn : 0 ≤ n) (hlt : n < 2 ^ 31) {w₀ : World} {ops : List Op}
    {s : Life} (h : (lives w₀.queueCount).run (opened n w₀) ops = some s)
    (hok : (lives w₀.queueCount).Along (fun s op => op.Allowed w₀ s) (opened n w₀) ops) :
    (construct n).run w₀ = (.ok w₀.queueCount, (opened n w₀).world) ∧
      Behaves w₀ w₀.queueCount n.toNat s :=
  ⟨run_construct hn w₀, (run_refines (opened_sound hn hlt w₀) h hok).1.behaves⟩

/-- Calls with one number, the last of them after the limit was set to zero. -/
def callbacks : List Op := [.push (0, 10) 5, .push (1, 11) 6, .update 0, .push (2, 12) 7, .pop]

theorem behaves_callbacks :
    ∃ s, (lives 0).run (opened 2 World.empty) callbacks = some s ∧
      (construct 2).run World.empty = (.ok 0, (opened 2 World.empty).world) ∧
      Behaves World.empty 0 2 s := by
  have hrun : ∃ s, (lives 0).run (opened 2 World.empty) callbacks = some s :=
    Option.isSome_iff_exists.mp (by decide +kernel)
  obtain ⟨s, hs⟩ := hrun
  exact ⟨s, hs, @behaves_of_run 2 (by decide) (by decide) World.empty callbacks s hs (by decide +kernel)⟩

end Queue

end ProteiCov
