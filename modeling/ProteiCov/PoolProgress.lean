import ProteiCov.WakeUps
import ProteiCov.PoolChain

/-
  Threads that go on

  Left to themselves, without new calls, the threads of the pools come to an end: each
  worker waits for a notification or has left its loop, and no caller can go on. A caller
  executes finitely many instructions, each entry is dequeued once, and between two of
  these a worker goes once around its loop at most, for it then finds nothing it may do.
  `rank` counts this.

  What is proved:
    1. `comes_to_rest` — every call of a manager returns, and every update: the destructor
       of the old pool joins its workers, whatever the threads do, and then the new pool
       is started and no thread of another pool runs;
    2. `drained_of_two` — a pool of two workers or more that is started serves every call:
       when nothing moves any more, every `add_task` has returned and the queue is empty.
  Spurious wake-ups are left out of the count: the standard allows any number of them.
-/

namespace ProteiCov.Threads

/-- How many steps a worker is from waiting or leaving, or from dequeuing, where the flags
of its pool do not change. -/
def Place.rank {α : Type} (stopped allowed : Bool) : Place α → Nat
  | .blocked | .left => 0
  | .block => 1
  | .top => if stopped then 1 else 8
  | .lock | .notified => if stopped then 10 else 7
  | .wait => if stopped then 9 else 6
  | .check => if stopped then 8 else if allowed then 5 else 9
  | .front => if stopped then 7 else 4
  | .pop _ => if stopped then 6 else 3
  | .unlock _ => if stopped then 5 else 12
  | .serving _ => if stopped then 4 else 11
  | .finishing => if stopped then 3 else 10
  | .draining => if stopped then 2 else 9

theorem Place.rank_le {α : Type} (stopped allowed : Bool) (place : Place α) :
    place.rank stopped allowed ≤ 12 := by
  cases place <;> cases stopped <;> cases allowed <;> simp [Place.rank]

/-- What an instruction amounts to: `start` brings four more, and a push brings a
notification. -/
def Instr.weight {π α : Type} : Instr π α → Nat
  | .startIf _ => 5
  | .push _ _ => 2
  | _ => 1

def Program.weight {π α : Type} (prog : Program π α) : Nat := (prog.map Instr.weight).sum

namespace State
variable {π α : Type} [DecidableEq π]

/-- How far the workers of a pool are from rest. -/
def restless (s : State π α) (p : π) : Nat :=
  ((s.pools p).workers.map (Place.rank (s.pools p).stopped (s.run_allowed p))).sum

/-- The workers of the pools `ps`. -/
def staff (ps : List π) (s : State π α) : Nat := (ps.map (fun p => (s.pools p).workers.length)).sum

/-- What the callers have to execute, and the entries of the queue object `q`. -/
def work (q : Nat) (s : State π α) : Nat := 2 * (s.callers.map Program.weight).sum + (s.queues q).length

def rank (ps : List π) (q : Nat) (s : State π α) : Nat :=
  s.work q * (12 * s.staff ps + 1) + (ps.map s.restless).sum

omit [DecidableEq π] in
theorem restless_le (s : State π α) (p : π) : s.restless p ≤ 12 * (s.pools p).workers.length := by
  have h := List.sum_le_card_nsmul ((s.pools p).workers.map
    (Place.rank (s.pools p).stopped (s.run_allowed p))) 12 (fun n hn => by
      obtain ⟨place, _, rfl⟩ := List.mem_map.mp hn
      exact place.rank_le _ _)
  rw [List.length_map, nsmul_eq_mul, Nat.cast_id, Nat.mul_comm] at h
  exact h

omit [DecidableEq π] in
theorem sum_restless_le (ps : List π) (s : State π α) : (ps.map s.restless).sum ≤ 12 * s.staff ps := by
  rw [staff, ← List.sum_map_mul_left]
  exact List.sum_le_sum (fun p _ => s.restless_le p)

omit [DecidableEq π] in
/-- Less work is a lower rank, whatever the workers do. -/
theorem rank_lt_of_work {ps : List π} {q : Nat} {s t : State π α} (hstaff : t.staff ps = s.staff ps)
    (h : t.work q < s.work q) : t.rank ps q < s.rank ps q := by
  have hle := sum_restless_le ps t
  have hmul := Nat.mul_le_mul_right (12 * s.staff ps + 1) (Nat.succ_le_of_lt h)
  rw [Nat.succ_mul] at hmul
  rw [rank, rank, hstaff] at *
  omega

/-! Every step lowers the rank. -/

theorem rank_lt_of_set {ps : List π} {q i : Nat} {p : π} {place place' : Place α} {s t : State π α}
    (hp : p ∈ ps) (hi : (s.pools p).workers[i]? = some place)
    (hw : (t.pools p).workers = (s.pools p).workers.set i place')
    (hother : ∀ r, r ≠ p → (t.pools r).workers = (s.pools r).workers)
    (hflags : ∀ r, (t.pools r).stopped = (s.pools r).stopped ∧ t.run_allowed r = s.run_allowed r)
    (hcallers : t.callers = s.callers) (hqueue : (t.queues q).length = (s.queues q).length)
    (hlt : place'.rank (s.pools p).stopped (s.run_allowed p) <
      place.rank (s.pools p).stopped (s.run_allowed p)) : t.rank ps q < s.rank ps q := by
  have hrest : ∀ r, r ≠ p → t.restless r = s.restless r := by
    intro r hr
    rw [restless, restless, hother r hr, (hflags r).1, (hflags r).2]
  have hmove : t.restless p < s.restless p := by
    have hsum := Transition.sum_map_set (Place.rank (s.pools p).stopped (s.run_allowed p)) hi place'
    rw [restless, restless, hw, (hflags p).1, (hflags p).2]
    omega
  have hstaff : t.staff ps = s.staff ps := by
    unfold staff
    refine congrArg List.sum (List.map_congr_left (fun r _ => ?_))
    by_cases hr : r = p
    · subst hr
      rw [hw, List.length_set]
    · rw [hother r hr]
  have hwork : t.work q = s.work q := by rw [work, work, hcallers, hqueue]
  have hsum : (ps.map t.restless).sum < (ps.map s.restless).sum := by
    refine List.sum_lt_sum _ _ (fun r _ => ?_) ⟨p, hp, hmove⟩
    by_cases hr : r = p
    · subst hr
      exact Nat.le_of_lt hmove
    · exact Nat.le_of_eq (hrest r hr)
  rw [rank, rank, hstaff, hwork]
  omega

omit [DecidableEq π] in
theorem Stays.rank_lt {s : State π α} {p : π} {place place' : Place α} (h : Stays s p place place') :
    place'.rank (s.pools p).stopped (s.run_allowed p) < place.rank (s.pools p).stopped (s.run_allowed p) := by
  cases h with
  | enter hgo | quit hgo => simp [Place.rank, hgo]
  | pass hpass =>
    rcases Bool.or_eq_true_iff.mp hpass with ha | hstop
    · cases hstop : (s.pools p).stopped <;> simp [Place.rank, ha]
    · simp [Place.rank, hstop]
  | wait hno =>
    have hgo := (Bool.or_eq_false_iff.mp hno).2
    simp [Place.rank, hgo]
  | take ha => cases hstop : (s.pools p).stopped <;> simp [Place.rank, ha]
  | served _ | again _ | drain _ | more _ | leave _ =>
    cases hstop : (s.pools p).stopped <;> simp [Place.rank]

omit [DecidableEq π] in
theorem Releases.rank_lt {s : State π α} {p : π} {place place' : Place α} (h : Releases s p place place') :
    place'.rank (s.pools p).stopped (s.run_allowed p) < place.rank (s.pools p).stopped (s.run_allowed p) := by
  cases h with
  | block => simp [Place.rank]
  | refuse ha => cases hstop : (s.pools p).stopped <;> simp [Place.rank, ha]
  | serve _ => cases hstop : (s.pools p).stopped <;> simp [Place.rank]

theorem WorkerStep.rank_lt {ps : List π} {q i : Nat} {p : π} {s t : State π α} (h : WorkerStep s p i t)
    (hp : p ∈ ps)
    (hq : ∀ e, (s.pools p).workers[i]? = some (.pop e) → (s.pools p).task_queue = q) :
    t.rank ps q < s.rank ps q := by
  have hallowed : (∀ j, (t.queues j).length = (s.queues j).length) → ∀ r,
      (t.pools r).stopped = (s.pools r).stopped ∧ t.run_allowed r = s.run_allowed r := by
    intro hlen r
    have hempty : (t.slots r).isEmpty = (s.slots r).isEmpty := by
      rw [slots, slots, (h.frame r).1, Bool.eq_iff_iff, List.isEmpty_iff_length_eq_zero, hlen,
        ← List.isEmpty_iff_length_eq_zero]
    refine ⟨h.stopped r, ?_⟩
    rw [run_allowed, run_allowed, hempty, (h.frame r).2]
  cases h with
  | @stays place place' hi hstay =>
    refine rank_lt_of_set hp hi ?_ (fun r hr => ?_) (hallowed (fun _ => rfl)) rfl rfl hstay.rank_lt
    · simp
    · simp [hr]
  | @acquires place hi hplace _ =>
    have hlt : Place.rank (s.pools p).stopped (s.run_allowed p) (.wait : Place α) <
        place.rank (s.pools p).stopped (s.run_allowed p) := by
      rcases hplace with rfl | rfl <;> cases hstop : (s.pools p).stopped <;> simp [Place.rank]
    refine rank_lt_of_set hp hi ?_ (fun r hr => ?_) (hallowed (fun _ => rfl)) rfl rfl hlt
    · simp
    · simp [hr]
  | @releases place place' hi hrelease =>
    refine rank_lt_of_set hp hi ?_ (fun r hr => ?_) (hallowed (fun _ => rfl)) rfl rfl hrelease.rank_lt
    · simp
    · simp [hr]
  | @front e rest hi hslots =>
    -- the entry is moved out of its slot, which is there until the worker erases it
    have hlt : Place.rank (s.pools p).stopped (s.run_allowed p) (.pop e) <
        Place.rank (s.pools p).stopped (s.run_allowed p) (.front : Place α) := by
      cases hstop : (s.pools p).stopped <;> simp [Place.rank]
    have hlen : ∀ j, ((s.setSlots p (none :: rest)).queues j).length = (s.queues j).length := by
      intro j
      by_cases hj : j = (s.pools p).task_queue
      · subst hj
        rw [slots] at hslots
        simp [hslots]
      · simp [hj]
    refine rank_lt_of_set hp hi ?_ (fun r hr => ?_) (hallowed hlen) rfl (hlen q) hlt
    · simp
    · simp [hr]
  | @pop e x rest hi hslots =>
    have htask := hq e hi
    refine rank_lt_of_work ?_ ?_
    · unfold staff
      refine congrArg List.sum (List.map_congr_left (fun r _ => ?_))
      by_cases hr : r = p
      · subst hr
        simp
      · simp [hr]
    · rw [slots, htask] at hslots
      simp [work, htask, hslots]

theorem pushed_length {same : α → α → Bool} {limit : Nat} {es es' : List (Option α)} {e : α}
    (h : pushed same limit es e = some es') : es'.length ≤ es.length + 1 := by
  unfold pushed at h
  split at h
  · cases h
  · cases h
    rw [List.length_append, List.length_singleton]
    exact Nat.succ_le_succ List.length_eraseP_le

theorem rank_lt_of_caller {same : α → α → Bool} {limit : Nat} {ps : List π} {q k choice : Nat}
    {s t : State π α} (h : s.stepCaller same limit k choice = some t) : t.rank ps q < s.rank ps q := by
  obtain ⟨instr, rest, hk, hstep⟩ := callerStep h
  have hlen := fun p => (Wakes.caller h).length p
  have hprog : ∀ prog, t.callers = s.callers.set k prog →
      (t.callers.map Program.weight).sum + Program.weight (instr :: rest) =
        (s.callers.map Program.weight).sum + prog.weight := by
    intro prog hcallers
    rw [hcallers]
    exact Transition.sum_map_set Program.weight hk prog
  have hcons : Program.weight (instr :: rest) = instr.weight + Program.weight rest := by
    simp [Program.weight]
  refine rank_lt_of_work ?_ ?_
  · unfold staff
    exact congrArg List.sum (List.map_congr_left (fun r _ => hlen r))
  · unfold work
    by_cases hpush : ∃ p e, instr = .push p e
    · obtain ⟨p, e, rfl⟩ := hpush
      cases hstep with
      | idles _ =>
        have hsum := hprog rest rfl
        rw [hcons, Instr.weight] at hsum
        rw [goOn_queues]
        omega
      | writes hw => cases hw
      | @pushes _ _ es hyes =>
        have hsum := hprog (.notifyOne p :: rest) rfl
        have hnotify : Program.weight (Instr.notifyOne p :: rest) = 1 + Program.weight rest := by
          simp [Program.weight, Instr.weight]
        rw [hcons, Instr.weight, hnotify] at hsum
        have hqueue : (((s.setSlots p es).goOn k (.notifyOne p :: rest)).queues q).length ≤
            (s.queues q).length + 1 := by
          by_cases hq : q = (s.pools p).task_queue
          · subst hq
            have hle := pushed_length hyes
            rw [slots] at hle
            simpa using hle
          · simp [hq]
        omega
    · have hno : ∀ p e, instr ≠ .push p e := fun p e heq => hpush ⟨p, e, heq⟩
      rw [hstep.queues_kept hno]
      obtain ⟨⟨prog, hcallers, hcases⟩, _⟩ := hstep.frame
      have hsum := hprog prog hcallers
      rcases hcases with rfl | ⟨p, rfl, rfl⟩ | ⟨p, e, rfl, _⟩
      · have hpos : 1 ≤ instr.weight := by cases instr <;> simp [Instr.weight]
        omega
      · have hblock : Program.weight (Program.startBlock p ++ rest) = 4 + Program.weight rest := by
          simp [Program.weight, Program.startBlock, Instr.weight]
          omega
        rw [hcons, hblock, Instr.weight] at hsum
        omega
      · exact absurd rfl (hno p e)

/-! Where nothing moves. -/

/-- No thread can execute a step. -/
structure Stuck (same : α → α → Bool) (limit : Nat) (s : State π α) : Prop where
  worker : ∀ p i, s.stepWorker p i = none
  caller : ∀ k choice, s.stepCaller same limit k choice = none

/-- A worker of a guarded pool stands still only where it waits, has left, or needs a mutex
that is taken. -/
theorem Guarded.moves {g p : π} {s : State π α} {i : Nat} {place : Place α} (hs : Guarded g s)
    (hi : (s.pools p).workers[i]? = some place) (hblocked : place ≠ .blocked) (hleft : place ≠ .left)
    (hfree : place = .lock ∨ place = .notified → (s.pools p).mutex = none) :
    (s.stepWorker p i).isSome = true := by
  unfold stepWorker
  rw [hi]
  cases place with
  | blocked => exact absurd rfl hblocked
  | left => exact absurd rfl hleft
  | lock => simp [hfree (Or.inl rfl)]
  | notified => simp [hfree (Or.inr rfl)]
  | front =>
    obtain rfl := hs.active p i _ hi rfl
    obtain ⟨e, es, hes⟩ := hs.front i hi
    simp [hes]
  | pop e =>
    obtain rfl := hs.active p i _ hi rfl
    obtain ⟨es, hes⟩ := hs.pop i e hi
    simp [hes]
  | check =>
    show (if s.run_allowed p then _ else _ : Option (State π α)).isSome = true
    split <;> rfl
  | top | wait | block | unlock e | serving e | finishing | draining => rfl

theorem Guarded.mutex_of_stuck {same : α → α → Bool} {limit : Nat} {g p : π} {s : State π α} {o : Owner} (hs : Guarded g s)
    (hstuck : s.Stuck same limit) (ho : (s.pools p).mutex = some o) :
    ∃ (k : Nat) (prog : Program π α), s.callers[k]? = some prog ∧ prog.owns p = true := by
  have hholds : s.Holds o p := (hs.locked.mutex o p).mpr ho
  cases o with
  | caller k =>
    obtain ⟨prog, hk, howns⟩ := hholds
    exact ⟨k, prog, hk, howns⟩
  | worker i =>
    exfalso
    obtain ⟨place, hi, hplace⟩ := hholds
    have hmoves := hs.moves hi (by rintro rfl; cases hplace) (by rintro rfl; cases hplace)
      (by rintro (rfl | rfl) <;> cases hplace)
    rw [hstuck.worker p i] at hmoves
    cases hmoves

/-- Where nothing moves and no caller holds the mutex of the pool, its workers wait or
have left. -/
theorem Guarded.at_rest {same : α → α → Bool} {limit : Nat} {g p : π} {s : State π α} (hs : Guarded g s)
    (hstuck : s.Stuck same limit)
    (hfree : ∀ (k : Nat) (prog : Program π α), s.callers[k]? = some prog → prog.owns p = false) :
    ∀ place ∈ (s.pools p).workers, place = .blocked ∨ place = .left := by
  intro place hmem
  obtain ⟨i, hi⟩ := List.mem_iff_getElem?.mp hmem
  by_contra hno
  simp only [not_or] at hno
  have hnone : (s.pools p).mutex = none := by
    cases ho : (s.pools p).mutex with
    | none => rfl
    | some o =>
      obtain ⟨k, prog, hk, howns⟩ := hs.mutex_of_stuck hstuck ho
      rw [hfree k prog hk] at howns
      cases howns
  have hmoves := hs.moves hi hno.1 hno.2 (fun _ => hnone)
  rw [hstuck.worker p i] at hmoves
  cases hmoves

/-- Only a mutex or a thread that has not left can hold up a caller. -/
theorem Stuck.instr {same : α → α → Bool} {limit k : Nat} {s : State π α} {instr : Instr π α}
    {rest : Program π α} (h : s.Stuck same limit) (hk : s.callers[k]? = some (instr :: rest)) :
    (∃ p o, instr = .lock p ∧ (s.pools p).mutex = some o) ∨
      ∃ p, instr = .join p ∧ ∃ place ∈ (s.pools p).workers, place ≠ .left := by
  have hexec : ∀ choice, s.exec same limit k choice rest instr = none := by
    intro choice
    have hnone := h.caller k choice
    rw [stepCaller, hk] at hnone
    exact hnone
  cases instr with
  | lock p =>
    left
    cases ho : (s.pools p).mutex with
    | some o => exact ⟨p, o, rfl, ho⟩
    | none =>
      have hnone := hexec 0
      simp [exec, ho] at hnone
  | join p =>
    right
    refine ⟨p, rfl, ?_⟩
    have hnone := hexec 0
    simp only [exec, ite_eq_right_iff, reduceCtorEq, imp_false, Bool.not_eq_true,
      List.all_eq_false] at hnone
    obtain ⟨place, hmem, hplace⟩ := hnone
    exact ⟨place, hmem, by rintro rfl; cases hplace⟩
  | notifyOne p =>
    exfalso
    -- some choice of the worker to wake is always possible
    cases hany : (s.pools p).workers.any Place.isBlocked with
    | false =>
      have hnone := hexec 0
      simp [exec, hany] at hnone
    | true =>
      obtain ⟨place, hmem, hplace⟩ := List.any_eq_true.mp hany
      obtain ⟨i, hi⟩ := List.mem_iff_getElem?.mp hmem
      have hnone := hexec i
      simp [exec, hany, hi, hplace] at hnone
  | push p e =>
    exfalso
    have hnone := hexec 0
    simp only [exec] at hnone
    split at hnone <;> cases hnone
  | startIf _ | setStopped _ _ | setPaused _ _ | setWaitForCompletion _ _ | unlock _ | notifyAll _
  | transfer _ _ => cases hexec 0

/-- Calls hold one another up at most until the one that has the mutex is done. -/
theorem Guarded.idle_of_stuck {same : α → α → Bool} {limit : Nat} {g : π} {s : State π α}
    (hs : Guarded g s) (hsimple : s.Obeys (Simple g)) (h : s.Stuck same limit) :
    ∀ (k : Nat) (prog : Program π α), s.callers[k]? = some prog → prog = [] := by
  have hblocked : ∀ (k : Nat) (instr : Instr π α) (rest : Program π α),
      s.callers[k]? = some (instr :: rest) → instr = .lock g ∧ (s.pools g).mutex ≠ none := by
    intro k instr rest hk
    have hinstr := hsimple _ (List.mem_of_getElem? hk) instr List.mem_cons_self
    rcases h.instr hk with ⟨p, o, rfl, ho⟩ | ⟨p, rfl, _⟩
    · obtain rfl : p = g := hinstr
      exact ⟨rfl, by simp [ho]⟩
    · cases hinstr
  intro k prog hk
  cases prog with
  | nil => rfl
  | cons instr rest =>
    exfalso
    obtain ⟨rfl, ho⟩ := hblocked k instr rest hk
    obtain ⟨o, ho⟩ := Option.ne_none_iff_exists'.mp ho
    -- who has the mutex is not waiting for it
    obtain ⟨j, prog, hj, howns⟩ := hs.mutex_of_stuck h ho
    cases prog with
    | nil => cases howns
    | cons instr' rest' =>
      obtain ⟨rfl, _⟩ := hblocked j instr' rest' hj
      simp [Program.owns] at howns

end State

/-! The pools of a manager. -/

namespace PoolChain
variable {α κ : Type} [DecidableEq κ] {key : α → κ} {s t : Managed α}

open State Program

/-- A thread executes its next step; nobody calls, and nothing wakes up by itself. -/
def Event.goesOn : Event α → Bool
  | .thread (.worker _ _) | .thread (.caller _ _) => true
  | _ => false

theorem Sound.rank_lt {e : Event α} (hs : Sound s) (he : e.goesOn = true)
    (h : (managers key).step s e = some t) :
    t.threads.rank (List.range t.built) 0 < s.threads.rank (List.range s.built) 0 := by
  have h' : s.step key e = some t := h
  cases e with
  | call _ | update _ _ | updated => cases he
  | thread e =>
    obtain ⟨u, hu, rfl⟩ := Option.map_eq_some_iff.mp h'
    cases e with
    | spurious _ _ | call _ => cases he
    | caller k choice => exact rank_lt_of_caller hu
    | worker p i =>
      have hstep := workerStep hu
      obtain ⟨place, _, hi, _⟩ := hstep.moves
      obtain ⟨g, hguarded, htask⟩ := hs.guarded
      refine hstep.rank_lt (List.mem_range.mpr ?_) (fun e hpop => ?_)
      · -- who moves belongs to a pool that was built
        by_contra hge
        rw [hs.unbuilt p (Nat.le_of_not_lt hge)] at hi
        cases hi
      · obtain rfl := hguarded.active p i _ hpop rfl
        exact htask

/-- No thread of the manager can execute a step. -/
def Stuck (key : α → κ) (s : Managed α) : Prop :=
  ∀ e : Event α, e.goesOn = true → (managers key).step s e = none

theorem Stuck.threads (h : Stuck key s) :
    s.threads.Stuck (fun d e => decide (key d = key e)) s.sizeOfQueue where
  worker p i := Option.map_eq_none_iff.mp (h (.thread (.worker p i)) rfl)
  caller k choice := Option.map_eq_none_iff.mp (h (.thread (.caller k choice)) rfl)

/-- A swap is never held up: the workers of the old pool leave. -/
theorem Swapping.idle_of_stuck {k old : Nat} {φ : Phase} {prog : Program Nat α}
    (hs : Swapping s k old φ prog) (h : Stuck key s) : prog = [] := by
  cases prog with
  | nil => rfl
  | cons instr rest =>
    exfalso
    have hplan := hs.plan
    rcases h.threads.instr hs.caller with ⟨p, o, rfl, ho⟩ | ⟨p, rfl, place, hmem, hplace⟩
    · -- a mutex is held by a caller that goes on: the swap itself, which has it not
      obtain ⟨j, prog, hj, howns⟩ := hs.stands.guarded.mutex_of_stuck h.threads ho
      rcases hs.others_idle hj with rfl | ⟨_, rfl⟩
      · cases howns
      · simp [owns] at howns
    · obtain ⟨rfl, htold, hnothing, _⟩ := hplan
      have hrest := hs.stands.guarded.at_rest (p := p) h.threads (fun j prog hj => by
        rcases hs.others_idle hj with rfl | ⟨_, rfl⟩
        · rfl
        · exact hnothing p)
      rcases hrest place hmem with rfl | rfl
      · exact (hs.stands.told htold).2 _ hmem rfl
      · exact hplace rfl

/-! The pool an update installs is started. -/

/-- The program leaves the pool `p` started; `paused` as it stands. -/
def Opens (p : Nat) : Bool → Program Nat α → Prop
  | paused, [] => paused = false
  | paused, .setPaused q b :: rest =>
    (q = p ∧ b = false ∧ Opens p false rest) ∨ (q ≠ p ∧ Opens p paused rest)
  | paused, .setStopped q b :: rest => (q = p → b = false) ∧ Opens p paused rest
  | _, .startIf q :: rest => q = p ∧ Opens p false rest
  | _, .push _ _ :: _ => False
  | paused, .setWaitForCompletion _ _ :: rest | paused, .lock _ :: rest | paused, .unlock _ :: rest
  | paused, .notifyAll _ :: rest | paused, .notifyOne _ :: rest | paused, .transfer _ _ :: rest
  | paused, .join _ :: rest => Opens p paused rest

theorem opens_setNewThreadPool {new old : Nat} (h : old ≠ new) :
    Opens new true (setNewThreadPool new old : Program Nat α) := by
  simp [setNewThreadPool, stop, transferObjects, destroy, start, Opens, h, Ne.symm h]

theorem opens_startBlock {p : Nat} {paused : Bool} {rest : Program Nat α} (h : Opens p false rest) :
    Opens p paused (startBlock p ++ rest) := by
  simp [startBlock, Opens, h]

/-- The pool is not stopped, and the program starts it. -/
def Opening (p : Nat) (prog : Program Nat α) (u : State Nat α) : Prop :=
  (u.pools p).stopped = false ∧ Opens p (u.pools p).paused prog

theorem Opening.caller {same : α → α → Bool} {limit k choice p : Nat} {u v : State Nat α}
    {instr : Instr Nat α} {rest prog : Program Nat α} (hs : Opening p (instr :: rest) u)
    (hk : u.callers[k]? = some (instr :: rest))
    (h : CallerStep same limit u k choice rest instr v) (hprog : v.callers[k]? = some prog) :
    Opening p prog v := by
  obtain ⟨hstopped, hopens⟩ := hs
  have hlt := (List.getElem?_eq_some_iff.mp hk).1
  have hnext : ∀ prog', v.callers = u.callers.set k prog' → prog' = prog := by
    intro prog' hcallers
    rw [hcallers, List.getElem?_set_self hlt] at hprog
    exact Option.some_inj.mp hprog
  cases h with
  | idles hi =>
    obtain rfl := hnext rest rfl
    cases hi with
    | @started q hgo =>
      -- a pool that is neither paused nor stopped is started already
      obtain ⟨rfl, hopens⟩ := hopens
      rw [Opening, goOn_pools, (Bool.or_eq_false_iff.mp hgo).1]
      exact ⟨hstopped, hopens⟩
    | nobody _ | joined _ => exact ⟨hstopped, hopens⟩
    | refused _ => exact hopens.elim
  | starts _ =>
    obtain rfl := hnext _ rfl
    obtain ⟨rfl, hopens⟩ := hopens
    exact ⟨hstopped, opens_startBlock hopens⟩
  | @writes _ q x hw =>
    obtain rfl := hnext rest rfl
    by_cases hq : p = q
    · subst hq
      cases hw with
      | stopped _ b =>
        obtain ⟨hb, hopens⟩ := hopens
        simpa [Opening] using ⟨hb rfl, hopens⟩
      | paused _ b =>
        rcases hopens with ⟨_, rfl, hopens⟩ | ⟨hne, _⟩
        · simpa [Opening] using ⟨hstopped, hopens⟩
        · exact absurd rfl hne
      | waitForCompletion _ b | task_queue _ o => simpa [Opening] using ⟨hstopped, hopens⟩
    · have hrest : Opens p (u.pools p).paused rest := by
        cases hw with
        | stopped _ b => exact hopens.2
        | paused _ b =>
          rcases hopens with ⟨heq, _⟩ | ⟨_, hopens⟩
          · exact absurd heq.symm hq
          · exact hopens
        | waitForCompletion _ b | task_queue _ o => exact hopens
      simpa [Opening, hq] using ⟨hstopped, hrest⟩
  | @locks q _ | @unlocks q | @wakesAll q | @wakes q _ =>
    obtain rfl := hnext rest rfl
    by_cases hq : p = q
    · subst hq
      simpa [Opening] using ⟨hstopped, hopens⟩
    · simpa [Opening, hq] using ⟨hstopped, hopens⟩
  | pushes _ => exact hopens.elim

/-- An update that is going on will have started the pool it installs. -/
def WillStart (s : Managed α) : Prop :=
  ∀ (k : Nat) (prog : Program Nat α), s.updating = some k → s.threads.callers[k]? = some prog →
    Opening s.threadPool_ prog s.threads

theorem willStart_of_none (h : s.updating = none) : WillStart s := by
  intro k prog hk _
  rw [h] at hk
  cases hk

theorem WillStart.step {e : Event α} (ho : WillStart s) (hs : Sound s)
    (h : (managers key).step s e = some t) : WillStart t := by
  have h' : s.step key e = some t := h
  cases e with
  | thread e =>
    obtain ⟨u, hu, rfl⟩ := Option.map_eq_some_iff.mp h'
    intro k prog hk hprog
    have hprog' : u.callers[k]? = some prog := hprog
    show Opening s.threadPool_ prog u
    cases e with
    | worker p i =>
      have hstep := workerStep hu
      rw [hstep.callers] at hprog'
      have hopening := ho k prog hk hprog'
      rw [Opening, hstep.stopped, (hstep.frame _).2]
      exact hopening
    | spurious p i =>
      obtain ⟨_, rfl⟩ := spuriousStep hu
      have hopening := ho k prog hk hprog'
      by_cases hp : s.threadPool_ = p <;> simpa [Opening, hp] using hopening
    | caller j choice =>
      obtain ⟨instr, rest, hj, hstep⟩ := callerStep hu
      -- only the swap has something left to do
      rcases hs.state with hserving | ⟨k', old, φ, prog', hswap⟩
      · rw [hserving.updating] at hk
        cases hk
      · rcases hswap.others_idle hj with heq | ⟨rfl, _⟩
        · cases heq
        · obtain rfl : j = k := Option.some_inj.mp (hswap.updating.symm.trans hk)
          exact (ho j _ hk hj).caller hj hstep hprog'
    | call c => cases hu
  | call c =>
    simp only [Managed.step, Option.ite_none_right_eq_some, Option.some_inj] at h'
    obtain ⟨hnone, rfl⟩ := h'
    exact willStart_of_none hnone
  | update size operators =>
    simp only [Managed.step, Option.ite_none_right_eq_some] at h'
    obtain ⟨⟨hnone, _⟩, h'⟩ := h'
    cases operators with
    | none =>
      cases h'
      exact willStart_of_none hnone
    | some n =>
      cases h'
      intro k prog hk hprog
      obtain rfl : s.threads.callers.length = k := Option.some_inj.mp hk
      have hprog' : setNewThreadPool s.built s.threadPool_ = prog := by
        have heq := hprog
        rw [Managed.swap_threads, arrive_callers, setPool_callers,
          List.getElem?_append_right (Nat.le_refl _), Nat.sub_self] at heq
        exact Option.some_inj.mp heq
      subst hprog'
      have hopens := opens_setNewThreadPool (α := α) (Nat.ne_of_lt hs.installed)
      simpa [Opening, Pool.fresh] using hopens
  | updated =>
    simp only [Managed.step] at h'
    split at h'
    · simp only [Option.ite_none_right_eq_some, Option.some_inj] at h'
      obtain ⟨_, rfl⟩ := h'
      exact willStart_of_none rfl
    · cases h'

/-- Nothing is left to do. -/
structure AtRest (key : α → κ) (s : Managed α) : Prop where
  /-- Every call has returned, -/
  callers : ∀ prog ∈ s.threads.callers, prog = []
  /-- the workers of all pools wait or have left, -/
  workers : ∀ p, ∀ place ∈ (s.threads.pools p).workers, place = .blocked ∨ place = .left
  /-- and an update is over: its pool is started, and the others have no thread. -/
  updated : ∀ k, s.updating = some k → ((managers key).step s .updated).isSome = true ∧
    (s.threads.pools s.threadPool_).stopped = false ∧ (s.threads.pools s.threadPool_).paused = false ∧
    ∀ p, p ≠ s.threadPool_ → ∀ place ∈ (s.threads.pools p).workers, place = .left

theorem Sound.at_rest (hs : Sound s) (ho : WillStart s) (h : Stuck key s) : AtRest key s := by
  obtain ⟨g, hguarded, _⟩ := hs.guarded
  have hidle : ∀ (k : Nat) (prog : Program Nat α), s.threads.callers[k]? = some prog → prog = [] := by
    rcases hs.state with hserving | ⟨k, old, φ, prog, hswap⟩
    · exact hserving.guarded.idle_of_stuck hserving.simple h.threads
    · intro j prog' hj
      rcases hswap.others_idle hj with rfl | ⟨_, rfl⟩
      · rfl
      · exact hswap.idle_of_stuck h
  refine ⟨fun prog hmem => ?_, fun p => ?_, fun k hk => ?_⟩
  · obtain ⟨j, hj⟩ := List.mem_iff_getElem?.mp hmem
    exact hidle j prog hj
  · exact hguarded.at_rest h.threads (fun j prog hj => by rw [hidle j prog hj]; rfl)
  · rcases hs.state with hserving | ⟨k', old, φ, prog, hswap⟩
    · rw [hserving.updating] at hk
      cases hk
    · obtain rfl : k' = k := Option.some_inj.mp (hswap.updating.symm.trans hk)
      obtain rfl := hswap.idle_of_stuck h
      have hopening := ho k' [] hk hswap.caller
      refine ⟨?_, hopening.1, hopening.2, hswap.over.retired⟩
      show (s.step key .updated).isSome = true
      simp [Managed.step, hk, hswap.caller]

/-- Whatever the state of the manager, its threads come to rest: left to themselves they
execute a bounded number of steps, in any order, and when no thread can go on it is
because nothing is left to do. So every call returns, and so does every update. -/
theorem comes_to_rest {operators size : Nat} {es : List (Event α)}
    (h : (managers key).run (fresh operators size) es = some s) :
    ∃ n, (∀ es' t, (∀ e ∈ es', e.goesOn = true) → (managers key).run s es' = some t →
        es'.length ≤ n ∧ (Stuck key t → AtRest key t)) ∧
      ∃ es' t, (∀ e ∈ es', e.goesOn = true) ∧ (managers key).run s es' = some t ∧ AtRest key t := by
  have hinv : ∀ (s : Managed α) (e : Event α) (t : Managed α), Sound s ∧ WillStart s →
      (managers key).step s e = some t → Sound t ∧ WillStart t :=
    fun s e t hs hstep => ⟨hs.1.step hstep, hs.2.step hs.1 hstep⟩
  have hkeep : ∀ (s : Managed α) (e : Event α) (t : Managed α), Sound s ∧ WillStart s →
      e.goesOn = true → (managers key).step s e = some t → Sound t ∧ WillStart t :=
    fun s e t hs _ hstep => hinv s e t hs hstep
  have hrank : ∀ (s : Managed α) (e : Event α) (t : Managed α), Sound s ∧ WillStart s →
      e.goesOn = true → (managers key).step s e = some t →
      t.threads.rank (List.range t.built) 0 < s.threads.rank (List.range s.built) 0 :=
    fun s e t hs he hstep => hs.1.rank_lt he hstep
  have hs := Transition.System.run_inv hinv h ⟨sound_fresh operators size, willStart_of_none rfl⟩
  refine ⟨s.threads.rank (List.range s.built) 0, fun es' t hes' ht => ⟨?_, fun hstuck => ?_⟩, ?_⟩
  · exact Nat.le_of_add_right_le (Transition.System.length_add_rank_le hkeep hrank ht hes' hs)
  · have ht' := Transition.System.run_inv hinv ht hs
    exact ht'.1.at_rest ht'.2 hstuck
  · obtain ⟨es', t, hes', ht, hstuck⟩ := Transition.System.exists_run_stuck hkeep hrank hs
    have ht' := Transition.System.run_inv hinv ht hs
    exact ⟨es', t, hes', ht, ht'.1.at_rest ht'.2 hstuck⟩

/-- The update has paused the old pool and still has to take the queue from it. -/
def interrupted : Option (Managed (Nat × Nat)) :=
  (managers Prod.fst).run (fresh 1 4) (replacing.take 28)

theorem comes_to_rest_interrupted : ∃ s, interrupted = some s ∧ s.updating = some 4 ∧
    ∃ es' t, (∀ e ∈ es', Event.goesOn e = true) ∧ (managers Prod.fst).run s es' = some t ∧
      AtRest Prod.fst t := by
  have hsome : interrupted.isSome = true := by decide +kernel
  have hupdating : interrupted.map (fun s => s.updating) = some (some 4) := by decide +kernel
  obtain ⟨s, hs⟩ := Option.isSome_iff_exists.mp hsome
  rw [hs, Option.map_some, Option.some_inj] at hupdating
  obtain ⟨_, _, hends⟩ := comes_to_rest hs
  exact ⟨s, hs, hupdating, hends⟩

end PoolChain

/-! One pool that is started. -/

namespace WakeUps
variable {α : Type} {same : α → α → Bool} {limit : Nat} {s t : State Unit α}

open State Program

/-- A thread executes its next step. -/
def goesOn : Step Unit α → Bool
  | .worker _ _ | .caller _ _ => true
  | _ => false

/-- The instructions of `start` and `add_task`. -/
structure Working (s : State Unit α) : Prop where
  guarded : Guarded () s
  respects : s.Obeys (Respects ())
  simple : s.Obeys (Simple ())
  queue : (s.pools ()).task_queue = 0

theorem working_fresh (n : Nat) (es : List α) : Working (fresh n es) := by
  have hbare : Guarded () { fresh n es with callers := [] } :=
    Guarded.fresh es (fun _ => ⟨n, 0, rfl⟩) rfl rfl
  refine ⟨hbare.arrive (free_program (.start ())) (balanced_program (.start ())),
    fun prog hmem => ?_, fun prog hmem => ?_, rfl⟩
  · rw [List.mem_singleton.mp hmem]
    simp [start, Respects]
  · rw [List.mem_singleton.mp hmem]
    simp [start, Simple]

theorem Working.step {e : Step Unit α} (hs : Working s) (h : (system same limit adds).step s e = some t) :
    Working t := by
  have hcalls : ∀ c : Call Unit α, adds c = true →
      ∀ x ∈ c.program, Respects () x ∧ Simple () x := by
    intro c hc
    cases c with
    | start p | stop p => cases hc
    | add_task p e => simp [Call.program, add_task, Respects, Simple]
  refine ⟨hs.guarded.step hs.respects h,
    hs.respects.step (lasting_respects ()) (fun c hc x hx => (hcalls c hc x hx).1) h,
    hs.simple.step (lasting_simple ()) (fun c hc x hx => (hcalls c hc x hx).2) h, ?_⟩
  cases e with
  | worker p i => exact (((workerStep h).frame _).1).trans hs.queue
  | spurious p i =>
    obtain ⟨_, rfl⟩ := spuriousStep h
    simpa using hs.queue
  | caller k choice =>
    obtain ⟨instr, rest, hk, hstep⟩ := callerStep h
    have hinstr := hs.respects _ (List.mem_of_getElem? hk) instr List.mem_cons_self
    refine (hstep.task_queue (fun p old heq => ?_) _).trans hs.queue
    subst heq
    exact hinstr
  | call c =>
    obtain ⟨_, rfl⟩ := callStep h
    exact hs.queue

theorem Working.rank_lt {e : Step Unit α} (hs : Working s) (he : goesOn e = true)
    (h : (system same limit adds).step s e = some t) : t.rank [()] 0 < s.rank [()] 0 := by
  cases e with
  | worker p i => exact (workerStep h).rank_lt (List.mem_singleton.mpr rfl) (fun _ _ => hs.queue)
  | caller k choice => exact rank_lt_of_caller h
  | spurious _ _ | call _ => cases he

theorem Working.at_rest (hs : Working s)
    (hstuck : ∀ e, goesOn e = true → (system same limit adds).step s e = none) :
    (∀ prog ∈ s.callers, prog = []) ∧
      ∀ place ∈ (s.pools ()).workers, place = .blocked ∨ place = .left := by
  have h : s.Stuck same limit :=
    ⟨fun p i => hstuck (.worker p i) rfl, fun k choice => hstuck (.caller k choice) rfl⟩
  have hidle := hs.guarded.idle_of_stuck hs.simple h
  refine ⟨fun prog hmem => ?_, hs.guarded.at_rest h (fun k prog hk => by rw [hidle k prog hk]; rfl)⟩
  obtain ⟨k, hk⟩ := List.mem_iff_getElem?.mp hmem
  exact hidle k prog hk

/-- A started pool of two workers or more serves every call: once nobody calls any more it
comes to rest, and then every `add_task` has returned and nothing waits. -/
theorem drained_of_two {n : Nat} (hn : 2 ≤ n) {es : List α} {events : List (Step Unit α)}
    (h : (system same limit adds).run (fresh n es) events = some s) :
    ∃ m, (∀ events' t, (∀ e ∈ events', goesOn e = true) → (system same limit adds).run s events' = some t →
        events'.length ≤ m ∧ ((∀ e, goesOn e = true → (system same limit adds).step t e = none) →
          (∀ prog ∈ t.callers, prog = []) ∧ t.slots () = [])) ∧
      ∃ events' t, (∀ e ∈ events', goesOn e = true) ∧ (system same limit adds).run s events' = some t ∧
        (∀ prog ∈ t.callers, prog = []) ∧ t.slots () = [] := by
  have hkeep : ∀ (s : State Unit α) (e : Step Unit α) (t : State Unit α), Working s → goesOn e = true →
      (system same limit adds).step s e = some t → Working t := fun s e t hs _ hstep => hs.step hstep
  have hrank : ∀ (s : State Unit α) (e : Step Unit α) (t : State Unit α), Working s → goesOn e = true →
      (system same limit adds).step s e = some t → t.rank [()] 0 < s.rank [()] 0 :=
    fun s e t hs he hstep => hs.rank_lt he hstep
  have hs : Working s :=
    Transition.System.run_inv (fun _ _ _ hs hstep => hs.step hstep) h (working_fresh n es)
  -- a worker at rest is not awake, and no wake-up was lost
  have hdrained : ∀ events' t, (system same limit adds).run s events' = some t →
      (∀ e, goesOn e = true → (system same limit adds).step t e = none) →
      (∀ prog ∈ t.callers, prog = []) ∧ t.slots () = [] := by
    intro events' t ht hstuck
    have htw : Working t := Transition.System.run_inv (fun _ _ _ hs hstep => hs.step hstep) ht hs
    obtain ⟨hidle, hrest⟩ := htw.at_rest hstuck
    have hrun : (system same limit adds).run (fresh n es) (events ++ events') = some t := by
      rw [Transition.System.run_append, h, Option.bind_some, ht]
    refine ⟨hidle, ?_⟩
    by_contra hslots
    obtain ⟨place, hmem, hawake⟩ := served_of_two hn hrun hidle hslots
    rcases hrest place hmem with rfl | rfl <;> cases hawake
  refine ⟨s.rank [()] 0, fun events' t hevents' ht => ⟨?_, hdrained events' t ht⟩, ?_⟩
  · exact Nat.le_of_add_right_le (Transition.System.length_add_rank_le hkeep hrank ht hevents' hs)
  · obtain ⟨events', t, hevents', ht, hstuck⟩ := Transition.System.exists_run_stuck hkeep hrank hs
    obtain ⟨hidle, hslots⟩ := hdrained events' t ht hstuck
    exact ⟨events', t, hevents', ht, hidle, hslots⟩

/-- Two workers, two calls that wait and one that is about to push. -/
def busy : Option (State Unit Nat) :=
  (system (fun _ _ => false) 4 adds).run (fresh 2 [7, 8])
    (startEvents ++ [.worker () 0, .worker () 0, .call (.add_task () 9)])

theorem drained_of_two_busy : ∃ s, busy = some s ∧ s.slots () = [some 7, some 8] ∧
    ∃ events' t, (∀ e ∈ events', goesOn e = true) ∧
      (system (fun _ _ => false) 4 adds).run s events' = some t ∧
      (∀ prog ∈ t.callers, prog = []) ∧ t.slots () = [] := by
  have hsome : busy.isSome = true := by decide
  have hslots : busy.map (fun s => s.slots ()) = some [some 7, some 8] := by decide
  obtain ⟨s, hs⟩ := Option.isSome_iff_exists.mp hsome
  rw [hs, Option.map_some, Option.some_inj] at hslots
  obtain ⟨_, _, hends⟩ := drained_of_two (Nat.le_refl 2) hs
  exact ⟨s, hs, hslots, hends⟩

end WakeUps

end ProteiCov.Threads
