import Mathlib.Logic.Basic
import ProteiCov.PoolLocks

/-
  The swap of two pools

  `setNewThreadPool` stops the old pool, gives its queue to the new one, destroys
  the old pool and starts the new one. From `transferObjects` on both pools have
  the same queue object and guard it with different mutexes. What keeps the queue
  whole is a guard: at any time the workers of one pool only are between the check
  that allows a dequeue and its end.

  What is proved:
    1. `Guarded` — a guarded queue has all its entries but the one a worker has
       moved out; every step of a worker keeps it so, and takes from the front.
    2. `Guarded.transfer` — the guard passes on when the queue is given to a pool
       while the mutex of the guard is held and the guard is paused.
    3. `swap_safe` — a swap from any reachable state: after the transfer no worker
       of the old pool dequeues, `front` and `pop` find an entry, and what the
       workers took followed by what is queued is what was queued before.
-/

namespace ProteiCov.Threads

namespace State
variable {π α : Type} [DecidableEq π]

/-- The calls in a queue object. -/
def entries (s : State π α) (q : Nat) : List α := (s.queues q).filterMap id

/-- Only workers of the pool `g` may dequeue, and they find the queue whole. -/
structure Guarded (g : π) (s : State π α) : Prop where
  locked : s.Locked
  active : ∀ (p : π) (i : Nat) (place : Place α), (s.pools p).workers[i]? = some place →
    place.active = true → p = g
  paused : ∀ p, p ≠ g → (s.pools p).paused = true
  whole : (∀ (i : Nat) (place : Place α), (s.pools g).workers[i]? = some place →
    place.active = false) → ∃ es : List α, s.slots g = es.map some
  front : ∀ i : Nat, (s.pools g).workers[i]? = some .front →
    ∃ (e : α) (es : List α), s.slots g = (e :: es).map some
  pop : ∀ (i : Nat) (e : α), (s.pools g).workers[i]? = some (.pop e) →
    ∃ es : List α, s.slots g = none :: es.map some

omit [DecidableEq π] in
theorem Place.active_holds {place : Place α} (h : place.active = true) : place.holds = true := by
  cases place <;> first | rfl | cases h

/-- A worker that holds the mutex of its pool is alone with the queue. -/
theorem Locked.alone {s : State π α} {p : π} {i j : Nat} {place place' : Place α} (hs : s.Locked)
    (hi : (s.pools p).workers[i]? = some place) (hplace : place.holds = true)
    (hj : (s.pools p).workers[j]? = some place') (hplace' : place'.active = true) : i = j := by
  have h1 : s.Holds (.worker i) p := ⟨place, hi, hplace⟩
  have h2 : s.Holds (.worker j) p := ⟨place', hj, Place.active_holds hplace'⟩
  have heq := hs.mutex.unique h1 h2
  cases heq
  rfl

theorem Guarded.frame {g : π} {s t : State π α} (hs : Guarded g s) (hl : t.Locked)
    (hactive : ∀ (p : π) (i : Nat) (place : Place α), place.active = true →
      ((t.pools p).workers[i]? = some place ↔ (s.pools p).workers[i]? = some place))
    (hpaused : ∀ p, p ≠ g → (t.pools p).paused = true) (hslots : t.slots g = s.slots g) :
    Guarded g t where
  locked := hl
  active := fun p i place hi hplace => hs.active p i place ((hactive p i place hplace).mp hi) hplace
  paused := hpaused
  whole := by
    intro hnone
    rw [hslots]
    apply hs.whole
    intro i place hi
    cases hplace : place.active with
    | false => rfl
    | true =>
      rw [← hplace]
      exact hnone i place ((hactive g i place hplace).mpr hi)
  front := by
    intro i hi
    rw [hslots]
    exact hs.front i ((hactive g i _ rfl).mp hi)
  pop := by
    intro i e hi
    rw [hslots]
    exact hs.pop i e ((hactive g i _ rfl).mp hi)

theorem setPlace_active {s : State π α} {p : π} {i : Nat} {place : Place α} (place' : Place α)
    (hi : (s.pools p).workers[i]? = some place) (hplace : place.active = false)
    (hplace' : place'.active = false) (q : π) (j : Nat) (x : Place α) (hx : x.active = true) :
    ((s.setPlace p i place').pools q).workers[j]? = some x ↔ (s.pools q).workers[j]? = some x := by
  have hlt := (List.getElem?_eq_some_iff.mp hi).1
  by_cases hq : q = p
  · subst hq
    by_cases hij : i = j
    · subst hij
      simp only [setPlace_pools, Function.update_self, List.getElem?_set_self hlt, hi,
        Option.some_inj]
      constructor
      · rintro rfl
        rw [hplace'] at hx
        cases hx
      · rintro rfl
        rw [hplace] at hx
        cases hx
    · simp [List.getElem?_set_ne hij]
  · simp [hq]

/-- Between two states the queue object `q` is untouched, or its first entry was
taken by a worker of the guard. -/
def Takes (g : π) (q : Nat) (s t : State π α) : Prop :=
  (t.entries q = s.entries q ∧ t.taken = s.taken) ∨
    ∃ i e, (s.pools g).workers[i]? = some .front ∧ s.entries q = e :: t.entries q ∧
      t.taken = s.taken ++ [(g, i, e)]

theorem Guarded.elsewhere {p : π} {s t : State π α} (hs : Guarded p s)
    (ht : ∀ q, q ≠ p → t.pools q = s.pools q) :
    (∀ (q : π) (j : Nat) (place : Place α), (t.pools q).workers[j]? = some place →
      place.active = true → q = p) ∧ ∀ q, q ≠ p → (t.pools q).paused = true := by
  constructor
  · intro q j place hj hplace
    by_contra hq
    rw [ht q hq] at hj
    exact hq (hs.active q j place hj hplace)
  · intro q hq
    rw [ht q hq]
    exact hs.paused q hq

theorem Guarded.take {g p : π} {s : State π α} {i : Nat} (hs : Guarded g s)
    (hi : (s.pools p).workers[i]? = some .check) (ha : s.run_allowed p = true)
    (hl : (s.setPlace p i .front).Locked) : Guarded g (s.setPlace p i .front) := by
  simp only [run_allowed, Bool.and_eq_true, Bool.not_eq_true'] at ha
  have hp : p = g := by
    by_contra hne
    rw [hs.paused p hne] at ha
    cases ha.2
  subst hp
  have hlt := (List.getElem?_eq_some_iff.mp hi).1
  -- it holds the mutex, so nobody else is dequeuing and the queue is whole
  have hothers : ∀ (j : Nat) (place : Place α), (s.pools p).workers[j]? = some place →
      place.active = false := by
    intro j place hj
    cases hplace : place.active with
    | false => rfl
    | true =>
      have hij := hs.locked.alone hi rfl hj hplace
      subst hij
      rw [hi] at hj
      cases hj
      cases hplace
  obtain ⟨es, hes⟩ := hs.whole hothers
  have hslots : (s.setPlace p i .front).slots p = es.map some := by simpa [slots] using hes
  obtain ⟨e, es', rfl⟩ : ∃ e es', es = e :: es' := by
    cases es with
    | nil =>
      rw [hes] at ha
      cases ha.1
    | cons e es' => exact ⟨e, es', rfl⟩
  have hnew : ∀ (j : Nat) (place : Place α), ((s.setPlace p i .front).pools p).workers[j]? = some place →
      place.active = true → j = i ∧ place = .front := by
    intro j place hj hplace
    by_cases hij : i = j
    · subst hij
      simp only [setPlace_pools, Function.update_self, List.getElem?_set_self hlt,
        Option.some_inj] at hj
      exact ⟨rfl, hj.symm⟩
    · simp only [setPlace_pools, Function.update_self, List.getElem?_set_ne hij] at hj
      rw [hothers j place hj] at hplace
      cases hplace
  obtain ⟨hactive, hpaused⟩ := hs.elsewhere (t := s.setPlace p i .front) (fun q hq => by simp [hq])
  refine ⟨hl, hactive, hpaused, fun _ => ⟨e :: es', hslots⟩, fun _ _ => ⟨e, es', hslots⟩, ?_⟩
  intro j x hj
  cases (hnew j _ hj rfl).2

theorem Guarded.moveOut {g p : π} {s t : State π α} {i : Nat} {e : α} {rest : List (Option α)}
    (hs : Guarded g s) (hi : (s.pools p).workers[i]? = some .front) (h : s.slots p = some e :: rest)
    (ht : t = { (s.setSlots p (none :: rest)).setPlace p i (.pop e) with
      taken := s.taken ++ [(p, i, e)] }) (hl : t.Locked) :
    Guarded g t ∧ Takes g (s.pools g).task_queue s t := by
  have hp := hs.active p i _ hi rfl
  subst hp
  have hlt := (List.getElem?_eq_some_iff.mp hi).1
  obtain ⟨e', es, hes⟩ := hs.front i hi
  rw [h, List.map_cons, List.cons.injEq, Option.some_inj] at hes
  obtain ⟨rfl, rfl⟩ := hes
  have hslots : t.slots p = none :: es.map some := by
    subst ht
    simp [slots]
  -- the worker stands at `pop` now, and the mutex lets nobody else past its check
  have hself : (t.pools p).workers[i]? = some (.pop e) := by
    subst ht
    simp [List.getElem?_set_self hlt]
  obtain ⟨hactive, hpaused⟩ := hs.elsewhere (t := t) (fun q hq => by simp [ht, hq])
  refine ⟨⟨hl, hactive, hpaused, ?_, ?_, fun _ _ _ => ⟨es, hslots⟩⟩, Or.inr ⟨i, e, hi, ?_, ?_⟩⟩
  · intro hnone
    cases hnone i _ hself
  · intro j hj
    have hij := hl.alone hself rfl hj rfl
    subst hij
    rw [hself] at hj
    cases hj
  · have h1 : s.entries (s.pools p).task_queue = e :: es := by
      rw [entries, show s.queues (s.pools p).task_queue = (e :: es).map some from h]
      simp
    have h2 : t.entries (s.pools p).task_queue = es := by
      subst ht
      simp [entries]
    rw [h1, h2]
  · subst ht
    rfl

theorem Guarded.erase {g p : π} {s t : State π α} {i : Nat} {e : α} {x : Option α}
    {rest : List (Option α)} (hs : Guarded g s) (hi : (s.pools p).workers[i]? = some (.pop e))
    (h : s.slots p = x :: rest) (ht : t = (s.setSlots p rest).setPlace p i (.unlock e))
    (hl : t.Locked) : Guarded g t ∧ Takes g (s.pools g).task_queue s t := by
  have hp := hs.active p i _ hi rfl
  subst hp
  have hlt := (List.getElem?_eq_some_iff.mp hi).1
  obtain ⟨es, hes⟩ := hs.pop i e hi
  rw [h, List.cons.injEq] at hes
  obtain ⟨rfl, rfl⟩ := hes
  have hslots : t.slots p = es.map some := by
    subst ht
    simp [slots]
  have hself : (t.pools p).workers[i]? = some (.unlock e) := by
    subst ht
    simp [List.getElem?_set_self hlt]
  have hothers : ∀ (j : Nat) (place : Place α), (t.pools p).workers[j]? = some place →
      place.active = true → False := by
    intro j place hj hplace
    have hij := hl.alone hself rfl hj hplace
    subst hij
    rw [hself] at hj
    cases hj
    cases hplace
  obtain ⟨hactive, hpaused⟩ := hs.elsewhere (t := t) (fun q hq => by simp [ht, hq])
  refine ⟨⟨hl, hactive, hpaused, fun _ => ⟨es, hslots⟩, ?_, ?_⟩, Or.inl ⟨?_, ?_⟩⟩
  · intro j hj
    exact (hothers j _ hj rfl).elim
  · intro j x hj
    exact (hothers j _ hj rfl).elim
  · have h1 : s.entries (s.pools p).task_queue = es := by
      rw [entries, show s.queues (s.pools p).task_queue = none :: es.map some from h]
      simp
    have h2 : t.entries (s.pools p).task_queue = es := by
      subst ht
      simp [entries]
    rw [h1, h2]
  · subst ht
    rfl

/-- Every step of a worker keeps the queue guarded. -/
theorem Guarded.worker {g p : π} {s t : State π α} {i : Nat} (hs : Guarded g s)
    (h : WorkerStep s p i t) : Guarded g t ∧ Takes g (s.pools g).task_queue s t := by
  have hl := hs.locked.worker h
  have hpaused : ∀ r, r ≠ g → (t.pools r).paused = true := by
    intro r hr
    rw [(h.frame r).2]
    exact hs.paused r hr
  have hmutex : ∀ (m : Option Owner) (q : π) (j : Nat) (x : Place α),
      ((s.setMutex p m).pools q).workers[j]? = some x ↔ (s.pools q).workers[j]? = some x := by
    intro m q j x
    by_cases hq : q = p
    · subst hq
      simp
    · simp [hq]
  have hslots : ∀ (m : Option Owner) (place : Place α),
      ((s.setMutex p m).setPlace p i place).slots g = s.slots g := by
    intro m place
    by_cases hg : g = p
    · subst hg
      simp [slots]
    · simp [slots, hg]
  -- a step that neither dequeues nor comes to dequeue leaves the queue as it is
  cases h with
  | @stays place place' hi h =>
    have hslots : (s.setPlace p i place').slots g = s.slots g := by
      by_cases hg : g = p
      · subst hg
        simp [slots]
      · simp [slots, hg]
    have hstep : place.active = false → place'.active = false → Guarded g (s.setPlace p i place') :=
      fun hplace hplace' =>
        hs.frame hl (setPlace_active place' hi hplace hplace') hpaused hslots
    refine ⟨?_, Or.inl ⟨rfl, rfl⟩⟩
    cases h with
    | take ha => exact hs.take hi ha hl
    | enter _ | quit _ | pass _ | wait _ | served _ | again _ | drain _ | more _ | leave _ =>
      exact hstep rfl rfl
  | @acquires place hi h hfree =>
    have hplace : place.active = false := by rcases h with rfl | rfl <;> rfl
    have hi' : ((s.setMutex p (some (.worker i))).pools p).workers[i]? = some place := by
      simpa using hi
    refine ⟨hs.frame hl (fun q j x hx => ?_) hpaused (hslots _ .wait), Or.inl ⟨rfl, rfl⟩⟩
    exact (setPlace_active .wait hi' hplace rfl q j x hx).trans (hmutex _ q j x)
  | @releases place place' hi h =>
    have hplace : place.active = false ∧ place'.active = false := by cases h <;> exact ⟨rfl, rfl⟩
    have hi' : ((s.setMutex p none).pools p).workers[i]? = some place := by simpa using hi
    refine ⟨hs.frame hl (fun q j x hx => ?_) hpaused (hslots _ place'), Or.inl ⟨rfl, rfl⟩⟩
    exact (setPlace_active place' hi' hplace.1 hplace.2 q j x hx).trans (hmutex _ q j x)
  | @front e rest hi h => exact hs.moveOut hi h rfl hl
  | @pop e x rest hi h => exact hs.erase hi h rfl hl

/-! The steps of the callers. -/

/-- The instructions a caller may execute while `g` has the queue. -/
def Respects (g : π) : Instr π α → Prop
  | .startIf p => p = g
  | .setPaused p b => p = g ∨ b = true
  | .push p _ => p = g
  | .transfer _ _ => False
  | _ => True

omit [DecidableEq π] in
theorem Wakes.active {s t : State π α} (h : Wakes s t) (p : π) (i : Nat) (place : Place α)
    (hplace : place.active = true) :
    (t.pools p).workers[i]? = some place ↔ (s.pools p).workers[i]? = some place := by
  rcases h p i with heq | ⟨hs, ht⟩
  · rw [heq]
  · rw [hs, ht]
    cases place <;> simp_all [Place.active]

omit [DecidableEq π] in
/-- A push puts one entry at the end, and may erase the one it supersedes. -/
theorem pushed_whole {same : α → α → Bool} {limit : Nat} {es : List α} {e : α}
    {es' : List (Option α)} (h : pushed same limit (es.map some) e = some es') :
    ∃ rest : List α, es' = rest.map some := by
  unfold pushed at h
  split at h
  · cases h
  · cases h
    refine ⟨es.eraseP (fun d => superseded same e (some d)) ++ [e], ?_⟩
    rw [List.eraseP_map, List.map_append]
    rfl

theorem Guarded.idle {g : π} {s : State π α} {k : Nat} {prog : Program π α} (hs : Guarded g s)
    (hk : s.callers[k]? = some prog) (howns : prog.owns g = true) (i : Nat) (place : Place α)
    (hi : (s.pools g).workers[i]? = some place) : place.active = false := by
  cases hplace : place.active with
  | false => rfl
  | true =>
    have h1 : s.Holds (.worker i) g := ⟨place, hi, Place.active_holds hplace⟩
    have h2 : s.Holds (.caller k) g := ⟨prog, hk, howns⟩
    cases hs.locked.mutex.unique h1 h2

/-- Every step of a caller that respects the guard keeps the queue guarded. -/
theorem Guarded.caller {same : α → α → Bool} {limit : Nat} {g : π} {s t : State π α}
    {k choice : Nat} {instr : Instr π α} {rest : Program π α} (hs : Guarded g s)
    (hk : s.callers[k]? = some (instr :: rest)) (hinstr : Respects g instr)
    (h : s.stepCaller same limit k choice = some t) : Guarded g t := by
  have hstep := callerStep_at hk h
  have hl := hs.locked.caller h
  have hactive := (Wakes.caller h).active
  have hpaused : ∀ r, r ≠ g → (t.pools r).paused = true := by
    intro r hr
    rcases hstep.frame.2.2 r with heq | ⟨b, rfl, heq⟩
    · rw [heq]
      exact hs.paused r hr
    · rw [heq]
      exact hinstr.resolve_left hr
  by_cases hpush : ∃ p e, instr = .push p e
  -- a push runs under the mutex, so the queue is whole before and after it
  · obtain ⟨p, e, rfl⟩ := hpush
    have hp : p = g := hinstr
    subst hp
    have howns : Program.owns p (.push p e :: rest) = true := (hs.locked.balanced k _ hk).1
    have hidle := hs.idle hk howns
    obtain ⟨es, hes⟩ := hs.whole hidle
    have hidle' : ∀ (i : Nat) (place : Place α), (t.pools p).workers[i]? = some place →
        place.active = true → False := by
      intro i place hi hplace
      rw [hidle i place ((hactive p i place hplace).mp hi)] at hplace
      cases hplace
    refine ⟨hl, fun q i place hi hplace => hs.active q i place ((hactive q i place hplace).mp hi) hplace,
      hpaused, fun _ => ?_, fun i hi => (hidle' i _ hi rfl).elim, fun i x hi => (hidle' i _ hi rfl).elim⟩
    cases hstep with
    | idles _ => exact ⟨es, hes⟩
    | writes hw => cases hw
    | pushes hpush =>
      rw [hes] at hpush
      obtain ⟨es', rfl⟩ := pushed_whole hpush
      exact ⟨es', by simp [slots]⟩
  -- nothing else a caller may do here touches the queue
  · have hno : ∀ p e, instr ≠ .push p e := fun p e heq => hpush ⟨p, e, heq⟩
    have htransfer : ∀ p old, instr ≠ .transfer p old := by
      rintro p old rfl
      exact hinstr
    obtain ⟨hqueues, htask⟩ := hstep.queues hno htransfer
    refine hs.frame hl hactive hpaused ?_
    simp only [slots, hqueues, htask]

/-- The queue is given to the pool `p`, and the guard with it: the caller holds the
mutex of the guard, which is paused. -/
theorem Guarded.transfer {g p : π} {s : State π α} {k : Nat} {rest : Program π α}
    (hs : Guarded g s) (hk : s.callers[k]? = some (.transfer p g :: rest)) (hne : p ≠ g)
    (hpaused : (s.pools g).paused = true)
    (hl : ((s.setPool p { s.pools p with task_queue := (s.pools g).task_queue }).goOn k rest).Locked) :
    Guarded p ((s.setPool p { s.pools p with task_queue := (s.pools g).task_queue }).goOn k rest) := by
  have howns : Program.owns g (.transfer p g :: rest) = true := (hs.locked.balanced k _ hk).2.1
  have hidle := hs.idle hk howns
  -- the caller holds the mutex of `g`, so no worker is dequeuing and the queue is whole
  obtain ⟨es, hes⟩ := hs.whole hidle
  have hnone : ∀ (q : π) (i : Nat) (place : Place α),
      (((s.setPool p { s.pools p with task_queue := (s.pools g).task_queue }).goOn k rest).pools
        q).workers[i]? = some place → place.active = true → False := by
    intro q i place hi hplace
    have hi' : (s.pools q).workers[i]? = some place := by
      by_cases hq : q = p
      · subst hq
        simpa using hi
      · simpa [hq] using hi
    have hq := hs.active q i place hi' hplace
    subst hq
    rw [hidle i place hi'] at hplace
    cases hplace
  refine ⟨hl, fun q i place hi hplace => (hnone q i place hi hplace).elim, fun q hq => ?_,
    fun _ => ⟨es, ?_⟩, fun i hi => (hnone p i _ hi rfl).elim, fun i x hi => (hnone p i _ hi rfl).elim⟩
  · by_cases hqg : q = g
    · subst hqg
      simpa [hq] using hpaused
    · simpa [hq] using hs.paused q hqg
  · simpa [slots] using hes

theorem Guarded.spurious {g p : π} {s t : State π α} {i : Nat} (hs : Guarded g s)
    (h : s.stepSpurious p i = some t) : Guarded g t := by
  have hl := hs.locked.spurious h
  have hactive := (Wakes.spurious h).active
  obtain ⟨_, rfl⟩ := spuriousStep h
  refine hs.frame hl hactive (fun r hr => ?_) ?_
  · by_cases hp : r = p
    · subst hp
      simpa using hs.paused r hr
    · simpa [hp] using hs.paused r hr
  · by_cases hg : g = p
    · subst hg
      simp [slots]
    · simp [slots, hg]

theorem Guarded.arrive {g : π} {s : State π α} {prog : Program π α} (hs : Guarded g s)
    (hfree : prog.Free) (hbal : prog.Balanced) : Guarded g (s.arrive prog) :=
  hs.frame (hs.locked.arrive hfree hbal) (fun _ _ _ _ => Iff.rfl) hs.paused rfl

omit [DecidableEq π] in
/-- The instructions the guard allows lead to no others. -/
theorem lasting_respects (g : π) : Lasting (Respects g : Instr π α → Prop) where
  start := by
    intro p hp x hx
    have hpg : p = g := hp
    simp only [Program.startBlock, List.mem_cons, List.not_mem_nil, or_false] at hx
    rcases hx with rfl | rfl | rfl | rfl <;> simp [Respects, hpg]
  push := fun _ _ _ => trivial

theorem Guarded.step {same : α → α → Bool} {limit : Nat} {allows : Call π α → Bool} {g : π}
    {s t : State π α} {e : Step π α} (hs : Guarded g s) (hcallers : s.Obeys (Respects g))
    (h : (system same limit allows).step s e = some t) : Guarded g t := by
  cases e with
  | worker p i => exact (hs.worker (workerStep h)).1
  | spurious p i => exact hs.spurious h
  | caller k choice =>
    obtain ⟨instr, rest, hk, _⟩ := callerStep h
    exact hs.caller hk (hcallers _ (List.mem_of_getElem? hk) instr List.mem_cons_self) h
  | call c =>
    obtain ⟨_, rfl⟩ := callStep h
    exact hs.arrive (Program.free_program c) (Program.balanced_program c)

theorem Guarded.fresh {g : π} {s : State π α} (es : List α)
    (hpools : ∀ p, ∃ size queue, s.pools p = Pool.fresh size queue) (hcallers : s.callers = [])
    (hslots : s.slots g = es.map some) : Guarded g s := by
  have hplace : ∀ (p : π) (i : Nat) (place : Place α), (s.pools p).workers[i]? = some place →
      place.active = false := by
    intro p i place hi
    obtain ⟨size, queue, hp⟩ := hpools p
    rw [hp] at hi
    rw [List.eq_of_mem_replicate (List.mem_of_getElem? hi)]
    rfl
  refine ⟨Locked.fresh hpools (by simp [hcallers]), ?_, ?_, fun _ => ⟨es, hslots⟩, ?_, ?_⟩
  · intro p i place hi hactive
    rw [hplace p i place hi] at hactive
    cases hactive
  · intro p _
    obtain ⟨size, queue, hp⟩ := hpools p
    rw [hp]
    rfl
  · intro i hi
    cases hplace g i _ hi
  · intro i e hi
    cases hplace g i _ hi

/-- A paused pool none of whose workers is dequeuing. -/
structure Quiet (p : π) (s : State π α) : Prop where
  paused : (s.pools p).paused = true
  idle : ∀ (i : Nat) (place : Place α), (s.pools p).workers[i]? = some place → place.active = false

/-- The workers of a paused pool do not start to dequeue. -/
theorem Quiet.worker {p r : π} {s t : State π α} {i : Nat} (hs : Quiet p s)
    (h : WorkerStep s r i t) : Quiet p t := by
  refine ⟨(h.frame p).2.trans hs.paused, fun j x hj => ?_⟩
  obtain ⟨place, place', hi, hw, hother, hbegin⟩ := h.workers
  by_cases hp : p = r
  · subst hp
    rw [hw] at hj
    by_cases hij : i = j
    · subst hij
      rw [List.getElem?_set_self (List.getElem?_eq_some_iff.mp hi).1, Option.some_inj] at hj
      subst hj
      by_contra hplace
      rcases hbegin (by simpa using hplace) with hactive | hallowed
      · rw [hs.idle i place hi] at hactive
        cases hactive
      · simp [run_allowed, hs.paused] at hallowed
    · rw [List.getElem?_set_ne hij] at hj
      exact hs.idle j x hj
  · rw [hother p hp] at hj
    exact hs.idle j x hj

omit [DecidableEq π] in
theorem Quiet.wakes {p : π} {s t : State π α} (hs : Quiet p s) (hw : Wakes s t)
    (hp : (t.pools p).paused = true) : Quiet p t := by
  refine ⟨hp, fun i place hi => ?_⟩
  by_contra hplace
  have hactive : place.active = true := by simpa using hplace
  rw [hs.idle i place ((hw.active p i place hactive).mp hi)] at hactive
  cases hactive

end State

/-! The swap. -/

/-- The pool that is replaced, and the new one. -/
inductive Side where
  | old
  | new
  deriving DecidableEq, Repr

namespace PoolSwap
variable {α : Type}

open State Program

/-- How far a swap has come: the old pool is stopped, the queue is given away, the
new pool is started. -/
inductive Stage where
  | before
  | sealed
  | after
  | started
  deriving DecidableEq, Repr

/-- The pool whose workers may dequeue. -/
def Stage.guard : Stage → Side
  | before | sealed => .old
  | after | started => .new

/-- A program that takes the swap through its stages in order. -/
def Plan : Stage → Program Side α → Prop
  | stage, [] => stage = .started
  | stage, .setPaused p b :: rest =>
    (stage = .before ∧ p = .old ∧ b = true ∧ Plan .sealed rest) ∨
      (stage = .started ∧ p = .new ∧ Plan .started rest)
  | stage, .transfer p o :: rest => stage = .sealed ∧ p = .new ∧ o = .old ∧ Plan .after rest
  | stage, .startIf p :: rest => stage = .after ∧ p = .new ∧ Plan .started rest
  | _, .push _ _ :: _ => False
  | stage, _ :: rest => Plan stage rest

theorem plan_setNewThreadPool : Plan .before (setNewThreadPool .new .old : Program Side α) := by
  simp [setNewThreadPool, stop, transferObjects, destroy, start, Plan]

theorem plan_startBlock {rest : Program Side α} (h : Plan .started rest) :
    Plan .started (startBlock .new ++ rest) := by
  simpa [startBlock, Plan] using h

theorem Plan.guard_new {stage : Stage} {prog : Program Side α} (h : Plan stage prog)
    (hprog : ∀ p o, Instr.transfer p o ∉ prog) : stage.guard = .new := by
  induction prog generalizing stage with
  | nil =>
    have hstage : stage = .started := h
    rw [hstage]
    rfl
  | cons instr rest ih =>
    have hrest : ∀ p o, Instr.transfer p o ∉ rest := fun p o hmem =>
      hprog p o (List.mem_cons_of_mem _ hmem)
    cases instr with
    | transfer p o => exact absurd List.mem_cons_self (hprog p o)
    | setPaused p b =>
      rcases h with ⟨rfl, _, _, h⟩ | ⟨rfl, _, _⟩
      · exact absurd (ih h hrest) (by simp [Stage.guard])
      · rfl
    | startIf p =>
      rw [h.1]
      rfl
    | push p e => exact h.elim
    | _ => exact ih h hrest

/-- Where a swap stands: `q` is the queue object, `s₀` the state before. -/
structure Swapping (q : Nat) (s₀ : State Side α) (stage : Stage) (s : State Side α) : Prop where
  guarded : Guarded stage.guard s
  queue : (s.pools stage.guard).task_queue = q
  callers : ∃ prog, s.callers = s₀.callers ++ [prog] ∧ Plan stage prog
  sealed : stage = .sealed → (s.pools .old).paused = true
  quiet : stage = .after → Quiet .new s
  taken : ∃ taken, s.taken = s₀.taken ++ taken ∧
    s₀.entries q = taken.map (fun x => x.2.2) ++ s.entries q ∧
    (stage ≠ .started → ∀ x ∈ taken, x.1 = Side.old)

theorem Swapping.worker {q : Nat} {s₀ s t : State Side α} {stage : Stage} {p : Side} {i : Nat}
    (hs : Swapping q s₀ stage s) (h : WorkerStep s p i t) : Swapping q s₀ stage t := by
  obtain ⟨hguarded, htakes⟩ := hs.guarded.worker h
  obtain ⟨taken, htaken, hentries, hold⟩ := hs.taken
  refine ⟨hguarded, (h.frame _).1.trans hs.queue, ?_, fun hst => ?_, fun hst => (hs.quiet hst).worker h, ?_⟩
  · rw [h.callers]
    exact hs.callers
  · exact (h.frame .old).2.trans (hs.sealed hst)
  · rw [hs.queue] at htakes
    rcases htakes with ⟨heq, ht⟩ | ⟨j, e, hfront, heq, ht⟩
    · exact ⟨taken, ht.trans htaken, by rw [heq]; exact hentries, hold⟩
    · refine ⟨taken ++ [(stage.guard, j, e)], ?_, ?_, fun hst x hx => ?_⟩
      · rw [ht, htaken, List.append_assoc]
      · rw [hentries, heq]
        simp
      · rcases List.mem_append.mp hx with hx | hx
        · exact hold hst x hx
        · rw [List.mem_singleton.mp hx]
          cases stage with
          | before => rfl
          | sealed => rfl
          | after => cases (hs.quiet rfl).idle j _ hfront
          | started => exact absurd rfl hst

theorem Swapping.spurious {q : Nat} {s₀ s t : State Side α} {stage : Stage} {p : Side} {i : Nat}
    (hs : Swapping q s₀ stage s) (h : s.stepSpurious p i = some t) : Swapping q s₀ stage t := by
  have hguarded := hs.guarded.spurious h
  have hwakes := Wakes.spurious h
  obtain ⟨_, rfl⟩ := spuriousStep h
  have hpool : ∀ r, ((s.setPlace p i .notified).pools r).task_queue = (s.pools r).task_queue ∧
      ((s.setPlace p i .notified).pools r).paused = (s.pools r).paused := by
    intro r
    by_cases hr : r = p
    · subst hr
      simp
    · simp [hr]
  exact ⟨hguarded, (hpool _).1.trans hs.queue, hs.callers,
    fun hst => (hpool _).2.trans (hs.sealed hst),
    fun hst => (hs.quiet hst).wakes hwakes ((hpool _).2.trans (hs.quiet hst).paused), hs.taken⟩

theorem Swapping.goOn {same : α → α → Bool} {limit q : Nat} {s₀ s t : State Side α}
    {stage stage' : Stage} {choice : Nat} {instr : Instr Side α} {rest : Program Side α}
    (hs : Swapping q s₀ stage s) (hc : s.callers = s₀.callers ++ [instr :: rest])
    (h : s.stepCaller same limit s₀.callers.length choice = some t)
    (hinstr : Respects stage.guard instr) (hpush : ∀ p e, instr ≠ .push p e)
    (hguard : stage'.guard = stage.guard)
    (hplan : ∀ prog, (prog = rest ∨ ∃ p, instr = .startIf p ∧ prog = startBlock p ++ rest) →
      Plan stage' prog)
    (hsealed : stage' = .sealed → (t.pools .old).paused = true)
    (hquiet : stage' = .after → stage = .after ∧ ∀ b, instr ≠ .setPaused .new b)
    (hstarted : stage' ≠ .started → stage ≠ .started) : Swapping q s₀ stage' t := by
  have hk : s.callers[s₀.callers.length]? = some (instr :: rest) := by simp [hc]
  have hstep := callerStep_at hk h
  have htransfer : ∀ p o, instr ≠ .transfer p o := by
    rintro p o rfl
    exact hinstr
  obtain ⟨⟨prog, hcallers, hprog⟩, htaken, hpaused⟩ := hstep.frame
  obtain ⟨hqueues, htask⟩ := hstep.queues hpush htransfer
  refine ⟨hguard ▸ hs.guarded.caller hk hinstr h, ?_, ⟨prog, ?_, hplan prog ?_⟩, hsealed, fun hst => ?_, ?_⟩
  · rw [hguard, htask]
    exact hs.queue
  · rw [hcallers, hc]
    simp
  · rcases hprog with heq | heq | ⟨p, e, heq, _⟩
    · exact Or.inl heq
    · exact Or.inr heq
    · exact absurd heq (hpush p e)
  · obtain ⟨rfl, hno⟩ := hquiet hst
    refine (hs.quiet rfl).wakes (Wakes.caller h) ?_
    rcases hpaused .new with heq | ⟨b, heq, _⟩
    · exact heq.trans (hs.quiet rfl).paused
    · exact absurd heq (hno b)
  · obtain ⟨taken, ht, hentries, hold⟩ := hs.taken
    refine ⟨taken, htaken.trans ht, ?_, fun hst => hold (hstarted hst)⟩
    rw [hentries]
    simp only [entries, hqueues]

theorem Swapping.transfer {q : Nat} {s₀ s : State Side α} {rest : Program Side α}
    (hs : Swapping q s₀ .sealed s) (hc : s.callers = s₀.callers ++ [.transfer .new .old :: rest])
    (hplan : Plan .after rest)
    (hl : ((s.setPool .new { s.pools .new with task_queue := (s.pools .old).task_queue }).goOn
      s₀.callers.length rest).Locked) :
    Swapping q s₀ .after ((s.setPool .new { s.pools .new with
      task_queue := (s.pools .old).task_queue }).goOn s₀.callers.length rest) := by
  have hk : s.callers[s₀.callers.length]? = some (.transfer .new .old :: rest) := by simp [hc]
  have hguarded := hs.guarded.transfer hk (by simp [Stage.guard]) (hs.sealed rfl) hl
  refine ⟨hguarded, ?_, ⟨rest, ?_, hplan⟩, fun hst => (by cases hst), fun _ => ⟨?_, ?_⟩, ?_⟩
  · simpa [Stage.guard] using hs.queue
  · simp [hc]
  · simpa using hs.guarded.paused .new (by simp [Stage.guard])
  · -- no worker of the new pool was dequeuing while the old pool had the queue
    intro i place hi
    by_contra hplace
    have hactive := hs.guarded.active .new i place (by simpa using hi) (by simpa using hplace)
    cases hactive
  · obtain ⟨taken, ht, hentries, hold⟩ := hs.taken
    exact ⟨taken, ht, hentries, fun _ => hold (by simp)⟩

theorem Swapping.caller {same : α → α → Bool} {limit q : Nat} {s₀ s t : State Side α}
    {stage : Stage} {k choice : Nat} (hs : Swapping q s₀ stage s)
    (hidle : ∀ prog ∈ s₀.callers, prog = []) (h : s.stepCaller same limit k choice = some t) :
    ∃ stage', Swapping q s₀ stage' t := by
  obtain ⟨prog, hc, hplan⟩ := hs.callers
  have hl := hs.guarded.locked.caller h
  obtain ⟨instr, rest, hk, hstep⟩ := callerStep h
  -- the other callers have finished
  obtain ⟨rfl, rfl⟩ : k = s₀.callers.length ∧ prog = instr :: rest := by
    rw [hc] at hk
    rcases Nat.lt_or_ge k s₀.callers.length with hlt | hge
    · rw [List.getElem?_append_left hlt] at hk
      cases hidle _ (List.mem_of_getElem? hk)
    · rw [List.getElem?_append_right hge] at hk
      obtain ⟨hlt, hprog⟩ := List.getElem?_eq_some_iff.mp hk
      have hzero : k - s₀.callers.length = 0 := by simpa using hlt
      refine ⟨by omega, ?_⟩
      simpa [hzero] using hprog
  -- an instruction that sets no pause and gives the queue to nobody keeps the stage
  have hrest : Plan stage rest → Respects stage.guard instr → (∀ p e, instr ≠ .push p e) →
      (∀ p, instr ≠ .startIf p) → (∀ p b, instr ≠ .setPaused p b) → ∃ stage', Swapping q s₀ stage' t := by
    intro hplan' hinstr hpush hstart hpaused
    refine ⟨stage, hs.goOn hc h hinstr hpush rfl ?_ (fun hst => ?_) (fun hst => ⟨hst, hpaused _⟩) id⟩
    · rintro prog (rfl | ⟨p, heq, _⟩)
      · exact hplan'
      · exact absurd heq (hstart p)
    · rcases hstep.frame.2.2 .old with heq | ⟨b, heq, _⟩
      · exact heq.trans (hs.sealed hst)
      · exact absurd heq (hpaused _ b)
  cases instr with
  | setPaused p b =>
    -- either the swap pauses the old pool, or the new pool is started and its pause lifted
    rcases hplan with ⟨rfl, rfl, rfl, hplan⟩ | ⟨rfl, rfl, hplan⟩
    · refine ⟨.sealed, hs.goOn hc h (Or.inl rfl) (by simp) rfl ?_ (fun _ => ?_)
        (fun hst => by cases hst) (fun _ => by simp)⟩
      · rintro prog (rfl | ⟨p, heq, _⟩)
        · exact hplan
        · cases heq
      · cases hstep with
        | idles hi => cases hi
        | writes hw =>
          cases hw
          simp
    · refine ⟨.started, hs.goOn hc h (Or.inl rfl) (by simp) rfl ?_ (fun hst => by cases hst)
        (fun hst => by cases hst) id⟩
      rintro prog (rfl | ⟨p, heq, _⟩)
      · exact hplan
      · cases heq
  | transfer p o =>
    obtain ⟨rfl, rfl, rfl, hplan⟩ := hplan
    cases hstep with
    | idles hi => cases hi
    | writes hw =>
      cases hw
      exact ⟨.after, hs.transfer hc hplan hl⟩
  | startIf p =>
    -- the old workers are joined: from here on the new pool's own steps begin
    obtain ⟨rfl, rfl, hplan⟩ := hplan
    refine ⟨.started, hs.goOn hc h rfl (by simp) rfl ?_ (fun hst => by cases hst)
      (fun hst => by cases hst) (fun hst => absurd rfl hst)⟩
    rintro prog (rfl | ⟨p, heq, rfl⟩)
    · exact hplan
    · cases heq
      exact plan_startBlock hplan
  | push p e => exact hplan.elim
  | setStopped p b | setWaitForCompletion p b | lock p | unlock p | notifyAll p | notifyOne p | join p =>
    exact hrest hplan trivial (by simp) (by simp) (by simp)

/-! The pool before the swap. -/

/-- A pool of `n` workers with a queue, and a new pool of `m` workers. -/
def fresh (n m : Nat) (es : List α) : State Side α where
  pools := fun
    | .old => Pool.fresh n 0
    | .new => Pool.fresh m 1
  queues := fun q => if q = 0 then es.map some else []
  callers := []
  taken := []

/-- Before the swap the clients reach the old pool. -/
def onOld : Call Side α → Bool
  | .start p | .stop p | .add_task p _ => p = .old

/-- The old pool serves its clients. -/
structure Serving (s : State Side α) : Prop where
  guarded : Guarded .old s
  callers : ∀ prog ∈ s.callers, ∀ instr ∈ prog, Respects Side.old instr

theorem respects_onOld {c : Call Side α} (hc : onOld c = true) :
    ∀ x ∈ c.program, Respects Side.old x := by
  cases c with
  | start p =>
    have hp : p = .old := by simpa [onOld] using hc
    simp [Call.program, Program.start, Respects, hp]
  | stop p => simp [Call.program, Program.stop, Respects]
  | add_task p e =>
    have hp : p = .old := by simpa [onOld] using hc
    simp [Call.program, Program.add_task, Respects, hp]

theorem Serving.step {same : α → α → Bool} {limit : Nat} {s t : State Side α} {e : Step Side α}
    (hs : Serving s) (h : (system same limit onOld).step s e = some t) : Serving t := by
  have hcallers : t.Obeys (Respects Side.old) :=
    Obeys.step (lasting_respects Side.old) (fun _ => respects_onOld) hs.callers h
  exact ⟨hs.guarded.step hs.callers h, hcallers⟩

theorem serving_fresh (n m : Nat) (es : List α) : Serving (fresh n m es) := by
  refine ⟨Guarded.fresh es (fun p => ?_) rfl rfl, fun prog hmem => by cases hmem⟩
  cases p with
  | old => exact ⟨n, 0, rfl⟩
  | new => exact ⟨m, 1, rfl⟩

/-- What holds in a state `s` of a swap from `s₀`, whose caller has `prog` left. -/
structure SafeSwap (s₀ s : State Side α) (prog : Program Side α) : Prop where
  /-- Once the queue is given away, no worker of the old pool is dequeuing. -/
  handed : (∀ p o, Instr.transfer p o ∉ prog) → ∀ (i : Nat) (place : Place α),
    (s.pools .old).workers[i]? = some place → place.active = false
  /-- `front` finds an entry, -/
  front : ∀ (p : Side) (i : Nat), (s.pools p).workers[i]? = some .front →
    ∃ e rest, s.slots p = some e :: rest
  /-- and `pop` erases the entry that was moved out. -/
  pop : ∀ (p : Side) (i : Nat) (e : α), (s.pools p).workers[i]? = some (.pop e) →
    ∃ rest, s.slots p = none :: rest
  /-- Each entry was taken once, from the front, or is still queued. -/
  once : ∃ taken, s.taken = s₀.taken ++ taken ∧
    s₀.entries (s₀.pools .old).task_queue =
      taken.map (fun x => x.2.2) ++ s.entries (s₀.pools .old).task_queue
  /-- When the new pool is about to start, it has what the old workers left. -/
  kept : prog = start .new → (s.pools .new).task_queue = (s₀.pools .old).task_queue ∧
    ∃ taken, s.taken = s₀.taken ++ taken ∧ (∀ x ∈ taken, x.1 = Side.old) ∧
      s₀.entries (s₀.pools .old).task_queue =
        taken.map (fun x => x.2.2) ++ s.entries (s.pools .new).task_queue

theorem Swapping.safe {s₀ s : State Side α} {stage : Stage} {prog : Program Side α}
    (hs : Swapping (s₀.pools .old).task_queue s₀ stage s) (hc : s.callers = s₀.callers ++ [prog])
    (hplan : Plan stage prog) : SafeSwap s₀ s prog where
  handed := by
    intro hprog i place hi
    by_contra hplace
    have hold := hs.guarded.active .old i place hi (by simpa using hplace)
    rw [hplan.guard_new hprog] at hold
    cases hold
  front := by
    intro p i hi
    have hp := hs.guarded.active p i _ hi rfl
    subst hp
    obtain ⟨e, es, hes⟩ := hs.guarded.front i hi
    exact ⟨e, es.map some, hes⟩
  pop := by
    intro p i e hi
    have hp := hs.guarded.active p i _ hi rfl
    subst hp
    obtain ⟨es, hes⟩ := hs.guarded.pop i e hi
    exact ⟨es.map some, hes⟩
  once := by
    obtain ⟨taken, ht, hentries, _⟩ := hs.taken
    exact ⟨taken, ht, hentries⟩
  kept := by
    rintro rfl
    obtain ⟨hstage, _, _⟩ := hplan
    subst hstage
    obtain ⟨taken, ht, hentries, hold⟩ := hs.taken
    refine ⟨hs.queue, taken, ht, hold (by simp), ?_⟩
    rw [show (s.pools .new).task_queue = _ from hs.queue]
    exact hentries

/-- A swap is safe, from every state the old pool can be in when nobody is using it,
and in every interleaving of the workers of the two pools. -/
theorem swap_safe {same : α → α → Bool} {limit n m : Nat} {es : List α}
    {before during : List (Step Side α)} {s₀ s : State Side α}
    (h₀ : (system same limit onOld).run (fresh n m es) before = some s₀)
    (hidle : ∀ prog ∈ s₀.callers, prog = [])
    (h : (system same limit (fun _ => false)).run (s₀.arrive (setNewThreadPool .new .old)) during =
      some s) :
    ∃ prog, s.callers = s₀.callers ++ [prog] ∧ SafeSwap s₀ s prog := by
  have hserving : Serving s₀ :=
    Transition.System.run_inv (fun s e t hs => hs.step) h₀ (serving_fresh n m es)
  let I : State Side α → Prop := fun s =>
    ∃ stage, Swapping (s₀.pools .old).task_queue s₀ stage s
  have hstart : I (s₀.arrive (setNewThreadPool .new .old)) := by
    refine ⟨.before, ?_, rfl, ⟨_, rfl, plan_setNewThreadPool⟩, fun hst => (by cases hst),
      fun hst => (by cases hst), ⟨[], by simp, rfl, by simp⟩⟩
    exact hserving.guarded.arrive (free_setNewThreadPool (by simp)) (balanced_setNewThreadPool (by simp))
  have hstep : ∀ s e t, I s → (system same limit (fun _ => false)).step s e = some t → I t := by
    rintro s e t ⟨stage, hs⟩ h
    cases e with
    | worker p i => exact ⟨stage, hs.worker (workerStep h)⟩
    | spurious p i => exact ⟨stage, hs.spurious h⟩
    | caller k choice => exact hs.caller hidle h
    | call c => cases h
  -- the stage moves along with the caller's program; its end is what is left of it
  obtain ⟨stage, hs⟩ := Transition.System.run_inv hstep h hstart
  obtain ⟨prog, hc, hplan⟩ := hs.callers
  exact ⟨prog, hc, hs.safe hc hplan⟩

/-- The old pool is started, and its worker is allowed to dequeue. -/
def serving : Option (State Side Nat) :=
  (system (fun _ _ => false) 4 onOld).run (fresh 1 1 [7, 8])
    ([.call (.start .old)] ++ List.replicate 5 (.caller 0 0) ++ List.replicate 4 (.worker .old 0))

/-- The swap begins, the worker takes its entry, and the queue is given away. -/
def swapped (s₀ : State Side Nat) : Option (State Side Nat) :=
  (system (fun _ _ => false) 4 (fun _ => false)).run (s₀.arrive (setNewThreadPool .new .old))
    (List.replicate 2 (.caller 1 0) ++ List.replicate 3 (.worker .old 0) ++
      List.replicate 5 (.caller 1 0))

theorem swap_safe_serving : ∃ s₀ s prog, serving = some s₀ ∧ swapped s₀ = some s ∧
    s.taken = [(.old, 0, 7)] ∧ s.slots .new = [some 8] ∧ s.callers = s₀.callers ++ [prog] ∧
    SafeSwap s₀ s prog := by
  have hsome : (serving.bind swapped).isSome = true := by decide +kernel
  obtain ⟨s, hs⟩ := Option.isSome_iff_exists.mp hsome
  obtain ⟨s₀, hs₀, hs'⟩ := Option.bind_eq_some_iff.mp hs
  have hcallers : serving.map (fun s => s.callers) = some [[]] := by decide +kernel
  have htaken : (serving.bind swapped).map (fun s => s.taken) = some [(.old, 0, 7)] := by
    decide +kernel
  have hslots : (serving.bind swapped).map (fun s => s.slots .new) = some [some 8] := by
    decide +kernel
  rw [hs₀, Option.map_some, Option.some_inj] at hcallers
  rw [hs, Option.map_some, Option.some_inj] at htaken hslots
  have hidle : ∀ prog ∈ s₀.callers, prog = [] := by
    rw [hcallers]
    simp
  obtain ⟨prog, hc, hsafe⟩ := swap_safe hs₀ hidle hs'
  exact ⟨s₀, s, prog, hs₀, hs', htaken, hslots, hc, hsafe⟩

end PoolSwap

end ProteiCov.Threads
