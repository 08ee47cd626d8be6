import ProteiCov.PoolThreads

/-
  The mutexes of the pools

  A worker holds its pool's mutex by the place it stands at, a caller by the
  program it has left: it holds a mutex if it is going to release it before it
  takes it. `Locked` says that this agrees with the mutexes, and every step of
  every thread keeps it; so at most one thread is in a critical section of a pool.
-/

namespace ProteiCov.Threads

namespace Program
variable {π α : Type} [DecidableEq π]

/-- A caller with this program left holds the mutex of `p`. -/
def owns (p : π) : Program π α → Bool
  | [] => false
  | .lock q :: rest => if q = p then false else owns p rest
  | .unlock q :: rest => if q = p then true else owns p rest
  | _ :: rest => owns p rest

/-- A mutex is taken to be released and released where it was taken, and queues
are changed under it. -/
def Balanced : Program π α → Prop
  | [] => True
  | .lock p :: rest => owns p rest = true ∧ Balanced rest
  | .unlock p :: rest => owns p rest = false ∧ Balanced rest
  | .push p _ :: rest => owns p rest = true ∧ Balanced rest
  | .transfer p old :: rest => owns p rest = true ∧ owns old rest = true ∧ Balanced rest
  | _ :: rest => Balanced rest

theorem owns_startBlock (p q : π) (rest : Program π α) :
    owns q (startBlock p ++ rest) = owns q rest := rfl

theorem balanced_startBlock {p : π} {rest : Program π α} (h : Balanced rest) :
    Balanced (startBlock p ++ rest) := h

theorem balanced_add_task (p : π) (e : α) : Balanced (add_task p e) := by
  simp [add_task, Balanced, owns]

/-- A program that is called holds nothing. -/
def Free (prog : Program π α) : Prop := ∀ p, owns p prog = false

theorem free_add_task (p : π) (e : α) : Free (add_task p e) := by
  intro q
  by_cases h : p = q <;> simp [add_task, owns, h]

/-- A call brings no mutex with it, -/
theorem free_program (c : Call π α) : Free c.program := by
  cases c with
  | start p => exact fun _ => rfl
  | stop p => exact fun _ => rfl
  | add_task p e => exact free_add_task p e

/-- and gives back the one it takes. -/
theorem balanced_program (c : Call π α) : Balanced c.program := by
  cases c with
  | start p => exact trivial
  | stop p => exact trivial
  | add_task p e => exact balanced_add_task p e

theorem free_setNewThreadPool {p old : π} (h : p ≠ old) :
    Free (setNewThreadPool p old : Program π α) := by
  intro q
  by_cases h1 : old = q <;> by_cases h2 : p = q <;>
    simp [setNewThreadPool, stop, transferObjects, destroy, start, owns, h, h1, h2]

theorem balanced_setNewThreadPool {p old : π} (h : p ≠ old) :
    Balanced (setNewThreadPool p old : Program π α) := by
  simp [setNewThreadPool, stop, transferObjects, destroy, start, Balanced, owns, h, Ne.symm h]

end Program

namespace State
variable {π α : Type} [DecidableEq π]

/-- The thread stands in a critical section of `p`. -/
def Holds (s : State π α) : Owner → π → Prop
  | .worker i, p => ∃ place, (s.pools p).workers[i]? = some place ∧ place.holds = true
  | .caller k, p => ∃ prog, s.callers[k]? = some prog ∧ prog.owns p = true

theorem holds_congr {s t : State π α} (hw : ∀ p, (t.pools p).workers = (s.pools p).workers)
    (hc : t.callers = s.callers) (o : Owner) (p : π) : t.Holds o p ↔ s.Holds o p := by
  cases o with
  | worker i => simp only [Holds, hw]
  | caller k => simp only [Holds, hc]

theorem holds_setPool {s : State π α} {p : π} {k : Pool α} (h : k.workers = (s.pools p).workers)
    (o : Owner) (q : π) : (s.setPool p k).Holds o q ↔ s.Holds o q := by
  refine holds_congr (s := s) (t := s.setPool p k) (fun r => ?_) rfl o q
  by_cases hr : r = p
  · subst hr
    simpa using h
  · simp [hr]

theorem holds_setMutex (s : State π α) (p : π) (m : Option Owner) (o : Owner) (q : π) :
    (s.setMutex p m).Holds o q ↔ s.Holds o q :=
  holds_setPool (k := { s.pools p with mutex := m }) rfl o q

theorem mutex_setMutex (s : State π α) (p : π) (m : Option Owner) :
    (fun q => ((s.setMutex p m).pools q).mutex) =
      Function.update (fun q => (s.pools q).mutex) p m := by
  funext q
  by_cases hq : q = p
  · subst hq
    simp
  · simp [hq]

theorem holds_setPlace {s : State π α} {p : π} {i : Nat} {place : Place α} (place' : Place α)
    (h : (s.pools p).workers[i]? = some place) (o : Owner) (q : π) :
    (s.setPlace p i place').Holds o q ↔
      if o = .worker i ∧ q = p then place'.holds = true else s.Holds o q := by
  obtain ⟨hlt, _⟩ := List.getElem?_eq_some_iff.mp h
  cases o with
  | caller k => simp [Holds]
  | worker j =>
    by_cases hq : q = p
    · subst hq
      by_cases hj : j = i
      · subst hj
        simp [Holds, List.getElem?_set_self hlt]
      · simp [Holds, hj, List.getElem?_set_ne (Ne.symm hj)]
    · simp [Holds, hq]

theorem holds_goOn {s : State π α} {k : Nat} {prog : Program π α} (prog' : Program π α)
    (h : s.callers[k]? = some prog) (o : Owner) (q : π) :
    (s.goOn k prog').Holds o q ↔
      if o = .caller k then prog'.owns q = true else s.Holds o q := by
  obtain ⟨hlt, _⟩ := List.getElem?_eq_some_iff.mp h
  cases o with
  | worker i => simp [Holds]
  | caller j =>
    by_cases hj : j = k
    · subst hj
      simp [Holds, List.getElem?_set_self hlt]
    · simp [Holds, hj, List.getElem?_set_ne (Ne.symm hj)]

theorem Place.holds_wake (place : Place α) : place.wake.holds = place.holds := by
  cases place <;> rfl

theorem holds_wakeAll (s : State π α) (p : π) (o : Owner) (q : π) :
    (s.wakeAll p).Holds o q ↔ s.Holds o q := by
  cases o with
  | caller k => simp [Holds]
  | worker i =>
    by_cases hq : q = p
    · subst hq
      simp [Holds, Place.holds_wake]
    · simp [Holds, hq]

/-- Every mutex is held by the thread that stands in its critical section. -/
structure Locked (s : State π α) : Prop where
  mutex : Mutex.Disciplined (fun p => (s.pools p).mutex) s.Holds
  balanced : ∀ (k : Nat) (prog : Program π α), s.callers[k]? = some prog → prog.Balanced

omit [DecidableEq π] in
theorem Stays.holds {s : State π α} {p : π} {place place' : Place α} (h : Stays s p place place') :
    place'.holds = place.holds := by
  cases h <;> rfl

omit [DecidableEq π] in
theorem Releases.holds {s : State π α} {p : π} {place place' : Place α}
    (h : Releases s p place place') : place.holds = true ∧ place'.holds = false := by
  cases h <;> exact ⟨rfl, rfl⟩

theorem Locked.setPlace {s t : State π α} {p : π} {i : Nat} {place : Place α} (hs : s.Locked)
    (hi : (s.pools p).workers[i]? = some place) (place' : Place α) (h : place'.holds = place.holds)
    (hm : ∀ q, (t.pools q).mutex = (s.pools q).mutex)
    (hw : ∀ q, (t.pools q).workers = ((s.setPlace p i place').pools q).workers)
    (hc : t.callers = s.callers) : t.Locked := by
  refine ⟨hs.mutex.stay (funext hm) (fun o q => ?_), by rw [hc]; exact hs.balanced⟩
  rw [holds_congr (s := s.setPlace p i place') hw hc, holds_setPlace place' hi]
  split
  · rename_i heq
    rw [heq.1, heq.2, h]
    simp [Holds, hi]
  · exact Iff.rfl

/-- Every step of a worker keeps the mutexes in agreement. -/
theorem Locked.worker {s t : State π α} {p : π} {i : Nat} (hs : s.Locked)
    (h : WorkerStep s p i t) : t.Locked := by
  have hmutex : ∀ (u : State π α) place' q, ((u.setPlace p i place').pools q).mutex =
      (u.pools q).mutex := by
    intro u place' q
    by_cases hq : q = p
    · subst hq
      simp
    · simp [hq]
  cases h with
  | @stays place place' hi h => exact hs.setPlace hi place' h.holds (hmutex s _) (fun _ => rfl) rfl
  | @acquires place hi h hfree =>
    have hplace : place.holds = false := by rcases h with rfl | rfl <;> rfl
    have hi' : ((s.setMutex p (some (.worker i))).pools p).workers[i]? = some place := by
      simpa using hi
    have hown := (funext (hmutex (s.setMutex p (some (.worker i))) .wait)).trans
      (mutex_setMutex s p (some (.worker i)))
    refine ⟨hs.mutex.acquire (i := .worker i) hfree hown (fun o q => ?_), hs.balanced⟩
    rw [holds_setPlace _ hi', holds_setMutex]
    by_cases heq : o = .worker i ∧ q = p
    · simp [heq, Place.holds]
    · rw [if_neg heq]
      exact ⟨Or.inl, fun h => h.resolve_right heq⟩
  | @releases place place' hi h =>
    have hi' : ((s.setMutex p none).pools p).workers[i]? = some place := by simpa using hi
    have hown := (funext (hmutex (s.setMutex p none) place')).trans (mutex_setMutex s p none)
    refine ⟨hs.mutex.release (i := .worker i) (k := p) ⟨place, hi, h.holds.1⟩ hown (fun o q => ?_),
      hs.balanced⟩
    rw [holds_setPlace _ hi', holds_setMutex]
    by_cases heq : o = .worker i ∧ q = p
    · simp [heq, h.holds.2]
    · simp [heq]
  | @front e rest hi h => exact hs.setPlace hi (.pop e) rfl (hmutex _ _) (fun _ => rfl) rfl
  | @pop e x rest hi h => exact hs.setPlace hi (.unlock e) rfl (hmutex _ _) (fun _ => rfl) rfl

theorem Locked.balanced_goOn {s u : State π α} {k : Nat} {prog : Program π α} (hs : s.Locked)
    (hc : u.callers = s.callers) (hbal : prog.Balanced) (j : Nat) (p : Program π α)
    (hj : (u.goOn k prog).callers[j]? = some p) : p.Balanced := by
  rcases List.mem_or_eq_of_mem_set (List.mem_of_getElem? hj) with hmem | rfl
  · rw [hc] at hmem
    obtain ⟨i, hi⟩ := List.mem_iff_getElem?.mp hmem
    exact hs.balanced i p hi
  · exact hbal

theorem Locked.goOn {s u : State π α} {k : Nat} {prog prog' : Program π α} (hs : s.Locked)
    (hk : s.callers[k]? = some prog) (hm : ∀ q, (u.pools q).mutex = (s.pools q).mutex)
    (hh : ∀ o q, u.Holds o q ↔ s.Holds o q) (hc : u.callers = s.callers)
    (howns : ∀ q, prog'.owns q = prog.owns q) (hbal : prog'.Balanced) : (u.goOn k prog').Locked := by
  have hk' : u.callers[k]? = some prog := by rw [hc, hk]
  refine ⟨hs.mutex.stay (funext hm) (fun o q => ?_), hs.balanced_goOn hc hbal⟩
  rw [holds_goOn prog' hk', hh]
  split
  · rename_i heq
    rw [heq, howns]
    simp [Holds, hk]
  · exact Iff.rfl

theorem Idles.owns {same : α → α → Bool} {limit : Nat} {s : State π α} {instr : Instr π α}
    (h : Idles same limit s instr) (rest : Program π α) (q : π) :
    Program.owns q rest = Program.owns q (instr :: rest) := by
  cases h <;> rfl

theorem Idles.balanced {same : α → α → Bool} {limit : Nat} {s : State π α} {instr : Instr π α}
    (h : Idles same limit s instr) {rest : Program π α} (hbal : Program.Balanced (instr :: rest)) :
    Program.Balanced rest := by
  cases h with
  | started _ | nobody _ | joined _ => exact hbal
  | refused _ => exact hbal.2

theorem Writes.owns {s : State π α} {instr : Instr π α} {p : π} {x : Pool α}
    (h : Writes s instr p x) (rest : Program π α) (q : π) :
    Program.owns q rest = Program.owns q (instr :: rest) := by
  cases h <;> rfl

theorem Writes.balanced {s : State π α} {instr : Instr π α} {p : π} {x : Pool α}
    (h : Writes s instr p x) {rest : Program π α} (hbal : Program.Balanced (instr :: rest)) :
    Program.Balanced rest := by
  cases h with
  | stopped _ | paused _ | waitForCompletion _ => exact hbal
  | task_queue _ => exact hbal.2.2

theorem Locked.lock {s : State π α} {p : π} {k : Nat} {rest : Program π α} (hs : s.Locked)
    (hk : s.callers[k]? = some (.lock p :: rest)) (hfree : (s.pools p).mutex = none) :
    ((s.setMutex p (some (.caller k))).goOn k rest).Locked := by
  have hbal := hs.balanced k _ hk
  refine ⟨hs.mutex.acquire (i := .caller k) hfree (mutex_setMutex s p _) (fun o q => ?_),
    hs.balanced_goOn rfl hbal.2⟩
  rw [holds_goOn (s := s.setMutex p _) rest hk, holds_setMutex]
  -- being balanced, the caller owns `p` from here on, and nothing else new
  by_cases ho : o = .caller k
  · subst ho
    by_cases hq : p = q
    · subst hq
      simp [hbal.1]
    · simp [Holds, hk, Program.owns, hq, Ne.symm hq]
  · simp [ho]

theorem Locked.unlock {s : State π α} {p : π} {k : Nat} {rest : Program π α} (hs : s.Locked)
    (hk : s.callers[k]? = some (.unlock p :: rest)) : ((s.setMutex p none).goOn k rest).Locked := by
  have hbal := hs.balanced k _ hk
  have hown : s.Holds (.caller k) p := ⟨_, hk, by simp [Program.owns]⟩
  refine ⟨hs.mutex.release hown (mutex_setMutex s p none) (fun o q => ?_),
    hs.balanced_goOn rfl hbal.2⟩
  rw [holds_goOn (s := s.setMutex p _) rest hk, holds_setMutex]
  by_cases ho : o = .caller k
  · subst ho
    by_cases hq : p = q
    · subst hq
      simp [hbal.1]
    · simp [Holds, hk, Program.owns, hq, Ne.symm hq]
  · simp [ho]

/-- Every step of a caller keeps the mutexes in agreement. -/
theorem Locked.caller {same : α → α → Bool} {limit : Nat} {s t : State π α} {k choice : Nat}
    (hs : s.Locked) (h : s.stepCaller same limit k choice = some t) : t.Locked := by
  obtain ⟨instr, rest, hk, hstep⟩ := callerStep h
  have hbal := hs.balanced k _ hk
  have hmutex : ∀ p (x : Pool α), x.mutex = (s.pools p).mutex →
      ∀ q, ((s.setPool p x).pools q).mutex = (s.pools q).mutex := by
    intro p x hx q
    by_cases hq : q = p
    · subst hq
      simpa using hx
    · simp [hq]
  cases hstep with
  | idles hi => exact hs.goOn hk (fun _ => rfl) (fun _ _ => Iff.rfl) rfl (hi.owns rest) (hi.balanced hbal)
  | @starts p _ =>
    exact hs.goOn hk (fun _ => rfl) (fun _ _ => Iff.rfl) rfl
      (fun q => Program.owns_startBlock p q rest) (Program.balanced_startBlock hbal)
  | @writes instr p x hw =>
    exact hs.goOn hk (hmutex p x hw.frame.2) (fun o q => holds_setPool hw.frame.1 o q) rfl
      (hw.owns rest) (hw.balanced hbal)
  | locks hfree => exact hs.lock hk hfree
  | unlocks => exact hs.unlock hk
  | @wakesAll p =>
    exact hs.goOn hk (hmutex p _ rfl) (fun o q => holds_wakeAll s p o q) rfl (fun _ => rfl) hbal
  | @wakes p hi =>
    -- the notified worker held nothing and holds nothing
    have hl : (s.setPlace p choice .notified).Locked :=
      hs.setPlace hi .notified rfl (hmutex p _ rfl) (fun _ => rfl) rfl
    exact hl.goOn hk (fun _ => rfl) (fun _ _ => Iff.rfl) rfl (fun _ => rfl) hbal
  | pushes _ => exact hs.goOn hk (fun _ => rfl) (fun _ _ => Iff.rfl) rfl (fun _ => rfl) hbal.2

theorem Locked.spurious {s t : State π α} {p : π} {i : Nat} (hs : s.Locked)
    (h : s.stepSpurious p i = some t) : t.Locked := by
  obtain ⟨hblocked, rfl⟩ := spuriousStep h
  refine hs.setPlace hblocked .notified rfl (fun q => ?_) (fun _ => rfl) rfl
  by_cases hq : q = p
  · subst hq
    simp
  · simp [hq]

theorem Locked.arrive {s : State π α} {prog : Program π α} (hs : s.Locked) (hfree : prog.Free)
    (hbal : prog.Balanced) : (s.arrive prog).Locked := by
  refine ⟨hs.mutex.stay rfl (fun o q => ?_), fun k prog' hk => ?_⟩
  · cases o with
    | worker i => exact Iff.rfl
    | caller k =>
      constructor
      · rintro ⟨prog', hk, howns⟩
        by_cases hlt : k < s.callers.length
        · exact ⟨prog', List.getElem?_append_left hlt ▸ hk, howns⟩
        · have hnew : [prog][k - s.callers.length]? = some prog' :=
            (List.getElem?_append_right (by omega)).symm.trans hk
          rw [List.mem_singleton.mp (List.mem_of_getElem? hnew), hfree q] at howns
          cases howns
      · rintro ⟨prog', hk, howns⟩
        have hlt : k < s.callers.length := (List.getElem?_eq_some_iff.mp hk).1
        exact ⟨prog', (List.getElem?_append_left hlt).trans hk, howns⟩
  · rcases List.mem_append.mp (List.mem_of_getElem? hk) with hmem | hmem
    · obtain ⟨i, hi⟩ := List.mem_iff_getElem?.mp hmem
      exact hs.balanced i prog' hi
    · rw [List.mem_singleton.mp hmem]
      exact hbal

theorem Locked.fresh {s : State π α} (hpools : ∀ p, ∃ size queue, s.pools p = Pool.fresh size queue)
    (hcallers : ∀ prog ∈ s.callers, prog.Free ∧ prog.Balanced) : s.Locked := by
  refine ⟨fun o p => ?_, fun k prog hk => (hcallers prog (List.mem_of_getElem? hk)).2⟩
  obtain ⟨size, queue, hp⟩ := hpools p
  constructor
  · intro h
    cases o with
    | worker i =>
      obtain ⟨place, hi, hplace⟩ := h
      rw [hp] at hi
      rw [List.eq_of_mem_replicate (List.mem_of_getElem? hi)] at hplace
      cases hplace
    | caller k =>
      obtain ⟨prog, hk, howns⟩ := h
      rw [(hcallers prog (List.mem_of_getElem? hk)).1 p] at howns
      cases howns
  · intro h
    have hfree : (s.pools p).mutex = some o := h
    rw [hp] at hfree
    cases hfree

end State

end ProteiCov.Threads
