import ProteiCov.PoolLocks

/-
  Wake-ups

  One pool, one caller of `start`, and callers of `add_task`. The flag `paused`
  the waiting workers test is cleared by `start` outside the mutex, so a worker can
  stand between its test and its wait when `notify_all` comes: it holds the mutex,
  and misses the notification.

  What is proved:
    1. `served_of_along` — if in no step of a run the notification of `start` finds
       a non-empty queue and every worker between test and wait, then a non-empty
       queue always has an awake worker.
    2. `heard_of_two` — with two workers or more every run is such a run: only one
       worker can hold the mutex.
    3. `asleep_not_served` — with one worker the notification is lost.
-/

namespace ProteiCov.Threads

/-- The worker runs a task, is notified, or is about to evaluate the predicate. -/
def Place.awake {α : Type} : Place α → Bool
  | block | blocked | left => false
  | _ => true

/-- The places of a worker that never leaves its loop. -/
def Place.loops {α : Type} : Place α → Bool
  | draining | left => false
  | _ => true

namespace WakeUps
variable {α : Type}

open State Program

/-- A fresh pool of `n` workers with a queue to serve, and a caller of `start`. -/
def fresh (n : Nat) (es : List α) : State Unit α where
  pools := fun _ => Pool.fresh n 0
  queues := fun _ => es.map some
  callers := [start ()]
  taken := []

/-- Only further calls of `add_task` arrive. -/
def adds : Call Unit α → Bool
  | .add_task _ _ => true
  | _ => false

/-- A worker is awake, unless there is nothing to do or a call is in progress. -/
def Served (s : State Unit α) : Prop :=
  (∀ prog ∈ s.callers, prog = []) → s.slots () ≠ [] →
    ∃ place ∈ (s.pools ()).workers, place.awake = true

/-- The notification of `start` does not come while the queue has entries and every
worker stands between its test and its wait. -/
def Heard (s : State Unit α) : Step Unit α → Prop
  | .caller k _ => ∀ rest, s.callers[k]? = some (.notifyAll () :: rest) →
      s.slots () = [] ∨ ∃ place ∈ (s.pools ()).workers, place ≠ .block
  | _ => True

/-! The programs under way. -/

/-- What the caller of `start` has left; `paused` as it stands, and whether the
workers have been notified. -/
inductive Starting : Program Unit α → Bool → Bool → Prop
  | call : Starting (start ()) true false
  | opened : Starting (startBlock ()) true false
  | setPaused : Starting [.setPaused () false, .setWaitForCompletion () false, .notifyAll ()] true false
  | setWait : Starting [.setWaitForCompletion () false, .notifyAll ()] false false
  | notify : Starting [.notifyAll ()] false false
  | done : Starting [] false true

/-- What a caller of `add_task` has left. -/
inductive Adding : Program Unit α → Prop
  | call (e : α) : Adding (add_task () e)
  | push (e : α) : Adding [.push () e, .unlock ()]
  | notify : Adding [.notifyOne (), .unlock ()]
  | unlock : Adding [.unlock ()]
  | done : Adding []

/-- Someone will see to the queue: a worker that is awake, or a caller about to
notify one. -/
def Attended (s : State Unit α) : Prop :=
  s.slots () ≠ [] → (∃ place ∈ (s.pools ()).workers, place.awake = true) ∨
    ∃ (k : Nat) (rest : Program Unit α), s.callers[k]? = some (.notifyOne () :: rest)

structure Waking (s : State Unit α) : Prop where
  locked : s.Locked
  stopped : (s.pools ()).stopped = false
  waitForCompletion : (s.pools ()).waitForCompletion = false
  staffed : (s.pools ()).workers ≠ []
  loops : ∀ place ∈ (s.pools ()).workers, place.loops = true
  starting : ∃ prog told, s.callers[0]? = some prog ∧ Starting prog (s.pools ()).paused told ∧
    (told = true → Attended s)
  adding : ∀ k prog, 0 < k → s.callers[k]? = some prog → Adding prog

/-! The steps of the workers. -/

theorem Attended.of_awake {s : State Unit α} (i : Nat) (place : Place α)
    (hi : (s.pools ()).workers[i]? = some place) (h : place.awake = true) : Attended s :=
  fun _ => Or.inl ⟨place, List.mem_of_getElem? hi, h⟩

/-- A worker changes its place: what it needs to keep is the attendance. -/
theorem Waking.setPlace {s t : State Unit α} (hs : Waking s) (i : Nat) (place : Place α)
    (hl : t.Locked)
    (hw : (t.pools ()).workers = (s.pools ()).workers.set i place)
    (hst : (t.pools ()).stopped = (s.pools ()).stopped)
    (hwc : (t.pools ()).waitForCompletion = (s.pools ()).waitForCompletion)
    (hp : (t.pools ()).paused = (s.pools ()).paused) (hc : t.callers = s.callers)
    (hloops : place.loops = true)
    (hatt : (s.pools ()).paused = false → Attended s → Attended t) : Waking t where
  locked := hl
  stopped := hst.trans hs.stopped
  waitForCompletion := hwc.trans hs.waitForCompletion
  staffed := by
    rw [hw]
    intro hnil
    exact hs.staffed (List.length_eq_zero_iff.mp (by simpa using congrArg List.length hnil))
  loops := by
    intro place' hmem
    rw [hw] at hmem
    rcases List.mem_or_eq_of_mem_set hmem with hmem | rfl
    · exact hs.loops place' hmem
    · exact hloops
  starting := by
    obtain ⟨prog, told, h0, hstart, htold⟩ := hs.starting
    refine ⟨prog, told, by rw [hc, h0], by rw [hp]; exact hstart, fun ht => ?_⟩
    refine hatt ?_ (htold ht)
    subst ht
    generalize (s.pools ()).paused = b at hstart
    cases hstart
    rfl
  adding := by
    rw [hc]
    exact hs.adding

theorem getElem?_set_place {ws : List (Place α)} {i : Nat} {place : Place α} (h : i < ws.length) :
    (ws.set i place)[i]? = some place := by
  rw [List.getElem?_set_self h]

theorem Waking.worker {s t : State Unit α} {i : Nat} (hs : Waking s)
    (h : WorkerStep s () i t) : Waking t := by
  have hl := hs.locked.worker h
  have hlt : ∀ {place : Place α}, (s.pools ()).workers[i]? = some place →
      i < (s.pools ()).workers.length := fun hi => (List.getElem?_eq_some_iff.mp hi).1
  cases h with
  | @stays place place' hi h =>
    have hat := hs.loops place (List.mem_of_getElem? hi)
    have hstep : place'.loops = true →
        ((s.pools ()).paused = false → Attended s → Attended (s.setPlace () i place')) →
        Waking (s.setPlace () i place') :=
      hs.setPlace i place' hl (by simp) (by simp) (by simp) (by simp) rfl
    have hawake : place'.awake = true → Attended (s.setPlace () i place') :=
      Attended.of_awake i place' (by simpa using getElem?_set_place (hlt hi))
    cases h with
    -- nobody stopped the pool or asked it to drain, so no worker leaves
    | quit hstop =>
      rw [hs.stopped] at hstop
      cases hstop
    | drain hw =>
      rw [hs.waitForCompletion] at hw
      cases hw
    | more h => cases hat
    | leave h => cases hat
    | wait hno =>
      refine hstep rfl ?_
      intro hp _ hslots
      have hslots' : s.slots () ≠ [] := by simpa [slots] using hslots
      -- not paused, so the test was false because the queue is empty
      simp [run_allowed, hp, hs.stopped, hslots'] at hno
    | enter _ | pass _ | take _ | served _ | again _ => exact hstep rfl (fun _ _ => hawake rfl)
  | @acquires place hi h hfree =>
    refine hs.setPlace i .wait hl (by simp) (by simp) (by simp) (by simp) rfl rfl
      (fun _ _ => Attended.of_awake i .wait ?_ rfl)
    simpa using getElem?_set_place (hlt hi)
  | @releases place place' hi h =>
    have hstep : place'.loops = true → ((s.pools ()).paused = false → Attended s →
        Attended ((s.setMutex () none).setPlace () i place')) →
        Waking ((s.setMutex () none).setPlace () i place') :=
      hs.setPlace i place' hl (by simp) (by simp) (by simp) (by simp) rfl
    have hawake : place'.awake = true → Attended ((s.setMutex () none).setPlace () i place') :=
      Attended.of_awake i place' (by simpa using getElem?_set_place (hlt hi))
    cases h with
    | block =>
      refine hstep rfl ?_
      intro _ hatt hslots
      rcases hatt (by simpa [slots] using hslots) with ⟨place, hmem, hplace⟩ | hnotify
      · -- the awake worker is another one
        obtain ⟨j, hj⟩ := List.mem_iff_getElem?.mp hmem
        have hne : i ≠ j := by
          rintro rfl
          rw [hi] at hj
          cases hj
          cases hplace
        refine Or.inl ⟨place, List.mem_of_getElem? (i := j) ?_, hplace⟩
        simpa [List.getElem?_set_ne hne] using hj
      · exact Or.inr hnotify
    | refuse _ | serve _ => exact hstep rfl (fun _ _ => hawake rfl)
  | @front e rest hi h =>
    refine hs.setPlace i (.pop e) hl (by simp) (by simp) (by simp) (by simp) rfl rfl
      (fun _ _ => Attended.of_awake i (.pop e) ?_ rfl)
    simpa using getElem?_set_place (hlt hi)
  | @pop e x rest hi h =>
    refine hs.setPlace i (.unlock e) hl (by simp) (by simp) (by simp) (by simp) rfl
      rfl (fun _ _ => Attended.of_awake i (.unlock e) ?_ rfl)
    simpa using getElem?_set_place (hlt hi)

/-! The steps of the callers. -/

theorem Waking.served {s : State Unit α} (hs : Waking s) : Served s := by
  intro hdone hslots
  obtain ⟨prog, told, h0, hstart, htold⟩ := hs.starting
  have hprog : prog = [] := hdone prog (List.mem_of_getElem? h0)
  subst hprog
  generalize (s.pools ()).paused = b at hstart
  cases hstart
  rcases htold rfl hslots with hawake | ⟨k, rest, hk⟩
  · exact hawake
  · cases hdone _ (List.mem_of_getElem? hk)

theorem Waking.goOn_start {s u : State Unit α} {prog prog' : Program Unit α}
    (hs : Waking s) (told : Bool) (hk : s.callers[0]? = some prog) (hl : (u.goOn 0 prog').Locked)
    (hc : u.callers = s.callers) (hst : (u.pools ()).stopped = false)
    (hwc : (u.pools ()).waitForCompletion = false) (hstaff : (u.pools ()).workers ≠ [])
    (hloops : ∀ place ∈ (u.pools ()).workers, place.loops = true)
    (hstart : Starting prog' (u.pools ()).paused told)
    (hatt : told = true → Attended (u.goOn 0 prog')) : Waking (u.goOn 0 prog') where
  locked := hl
  stopped := hst
  waitForCompletion := hwc
  staffed := hstaff
  loops := hloops
  starting := by
    refine ⟨prog', told, ?_, hstart, hatt⟩
    rw [State.goOn_callers, hc, List.getElem?_set_self (List.getElem?_eq_some_iff.mp hk).1]
  adding := by
    intro j p hj hp
    rw [State.goOn_callers, hc, List.getElem?_set_ne (by omega)] at hp
    exact hs.adding j p hj hp

theorem Waking.goOn_add {s u : State Unit α} {k : Nat} {prog prog' : Program Unit α}
    (hs : Waking s) (h0 : 0 < k) (hk : s.callers[k]? = some prog) (hl : (u.goOn k prog').Locked)
    (hc : u.callers = s.callers) (hst : (u.pools ()).stopped = (s.pools ()).stopped)
    (hwc : (u.pools ()).waitForCompletion = (s.pools ()).waitForCompletion)
    (hp : (u.pools ()).paused = (s.pools ()).paused) (hstaff : (u.pools ()).workers ≠ [])
    (hloops : ∀ place ∈ (u.pools ()).workers, place.loops = true) (hadd : Adding prog')
    (hatt : Attended s → Attended (u.goOn k prog')) : Waking (u.goOn k prog') where
  locked := hl
  stopped := hst.trans hs.stopped
  waitForCompletion := hwc.trans hs.waitForCompletion
  staffed := hstaff
  loops := hloops
  starting := by
    obtain ⟨prog, told, h0', hstart, htold⟩ := hs.starting
    refine ⟨prog, told, ?_, by rw [State.goOn_pools, hp]; exact hstart, fun ht => hatt (htold ht)⟩
    rw [State.goOn_callers, hc, List.getElem?_set_ne (by omega), h0']
  adding := by
    intro j p hj hp
    rw [State.goOn_callers, hc] at hp
    by_cases hjk : k = j
    · subst hjk
      rw [List.getElem?_set_self (List.getElem?_eq_some_iff.mp hk).1] at hp
      cases hp
      exact hadd
    · rw [List.getElem?_set_ne hjk] at hp
      exact hs.adding j p hj hp

/-- A step that changes neither the queue nor the workers, by a caller that is not
about to notify, keeps the queue attended. -/
theorem Attended.goOn {s u : State Unit α} {k : Nat} {prog prog' : Program Unit α}
    (hatt : Attended s) (hk : s.callers[k]? = some prog)
    (hprog : ∀ rest, prog ≠ Instr.notifyOne () :: rest) (hc : u.callers = s.callers)
    (hslots : u.slots () = s.slots ()) (hw : (u.pools ()).workers = (s.pools ()).workers) :
    Attended (u.goOn k prog') := by
  intro hne
  have hne' : s.slots () ≠ [] := by
    rw [← hslots]
    exact hne
  rcases hatt hne' with hawake | ⟨j, rest, hj⟩
  · rw [State.goOn_pools, hw]
    exact Or.inl hawake
  · refine Or.inr ⟨j, rest, ?_⟩
    have hjk : k ≠ j := by
      rintro rfl
      rw [hk] at hj
      exact hprog rest (Option.some_inj.mp hj)
    rw [State.goOn_callers, hc, List.getElem?_set_ne hjk, hj]

theorem Place.loops_wake (place : Place α) : place.wake.loops = place.loops := by
  cases place <;> rfl

theorem Place.awake_wake {place : Place α} (hloops : place.loops = true) (h : place ≠ .block) :
    place.wake.awake = true := by
  cases place <;> simp_all [Place.loops, Place.wake, Place.awake]

/-- Every step of the caller of `start` keeps the queue attended, if its
notification is heard. -/
theorem Waking.start {same : α → α → Bool} {limit : Nat} {s t : State Unit α} {choice : Nat}
    (hs : Waking s) (hheard : Heard s (.caller 0 choice))
    (h : s.stepCaller same limit 0 choice = some t) : Waking t := by
  have hl := hs.locked.caller h
  obtain ⟨prog, told, h0, hstart, htold⟩ := hs.starting
  unfold stepCaller at h
  rw [h0] at h
  generalize hp : (s.pools ()).paused = b at hstart
  cases hstart with
  | call =>
    cases h
    simp only [hp, Bool.true_or, if_true] at hl ⊢
    -- a fresh pool is paused, so `start` does something
    refine hs.goOn_start false h0 hl rfl hs.stopped hs.waitForCompletion hs.staffed hs.loops ?_
      (fun ht => by cases ht)
    rw [hp]
    exact Starting.opened
  | opened =>
    cases h
    refine hs.goOn_start false h0 hl rfl ?_ ?_ ?_ ?_ ?_ (fun ht => by cases ht)
    · simp
    · simpa using hs.waitForCompletion
    · simpa using hs.staffed
    · simpa using hs.loops
    · simpa [hp] using Starting.setPaused
  | setPaused =>
    cases h
    refine hs.goOn_start false h0 hl rfl ?_ ?_ ?_ ?_ ?_ (fun ht => by cases ht)
    · simpa using hs.stopped
    · simpa using hs.waitForCompletion
    · simpa using hs.staffed
    · simpa using hs.loops
    · simpa using Starting.setWait
  | setWait =>
    cases h
    refine hs.goOn_start false h0 hl rfl ?_ ?_ ?_ ?_ ?_ (fun ht => by cases ht)
    · simpa using hs.stopped
    · simp
    · simpa using hs.staffed
    · simpa using hs.loops
    · simpa [hp] using Starting.notify
  | notify =>
    cases h
    refine hs.goOn_start true h0 hl rfl ?_ ?_ ?_ ?_ ?_ ?_
    · simpa using hs.stopped
    · simpa using hs.waitForCompletion
    · simpa using hs.staffed
    · simpa [Place.loops_wake] using hs.loops
    · simpa [hp] using Starting.done
    · intro _ hslots
      -- heard: some worker does not stand between its test and its wait
      have hslots' : s.slots () ≠ [] := by simpa [slots] using hslots
      obtain ⟨place, hmem, hplace⟩ := (hheard [] h0).resolve_left hslots'
      refine Or.inl ⟨place.wake, ?_, Place.awake_wake (hs.loops place hmem) hplace⟩
      simpa using List.mem_map_of_mem (f := Place.wake) hmem
  | done => cases h

/-- Where nobody is blocked, a caller that holds the mutex finds a worker awake. -/
theorem Waking.someone {s : State Unit α} {k : Nat} (hs : Waking s) (hholds : s.Holds (.caller k) ())
    (hnone : (s.pools ()).workers.any Place.isBlocked = false) :
    ∃ place ∈ (s.pools ()).workers, place.awake = true := by
  obtain ⟨place, hmem⟩ := List.exists_mem_of_ne_nil _ hs.staffed
  refine ⟨place, hmem, ?_⟩
  obtain ⟨i, hi⟩ := List.mem_iff_getElem?.mp hmem
  have hloops := hs.loops place hmem
  cases place with
  | block =>
    -- a worker at `block` has the mutex, which the caller holds
    have hw : s.Holds (.worker i) () := ⟨_, hi, rfl⟩
    cases hs.locked.mutex.unique hholds hw
  | blocked =>
    have hany : (s.pools ()).workers.any Place.isBlocked = true :=
      List.any_eq_true.mpr ⟨_, hmem, rfl⟩
    rw [hnone] at hany
    cases hany
  | left => cases hloops
  | _ => rfl

/-- Every step of a caller of `add_task` keeps the queue attended. -/
theorem Waking.add {same : α → α → Bool} {limit : Nat} {s t : State Unit α} {k choice : Nat}
    (hs : Waking s) (hk0 : 0 < k) (h : s.stepCaller same limit k choice = some t) : Waking t := by
  have hl := hs.locked.caller h
  obtain ⟨instr, rest, hk, hstep⟩ := callerStep h
  have hadd := hs.adding k _ hk0 hk
  generalize hprog : instr :: rest = prog at hadd hk
  cases hadd with
  | call e =>
    cases hprog
    cases hstep with
    | idles hi => cases hi
    | writes hw => cases hw
    | locks _ =>
      refine hs.goOn_add hk0 hk hl rfl (by simp) (by simp) (by simp) (by simpa using hs.staffed)
        (by simpa using hs.loops) (.push e) (fun hatt => ?_)
      exact hatt.goOn hk (by simp [add_task]) rfl (by simp [slots]) (by simp)
  | push e =>
    cases hprog
    cases hstep with
    | idles _ =>
      exact hs.goOn_add hk0 hk hl rfl rfl rfl rfl hs.staffed hs.loops .unlock
        (fun hatt => hatt.goOn hk (by simp) rfl rfl rfl)
    | writes hw => cases hw
    | pushes _ =>
      apply hs.goOn_add hk0 hk hl rfl rfl rfl rfl hs.staffed hs.loops .notify
      intro _ _
      -- the call is in the queue, and its caller is about to notify
      refine Or.inr ⟨k, [.unlock ()], ?_⟩
      simp [List.getElem?_set_self (List.getElem?_eq_some_iff.mp hk).1]
  | notify =>
    cases hprog
    cases hstep with
    | idles hi =>
      cases hi with
      | nobody hnone =>
        exact hs.goOn_add hk0 hk hl rfl rfl rfl rfl hs.staffed hs.loops .unlock
          (fun _ _ => Or.inl (hs.someone ⟨_, hk, rfl⟩ hnone))
    | writes hw => cases hw
    | wakes hi =>
      -- the notified worker is awake now
      have hself : ((s.setPlace () choice .notified).pools ()).workers[choice]? = some .notified := by
        simpa using getElem?_set_place (List.getElem?_eq_some_iff.mp hi).1
      refine hs.goOn_add hk0 hk hl rfl (by simp) (by simp) (by simp) ?_ ?_ .unlock
        (fun _ => Attended.of_awake choice .notified hself rfl)
      · exact List.ne_nil_of_mem (List.mem_of_getElem? hself)
      · intro place hmem
        rcases List.mem_or_eq_of_mem_set (by simpa using hmem) with hmem | rfl
        · exact hs.loops place hmem
        · rfl
  | unlock =>
    cases hprog
    cases hstep with
    | idles hi => cases hi
    | writes hw => cases hw
    | unlocks =>
      refine hs.goOn_add hk0 hk hl rfl (by simp) (by simp) (by simp) (by simpa using hs.staffed)
        (by simpa using hs.loops) .done (fun hatt => ?_)
      exact hatt.goOn hk (by simp) rfl (by simp [slots]) (by simp)
  | done => cases hprog

theorem Waking.spurious {s t : State Unit α} {i : Nat} (hs : Waking s)
    (h : s.stepSpurious () i = some t) : Waking t := by
  have hl := hs.locked.spurious h
  obtain ⟨hblocked, rfl⟩ := spuriousStep h
  have hlt := (List.getElem?_eq_some_iff.mp hblocked).1
  refine hs.setPlace i .notified hl (by simp) (by simp) (by simp) (by simp) rfl rfl
    (fun _ _ => Attended.of_awake i .notified ?_ rfl)
  simpa using getElem?_set_place hlt

theorem Waking.arrive {s : State Unit α} (hs : Waking s) (e : α) :
    Waking (s.arrive (add_task () e)) where
  locked := hs.locked.arrive (free_add_task () e) (balanced_add_task () e)
  stopped := hs.stopped
  waitForCompletion := hs.waitForCompletion
  staffed := hs.staffed
  loops := hs.loops
  starting := by
    obtain ⟨prog, told, h0, hstart, htold⟩ := hs.starting
    refine ⟨prog, told, ?_, hstart, fun ht hslots => ?_⟩
    · exact (List.getElem?_append_left (List.getElem?_eq_some_iff.mp h0).1).trans h0
    · rcases htold ht hslots with hawake | ⟨k, rest, hk⟩
      · exact Or.inl hawake
      · refine Or.inr ⟨k, rest, ?_⟩
        exact (List.getElem?_append_left (List.getElem?_eq_some_iff.mp hk).1).trans hk
  adding := by
    intro k prog hk hprog
    rcases Nat.lt_or_ge k s.callers.length with hlt | hge
    · exact hs.adding k prog hk ((List.getElem?_append_left hlt).symm.trans hprog)
    · have hnew : [add_task () e][k - s.callers.length]? = some prog :=
        (List.getElem?_append_right hge).symm.trans hprog
      rw [List.mem_singleton.mp (List.mem_of_getElem? hnew)]
      exact .call e

theorem Waking.step {same : α → α → Bool} {limit : Nat} {s t : State Unit α} {e : Step Unit α}
    (hs : Waking s) (hheard : Heard s e) (h : (system same limit adds).step s e = some t) :
    Waking t := by
  cases e with
  | worker p i => exact hs.worker (workerStep h)
  | spurious p i => exact hs.spurious h
  | caller k choice =>
    rcases Nat.eq_zero_or_pos k with rfl | hk
    · exact hs.start hheard h
    · exact hs.add hk h
  | call c =>
    obtain ⟨hadds, rfl⟩ := callStep h
    cases c with
    | start p => cases hadds
    | stop p => cases hadds
    | add_task p e => exact hs.arrive e

/-! Whole runs. -/

theorem locked_fresh (n : Nat) (es : List α) : (fresh n es).Locked := by
  refine Locked.fresh (fun _ => ⟨n, 0, rfl⟩) (fun prog hmem => ?_)
  rw [List.mem_singleton.mp hmem]
  exact ⟨fun _ => rfl, trivial⟩

theorem waking_fresh {n : Nat} (hn : 1 ≤ n) (es : List α) : Waking (fresh n es) where
  locked := locked_fresh n es
  stopped := rfl
  waitForCompletion := rfl
  staffed := by
    apply List.ne_nil_of_length_pos
    simpa [fresh, Pool.fresh] using Nat.lt_of_lt_of_le Nat.zero_lt_one hn
  loops := by
    intro place hmem
    rw [List.eq_of_mem_replicate hmem]
    rfl
  starting := ⟨start (), false, rfl, .call, fun h => by cases h⟩
  adding := by
    intro k prog hk hprog
    have hnone : [Program.start ()][k]? = (none : Option (Program Unit α)) :=
      List.getElem?_eq_none (Nat.succ_le_of_lt hk)
    cases hnone.symm.trans hprog

/-- In every run in which the notification of `start` is heard, no wake-up is
lost. -/
theorem served_of_along {same : α → α → Bool} {limit n : Nat} (hn : 1 ≤ n) {es : List α}
    {events : List (Step Unit α)} {s : State Unit α}
    (h : (system same limit adds).run (fresh n es) events = some s)
    (hheard : (system same limit adds).Along Heard (fresh n es) events) : Served s := by
  have hs : Waking s := Transition.System.run_inv_along
    (fun s e t hs hok hst => Waking.step hs hok hst) h hheard (waking_fresh hn es)
  exact hs.served

/-- With two workers the notification is heard in every run: they cannot both hold
the mutex. -/
theorem heard_of_two {same : α → α → Bool} {limit n : Nat} (hn : 2 ≤ n) (es : List α)
    (events : List (Step Unit α)) :
    (system same limit adds).Along Heard (fresh n es) events := by
  let I : State Unit α → Prop := fun s => s.Locked ∧ 2 ≤ (s.pools ()).workers.length
  refine Transition.System.along_of_inv (I := I) ?_ ?_ ⟨locked_fresh n es, ?_⟩ events
  · intro s e ⟨hl, hlen⟩
    cases e with
    | caller k choice =>
      intro rest _
      by_contra hnone
      simp only [not_or, not_exists, not_and, not_not] at hnone
      have hholds : ∀ i, i < 2 → s.Holds (.worker i) () := by
        intro i hi
        have hlt : i < (s.pools ()).workers.length := by omega
        refine ⟨.block, ?_, rfl⟩
        rw [List.getElem?_eq_getElem hlt]
        exact congrArg some (hnone.2 _ (List.getElem_mem hlt))
      have heq := hl.mutex.unique (hholds 0 (by omega)) (hholds 1 (by omega))
      cases heq
    | _ => trivial
  · intro s e t ⟨hl, hlen⟩ h
    refine ⟨?_, (workers_length h ()).symm ▸ hlen⟩
    cases e with
    | worker p i => exact hl.worker (workerStep h)
    | spurious p i => exact hl.spurious h
    | caller k choice => exact hl.caller h
    | call c =>
      obtain ⟨hadds, rfl⟩ := callStep h
      cases c with
      | start p => cases hadds
      | stop p => cases hadds
      | add_task p e => exact hl.arrive (free_add_task p e) (balanced_add_task p e)
  · simpa [fresh, Pool.fresh] using hn

theorem served_of_two {same : α → α → Bool} {limit n : Nat} (hn : 2 ≤ n) {es : List α}
    {events : List (Step Unit α)} {s : State Unit α}
    (h : (system same limit adds).run (fresh n es) events = some s) : Served s := by
  have hs : Waking s := Transition.System.run_inv_along
    (fun s e t hs hok hst => Waking.step hs hok hst) h (heard_of_two hn es events)
    (waking_fresh (by omega) es)
  exact hs.served

/-- The caller of `start` runs to its end. -/
def startEvents : List (Step Unit α) := List.replicate 5 (.caller 0 0)

/-- `start` returns before the worker looks at the flags and the queue. -/
def heardEvents : List (Step Unit Nat) := startEvents ++ [.worker () 0, .worker () 0]

theorem along_heardEvents : (system (fun _ _ => false) 4 adds).Along Heard (fresh 1 [7]) heardEvents := by
  have hquiet : ∀ {s : State Unit Nat} {k choice : Nat} {instr : Instr Unit Nat}
      {rest : Program Unit Nat}, s.callers[k]? = some (instr :: rest) → instr ≠ .notifyAll () →
      Heard s (.caller k choice) := by
    intro s k choice instr rest hk hne rest' hk'
    rw [hk] at hk'
    cases hk'
    exact absurd rfl hne
  refine Transition.System.along_cons rfl (hquiet rfl (by simp)) ?_
  refine Transition.System.along_cons rfl (hquiet rfl (by simp)) ?_
  refine Transition.System.along_cons rfl (hquiet rfl (by simp)) ?_
  refine Transition.System.along_cons rfl (hquiet rfl (by simp)) ?_
  -- the notification: the worker has not tested the flags yet
  refine Transition.System.along_cons rfl (fun _ _ => Or.inr ⟨.top, List.mem_cons_self, by simp⟩) ?_
  refine Transition.System.along_cons rfl trivial ?_
  exact Transition.System.along_cons rfl trivial trivial

theorem served_of_along_heard :
    ∃ s, (system (fun _ _ => false) 4 adds).run (fresh 1 [7]) heardEvents = some s ∧
      (∀ prog ∈ s.callers, prog = []) ∧ s.slots () ≠ [] ∧ (s.pools ()).workers = [.wait] ∧ Served s := by
  have hcallers : ((system (fun _ _ => false) 4 adds).run (fresh 1 [7]) heardEvents).map
      (fun s => s.callers) = some [[]] := by
    decide
  have hslots : ((system (fun _ _ => false) 4 adds).run (fresh 1 [7]) heardEvents).map
      (fun s => s.slots ()) = some [some 7] := by
    decide
  have hworkers : ((system (fun _ _ => false) 4 adds).run (fresh 1 [7]) heardEvents).map
      (fun s => (s.pools ()).workers) = some [.wait] := by
    decide
  obtain ⟨s, hs, hreturned⟩ := Option.map_eq_some_iff.mp hcallers
  rw [hs, Option.map_some, Option.some_inj] at hslots hworkers
  refine ⟨s, hs, ?_, ?_, hworkers, served_of_along (Nat.le_refl 1) hs along_heardEvents⟩
  · rw [hreturned]
    simp
  · rw [hslots]
    simp

/-- The only worker finds the pool paused; `start` runs between its test and its
wait, and it then waits beside a call nobody will ever notify it of. -/
def missed : Option (State Unit Nat) :=
  (system (fun _ _ => false) 4 adds).run (fresh 1 [7])
    ([.worker () 0, .worker () 0, .worker () 0] ++ startEvents ++ [.worker () 0])

theorem asleep_not_served : ∃ s, missed = some s ∧ (∀ prog ∈ s.callers, prog = []) ∧
    s.slots () ≠ [] ∧ ∀ place ∈ (s.pools ()).workers, place = .blocked := by
  have hsome : missed.isSome = true := by decide
  obtain ⟨s, hs⟩ := Option.isSome_iff_exists.mp hsome
  have hcallers : missed.map (fun s => s.callers) = some [[]] := by decide
  have hslots : missed.map (fun s => s.slots ()) = some [some 7] := by decide
  have hworkers : missed.map (fun s => (s.pools ()).workers) = some [.blocked] := by decide
  rw [hs, Option.map_some, Option.some_inj] at hcallers hslots hworkers
  refine ⟨s, hs, ?_, ?_, ?_⟩
  · rw [hcallers]
    simp
  · rw [hslots]
    simp
  · rw [hworkers]
    simp

end WakeUps

end ProteiCov.Threads
