import ProteiCov.CallFates
import ProteiCov.CallStories

/-
  Calls that are answered

  A worker takes a call, reads the clock three times, runs `doTask`, writes the CDR and
  settles the promise. So what the workers do with the calls there are comes to an end,
  whatever throws on the way (`Calls.work`). And a worker gets stuck with no call: where
  the pool is not paused and no worker can go on in a step in which nothing throws, the
  queue is empty and the promise of every call that was given a CallID is set
  (`calls_answered`).

  A limit for the draw below its lower bound would leave a worker without a defined step,
  so the runs here are those where `setMinMax` gets its limits in order.
-/

namespace ProteiCov
open Cpp

namespace CallSteps

/-! The steps of workers. -/

def Step.ofWorker : Step → Bool
  | .take _ _ | .readClock _ _ | .doTask _ _ _ | .writeCDR _ | .settle _ => true
  | _ => false

/-- Nothing throws in the step. -/
def Step.Calm : Step → Prop
  | .doTask _ fails _ => ∀ st, fails st = none
  | _ => True

/-- The limits for the draw are in order. -/
def Step.Ordered : Step → Prop
  | .setMinMax minMax => minMax.1 ≤ minMax.2
  | _ => True

instance orderedDecidable : DecidablePred Step.Ordered
  | .setMinMax minMax => inferInstanceAs (Decidable (minMax.1 ≤ minMax.2))
  | .arrive _ _ | .addTask _ _ _ | .take _ _ | .readClock _ _ | .doTask _ _ _ | .writeCDR _ | .settle _
  | .startThreadPool | .stopThreadPool | .updateQueue _ | .swap _ _ => instDecidableTrue

/-- How many steps a worker is from the end of its call, at most. -/
def Stage.left : Stage → Nat
  | .running readings => 3 + (3 - readings.length)
  | .returned _ => 2
  | .written _ | .thrown _ => 1

/-- How many steps the workers have to do. -/
def Calls.work (q : QueueRef) (s : Calls) : Nat :=
  7 * (s.world.queues q).queue_.length + (s.served.map (fun c => c.stage.left)).sum

/-- No worker can go on, unless something throws. -/
def Idle (hash : ThreadId → UInt64) (s : Calls) : Prop :=
  ∀ e : Step, e.ofWorker = true ∧ e.Calm → (system hash).step s e = none

/-- No call waits, and every call that was given a CallID has its result or exception. -/
structure Answered (q : QueueRef) (s : Calls) : Prop where
  none_waits : (s.world.queues q).queue_ = []
  settled : ∀ u, s.ids u ≠ none → (s.world.tasks u).promise_.state ≠ none

/-! What a worker does to the work there is. -/

/-- A worker takes a call, goes on with one or is done with one. -/
inductive Worked (q : QueueRef) (s t : Calls) : Prop
  | took (p : PoolRef) (d : TaskRef × CallID) (hes : (s.world.queues q).queue_ = d :: (t.world.queues q).queue_)
      (hserved : t.served = s.served ++ [⟨p, d, .running []⟩])
  | wentOn (k : Nat) (c d : Served) (hk : s.served[k]? = some c) (hless : d.stage.left < c.stage.left)
      (hes : (t.world.queues q).queue_ = (s.world.queues q).queue_) (hserved : t.served = s.served.set k d)
  | finished (k : Nat) (c : Served) (hk : s.served[k]? = some c)
      (hes : (t.world.queues q).queue_ = (s.world.queues q).queue_) (hserved : t.served = s.served.eraseIdx k)

section
variable {recorders : List RecorderRef} {q : QueueRef} {s t : Calls} {e : Step} {hash : ThreadId → UInt64}

/-- The steps of workers change neither the pools nor the manager. -/
structure Working (q : QueueRef) (s t : Calls) : Prop where
  worked : Worked q s t
  pools : t.world.pools = s.world.pools
  manager : t.manager = s.manager

theorem Custody.working (hs : Custody recorders q s) (he : e.ofWorker = true) (h : (system hash).step s e = some t) :
    Working q s t := by
  have hqueue : e.goesOn = true → (t.world.queues q).queue_ = (s.world.queues q).queue_ := by
    intro hgoes
    obtain ⟨old, new, hstepped⟩ := hs.stepped h
    exact hstepped.queue_kept hs.queueMade hgoes
  cases e with
  | take thread p =>
    obtain ⟨d, rest, id, hes, rfl, _⟩ := hs.taken h
    refine ⟨.took p d ?_ rfl, rfl, rfl⟩
    rw [setEntries_queue]
    exact hes
  | readClock k now =>
    have h' : s.readClock k now = some t := h
    unfold Calls.readClock at h'
    split at h'
    · rename_i p d readings hk
      split at h'
      · rename_i hok
        cases h'
        refine ⟨.wentOn k _ _ hk ?_ (hqueue rfl) rfl, rfl, rfl⟩
        show 3 + (3 - (readings ++ [now]).length) < 3 + (3 - readings.length)
        rw [List.length_append, List.length_singleton]
        omega
      · cases h'
    · cases h'
  | doTask k fails draw =>
    have h' : s.doTask k fails draw = some t := h
    unfold Calls.doTask at h'
    split at h'
    · rename_i p d now operatorCallTime endTime hk
      split at h'
      · rename_i r v hrun
        cases h'
        obtain ⟨_, _, rfl⟩ := Task.doTask_ok hrun
        exact ⟨.wentOn k _ _ hk (by simp [Stage.left]) (hqueue rfl) rfl, rfl, rfl⟩
      · rename_i x v hrun
        cases h'
        obtain ⟨u, hown, hv⟩ := doTask_throws hrun
        refine ⟨.wentOn k _ _ hk (by simp [Stage.left]) (hqueue rfl) rfl, ?_, rfl⟩
        rcases hv with rfl | ⟨_, y, rfl⟩
        · exact hown.pools
        · exact hown.pools
      · cases h'
    · cases h'
  | writeCDR k =>
    have h' : s.journal k = some t := h
    unfold Calls.journal at h'
    split at h'
    · rename_i p d r hk
      rw [run_writeCDR (hs.served _ (List.mem_of_getElem? hk)).2] at h'
      cases h'
      exact ⟨.wentOn k _ _ hk (by simp [Stage.left]) (hqueue rfl) rfl, rfl, rfl⟩
    · cases h'
  | settle k =>
    have h' : s.settle k = some t := h
    unfold Calls.settle at h'
    split at h'
    · rename_i c hk
      split at h'
      · rename_i u hrun
        cases h'
        obtain ⟨y, _, _, rfl⟩ := settling_ok hrun
        exact ⟨.finished k c hk (hqueue rfl) rfl, rfl, rfl⟩
      · cases h'
    · cases h'
  | arrive number now | addTask k thread now | startThreadPool | stopThreadPool | setMinMax minMax | updateQueue size
  | swap operators size => cases he

/-! Calls a worker can go on with. -/

/-- A call whose `doTask` can run to its end, from each seat it may have. -/
def Seat.Runs (w : World) : Seat → Prop
  | .made t => (w.tasks t).RMin_ ≤ (w.tasks t).RMax_
  | .waiting e => (w.tasks e.1).RMin_ ≤ (w.tasks e.1).RMax_
  | .served ⟨_, e, .running readings⟩ =>
    (w.tasks e.1).RMin_ ≤ (w.tasks e.1).RMax_ ∧ (w.tasks e.1).logger_ = true ∧ readings.length ≤ 3
  | .served _ => True

theorem Seat.Runs.given {x : Seat} {w v : World} (h : x.Runs w)
    (hgiven : (v.tasks x.task).given = (w.tasks x.task).given) : x.Runs v := by
  simp only [Task.given, Prod.mk.injEq] at hgiven
  obtain ⟨_, hmin, hmax, hlog⟩ := hgiven
  cases x with
  | made t =>
    show (v.tasks t).RMin_ ≤ (v.tasks t).RMax_
    exact hmin.trans_le (h.trans_eq hmax.symm)
  | waiting e =>
    show (v.tasks e.1).RMin_ ≤ (v.tasks e.1).RMax_
    exact hmin.trans_le (h.trans_eq hmax.symm)
  | served c =>
    obtain ⟨p, e, stage⟩ := c
    cases stage with
    | running readings => exact ⟨hmin.trans_le (h.1.trans_eq hmax.symm), hlog.trans h.2.1, h.2.2⟩
    | returned r | written r | thrown y => trivial

theorem Custody.given (hs : Custody recorders q s) (h : (system hash).step s e = some t) {u : TaskRef}
    (hu : u < s.world.taskCount) : (t.world.tasks u).given = (s.world.tasks u).given := by
  by_cases hsize : ∃ size, e = .updateQueue size
  · obtain ⟨size, rfl⟩ := hsize
    obtain ⟨old, new, hstepped⟩ := hs.stepped h
    cases hstepped with
    | reconfigured e hr hpool hlimits hsame => rw [hr.tasks]
  · exact (hs.steady h (fun size he => hsize ⟨size, he⟩)).given u hu

/-- The manager's limits and each call that has a seat are as the draw needs them, and
each call that was given a CallID was pushed. -/
structure Attended (q : QueueRef) (s : Calls) (a : BoundedQueue.State (TaskRef × List Char)) : Prop where
  limits : s.manager.RMin_ ≤ s.manager.RMax_
  seated : ∀ x ∈ seats q s, x.Runs s.world
  pushed : ∀ u, s.ids u ≠ none → BoundedQueue.fate a (label s.world u) ≠ none

namespace Attended
variable {old : List Seat} {new : Option Seat} {a b : BoundedQueue.State (TaskRef × List Char)}

theorem limits_step (ha : Attended q s a) (h : Stepped q s e old new t) (he : e.Ordered) :
    t.manager.RMin_ ≤ t.manager.RMax_ := by
  cases h with
  | reconfigured e hr hpool hlimits hsame =>
    rcases hlimits with heq | rfl
    · obtain ⟨hmin, hmax⟩ := Prod.mk.inj heq
      exact hmin.trans_le (ha.limits.trans_eq hmax.symm)
    · exact he
  | arrived number now hclock | dropped thread hk hclock | added thread hk hclock hlog hpush
  | taken thread id hmade hp hes | clockRead hk hclock | returned env hk hret | thrown fails draw hk hown hv
  | journalled hk | settled hk hx hpend => exact ha.limits

theorem runs_new (ha : Attended q s a) (hs : Custody recorders q s) (h : (system hash).step s e = some t)
    (hstepped : Stepped q s e old new t) {x : Seat} (hx : new = some x) : x.Runs t.world := by
  have hgiven : ∀ y ∈ seats q s, (t.world.tasks y.task).given = (s.world.tasks y.task).given :=
    fun y hy => hs.given h (hs.known y hy).1
  have hold : ∀ y ∈ old, y ∈ seats q s := (hs.old_seats hstepped).1
  have hkept : ∀ y ∈ old, y.Runs t.world := fun y hy => (ha.seated y (hold y hy)).given (hgiven y (hold y hy))
  cases hstepped with
  | arrived number now hclock =>
    cases hx
    have htask : (s.world.arrived (s.newTask number now)).tasks s.world.taskCount = s.newTask number now := by
      simp [World.arrived]
    show ((s.world.arrived (s.newTask number now)).tasks s.world.taskCount).RMin_ ≤ _
    rw [htask]
    exact ha.limits
  | added thread hk hclock hlog hpush =>
    have hmade := hkept _ List.mem_cons_self
    cases hpush with
    | fresh =>
      cases hx
      exact hmade
    | duplicate i d hi =>
      cases hx
      exact hmade
    | overloaded => cases hx
  | @taken p e rest thread id hmade hp hes =>
    cases hx
    have hseat := hold _ List.mem_cons_self
    have hlog := congrArg (fun g => g.2.2.2) (hgiven _ hseat)
    exact ⟨hkept _ List.mem_cons_self, hlog.trans (hs.known _ hseat).2.2, Nat.zero_le 3⟩
  | @clockRead k p d readings now hk hclock =>
    cases hx
    obtain ⟨hlimits, hlog, _⟩ := hkept _ List.mem_cons_self
    refine ⟨hlimits, hlog, ?_⟩
    -- the fourth reading would not be one of `doTask`
    have h' : s.readClock k now = some _ := h
    unfold Calls.readClock at h'
    rw [hk] at h'
    simp only at h'
    split at h'
    · rename_i hok
      rw [List.length_append, List.length_singleton]
      exact hok.2
    · cases h'
  | returned env hk hret | thrown fails draw hk hown hv | journalled hk =>
    cases hx
    trivial
  | dropped thread hk hclock | settled hk hx' hpend | reconfigured e hr hpool hlimits hsame => cases hx

theorem pushed_now (h : (system hash).step s e = some t) (hs : Custody recorders q s) {u : TaskRef}
    (hu : s.ids u = none) (ht : t.ids u ≠ none) : points s e = [.push (label s.world u)] := by
  obtain ⟨old, new, hstepped⟩ := hs.stepped h
  cases hstepped with
  | @added k x now id old new v thread hk hclock hlog hpush =>
    by_cases hux : u = x
    · rw [hux]
      cases hnum : stoll (s.world.tasks x).number_ with
      | ok n => simp [points, hk, hnum]
      | error y =>
        obtain ⟨_, _, hids⟩ := addTask_refused (q := q) hk hnum h
        rw [hids] at ht
        exact absurd hu ht
    · have hids : Function.update s.ids x (some id) u ≠ none := ht
      rw [Function.update_of_ne hux] at hids
      exact absurd hu hids
  | reconfigured e hr hpool hlimits hsame =>
    rw [hsame] at ht
    exact absurd hu ht
  | arrived number now hclock | dropped thread hk hclock | taken thread id hmade hp hes | clockRead hk hclock
  | returned env hk hret | thrown fails draw hk hown hv | journalled hk | settled hk hx hpend => exact absurd hu ht

theorem step (ha : Attended q s a) (hs : Custody recorders q s) (he : e.Ordered)
    (h : (system hash).step s e = some t) (hb : queueOfCalls.run a (points s e) = some b) (hfates : Fates q t b) :
    Attended q t b := by
  obtain ⟨old, new, hstepped⟩ := hs.stepped h
  refine ⟨ha.limits_step hstepped he, fun x hx => ?_, fun u hu => ?_⟩
  · obtain ⟨rest, hbefore, hafter⟩ := hstepped.moves hs.queueMade
    rcases List.mem_append.mp (hafter.mem_iff.mp hx) with hnew | hrest
    · exact ha.runs_new hs h hstepped (Option.mem_toList.mp hnew)
    · have hseat : x ∈ seats q s := hbefore.mem_iff.mpr (List.mem_append_right _ hrest)
      exact (ha.seated x hseat).given (hs.given h (hs.known x hseat).1)
  · have hpushed : BoundedQueue.fate b (label s.world u) ≠ none := by
      by_cases hu' : s.ids u = none
      · rw [pushed_now h hs hu' hu] at hb
        obtain ⟨c, hc, hcb⟩ := Transition.System.run_cons_some.mp hb
        cases hcb
        have hstep : BoundedQueue.step Prod.snd a (.push (label s.world u)) = some b := hc
        exact (BoundedQueue.stepped Prod.snd hstep).fate_pushed
      · exact BoundedQueue.run_fate_kept hb (ha.pushed u hu')
    have hlabel : label s.world u = label t.world u := (hfates.known _ hpushed).2
    rw [← hlabel]
    exact hpushed

end Attended

/-! Where workers come to rest. -/

theorem Custody.can_take (hs : Custody recorders q s) (hopen : (s.world.pools s.manager.threadPool_).paused = false)
    {d : TaskRef × CallID} {rest : List (TaskRef × CallID)} (hes : (s.world.queues q).queue_ = d :: rest)
    (thread : ThreadId) : (system hash).step s (.take thread s.manager.threadPool_) ≠ none := by
  have hlog : (s.world.tasks d.1).logger_ = true :=
    (hs.known _ (seat_waiting (by rw [hes]; exact List.mem_cons_self))).2.2
  have hallowed : (ThreadPool.run_allowed s.manager.threadPool_).run s.world = (.ok true, s.world) := by
    rw [CallFlow.run_run_allowed, hs.queue]
    simp only [hes, hopen]
    rfl
  have hrun := ThreadPool.run_processTask hash thread hs.queue hes hlog
  show s.take hash thread s.manager.threadPool_ ≠ none
  unfold Calls.take
  rw [if_pos hs.poolMade, CallFlow.dequeue, Exec.run_bind_ok hallowed, if_pos rfl, Exec.run_bind_ok hrun]
  exact Option.some_ne_none _

/-- A worker goes on with its call, unless it has an exception for a promise that is set. -/
theorem Custody.goes_on (hs : Custody recorders q s) {k : Nat} {c : Served} (hk : s.served[k]? = some c)
    (hruns : (Seat.served c).Runs s.world) :
    (∃ e : Step, (e.ofWorker = true ∧ e.Calm) ∧ (system hash).step s e ≠ none) ∨
      (s.world.tasks c.entry.1).promise_.state ≠ none := by
  have hseat : Seat.served c ∈ seats q s := mem_seats.mpr (Or.inr (Or.inr ⟨c, List.mem_of_getElem? hk, rfl⟩))
  have hok : (Seat.served c).Ok s.world := (hs.known _ hseat).2
  obtain ⟨p, d, stage⟩ := c
  cases stage with
  | running readings =>
    obtain ⟨hlimits, hlog, hle⟩ := hruns
    refine Or.inl ?_
    rcases Nat.lt_or_ge readings.length 3 with hlt | hge
    · refine ⟨.readClock k s.clock, ⟨rfl, trivial⟩, ?_⟩
      show s.readClock k s.clock ≠ none
      unfold Calls.readClock
      rw [hk]
      simp only
      rw [if_pos ⟨Int.le_refl _, hlt⟩]
      exact Option.some_ne_none _
    · obtain ⟨now, operatorCallTime, endTime, rfl⟩ := List.length_eq_three.mp (Nat.le_antisymm hle hge)
      refine ⟨.doTask k (fun _ => none) 0, ⟨rfl, fun _ => rfl⟩, ?_⟩
      have hreturns : Task.Returns ⟨fun _ => none, now, operatorCallTime, endTime, 0⟩ (s.world.tasks d.1) :=
        ⟨hlog, fun _ => hlimits, fun _ _ => rfl⟩
      show s.doTask k (fun _ => none) 0 ≠ none
      unfold Calls.doTask
      rw [hk]
      simp only
      rw [Task.run_doTask hreturns]
      exact Option.some_ne_none _
  | returned r =>
    refine Or.inl ⟨.writeCDR k, ⟨rfl, trivial⟩, ?_⟩
    show s.journal k ≠ none
    unfold Calls.journal
    rw [hk]
    simp only
    rw [run_writeCDR (hs.served _ (List.mem_of_getElem? hk)).2]
    exact Option.some_ne_none _
  | written r =>
    refine Or.inl ⟨.settle k, ⟨rfl, trivial⟩, ?_⟩
    have hset : (set_value d.1 r).run s.world = (.ok (), s.world.settled d.1 (.value r)) := run_settle _ hok.1
    show s.settle k ≠ none
    unfold Calls.settle
    rw [hk]
    simp only
    rw [settling, Exec.run_tryCatch_ok hset]
    exact Option.some_ne_none _
  | thrown x =>
    by_cases hpend : (s.world.tasks d.1).promise_.state = none
    · refine Or.inl ⟨.settle k, ⟨rfl, trivial⟩, ?_⟩
      have hset : (set_exception d.1 x).run s.world = (.ok (), s.world.settled d.1 (.exception x)) :=
        run_settle _ hpend
      show s.settle k ≠ none
      unfold Calls.settle
      rw [hk]
      simp only
      rw [settling, hset]
      exact Option.some_ne_none _
    · exact Or.inr hpend

/-- Where no worker can go on, every call is answered. -/
theorem Attended.answered {a : BoundedQueue.State (TaskRef × List Char)} (ha : Attended q s a)
    (hs : Custody recorders q s) (hfates : Fates q s a)
    (hopen : (s.world.pools s.manager.threadPool_).paused = false) (hidle : Idle hash s) : Answered q s := by
  have hempty : (s.world.queues q).queue_ = [] := by
    cases hes : (s.world.queues q).queue_ with
    | nil => rfl
    | cons d rest => exact absurd (hidle (.take 0 _) ⟨rfl, trivial⟩) (hs.can_take hopen hes 0)
  refine ⟨hempty, fun u hu hnone => ?_⟩
  have hpushed := ha.pushed u hu
  rw [hfates.fates u (hfates.known _ hpushed).1] at hpushed
  -- the call is with a worker, who then has set its promise
  have hserved : u ∈ s.served.map (fun c => c.entry.1) := by
    by_contra hnot
    refine hpushed ?_
    rw [Calls.fate, hempty, List.map_nil, if_neg List.not_mem_nil, hnone]
    exact if_neg hnot
  obtain ⟨c, hc, rfl⟩ := List.mem_map.mp hserved
  obtain ⟨k, hk⟩ := List.mem_iff_getElem?.mp hc
  have hruns := ha.seated (.served c) (mem_seats.mpr (Or.inr (Or.inr ⟨c, hc, rfl⟩)))
  rcases hs.goes_on hk hruns with ⟨e, he, hstep⟩ | hset
  · exact hstep (hidle e he)
  · exact hset hnone

end

/-! Whole runs. -/

section
variable {hash : ThreadId → UInt64} {operators limit : Nat} {recorders : List RecorderRef} {minMax : Int × Int}
  {logger : Bool} {m : Manager} {w : World} {clock : TimePoint} {steps : List Step} {s : Calls}

/-- The invariant: the calls are as `Custody` says, they are those of the queue of calls,
and a worker can go on with each. -/
def Attending (recorders : List RecorderRef) (q : QueueRef) (s : Calls) : Prop :=
  Custody recorders q s ∧ ∃ a, Fates q s a ∧ Attended q s a

theorem Attending.step {q : QueueRef} {e : Step} {t : Calls} (hs : Attending recorders q s) (he : e.Ordered)
    (h : (system hash).step s e = some t) : Attending recorders q t := by
  obtain ⟨hcustody, a, hfates, ha⟩ := hs
  obtain ⟨b, hb, ht, hfates'⟩ := fates_step s e t a ⟨hcustody, hfates⟩ h
  exact ⟨ht, b, hfates', ha.step hcustody he h hb hfates'⟩

end

end CallSteps

end ProteiCov
