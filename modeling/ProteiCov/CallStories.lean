import ProteiCov.Custody

/-
  What the CDR of a call and its result say

  A call that ends with a result was served by a worker, evicted as a duplicate or
  refused by a full queue. On each path the CDR is filled by one function and the
  result by another, from the task, its CDR and the entry of the queue; the invariant
  says what the three have in common while the call waits and is served.

  The clock is one for all threads and never goes back, so the times of a CDR are in
  order. The limits, the draw and the sleep are the outside world's: `Regular` is what
  is asked of them.
-/

namespace ProteiCov
open Cpp

/-- Whole seconds are below the limit exactly where the exact difference is. -/
theorem durationCastSeconds_lt_iff {d : Int} (h : 0 ≤ d) (limit : Int) :
    durationCastSeconds d < limit ↔ d < limit * nanosPerSecond := by
  unfold durationCastSeconds
  rw [Int.tdiv_eq_ediv_of_nonneg h]
  exact Int.ediv_lt_iff_lt_mul (by decide)

/-- If the call is answered in time, its draw is within the limits and the sleep lasts
as long as it was asked to. -/
def Service.Fair (env : Service) (k : Task) : Prop :=
  Task.Returns env k → timely env k → (k.RMin_ ≤ env.draw ∧ env.draw ≤ k.RMax_) ∧
    env.draw * nanosPerSecond ≤ env.endTime - env.operatorCallTime

instance returnsDecidable (env : Service) (k : Task) : Decidable (Task.Returns env k) :=
  inferInstanceAs (Decidable (_ ∧ _ ∧ _))

instance fairDecidable (env : Service) (k : Task) : Decidable (env.Fair k) :=
  inferInstanceAs (Decidable (_ → _ → _ ∧ _))

/-- The CDR of the task and the result tell the same story: `id` is the CallID the
client was given, and `begun` the reading of the clock at the start of `doTask`, if a
worker took the call. -/
structure Tells (k : Task) (r : Result) (id : Option CallID) (begun : Option TimePoint) : Prop where
  status : k.cdr.status = r.status
  callDuration : k.cdr.callDuration = r.callDuration
  callID : k.cdr.callID = r.callID
  returned : id = some r.callID
  answered : k.cdr.startTime ≤ k.cdr.operatorCallTime
  ended : k.cdr.operatorCallTime ≤ k.cdr.endTime
  completed : r.status = .Completed → k.RMin_ ≤ r.callDuration ∧ r.callDuration ≤ k.RMax_ ∧
    r.callDuration * nanosPerSecond ≤ k.cdr.endTime - k.cdr.operatorCallTime
  otherwise : r.status ≠ .Completed → r.callDuration = 0
  taken : ∀ now, begun = some now →
    (r.status = .Completed ↔ now - k.cdr.startTime < k.RMax_ * nanosPerSecond) ∧
    (r.status = .Timeout ↔ ¬ now - k.cdr.startTime < k.RMax_ * nanosPerSecond)
  refused : begun = none → r.status = .Duplication ∨ r.status = .Overloaded

namespace Tells
variable {env : Service} {t : TaskRef} {w : World}

theorem served {id : CallID} (hret : Task.Returns env (w.tasks t)) (hfair : env.Fair (w.tasks t))
    (htask : (w.tasks t).taskId_ = id) (hcdr : (w.tasks t).cdr.callID = id)
    (hnow : (w.tasks t).cdr.startTime ≤ env.now) (hanswered : env.now ≤ env.operatorCallTime)
    (hended : env.operatorCallTime ≤ env.endTime) :
    Tells ((w.served env t).tasks t) (servedResult env (w.tasks t)) (some id) (some env.now) := by
  have hself : (w.served env t).tasks t =
      { w.tasks t with cdr := servedCDR env (w.tasks t) (w.tasks t).cdr } := by
    simp [World.served]
  have htimely : timely env (w.tasks t) ↔
      env.now - (w.tasks t).cdr.startTime < (w.tasks t).RMax_ * nanosPerSecond :=
    durationCastSeconds_lt_iff (Int.sub_nonneg_of_le hnow) _
  rw [hself]
  by_cases h : timely env (w.tasks t)
  · obtain ⟨⟨hmin, hmax⟩, hsleep⟩ := hfair hret h
    refine ⟨rfl, rfl, ?_, ?_, ?_, hended, ?_, ?_, ?_, ?_⟩
    · exact hcdr.trans htask.symm
    · exact congrArg some htask.symm
    · exact Int.le_trans hnow hanswered
    · intro _
      simpa [servedResult, servedCDR, answeredCDR, h] using ⟨hmin, hmax, hsleep⟩
    · intro hne
      exact absurd (by simp [servedResult, h]) hne
    · intro now hnow
      cases hnow
      simp [servedResult, servedCDR, answeredCDR, h, ← htimely]
    · intro hnone
      cases hnone
  · refine ⟨rfl, rfl, ?_, ?_, ?_, hended, ?_, ?_, ?_, ?_⟩
    · exact hcdr.trans htask.symm
    · exact congrArg some htask.symm
    · exact Int.le_trans hnow hanswered
    · intro hcompleted
      simp [servedResult, h] at hcompleted
    · intro _
      simp [servedResult, h]
    · intro now hnow
      cases hnow
      simp [servedResult, servedCDR, answeredCDR, h, ← htimely]
    · intro hnone
      cases hnone

theorem refused_call {q : QueueRef} {now : TimePoint} {e : TaskRef × CallID} {isDuplication : Bool}
    (hcdr : (w.tasks e.1).cdr.callID = e.2) (hstart : (w.tasks e.1).cdr.startTime ≤ now) :
    Tells ((w.refused q now e isDuplication).tasks e.1)
      { status := if isDuplication then .Duplication else .Overloaded, callDuration := 0, callID := e.2 }
      (some e.2) none := by
  have hself : ((w.refused q now e isDuplication).tasks e.1) = { w.tasks e.1 with
      cdr := Queue.refusedCDR isDuplication now (w.tasks e.1).cdr
      promise_ := { (w.tasks e.1).promise_ with state := some (.value
        { status := if isDuplication then .Duplication else .Overloaded, callDuration := 0, callID := e.2 }) } } := by
    simp [World.refused, World.closed, World.journal, World.settled]
  rw [hself]
  refine ⟨rfl, rfl, hcdr, rfl, hstart, Int.le_refl _, ?_, fun _ => rfl, ?_, ?_⟩
  · intro hcompleted
    cases isDuplication <;> cases hcompleted
  · intro now hnow
    cases hnow
  · intro _
    cases isDuplication
    · exact Or.inr rfl
    · exact Or.inl rfl

end Tells

namespace CallSteps

/-- What the limits, the draw and the sleep of a step have to be. -/
def Regular (s : Calls) : Step → Prop
  | .setMinMax minMax => minMax.1 ≤ minMax.2
  | .doTask k fails draw =>
    match s.served[k]? with
    | some ⟨_, e, .running [now, operatorCallTime, endTime]⟩ =>
      (⟨fails, now, operatorCallTime, endTime, draw⟩ : Service).Fair (s.world.tasks e.1)
    | _ => True
  | _ => True

instance regularDecidable (s : Calls) (e : Step) : Decidable (Regular s e) := by
  unfold Regular
  split
  · infer_instance
  · split <;> infer_instance
  · infer_instance

/-- The call ended with the result `r`: once, with its CDR passed to each of the
recorders once, and the two tell the same story. -/
structure Told (recorders : List RecorderRef) (s : Calls) (t : TaskRef) (r : Result) : Prop where
  settlements : settlements t s.world.trace = [.value r]
  journal : journalOf t s.world.trace = recorders.map (fun rec => (rec, (s.world.tasks t).cdr))
  tells : Tells (s.world.tasks t) r (s.ids t) (s.begun t)

/-! What is known of a call that is not over. -/

/-- What holds of a call from its start. -/
structure Started (s : Calls) (t : TaskRef) : Prop where
  limits : (s.world.tasks t).RMin_ ≤ (s.world.tasks t).RMax_
  start : (s.world.tasks t).cdr.startTime ≤ s.clock

/-- The CallID of an entry is in its task, in its CDR and with the client. -/
structure Named (s : Calls) (e : TaskRef × CallID) : Prop where
  task : (s.world.tasks e.1).taskId_ = e.2
  cdr : (s.world.tasks e.1).cdr.callID = e.2
  returned : s.ids e.1 = some e.2

/-- The readings of the clock in a run of `doTask` so far. -/
structure Paced (s : Calls) (t : TaskRef) (readings : List TimePoint) : Prop where
  sorted : readings.Pairwise (· ≤ ·)
  range : ∀ x ∈ readings, (s.world.tasks t).cdr.startTime ≤ x ∧ x ≤ s.clock
  begun : s.begun t = readings.head?

/-- What is known of a call from its seat, besides `Seat.Ok`. -/
def Seat.Story (recorders : List RecorderRef) (s : Calls) : Seat → Prop
  | .made t => Started s t ∧ s.begun t = none
  | .waiting e => Started s e.1 ∧ Named s e ∧ s.begun e.1 = none
  | .served ⟨_, e, .running readings⟩ => Started s e.1 ∧ Named s e ∧ Paced s e.1 readings
  | .served ⟨_, e, .returned r⟩ => Tells (s.world.tasks e.1) r (s.ids e.1) (s.begun e.1)
  | .served ⟨_, e, .written r⟩ => Tells (s.world.tasks e.1) r (s.ids e.1) (s.begun e.1) ∧
    journalOf e.1 s.world.trace = recorders.map (fun rec => (rec, (s.world.tasks e.1).cdr))
  | .served ⟨_, e, .thrown _⟩ => ∀ r, (s.world.tasks e.1).promise_.state ≠ some (.value r)

/-- The invariant: what each seat says, and what is told of each call that is over. -/
structure Stories (recorders : List RecorderRef) (q : QueueRef) (s : Calls) : Prop where
  limits : s.manager.RMin_ ≤ s.manager.RMax_
  seated : ∀ x ∈ seats q s, x.Story recorders s
  told : ∀ t r, (s.world.tasks t).promise_.state = some (.value r) → Told recorders s t r
  unmade : ∀ t : Nat, s.world.taskCount ≤ t → s.begun t = none

section
variable {recorders : List RecorderRef} {q : QueueRef} {s t : Calls} {e : Step} {old : List Seat}
  {new : Option Seat}

theorem Seat.no_result {x : Seat} (hok : x.Ok s.world) (hx : x.Story recorders s) (r : Result) :
    (s.world.tasks x.task).promise_.state ≠ some (.value r) := by
  have hpending : (s.world.tasks x.task).promise_.state = none →
      (s.world.tasks x.task).promise_.state ≠ some (.value r) := by
    intro hnone
    rw [hnone]
    intro h
    cases h
  cases x with
  | made t => exact hpending hok.1.pending
  | waiting e => exact hpending hok.1.pending
  | served c =>
    obtain ⟨p, e, stage⟩ := c
    cases stage with
    | running readings => exact hpending hok.pending
    | returned r' => exact hpending hok.pending
    | written r' => exact hpending hok.1
    | thrown y => exact hx r

/-- A step changes nothing of what is known of a call it does not touch. -/
theorem Seat.Story.untouched {x : Seat} (h : x.Story recorders s) (hu : Untouched x.task s.world t.world)
    (hids : t.ids x.task = s.ids x.task) (hbegun : t.begun x.task = s.begun x.task)
    (hclock : s.clock ≤ t.clock) : x.Story recorders t := by
  have hstarted : Started s x.task → Started t x.task := by
    rintro ⟨hlimits, hstart⟩
    refine ⟨?_, ?_⟩
    · rw [hu.task]
      exact hlimits
    · rw [hu.task]
      exact Int.le_trans hstart hclock
  cases x with
  | made u => exact ⟨hstarted h.1, hbegun.trans h.2⟩
  | waiting e =>
    have hnamed : Named t e := by
      obtain ⟨_, ⟨htask, hcdr, hret⟩, _⟩ := h
      exact ⟨(congrArg Task.taskId_ hu.task).trans htask, (congrArg (fun k => k.cdr.callID) hu.task).trans hcdr,
        hids.trans hret⟩
    exact ⟨hstarted h.1, hnamed, hbegun.trans h.2.2⟩
  | served c =>
    obtain ⟨p, e, stage⟩ := c
    have htask : t.world.tasks e.1 = s.world.tasks e.1 := hu.task
    have hids' : t.ids e.1 = s.ids e.1 := hids
    have hbegun' : t.begun e.1 = s.begun e.1 := hbegun
    cases stage with
    | running readings =>
      obtain ⟨hstart, ⟨hname, hcdr, hret⟩, ⟨hsorted, hrange, hhead⟩⟩ := h
      refine ⟨hstarted hstart, ⟨?_, ?_, hids'.trans hret⟩, hsorted, fun x hx => ?_, hbegun'.trans hhead⟩
      · rw [htask]
        exact hname
      · rw [htask]
        exact hcdr
      · rw [htask]
        exact ⟨(hrange x hx).1, Int.le_trans (hrange x hx).2 hclock⟩
    | returned r =>
      show Tells (t.world.tasks e.1) r (t.ids e.1) (t.begun e.1)
      rw [htask, hids', hbegun']
      exact h
    | written r =>
      show Tells (t.world.tasks e.1) r (t.ids e.1) (t.begun e.1) ∧ journalOf e.1 t.world.trace =
        recorders.map (fun rec => (rec, (t.world.tasks e.1).cdr))
      have hjournal : journalOf e.1 t.world.trace = journalOf e.1 s.world.trace := hu.journal
      rw [htask, hids', hbegun', hjournal]
      exact h
    | thrown y =>
      intro r
      rw [htask]
      exact h r

theorem Told.untouched {u : TaskRef} {r : Result} (h : Told recorders s u r)
    (hu : Untouched u s.world t.world) (hids : t.ids u = s.ids u) (hbegun : t.begun u = s.begun u) :
    Told recorders t u r := by
  refine ⟨hu.settlements.trans h.settlements, ?_, ?_⟩
  · rw [hu.journal, hu.task]
    exact h.journal
  · rw [hu.task, hids, hbegun]
    exact h.tells

theorem Stepped.clock (h : Stepped q s e old new t) : s.clock ≤ t.clock := by
  cases h with
  | arrived number now hclock => exact hclock
  | dropped thread hk hclock => exact hclock
  | added thread hk hclock hlog hpush => exact hclock
  | clockRead hk hclock => exact hclock
  | taken thread id hmade hp hes => exact Int.le_refl _
  | settled hk hx hpend => exact Int.le_refl _
  | returned env hk hret | thrown fails draw hk hown hv | journalled hk => exact Int.le_refl _
  | reconfigured e hr hpool hlimits hsame => exact Int.le_of_eq (congrArg Calls.clock hsame).symm

theorem Stepped.limits (h : Stepped q s e old new t) (hregular : Regular s e)
    (hs : s.manager.RMin_ ≤ s.manager.RMax_) : t.manager.RMin_ ≤ t.manager.RMax_ := by
  cases h with
  | reconfigured e hr hpool hlimits hsame =>
    rcases hlimits with heq | rfl
    · obtain ⟨hmin, hmax⟩ := Prod.mk.inj heq
      rw [hmin, hmax]
      exact hs
    · exact hregular
  | arrived number now hclock => exact hs
  | dropped thread hk hclock => exact hs
  | added thread hk hclock hlog hpush => exact hs
  | clockRead hk hclock => exact hs
  | taken thread id hmade hp hes => exact hs
  | settled hk hx hpend => exact hs
  | returned env hk hret | thrown fails draw hk hown hv | journalled hk => exact hs

end

/-! The seats that a step gives. -/

theorem admitted_task (w : World) (t : TaskRef) (id : CallID) : (w.admitted t id).tasks t =
    { w.tasks t with
      taskId_ := id
      cdr := { (w.tasks t).cdr with callID := id }
      promise_ := { (w.tasks t).promise_ with retrieved := true } } := by
  simp [World.admitted, World.retrieved, Task.identified]

namespace Stories
variable {recorders : List RecorderRef} {q : QueueRef} {s t : Calls} {e : Step} {old : List Seat}
  {new : Option Seat}

theorem story_arrived (hs : Stories recorders q s) (number : List Char) (now : TimePoint) :
    (Seat.made s.world.taskCount).Story recorders { s with
      world := s.world.arrived (s.newTask number now), clock := now, made := s.made ++ [s.world.taskCount] } := by
  have htask : (s.world.arrived (s.newTask number now)).tasks s.world.taskCount = s.newTask number now := by
    simp [World.arrived]
  refine ⟨⟨?_, ?_⟩, hs.unmade _ (Nat.le_refl _)⟩
  · rw [htask]
    exact hs.limits
  · rw [htask]
    exact Int.le_refl now

theorem story_added {u : TaskRef} {id : CallID} {now : TimePoint} (hmade : (Seat.made u).Story recorders s)
    (hclock : s.clock ≤ now) (htask : t.world.tasks u = (s.world.admitted u id).tasks u) (hnow : t.clock = now)
    (hids : t.ids u = some id) (hbegun : t.begun u = s.begun u) :
    (Seat.waiting (u, id)).Story recorders t := by
  obtain ⟨⟨hlimits, hstart⟩, hnone⟩ := hmade
  rw [admitted_task] at htask
  refine ⟨⟨?_, ?_⟩, ⟨?_, ?_, hids⟩, hbegun.trans hnone⟩
  · rw [htask]
    exact hlimits
  · rw [htask, hnow]
    exact Int.le_trans hstart hclock
  · rw [htask]
  · rw [htask]

theorem story_taken {d : TaskRef × CallID} {p : PoolRef} {id : UInt64}
    (hwaiting : (Seat.waiting d).Story recorders s)
    (htask : t.world.tasks d.1 = { s.world.tasks d.1 with cdr := { (s.world.tasks d.1).cdr with operatorID := id } })
    (hclock : t.clock = s.clock) (hids : t.ids d.1 = s.ids d.1) (hbegun : t.begun d.1 = s.begun d.1) :
    (Seat.served ⟨p, d, .running []⟩).Story recorders t := by
  obtain ⟨⟨hlimits, hstart⟩, ⟨hname, hcdr, hret⟩, hnone⟩ := hwaiting
  refine ⟨⟨?_, ?_⟩, ⟨?_, ?_, hids.trans hret⟩, ⟨.nil, fun x hx => (by cases hx), hbegun.trans hnone⟩⟩
  · rw [htask]
    exact hlimits
  · rw [htask, hclock]
    exact hstart
  · rw [htask]
    exact hname
  · rw [htask]
    exact hcdr

theorem story_clockRead {d : TaskRef × CallID} {p : PoolRef} {readings : List TimePoint} {now : TimePoint}
    {served : List Served} (hrunning : (Seat.served ⟨p, d, .running readings⟩).Story recorders s)
    (hclock : s.clock ≤ now) :
    (Seat.served ⟨p, d, .running (readings ++ [now])⟩).Story recorders { s with
      clock := now, served := served
      begun := if readings = [] then Function.update s.begun d.1 (some now) else s.begun } := by
  obtain ⟨⟨hlimits, hstart⟩, ⟨hname, hcdr, hret⟩, ⟨hsorted, hrange, hbegun⟩⟩ := hrunning
  refine ⟨⟨hlimits, Int.le_trans hstart hclock⟩, ⟨hname, hcdr, hret⟩, ⟨?_, fun x hx => ?_, ?_⟩⟩
  · apply List.pairwise_append.mpr
    refine ⟨hsorted, List.pairwise_singleton _ _, fun x hx y hy => ?_⟩
    rw [List.mem_singleton.mp hy]
    exact Int.le_trans (hrange x hx).2 hclock
  · rcases List.mem_append.mp hx with hx | hx
    · exact ⟨(hrange x hx).1, Int.le_trans (hrange x hx).2 hclock⟩
    · rw [List.mem_singleton.mp hx]
      exact ⟨Int.le_trans hstart hclock, Int.le_refl now⟩
  · cases readings with
    | nil => exact Function.update_self _ _ _
    | cons x rest => exact hbegun

theorem story_returned {d : TaskRef × CallID} {p : PoolRef} {env : Service}
    (hrunning : (Seat.served ⟨p, d, .running [env.now, env.operatorCallTime, env.endTime]⟩).Story recorders s)
    (hret : Task.Returns env (s.world.tasks d.1)) (hfair : env.Fair (s.world.tasks d.1)) :
    Tells ((s.world.served env d.1).tasks d.1) (servedResult env (s.world.tasks d.1)) (s.ids d.1) (s.begun d.1) := by
  obtain ⟨_, ⟨hname, hcdr, hid⟩, ⟨hsorted, hrange, hbegun⟩⟩ := hrunning
  rw [hid, hbegun]
  have hnow := (hrange env.now List.mem_cons_self).1
  simp only [List.pairwise_cons, List.mem_cons, List.not_mem_nil, or_false, forall_eq_or_imp, forall_eq] at hsorted
  exact Tells.served hret hfair hname hcdr hnow hsorted.1.1 hsorted.2.1

theorem story_new (hs : Stories recorders q s) (hc : Custody recorders q s) (h : Stepped q s e old new t)
    (hregular : Regular s e) {x : Seat} (hx : new = some x) : x.Story recorders t := by
  obtain ⟨hold, hnodup⟩ := hc.old_seats h
  have hstory : ∀ y ∈ old, y.Story recorders s := fun y hy => hs.seated y (hold y hy)
  have hok : ∀ y ∈ old, y.Ok s.world := fun y hy => (hc.known y (hold y hy)).2
  cases h with
  | arrived number now hclock =>
    cases hx
    exact hs.story_arrived number now
  | @added k u now id out _ v thread hk hclock hlog hpush =>
    subst hx
    have hout : ∀ y ∈ out, y.task ≠ u := by
      intro y hy heq
      rw [List.map_cons, List.nodup_cons] at hnodup
      exact hnodup.1 (List.mem_map.mpr ⟨y, hy, heq⟩)
    obtain ⟨rfl, hkept⟩ := hpush.kept hout
    exact story_added (hstory _ List.mem_cons_self) hclock hkept.task rfl (Function.update_self _ _ _) rfl
  | dropped thread hk hclock => cases hx
  | @taken p d rest thread id hmade hp hes =>
    cases hx
    exact story_taken (hstory _ List.mem_cons_self) (Function.update_self _ _ _) rfl rfl rfl
  | @clockRead k p d readings now hk hclock =>
    cases hx
    exact story_clockRead (hstory _ List.mem_cons_self) hclock
  | @returned k p d env hk hret =>
    cases hx
    have hfair : env.Fair (s.world.tasks d.1) := by
      simp only [Regular, hk] at hregular
      exact hregular
    exact story_returned (hstory _ List.mem_cons_self) hret hfair
  | @thrown k p d readings x u v fails draw hk hown hv =>
    cases hx
    have hrunning : Unresolved s.world d.1 := hok _ List.mem_cons_self
    intro r
    show (v.tasks d.1).promise_.state ≠ some (.value r)
    rcases hv with hv | ⟨_, y, hv⟩
    · rw [hv, hown.promise, hrunning.pending]
      intro hr
      cases hr
    · rw [hv, settled_state]
      intro hr
      cases hr
  | @journalled k p d r hk =>
    cases hx
    have hreturned : Unresolved s.world d.1 := hok _ List.mem_cons_self
    refine ⟨hstory (.served ⟨p, d, .returned r⟩) List.mem_cons_self, ?_⟩
    show journalOf d.1 (s.world.trace ++ _) = _
    rw [journalOf_append, hreturned.journal, List.nil_append, journalOf_records, hc.installed]
    rfl
  | settled hk hx' hpend => cases hx
  | reconfigured e hr hpool hlimits hsame => cases hx

end Stories

/-! The calls that end. -/

theorem told_refused {recorders : List RecorderRef} {q : QueueRef} {t : Calls} {w : World} {now : TimePoint}
    {d : TaskRef × CallID} {isDuplication : Bool} {r : Result}
    (hworld : Untouched d.1 (w.refused q now d isDuplication) t.world) (hun : Unresolved w d.1)
    (hinstalled : (w.queues q).recorders_ = recorders) (hcdr : (w.tasks d.1).cdr.callID = d.2)
    (hstart : (w.tasks d.1).cdr.startTime ≤ now) (hids : t.ids d.1 = some d.2) (hbegun : t.begun d.1 = none)
    (hr : (t.world.tasks d.1).promise_.state = some (.value r)) : Told recorders t d.1 r := by
  have hclosed : Unresolved (w.mapCDR d.1 (Queue.refusedCDR isDuplication now)) d.1 :=
    (SameCall.of_undisturbed (Undisturbed.mapCDR w d.1 _)).unresolved hun
  have hresolved : ResolvedWith recorders (w.refused q now d isDuplication) d.1
      { status := if isDuplication then .Duplication else .Overloaded, callDuration := 0, callID := d.2 }
      ((w.mapCDR d.1 (Queue.refusedCDR isDuplication now)).tasks d.1).cdr := by
    rw [← hinstalled]
    refine hclosed.resolve q ?_ ?_
    · rw [World.mapCDR_cdr]
      rfl
    · cases isDuplication <;> rfl
  have hkept : ((w.refused q now d isDuplication).tasks d.1).cdr =
      ((w.mapCDR d.1 (Queue.refusedCDR isDuplication now)).tasks d.1).cdr := by
    simp [World.refused, World.closed, World.journal, World.settled]
  rw [hworld.task, hresolved.state] at hr
  cases hr
  refine ⟨hworld.settlements.trans hresolved.settlements, ?_, ?_⟩
  · rw [hworld.journal, hworld.task, hkept]
    exact hresolved.journal
  · rw [hworld.task, hids, hbegun]
    exact Tells.refused_call hcdr hstart

theorem told_settled {recorders : List RecorderRef} {s t : Calls} {p : PoolRef} {d : TaskRef × CallID}
    {r : Result} (hworld : t.world = s.world.settled d.1 (.value r)) (hids : t.ids = s.ids)
    (hbegun : t.begun = s.begun) (hok : (Seat.served ⟨p, d, .written r⟩).Ok s.world)
    (hstory : (Seat.served ⟨p, d, .written r⟩).Story recorders s) : Told recorders t d.1 r := by
  obtain ⟨htells, hjournal⟩ := hstory
  have htask : t.world.tasks d.1 = { s.world.tasks d.1 with
      promise_ := { (s.world.tasks d.1).promise_ with state := some (.value r) } } := by
    simp [hworld, World.settled]
  have hlast : journalOf d.1 [.settle d.1 (.value r)] = [] := rfl
  refine ⟨?_, ?_, ?_⟩
  · rw [hworld, settlements_settled, hok.2]
    rfl
  · rw [htask, hworld]
    simp only [World.settled, World.emit_trace, World.setTask_trace, journalOf_append, hlast, List.append_nil]
    exact hjournal
  · rw [htask, hids, hbegun]
    exact ⟨htells.status, htells.callDuration, htells.callID, htells.returned, htells.answered, htells.ended,
      htells.completed, htells.otherwise, htells.taken, htells.refused⟩

namespace Stories
variable {recorders : List RecorderRef} {q : QueueRef} {s t : Calls} {e : Step} {old : List Seat}
  {new : Option Seat}

/-- What is told of a call that loses its seat and gets no other. -/
theorem told_old (hs : Stories recorders q s) (hc : Custody recorders q s) (h : Stepped q s e old new t)
    {y : Seat} (hy : y ∈ old) (hnew : ∀ x, new = some x → x.task ≠ y.task) {r : Result}
    (hr : (t.world.tasks y.task).promise_.state = some (.value r)) : Told recorders t y.task r := by
  obtain ⟨hold, hnodup⟩ := hc.old_seats h
  have hstory : ∀ y ∈ old, y.Story recorders s := fun y hy => hs.seated y (hold y hy)
  have hok : ∀ y ∈ old, y.Ok s.world := fun y hy => (hc.known y (hold y hy)).2
  cases h with
  | arrived number now hclock => cases hy
  | @dropped k u now thread hk hclock =>
    rw [List.mem_singleton.mp hy] at hr
    have hmade : (Seat.made u).Ok s.world := hok _ List.mem_cons_self
    have hpending : (s.world.tasks u).promise_.state = none := hmade.1.pending
    exact absurd (hpending.symm.trans hr) (by simp)
  | @added k u now id out _ v thread hk hclock hlog hpush =>
    have hmade : (Seat.made u).Ok s.world := hok _ List.mem_cons_self
    obtain ⟨⟨hlimits, hstart⟩, hnone⟩ : (Seat.made u).Story recorders s := hstory _ List.mem_cons_self
    have hun := (admitted_same s.world u id).unresolved hmade.1
    cases hpush with
    | fresh =>
      rw [List.mem_singleton.mp hy] at hnew
      exact (hnew _ rfl rfl).elim
    -- the evicted call
    | duplicate i d hi =>
      rcases List.mem_cons.mp hy with rfl | hy
      · exact (hnew _ rfl rfl).elim
      · rw [List.mem_singleton.mp hy] at hr ⊢
        have hd : d.1 ≠ u := by
          intro heq
          simp [Seat.task, heq] at hnodup
        obtain ⟨⟨_, hstartd⟩, ⟨_, hcdr, hret⟩, hnoned⟩ : (Seat.waiting d).Story recorders s :=
          hstory _ (List.mem_cons_of_mem _ List.mem_cons_self)
        have hwaiting : (Seat.waiting d).Ok s.world := hok _ (List.mem_cons_of_mem _ List.mem_cons_self)
        have hbefore := (Untouched.admitted hd s.world id).trans (Untouched.searched _ q u)
        refine told_refused (Untouched.setEntries _ q _) (hbefore.sameCall.unresolved hwaiting.1) hc.installed
          ?_ ?_ ?_ hnoned hr
        · rw [hbefore.task]
          exact hcdr
        · rw [hbefore.task]
          exact Int.le_trans hstartd hclock
        · exact (Function.update_of_ne hd _ _).trans hret
    -- the call itself, from a full queue
    | overloaded =>
      rw [List.mem_singleton.mp hy] at hr ⊢
      refine told_refused (d := (u, id)) (Untouched.refl _) hun hc.installed ?_ ?_ (Function.update_self _ _ _) hnone hr
      · rw [admitted_task]
      · rw [admitted_task]
        exact Int.le_trans hstart hclock
  | taken thread id hmade hp hes =>
    rw [List.mem_singleton.mp hy] at hnew
    exact (hnew _ rfl rfl).elim
  | clockRead hk hclock =>
    rw [List.mem_singleton.mp hy] at hnew
    exact (hnew _ rfl rfl).elim
  | returned env hk hret =>
    rw [List.mem_singleton.mp hy] at hnew
    exact (hnew _ rfl rfl).elim
  | thrown fails draw hk hown hv =>
    rw [List.mem_singleton.mp hy] at hnew
    exact (hnew _ rfl rfl).elim
  | journalled hk =>
    rw [List.mem_singleton.mp hy] at hnew
    exact (hnew _ rfl rfl).elim
  -- a worker settles its call with what it has
  | @settled k c x hk hx hpend =>
    rw [List.mem_singleton.mp hy] at hr ⊢
    have hcok : (Seat.served c).Ok s.world := hok _ List.mem_cons_self
    have hcstory : (Seat.served c).Story recorders s := hstory _ List.mem_cons_self
    obtain ⟨p, d, stage⟩ := c
    have hstate : ((s.world.settled d.1 x).tasks d.1).promise_.state = some (.value r) := hr
    rw [settled_state] at hstate
    cases hstate
    cases stage with
    | running readings => cases hx
    | returned r' => cases hx
    | thrown y => cases hx
    | written r' =>
      cases hx
      exact told_settled rfl rfl rfl hcok hcstory
  | reconfigured e hr hpool hlimits hsame => cases hy

end Stories

namespace Stories
variable {recorders : List RecorderRef} {q : QueueRef} {s t : Calls} {e : Step} {old : List Seat}
  {new : Option Seat}

/-- Every regular step keeps the invariant. -/
theorem step (hs : Stories recorders q s) (hc : Custody recorders q s) (h : Stepped q s e old new t)
    (hregular : Regular s e) : Stories recorders q t := by
  obtain ⟨rest, hbefore, hafter⟩ := h.moves hc.queueMade
  have hct := hc.step h
  have hseats : ∀ x, new = some x → x ∈ seats q t := fun x hx =>
    hafter.mem_iff.mpr (List.mem_append_left _ (Option.mem_toList.mpr hx))
  have hapart := (hbefore.map Seat.task).nodup_iff.mp hc.single
  rw [List.map_append, List.nodup_append] at hapart
  refine ⟨h.limits hregular hs.limits, fun x hx => ?_, fun u r hr => ?_, fun u hu => ?_⟩
  · by_cases hnew : new = some x
    · exact hs.story_new hc h hregular hnew
    -- a seat that stays is of a call the step does not touch
    · rcases List.mem_append.mp (hafter.mem_iff.mp hx) with hmem | hmem
      · exact absurd (Option.mem_toList.mp hmem) hnew
      · obtain ⟨hu, hids, hbegun⟩ := h.untouched (u := x.task)
          (fun y hy heq => hapart.2.2 _ (List.mem_map_of_mem hy) _ (List.mem_map_of_mem hmem) heq)
          (fun y hy heq => hnew (hy.trans (congrArg some (hct.task_inj (hseats y hy) hx heq))))
        exact (hs.seated x (hbefore.mem_iff.mpr (List.mem_append_right _ hmem))).untouched hu hids hbegun h.clock
  · by_cases hnew : ∃ x, new = some x ∧ x.task = u
    -- who gets a seat has no result
    · obtain ⟨x, hx, rfl⟩ := hnew
      exact absurd hr (Seat.no_result (hct.known x (hseats x hx)).2 (hs.story_new hc h hregular hx) r)
    · have hnone : ∀ x, new = some x → x.task ≠ u := fun x hx heq => hnew ⟨x, hx, heq⟩
      by_cases hold : ∃ y ∈ old, y.task = u
      · obtain ⟨y, hy, rfl⟩ := hold
        exact hs.told_old hc h hy hnone hr
      · obtain ⟨hu, hids, hbegun⟩ := h.untouched (fun y hy heq => hold ⟨y, hy, heq⟩) hnone
        rw [hu.task] at hr
        exact (hs.told u r hr).untouched hu hids hbegun
  · have hmade : ∀ x ∈ seats q t, x.task ≠ u := by
      intro x hx heq
      have hlt := (hct.known x hx).1
      rw [heq] at hlt
      exact Nat.not_lt.mpr hu hlt
    have hold : ∀ y ∈ old, y.task ≠ u := by
      intro y hy heq
      have hlt := Nat.lt_of_lt_of_le (hc.known y ((hc.old_seats h).1 y hy)).1 h.taskCount
      rw [heq] at hlt
      exact Nat.not_lt.mpr hu hlt
    rw [(h.untouched hold (fun x hx => hmade x (hseats x hx))).2.2]
    exact hs.unmade u (Nat.le_trans h.taskCount hu)

end Stories

/-! From the beginning. -/

theorem assemble_blank {operators limit : Nat} {recorders : List RecorderRef} {minMax : Int × Int}
    {logger : Bool} {m : Manager} {w : World}
    (h : (CallFlow.assemble operators limit recorders minMax logger).run .empty = (.ok m, w)) :
    m.RMin_ = minMax.1 ∧ m.RMax_ = minMax.2 ∧ w.tasks = World.empty.tasks := by
  obtain ⟨p, w₁, h₁, h⟩ := Exec.bind_eq_ok h
  obtain ⟨_, w₂, h₂, h⟩ := Exec.bind_eq_ok h
  obtain ⟨_, w₃, h₃, h⟩ := Exec.bind_eq_ok h
  cases h
  refine ⟨rfl, rfl, ?_⟩
  have hinstall : Respects SameTasks (CallFlow.installRecorders p recorders) := by
    refine SameTasks.bind SameTasks.refl (fun pool => ?_)
    cases pool.task_queue with
    | none => exact SameTasks.refl
    | some q => exact SameTasks.modifyQueue q _
  rw [(hinstall.of_run h₃).1, ((SameTasks.setLogger p logger).of_run h₂).1,
    ((SameTasks.construct operators limit).of_run h₁).1]

theorem stories_assemble {operators limit : Nat} {recorders : List RecorderRef} {minMax : Int × Int}
    {logger : Bool} {m : Manager} {w : World}
    (h : (CallFlow.assemble operators limit recorders minMax logger).run .empty = (.ok m, w))
    (hlimits : minMax.1 ≤ minMax.2) (clock : TimePoint) : Stories recorders 0 (initial m w clock) := by
  obtain ⟨hmin, hmax, htasks⟩ := assemble_blank h
  have hseats : seats 0 (initial m w clock) = [] := by
    have hempty : ((initial m w clock).world.queues 0).queue_ = [] := (CallFlow.fresh_assemble h).empty 0
    rw [seats, hempty]
    rfl
  refine ⟨?_, fun x hx => ?_, fun t r hr => ?_, fun _ _ => rfl⟩
  · show m.RMin_ ≤ m.RMax_
    rw [hmin, hmax]
    exact hlimits
  · rw [hseats] at hx
    cases hx
  · have hstate : (w.tasks t).promise_.state = some (.value r) := hr
    rw [htasks] at hstate
    cases hstate

/-- In every run of regular steps, the CDR of each call that ended with a result and
the result tell the same story. -/
theorem told_of_run {hash : ThreadId → UInt64} {operators limit : Nat} {recorders : List RecorderRef}
    {minMax : Int × Int} {logger : Bool} {m : Manager} {w : World} {clock : TimePoint} {steps : List Step}
    {s : Calls} (h₀ : (CallFlow.assemble operators limit recorders minMax logger).run .empty = (.ok m, w))
    (hlimits : minMax.1 ≤ minMax.2) (h : (system hash).run (initial m w clock) steps = some s)
    (hregular : (system hash).Along Regular (initial m w clock) steps) (t : TaskRef) (r : Result)
    (hr : (s.world.tasks t).promise_.state = some (.value r)) : Told recorders s t r := by
  have hinv : Custody recorders 0 s ∧ Stories recorders 0 s := by
    apply Transition.System.run_inv_along _ h hregular
    · exact ⟨custody_assemble h₀ clock, stories_assemble h₀ hlimits clock⟩
    · intro s e u hs hok hstep
      obtain ⟨old, new, hstepped⟩ := hs.1.stepped hstep
      exact ⟨hs.1.step hstepped, hs.2.step hs.1 hstepped hok⟩
  exact hinv.2.told t r hr

/-- Four calls come, the second with the number of the first, which it evicts, and the
fourth to a full queue. The second is completed, and the third taken too late. -/
def fourEnds : List Step :=
  let second : TimePoint := 1000000000
  [.startThreadPool, .arrive ['1'] 0, .arrive ['1'] second, .addTask 0 1 second, .addTask 0 2 second,
    .setMinMax (1, 4), .arrive ['2'] second, .addTask 0 3 second, .arrive ['3'] second,
    .addTask 0 4 second, .take 9 0, .readClock 0 (2 * second), .readClock 0 (2 * second),
    .readClock 0 (14 * second), .doTask 0 (fun _ => none) 12, .writeCDR 0, .take 9 0, .settle 0,
    .readClock 0 (15 * second), .readClock 0 (15 * second), .readClock 0 (15 * second),
    .doTask 0 (fun _ => none) 0, .writeCDR 0, .settle 0]

/-- Those calls with room for two and two recorders. -/
def afterFourEnds : Option Calls :=
  match (CallFlow.assemble 1 2 [0, 1] (10, 15) true).run .empty with
  | (.ok m, w) =>
    if (system (fun _ => 7)).Along Regular (initial m w 0) fourEnds then
      (system (fun _ => 7)).run (initial m w 0) fourEnds
    else none
  | _ => none

/-- What the promises of the first calls hold. -/
def Calls.results (s : Calls) (n : Nat) : List (Option (Settled Result)) :=
  (List.range n).map (fun t => (s.world.tasks t).promise_.state)

/-- What the four clients are told. -/
def fourResults : List (Option (Settled Result)) :=
  [⟨.Duplication, 0, 8⟩, ⟨.Completed, 12, 8⟩, ⟨.Timeout, 0, 9⟩, ⟨.Overloaded, 0, 10⟩].map
    (fun r : Result => some (.value r))

theorem told_fourEnds : ∃ s, afterFourEnds = some s ∧
    (List.range 4).map (fun t => (s.world.tasks t).cdr.status) = [.Duplication, .Completed, .Timeout, .Overloaded] ∧
    s.results 4 = fourResults ∧
    ∀ t r, (s.world.tasks t).promise_.state = some (.value r) → Told [0, 1] s t r := by
  have hsome : afterFourEnds.isSome = true := by decide +kernel
  obtain ⟨s, hs⟩ := Option.isSome_iff_exists.mp hsome
  have hstatus : afterFourEnds.map (fun s => (List.range 4).map (fun t => (s.world.tasks t).cdr.status)) =
      some [.Duplication, .Completed, .Timeout, .Overloaded] := by
    decide +kernel
  have hresults : afterFourEnds.map (fun s => s.results 4) = some fourResults := by decide +kernel
  rw [hs, Option.map_some, Option.some_inj] at hstatus hresults
  refine ⟨s, hs, hstatus, hresults, ?_⟩
  unfold afterFourEnds at hs
  split at hs
  · rename_i m w hassemble
    split at hs
    · rename_i hregular
      exact told_of_run hassemble (by decide) hs hregular
    · cases hs
  · cases hs

end CallSteps

end ProteiCov
