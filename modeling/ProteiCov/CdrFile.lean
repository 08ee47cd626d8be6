import ProteiCov.CallProgress
import ProteiCov.Recorder
import ProteiCov.Answers

/-
  The CDR file after a run

  The recorders of a call centre are passed the CDR of each call that ends, and each
  writes a line of its file. What `told_of_run` says of the history of effects is here
  said of the text: `file_tells` reads the file of one recorder back and finds the CDRs the
  recorder was passed, one of them for every call that ended with a result, and in its line
  the number of the call and the CallID, status and duration its client was given, which
  are also what the client reads off its response.

  That the numbers have no separator in them is asked of the calls that arrive; no time
  is before the epoch, because the clock is not when the run begins and never goes back.
-/

namespace ProteiCov
open Cpp Text

/-- What a recorder was passed, with the calls it was about. -/
def recordsOf (rec : RecorderRef) (es : List Event) : List (TaskRef × CDR) :=
  es.filterMap (fun e => match e with
    | .record r t c => if r = rec then some (t, c) else none
    | _ => none)

/-- The file of a recorder that was made before the run. -/
def World.cdrFile (put_time : Int → List Char) (w : World) (rec : RecorderRef) : List Char :=
  FileRecorder.journal put_time (.construct :: (recordsOf rec w.trace).map (fun x => .makeRecord x.2))

theorem mem_recordsOf {rec : RecorderRef} {es : List Event} {x : TaskRef × CDR} (h : x ∈ recordsOf rec es) :
    .record rec x.1 x.2 ∈ es := by
  obtain ⟨e, he, hx⟩ := List.mem_filterMap.mp h
  cases e with
  | record r t c =>
    simp only [Option.ite_none_right_eq_some, Option.some_inj] at hx
    obtain ⟨rfl, rfl⟩ := hx
    exact he
  | settle _ _ | readNumber _ | sleep _ _ => cases hx

theorem recorded_records (xs : List (TaskRef × CDR)) :
    recorded (.construct :: xs.map (fun x => .makeRecord x.2)) = xs.map (fun x => x.2) := by
  induction xs with
  | nil => rfl
  | cons x xs ih =>
    rw [List.map_cons, List.map_cons, ← ih]
    rfl

/-- The lines of a call are what the recorder was passed about it. -/
theorem filter_recordsOf (rec : RecorderRef) (t : TaskRef) (es : List Event) :
    (recordsOf rec es).filter (fun x => x.1 = t) =
      ((journalOf t es).filter (fun x => x.1 = rec)).map (fun x => (t, x.2)) := by
  induction es with
  | nil => rfl
  | cons e es ih =>
    cases e with
    | record r u c =>
      by_cases hr : r = rec <;> by_cases hu : u = t <;> simp_all [recordsOf, journalOf]
    | settle _ _ | readNumber _ | sleep _ _ => exact ih

theorem filter_recorders {recorders : List RecorderRef} (hnodup : recorders.Nodup) {rec : RecorderRef}
    (hrec : rec ∈ recorders) (c : CDR) :
    (recorders.map (fun r => (r, c))).filter (fun x => x.1 = rec) = [(rec, c)] := by
  have hfilter : recorders.filter (fun r => r = rec) = [rec] := by
    rw [List.filter_eq, List.count_eq_one_of_mem hnodup hrec, List.replicate_one]
  rw [List.filter_map]
  exact congrArg (List.map _) hfilter

/-! What the lines are made of. -/

/-- A CDR for the number whose line can be read back. -/
structure CDR.Legible (number : List Char) (cdr : CDR) : Prop where
  own : cdr.number = number
  separable : Separable cdr.number
  times : cdr.Timely

/-- The CDR of a call to the number that is not over. -/
structure CDR.Begun (number : List Char) (cdr : CDR) : Prop where
  own : cdr.number = number
  separable : Separable cdr.number
  startTime : 0 ≤ cdr.startTime

/-- Whatever was recorded between two worlds meets `P`. -/
def Records (P : TaskRef → CDR → Prop) (w v : World) : Prop :=
  ∃ es, v.trace = w.trace ++ es ∧ ∀ rec t cdr, Event.record rec t cdr ∈ es → P t cdr

namespace Records
variable {P : TaskRef → CDR → Prop} {w v u : World}

theorem of_quiet {es : List Event} (hv : v.trace = w.trace ++ es) (hes : ∀ e ∈ es, e.quiet = true) :
    Records P w v := by
  refine ⟨es, hv, fun rec t cdr hmem => ?_⟩
  cases hes _ hmem

theorem of_trace (h : v.trace = w.trace) : Records P w v := by
  refine ⟨[], by simpa using h, fun rec t cdr hmem => ?_⟩
  cases hmem

theorem of_undisturbed (h : Undisturbed w v) : Records P w v := by
  obtain ⟨es, htrace, hes⟩ := h.trace
  exact of_quiet htrace hes

theorem trans (h : Records P w v) (h' : Records P v u) : Records P w u := by
  obtain ⟨es, hes, hleg⟩ := h
  obtain ⟨fs, hfs, hleg'⟩ := h'
  refine ⟨es ++ fs, by rw [hfs, hes, List.append_assoc], fun rec t cdr hmem => ?_⟩
  rcases List.mem_append.mp hmem with hmem | hmem
  · exact hleg rec t cdr hmem
  · exact hleg' rec t cdr hmem

theorem settled (w : World) (t : TaskRef) (x : Settled Result) : Records P w (w.settled t x) :=
  ⟨[.settle t x], rfl, by simp⟩

theorem setEntries (h : Records P w v) (q : QueueRef) (es : List (TaskRef × CallID)) :
    Records P w (v.setEntries q es) := h

theorem journal {t : TaskRef} (q : QueueRef) (h : P t (w.tasks t).cdr) : Records P w (w.journal q t) := by
  refine ⟨_, rfl, fun rec u cdr hmem => ?_⟩
  obtain ⟨r, _, heq⟩ := List.mem_map.mp hmem
  cases heq
  exact h

theorem refused {e : TaskRef × CallID} {now : TimePoint} (q : QueueRef) (isDuplication : Bool)
    (h : P e.1 (Queue.refusedCDR isDuplication now (w.tasks e.1).cdr)) :
    Records P w (w.refused q now e isDuplication) := by
  refine trans (v := w.closed q now e.1 isDuplication) ?_ (settled _ e.1 _)
  refine ⟨_, rfl, fun rec u cdr hmem => ?_⟩
  obtain ⟨r, _, heq⟩ := List.mem_map.mp hmem
  cases heq
  rw [World.mapCDR_cdr]
  exact h

end Records

namespace CallSteps

/-- The step is regular, and a number that arrives has no separator in it. -/
def Legible (s : Calls) (e : Step) : Prop :=
  Regular s e ∧ match e with
    | .arrive number _ => Separable number
    | _ => True

instance legibleDecidable (s : Calls) : DecidablePred (Legible s)
  | .arrive number now => inferInstanceAs (Decidable (Regular s (.arrive number now) ∧ Separable number))
  | .addTask _ _ _ | .take _ _ | .readClock _ _ | .doTask _ _ _ | .writeCDR _ | .settle _ | .startThreadPool
  | .stopThreadPool | .setMinMax _ | .updateQueue _ | .swap _ _ => instDecidableAnd

/-- The CDR of a call with a seat, unless its `doTask` threw. -/
def Seat.Fits (w : World) : Seat → Prop
  | .made t => (w.tasks t).cdr.Begun (w.tasks t).number_
  | .waiting e => (w.tasks e.1).cdr.Begun (w.tasks e.1).number_
  | .served ⟨_, _, .thrown _⟩ => True
  | .served ⟨_, e, _⟩ => (w.tasks e.1).cdr.Begun (w.tasks e.1).number_

theorem Seat.Fits.congr {x : Seat} {w v : World} (h : x.Fits w) (htask : v.tasks x.task = w.tasks x.task) :
    x.Fits v := by
  cases x with
  | made t =>
    show (v.tasks t).cdr.Begun (v.tasks t).number_
    rw [show v.tasks t = w.tasks t from htask]
    exact h
  | waiting e =>
    show (v.tasks e.1).cdr.Begun (v.tasks e.1).number_
    rw [show v.tasks e.1 = w.tasks e.1 from htask]
    exact h
  | served c =>
    obtain ⟨p, e, stage⟩ := c
    cases stage with
    | thrown y => trivial
    | running _ | returned _ | written _ =>
      show (v.tasks e.1).cdr.Begun (v.tasks e.1).number_
      rw [show v.tasks e.1 = w.tasks e.1 from htask]
      exact h

/-- The CDR is for the number of the call, and its line can be read back. -/
def Line (w : World) (t : TaskRef) (cdr : CDR) : Prop :=
  t < w.taskCount ∧ cdr.Legible (w.tasks t).number_

/-- The invariant: the clock, the CDRs of the calls under way and the lines so far. -/
structure Filing (q : QueueRef) (s : Calls) : Prop where
  clock : 0 ≤ s.clock
  seated : ∀ x ∈ seats q s, x.Fits s.world
  lines : ∀ rec t cdr, Event.record rec t cdr ∈ s.world.trace → Line s.world t cdr

section
variable {recorders : List RecorderRef} {q : QueueRef} {s t : Calls} {e : Step} {old : List Seat}
  {new : Option Seat}

theorem Line.refused {w : World} {t : TaskRef} {number : List Char} {cdr : CDR} {isDuplication : Bool}
    {now : TimePoint} (ht : t < w.taskCount) (hnumber : (w.tasks t).number_ = number) (h : cdr.Begun number)
    (hnow : 0 ≤ now) : Line w t (Queue.refusedCDR isDuplication now cdr) :=
  ⟨ht, h.own.trans hnumber.symm, h.separable, h.startTime, hnow, hnow⟩

theorem PushedTo.records {P : TaskRef → CDR → Prop} {now : TimePoint} {d : TaskRef × CallID} {w v : World}
    (h : PushedTo q now d w old new v)
    (hP : ∀ x isDuplication, x = d ∨ x ∈ (w.queues q).queue_ →
      P x.1 (Queue.refusedCDR isDuplication now (w.tasks x.1).cdr)) : Records P w v := by
  have hsearched : Records P w (Queue.searched w q d.1) :=
    Records.of_undisturbed (undisturbed_searched w q d.1)
  cases h with
  | fresh => exact hsearched.setEntries _ _
  | duplicate i x hi =>
    have hx : P x.1 (Queue.refusedCDR true now ((Queue.searched w q d.1).tasks x.1).cdr) :=
      hP x true (Or.inr (List.mem_of_getElem? hi))
    exact (hsearched.trans (Records.refused q true hx)).setEntries _ _
  | overloaded => exact Records.refused q false (hP d false (Or.inl rfl))

theorem Filing.records (hs : Filing q s) (hc : Custody recorders q s) (hst : Stories recorders q s)
    (h : Stepped q s e old new t) : Records (Line s.world) s.world t.world := by
  have hseat : ∀ y ∈ old, y ∈ seats q s := (hc.old_seats h).1
  have hfits : ∀ y ∈ old, y.Fits s.world := fun y hy => hs.seated y (hseat y hy)
  cases h with
  | arrived number now hclock => exact Records.of_quiet rfl (arrived_quiet _ _)
  | dropped thread hk hclock => exact Records.of_quiet rfl (by simp [Event.quiet])
  | @added k u now id out _ v thread hk hclock hlog hpush =>
    have hadmitted : Records (Line s.world) s.world (s.world.admitted u id) := by
      have htrace : (s.world.admitted u id).trace = s.world.trace ++ [.readNumber u, .readNumber u] := by
        simp [World.admitted, World.retrieved, Task.identified]
      exact Records.of_quiet htrace (by simp [Event.quiet])
    have hmade := seat_made (q := q) (List.mem_of_getElem? hk)
    have hnow : 0 ≤ now := Int.le_trans hs.clock hclock
    refine hadmitted.trans (hpush.records (fun x isDuplication hx => ?_))
    rcases hx with rfl | hx
    · have hbegun : (s.world.tasks u).cdr.Begun (s.world.tasks u).number_ := hs.seated _ hmade
      rw [admitted_task]
      exact Line.refused (hc.known _ hmade).1 rfl ⟨hbegun.own, hbegun.separable, hbegun.startTime⟩ hnow
    · have hbegun : (s.world.tasks x.1).cdr.Begun (s.world.tasks x.1).number_ := hs.seated _ (seat_waiting hx)
      have hne : x.1 ≠ u := by
        intro heq
        cases hc.task_inj (seat_waiting hx) hmade heq
      rw [admitted_tasks _ _ _ hne]
      exact Line.refused (hc.known _ (seat_waiting hx)).1 rfl hbegun hnow
  | taken thread id hmade hp hes => exact Records.of_quiet rfl (by simp [Event.quiet])
  | clockRead hk hclock => exact Records.of_trace rfl
  | returned env hk hret => exact Records.of_undisturbed (served_undisturbed hret)
  | @thrown k p d readings x u v fails draw hk hown hv =>
    obtain ⟨es, htrace, hes⟩ := hown.trace
    have hbody : Records (Line s.world) s.world u :=
      Records.of_quiet htrace (fun x hx => Event.quiet_of_own (hes x hx))
    rcases hv with rfl | ⟨_, y, rfl⟩
    · exact hbody
    · exact hbody.trans (Records.settled u d.1 _)
  | @journalled k p d r hk =>
    -- a call that returned has its three times in order
    have hbegun : (s.world.tasks d.1).cdr.Begun (s.world.tasks d.1).number_ :=
      hfits (.served ⟨p, d, .returned r⟩) List.mem_cons_self
    have htells : Tells (s.world.tasks d.1) r (s.ids d.1) (s.begun d.1) :=
      hst.seated (.served ⟨p, d, .returned r⟩) (hseat _ List.mem_cons_self)
    have hanswered := Int.le_trans hbegun.startTime htells.answered
    exact Records.journal q ⟨(hc.known _ (hseat _ List.mem_cons_self)).1, hbegun.own, hbegun.separable,
      hbegun.startTime, Int.le_trans hanswered htells.ended, hanswered⟩
  | settled hk hx hpend => exact Records.settled _ _ _
  | reconfigured e hr hpool hlimits hsame => exact Records.of_trace hr.trace

theorem Filing.fits_new (hs : Filing q s) (hc : Custody recorders q s) (h : Stepped q s e old new t)
    (hlegible : Legible s e) {x : Seat} (hx : new = some x) : x.Fits t.world := by
  obtain ⟨hold, hnodup⟩ := hc.old_seats h
  have hfits : ∀ y ∈ old, y.Fits s.world := fun y hy => hs.seated y (hold y hy)
  cases h with
  | arrived number now hclock =>
    cases hx
    show CDR.Begun ((s.world.arrived (s.newTask number now)).tasks s.world.taskCount).number_
      ((s.world.arrived (s.newTask number now)).tasks s.world.taskCount).cdr
    have htask : (s.world.arrived (s.newTask number now)).tasks s.world.taskCount = s.newTask number now := by
      simp [World.arrived]
    rw [htask]
    exact ⟨rfl, hlegible.2, Int.le_trans hs.clock hclock⟩
  | dropped thread hk hclock => cases hx
  | @added k u now id out _ v thread hk hclock hlog hpush =>
    subst hx
    have hmade : (s.world.tasks u).cdr.Begun (s.world.tasks u).number_ := hfits (.made u) List.mem_cons_self
    have hout : ∀ y ∈ out, y.task ≠ u := by
      intro y hy heq
      rw [List.map_cons, List.nodup_cons] at hnodup
      exact hnodup.1 (List.mem_map.mpr ⟨y, hy, heq⟩)
    obtain ⟨rfl, hkept⟩ := hpush.kept hout
    show (v.tasks u).cdr.Begun (v.tasks u).number_
    rw [hkept.task, admitted_task]
    exact ⟨hmade.own, hmade.separable, hmade.startTime⟩
  | @taken p d rest thread id hmade hp hes =>
    cases hx
    have hwaiting : (s.world.tasks d.1).cdr.Begun (s.world.tasks d.1).number_ :=
      hfits (.waiting d) List.mem_cons_self
    have hself := World.mapCDR_self s.world d.1 (fun c => { c with operatorID := id })
    show CDR.Begun ((s.world.mapCDR d.1 (fun c => { c with operatorID := id })).tasks d.1).number_
      ((s.world.mapCDR d.1 (fun c => { c with operatorID := id })).tasks d.1).cdr
    rw [hself]
    exact ⟨hwaiting.own, hwaiting.separable, hwaiting.startTime⟩
  | @clockRead k p d readings now hk hclock =>
    cases hx
    exact hfits (.served ⟨p, d, .running readings⟩) List.mem_cons_self
  | @returned k p d env hk hret =>
    cases hx
    have hrunning : (s.world.tasks d.1).cdr.Begun (s.world.tasks d.1).number_ :=
      hfits (.served ⟨p, d, .running _⟩) List.mem_cons_self
    show CDR.Begun ((s.world.served env d.1).tasks d.1).number_ ((s.world.served env d.1).tasks d.1).cdr
    have hself : (s.world.served env d.1).tasks d.1 = { s.world.tasks d.1 with
        cdr := servedCDR env (s.world.tasks d.1) (s.world.tasks d.1).cdr } := by
      simp [World.served]
    rw [hself]
    exact ⟨hrunning.own, hrunning.separable, hrunning.startTime⟩
  | thrown fails draw hk hown hv =>
    cases hx
    trivial
  | @journalled k p d r hk =>
    cases hx
    exact hfits (.served ⟨p, d, .returned r⟩) List.mem_cons_self
  | settled hk hx' hpend => cases hx
  | reconfigured e hr hpool hlimits hsame => cases hx

/-- Every legible step keeps the invariant. -/
theorem Filing.step (hs : Filing q s) (hc : Custody recorders q s) (hst : Stories recorders q s)
    (h : Stepped q s e old new t) (hlegible : Legible s e)
    (hnumbers : ∀ u, u < s.world.taskCount → (t.world.tasks u).number_ = (s.world.tasks u).number_) :
    Filing q t := by
  obtain ⟨rest, hbefore, hafter⟩ := h.moves hc.queueMade
  have hct := hc.step h
  have hseats : ∀ x, new = some x → x ∈ seats q t := fun x hx =>
    hafter.mem_iff.mpr (List.mem_append_left _ (Option.mem_toList.mpr hx))
  have hapart := (hbefore.map Seat.task).nodup_iff.mp hc.single
  rw [List.map_append, List.nodup_append] at hapart
  refine ⟨Int.le_trans hs.clock h.clock, fun x hx => ?_, fun rec u cdr hmem => ?_⟩
  · by_cases hnew : new = some x
    · exact hs.fits_new hc h hlegible hnew
    -- a seat that stays is of a call the step does not touch
    · rcases List.mem_append.mp (hafter.mem_iff.mp hx) with hmem | hmem
      · exact absurd (Option.mem_toList.mp hmem) hnew
      · obtain ⟨hu, _, _⟩ := h.untouched (u := x.task)
          (fun y hy heq => hapart.2.2 _ (List.mem_map_of_mem hy) _ (List.mem_map_of_mem hmem) heq)
          (fun y hy heq => hnew (hy.trans (congrArg some (hct.task_inj (hseats y hy) hx heq))))
        exact (hs.seated x (hbefore.mem_iff.mpr (List.mem_append_right _ hmem))).congr hu.task
  · obtain ⟨es, htrace, hes⟩ := hs.records hc hst h
    rw [htrace] at hmem
    have hline : Line s.world u cdr := by
      rcases List.mem_append.mp hmem with hmem | hmem
      · exact hs.lines rec u cdr hmem
      · exact hes rec u cdr hmem
    refine ⟨Nat.lt_of_lt_of_le hline.1 h.taskCount, ?_⟩
    rw [hnumbers u hline.1]
    exact hline.2

end

/-! The file of a whole run. -/

/-- A line of the file tells of the call what its client was told. -/
structure Agrees (s : Calls) (t : TaskRef) (r : Result) (line : Reading) : Prop where
  callID : line.callID = r.callID ∧ s.ids t = some line.callID
  status : line.status = r.status
  callDuration : line.callDuration = r.callDuration
  number : line.number = (s.world.tasks t).number_
  /-- The client reads the same off the body of its response. -/
  response : readReply (HttpServer.callBody line.callID r) =
    some (.call line.callID line.callDuration line.status)

theorem filing_assemble {operators limit : Nat} {recorders : List RecorderRef} {minMax : Int × Int}
    {logger : Bool} {m : Manager} {w : World} {clock : TimePoint}
    (h : (CallFlow.assemble operators limit recorders minMax logger).run .empty = (.ok m, w))
    (hclock : 0 ≤ clock) : Filing 0 (initial m w clock) := by
  have hfresh := CallFlow.fresh_assemble h
  refine ⟨hclock, fun x hx => ?_, fun rec t cdr hmem => ?_⟩
  · rw [seats_assemble h clock] at hx
    cases hx
  · have hmem' : Event.record rec t cdr ∈ w.trace := hmem
    rw [hfresh.trace] at hmem'
    cases hmem'

theorem Filing.file {put_time : Int → List Char} (hinj : Function.Injective put_time) (hmarks : Unmarked put_time)
    {recorders : List RecorderRef} {q : QueueRef} {s : Calls} (hs : Filing q s) (hst : Stories recorders q s)
    (hrecorders : recorders.Nodup) {rec : RecorderRef} (hrec : rec ∈ recorders) :
    readJournal put_time (s.world.cdrFile put_time rec) =
        some ((recordsOf rec s.world.trace).map (fun x => x.2.reading)) ∧
      ∀ t r, (s.world.tasks t).promise_.state = some (.value r) →
        ∃ cdr, (recordsOf rec s.world.trace).filter (fun x => x.1 = t) = [(t, cdr)] ∧ Agrees s t r cdr.reading := by
  have hlines : ∀ x ∈ recordsOf rec s.world.trace, Line s.world x.1 x.2 :=
    fun x hx => hs.lines rec x.1 x.2 (mem_recordsOf hx)
  refine ⟨?_, fun t r hr => ?_⟩
  · let recordings : List Recording :=
      .construct :: (recordsOf rec s.world.trace).map (fun x => .makeRecord x.2)
    have hrecorded : recorded recordings = (recordsOf rec s.world.trace).map (fun x => x.2) :=
      recorded_records _
    have hlegible : ∀ cdr ∈ recorded recordings, ∃ number, cdr.Legible number := by
      intro cdr hcdr
      rw [hrecorded] at hcdr
      obtain ⟨x, hx, rfl⟩ := List.mem_map.mp hcdr
      exact ⟨_, (hlines x hx).2⟩
    have hread : readJournal put_time (FileRecorder.journal put_time recordings) =
        some ((recorded recordings).map CDR.reading) := by
      refine readJournal_of_separable hinj hmarks (fun cdr hcdr => ?_) (fun cdr hcdr => ?_)
      · obtain ⟨_, h⟩ := hlegible cdr hcdr
        exact h.times
      · obtain ⟨_, h⟩ := hlegible cdr hcdr
        exact h.separable
    rw [hrecorded, List.map_map] at hread
    exact hread
  · have htold := hst.told t r hr
    have hone : (recordsOf rec s.world.trace).filter (fun x => x.1 = t) = [(t, (s.world.tasks t).cdr)] := by
      rw [filter_recordsOf, htold.journal, filter_recorders hrecorders hrec]
      rfl
    have hmem : (t, (s.world.tasks t).cdr) ∈ (recordsOf rec s.world.trace).filter (fun x => x.1 = t) := by
      rw [hone]
      exact List.mem_cons_self
    refine ⟨(s.world.tasks t).cdr, hone, ⟨htold.tells.callID, ?_⟩, htold.tells.status,
      htold.tells.callDuration, (hlines _ (List.mem_of_mem_filter hmem)).2.own, ?_⟩
    · rw [htold.tells.returned]
      exact congrArg some htold.tells.callID.symm
    · rw [HttpServer.readReply_callBody, ← htold.tells.status, ← htold.tells.callDuration]
      rfl

theorem filing_of_run {hash : ThreadId → UInt64} {operators limit : Nat} {recorders : List RecorderRef}
    {minMax : Int × Int} {logger : Bool} {m : Manager} {w : World} {clock : TimePoint} {steps : List Step}
    {s : Calls} (h₀ : (CallFlow.assemble operators limit recorders minMax logger).run .empty = (.ok m, w))
    (hlimits : minMax.1 ≤ minMax.2) (hclock : 0 ≤ clock)
    (h : (system hash).run (initial m w clock) steps = some s)
    (hlegible : (system hash).Along Legible (initial m w clock) steps) :
    Stories recorders 0 s ∧ Filing 0 s := by
  have hinv : Custody recorders 0 s ∧ Stories recorders 0 s ∧ Filing 0 s := by
    apply Transition.System.run_inv_along _ h hlegible
    · exact ⟨custody_assemble h₀ clock, stories_assemble h₀ hlimits clock, filing_assemble h₀ hclock⟩
    · rintro s e u ⟨hc, hst, hf⟩ hok hstep
      obtain ⟨old, new, hstepped⟩ := hc.stepped hstep
      exact ⟨hc.step hstepped, hst.step hc hstepped hok.1, hf.step hc hst hstepped hok
        (fun x hx => congrArg (fun g => g.1) (hc.given hstep hx))⟩
  exact hinv.2

/-- The lines of the file of each recorder are those of the CDRs it was passed, in that
order, and exactly one of these CDRs is of a call that ended with a result; its line tells
of the call what the client was told. -/
theorem file_tells {put_time : Int → List Char} (hinj : Function.Injective put_time)
    (hmarks : Unmarked put_time) {hash : ThreadId → UInt64} {operators limit : Nat}
    {recorders : List RecorderRef} {minMax : Int × Int} {logger : Bool} {m : Manager} {w : World}
    {clock : TimePoint} {steps : List Step} {s : Calls}
    (h₀ : (CallFlow.assemble operators limit recorders minMax logger).run .empty = (.ok m, w))
    (hlimits : minMax.1 ≤ minMax.2) (hclock : 0 ≤ clock) (hrecorders : recorders.Nodup)
    (h : (system hash).run (initial m w clock) steps = some s)
    (hlegible : (system hash).Along Legible (initial m w clock) steps) {rec : RecorderRef}
    (hrec : rec ∈ recorders) :
    readJournal put_time (s.world.cdrFile put_time rec) =
        some ((recordsOf rec s.world.trace).map (fun x => x.2.reading)) ∧
      ∀ t r, (s.world.tasks t).promise_.state = some (.value r) →
        ∃ cdr, (recordsOf rec s.world.trace).filter (fun x => x.1 = t) = [(t, cdr)] ∧ Agrees s t r cdr.reading := by
  obtain ⟨hst, hfiling⟩ := filing_of_run h₀ hlimits hclock h hlegible
  exact hfiling.file hinj hmarks hst hrecorders hrec

/-- The four calls, with room for two and two recorders. -/
def filedFourEnds : Option Calls :=
  match (CallFlow.assemble 1 2 [0, 1] (10, 15) true).run .empty with
  | (.ok m, w) =>
    if (system (fun _ => 7)).Along Legible (initial m w 0) fourEnds then
      (system (fun _ => 7)).run (initial m w 0) fourEnds
    else none
  | _ => none

theorem file_tells_fourEnds : ∃ s, filedFourEnds = some s ∧ s.results 4 = fourResults ∧
    (recordsOf 1 s.world.trace).length = 4 ∧
    readJournal firstMinute (s.world.cdrFile firstMinute 1) =
        some ((recordsOf 1 s.world.trace).map (fun x => x.2.reading)) ∧
      ∀ t r, (s.world.tasks t).promise_.state = some (.value r) →
        ∃ cdr, (recordsOf 1 s.world.trace).filter (fun x => x.1 = t) = [(t, cdr)] ∧ Agrees s t r cdr.reading := by
  have hresults : filedFourEnds.map (fun s => s.results 4) = some fourResults := by decide +kernel
  have hlength : filedFourEnds.map (fun s => (recordsOf 1 s.world.trace).length) = some 4 := by
    decide +kernel
  obtain ⟨s, hs, hvalues⟩ := Option.map_eq_some_iff.mp hresults
  rw [hs, Option.map_some, Option.some_inj] at hlength
  refine ⟨s, hs, hvalues, hlength, ?_⟩
  unfold filedFourEnds at hs
  split at hs
  · rename_i m w hassemble
    split at hs
    · rename_i hlegible
      exact file_tells firstMinute_injective firstMinute_unmarked hassemble (by decide) (by decide)
        (by decide) hs hlegible (by decide)
    · cases hs
  · cases hs

end CallSteps

end ProteiCov
