import ProteiCov.ExecuteTask

/-
  What the world knows of one call

  A call is unresolved while its promise is pending and no recorder was passed a CDR
  of it. Four paths of the code resolve a call: an overloaded push, the eviction of
  a duplicate, a completed call and a timed-out one. Each writes the CDR to the
  recorders of a queue and then settles the promise with a result of the CDR's
  status (`Unresolved.resolve`), and leaves every other call as it was.
-/

namespace ProteiCov
open Cpp

/-- The CDRs of a task the recorders were passed, in order. -/
def journalOf (t : TaskRef) (es : List Event) : List (RecorderRef × CDR) :=
  es.filterMap (fun e => match e with
    | .record r u c => if u = t then some (r, c) else none
    | _ => none)

theorem journalOf_append (t : TaskRef) (es fs : List Event) :
    journalOf t (es ++ fs) = journalOf t es ++ journalOf t fs := by
  simp [journalOf]

theorem journalOf_quiet {t : TaskRef} {es : List Event} (h : ∀ e ∈ es, e.quiet = true) :
    journalOf t es = [] := by
  apply List.filterMap_eq_nil_iff.mpr
  intro e he
  have hq := h e he
  cases e with
  | record r u c => cases hq
  | settle u v => cases hq
  | readNumber u => rfl
  | sleep u n => rfl

theorem journalOf_records (t : TaskRef) (c : CDR) (rs : List RecorderRef) :
    journalOf t (rs.map (fun r => .record r t c)) = rs.map (fun r => (r, c)) := by
  induction rs with
  | nil => rfl
  | cons r rs ih =>
    rw [journalOf] at ih ⊢
    simp [ih]

theorem journalOf_records_other {t u : TaskRef} (h : t ≠ u) (c : CDR) (rs : List RecorderRef) :
    journalOf t (rs.map (fun r => .record r u c)) = [] := by
  apply List.filterMap_eq_nil_iff.mpr
  intro e he
  obtain ⟨r, _, rfl⟩ := List.mem_map.mp he
  simp [Ne.symm h]

/-- Nobody was told about the call. -/
structure Unresolved (w : World) (t : TaskRef) : Prop where
  pending : (w.tasks t).promise_.state = none
  settlements : settlements t w.trace = []
  journal : journalOf t w.trace = []

/-- A status a call ends with. -/
def CallStatus.final : CallStatus → Bool
  | Completed | Timeout | Duplication | Overloaded => true
  | Awaiting | Rejected => false

/-- The promise was settled once, with a result, and each of the recorders was passed
one CDR of the same status. -/
structure ResolvedWith (recorders : List RecorderRef) (w : World) (t : TaskRef) (r : Result) (c : CDR) :
    Prop where
  state : (w.tasks t).promise_.state = some (.value r)
  settlements : settlements t w.trace = [.value r]
  journal : journalOf t w.trace = recorders.map (fun rec => (rec, c))
  status : c.status = r.status
  final : r.status.final = true

def Resolved (recorders : List RecorderRef) (w : World) (t : TaskRef) : Prop :=
  ∃ r c, ResolvedWith recorders w t r c

/-- The promise was settled once, with an exception, and no recorder was passed a
CDR. -/
def Failed (w : World) (t : TaskRef) : Prop :=
  ∃ e, (w.tasks t).promise_.state = some (.exception e) ∧
    settlements t w.trace = [.exception e] ∧ journalOf t w.trace = []

/-- The call is over, one way or the other. -/
def Ended (recorders : List RecorderRef) (w : World) (t : TaskRef) : Prop :=
  Resolved recorders w t ∨ Failed w t

theorem Resolved.not_unresolved {recorders : List RecorderRef} {w : World} {t : TaskRef}
    (h : Resolved recorders w t) : ¬ Unresolved w t := by
  obtain ⟨r, c, hr⟩ := h
  intro hu
  have hstate := hr.state
  rw [hu.pending] at hstate
  cases hstate

theorem Failed.not_unresolved {w : World} {t : TaskRef} (h : Failed w t) : ¬ Unresolved w t := by
  obtain ⟨e, he, _⟩ := h
  intro hu
  rw [hu.pending] at he
  cases he

theorem Failed.not_resolved {recorders : List RecorderRef} {w : World} {t : TaskRef}
    (h : Failed w t) : ¬ Resolved recorders w t := by
  obtain ⟨e, he, _⟩ := h
  rintro ⟨r, c, hr⟩
  rw [hr.state] at he
  cases he

/-- The world knows the same of the call. -/
structure SameCall (t : TaskRef) (w v : World) : Prop where
  state : (v.tasks t).promise_.state = (w.tasks t).promise_.state
  settlements : settlements t v.trace = settlements t w.trace
  journal : journalOf t v.trace = journalOf t w.trace

namespace SameCall
variable {t u : TaskRef} {w v x : World}

theorem refl (w : World) : SameCall t w w := ⟨rfl, rfl, rfl⟩

theorem trans (h : SameCall t w v) (h' : SameCall t v x) : SameCall t w x :=
  ⟨h'.state.trans h.state, h'.settlements.trans h.settlements, h'.journal.trans h.journal⟩

theorem unresolved (h : SameCall t w v) (hw : Unresolved w t) : Unresolved v t :=
  ⟨h.state.trans hw.pending, h.settlements.trans hw.settlements, h.journal.trans hw.journal⟩

theorem resolved {recorders : List RecorderRef} (h : SameCall t w v) (hw : Resolved recorders w t) :
    Resolved recorders v t := by
  obtain ⟨r, c, hr⟩ := hw
  exact ⟨r, c, h.state.trans hr.state, h.settlements.trans hr.settlements,
    h.journal.trans hr.journal, hr.status, hr.final⟩

theorem failed (h : SameCall t w v) (hw : Failed w t) : Failed v t := by
  obtain ⟨e, he, hset, hjou⟩ := hw
  exact ⟨e, h.state.trans he, h.settlements.trans hset, h.journal.trans hjou⟩

theorem ended {recorders : List RecorderRef} (h : SameCall t w v) (hw : Ended recorders w t) :
    Ended recorders v t :=
  hw.imp h.resolved h.failed

theorem symm (h : SameCall t w v) : SameCall t v w :=
  ⟨h.state.symm, h.settlements.symm, h.journal.symm⟩

theorem of_undisturbed (h : Undisturbed w v) : SameCall t w v := by
  refine ⟨by rw [h.promise t], h.settlements t, ?_⟩
  obtain ⟨es, he, hq⟩ := h.trace
  rw [he, journalOf_append, journalOf_quiet hq, List.append_nil]

theorem of_eq (htasks : v.tasks = w.tasks) (htrace : v.trace = w.trace) : SameCall t w v := by
  refine ⟨?_, ?_, ?_⟩
  · rw [htasks]
  · rw [htrace]
  · rw [htrace]

theorem setEntries (w : World) (q : QueueRef) (es : List (TaskRef × CallID)) :
    SameCall t w (w.setEntries q es) := of_eq rfl rfl

theorem settled (h : t ≠ u) (w : World) (y : Settled Result) : SameCall t w (w.settled u y) := by
  refine ⟨?_, ?_, ?_⟩
  · simp [World.settled, h]
  · have hself : ProteiCov.settlements t [.settle u y] = [] := by
      simp [ProteiCov.settlements, Ne.symm h]
    simp only [World.settled, World.emit_trace, World.setTask_trace, settlements_append, hself,
      List.append_nil]
  · have hself : journalOf t [.settle u y] = [] := rfl
    simp only [World.settled, World.emit_trace, World.setTask_trace, journalOf_append, hself,
      List.append_nil]

theorem written (h : t ≠ u) (w : World) (q : QueueRef) : SameCall t w (w.journal q u) := by
  refine ⟨rfl, settlements_journal w q t u, ?_⟩
  simp only [World.journal, World.emit_trace, journalOf_append, journalOf_records_other h,
    List.append_nil]

theorem resolve (h : t ≠ u) (w : World) (q : QueueRef) (y : Settled Result) :
    SameCall t w ((w.journal q u).settled u y) :=
  (written h w q).trans (settled h _ y)

theorem refused {e : TaskRef × CallID} (h : t ≠ e.1) (w : World) (q : QueueRef) (now : TimePoint)
    (isDuplication : Bool) : SameCall t w (w.refused q now e isDuplication) :=
  (of_undisturbed (Undisturbed.mapCDR w e.1 _)).trans (resolve h _ q _)

end SameCall

/-- Writing the CDR of a call and settling it with a result of the same status
resolves it. -/
theorem Unresolved.resolve {w : World} {t : TaskRef} {r : Result} (h : Unresolved w t) (q : QueueRef)
    (hstatus : (w.tasks t).cdr.status = r.status) (hfinal : r.status.final = true) :
    ResolvedWith (w.queues q).recorders_ ((w.journal q t).settled t (.value r)) t r (w.tasks t).cdr where
  state := settled_state _ _ _
  settlements := by
    rw [settlements_settled, settlements_journal, h.settlements]
    rfl
  journal := by
    have hself : journalOf t [.settle t (.value r)] = [] := rfl
    simp only [World.settled, World.emit_trace, World.setTask_trace, journalOf_append, hself,
      List.append_nil, World.journal, journalOf_records, h.journal, List.nil_append]
  status := hstatus
  final := hfinal

theorem Unresolved.fail {w : World} {t : TaskRef} (h : Unresolved w t) (e : StdException) :
    Failed (w.settled t (.exception e)) t := by
  refine ⟨e, settled_state _ _ _, ?_, ?_⟩
  · rw [settlements_settled, h.settlements]
    rfl
  · have hself : journalOf t [.settle t (.exception e)] = [] := rfl
    simp only [World.settled, World.emit_trace, World.setTask_trace, journalOf_append, hself,
      List.append_nil, h.journal]

theorem Unresolved.refused {w : World} {e : TaskRef × CallID} (h : Unresolved w e.1) (q : QueueRef)
    (now : TimePoint) (isDuplication : Bool) :
    Resolved (w.queues q).recorders_ (w.refused q now e isDuplication) e.1 := by
  have hclosed : Unresolved (w.mapCDR e.1 (Queue.refusedCDR isDuplication now)) e.1 :=
    (SameCall.of_undisturbed (Undisturbed.mapCDR w e.1 _)).unresolved h
  refine ⟨_, _, hclosed.resolve q ?_ ?_⟩
  · rw [World.mapCDR_cdr]
    rfl
  · cases isDuplication <;> rfl

end ProteiCov
