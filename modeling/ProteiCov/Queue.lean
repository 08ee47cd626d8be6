import ProteiCov.Task

/-
  `TP::Queue`: admission, eviction of a waiting duplicate, and the journal

  A push is rejected when the queue holds `sizeOfQueue` entries or more;
  otherwise a waiting entry with the same number is resolved as a duplicate and
  erased, and the new entry goes to the back. `now` is the reading of the clock
  the push makes when it closes a CDR.

  `run_push_overloaded`, `run_push_fresh` and `run_push_duplicate` give the world
  after a push on each of its paths; the code above the queue is reasoned about
  through them.
-/

namespace ProteiCov
open Cpp

/-- The value an `int` has as a `std::size_t`. -/
def toSizeT (n : Int) : Nat := (n % 2 ^ 64).toNat

namespace Queue

/-- `Queue(size)`: `reserve` throws for a negative size. -/
def construct (size : Int) : Exec World QueueRef :=
  if size < 0 then .throw .length_error
  else newQueue { queue_ := [], sizeOfQueue := toSizeT size, logger_ := false, recorders_ := [] }

/-- `recorder->makeRecord(cdr)` with the CDR of the task `t`. -/
def makeRecord (t : TaskRef) (cdr : CDR) (r : RecorderRef) : Exec World Unit :=
  emit (.record r t cdr)

/-- The loop of `writeCDR` over the installed recorders. -/
def makeRecords (t : TaskRef) (cdr : CDR) : List RecorderRef → Exec World Unit
  | [] => pure ()
  | r :: rs => do
    makeRecord t cdr r
    makeRecords t cdr rs

/-- `writeCDR(task->cdr)`. -/
def writeCDR (q : QueueRef) (t : TaskRef) : Exec World Unit := do
  let task ← readTask t
  let queue ← readQueue q
  makeRecords t task.cdr queue.recorders_

/-- The CDR of a call that no operator took. -/
def refusedCDR (isDuplication : Bool) (now : TimePoint) (cdr : CDR) : CDR :=
  { cdr with
    status := if isDuplication then .Duplication else .Overloaded
    operatorID := 0
    callDuration := 0
    endTime := now
    operatorCallTime := now }

def processCDR (q : QueueRef) (now : TimePoint) (t : TaskRef) (isDuplication : Bool) :
    Exec World Unit := do
  modifyCDR t (refusedCDR isDuplication now)
  writeCDR q t

def handleOverloadedTask (q : QueueRef) (now : TimePoint) (e : TaskRef × CallID) :
    Exec World Unit := do
  processCDR q now e.1 false
  set_value e.1 { status := .Overloaded, callDuration := 0, callID := e.2 }

/-- `find_if` for an entry with the number: the place of the first one, and the
entry. -/
def find_if (number : List Char) :
    List (TaskRef × CallID) → Exec World (Option (Nat × (TaskRef × CallID)))
  | [] => pure none
  | e :: rest => do
    let n ← Task.getNumber e.1
    if n = number then return some (0, e)
    let found ← find_if number rest
    return found.map (fun p => (p.1 + 1, p.2))

/-- The branch of `handleTask` taken when the search found a waiting duplicate. -/
def evict (q : QueueRef) (now : TimePoint) : Option (Nat × (TaskRef × CallID)) → Exec World Unit
  | none => pure ()
  | some (i, d) => do
    processCDR q now d.1 true
    set_value d.1 { status := .Duplication, callDuration := 0, callID := d.2 }
    modifyQueue q (fun k => { k with queue_ := k.queue_.eraseIdx i })

def handleTask (q : QueueRef) (now : TimePoint) (e : TaskRef × CallID) : Exec World Unit := do
  let taskNumber ← Task.getNumber e.1
  let queue ← readQueue q
  let it ← find_if taskNumber queue.queue_
  evict q now it
  modifyQueue q (fun k => { k with queue_ := k.queue_ ++ [e] })

def push (q : QueueRef) (now : TimePoint) (e : TaskRef × CallID) : Exec World Bool := do
  let queue ← readQueue q
  if queue.queue_.length ≥ queue.sizeOfQueue then
    handleOverloadedTask q now e
    return false
  handleTask q now e
  return true

/-- `front()` on an empty vector is undefined. -/
def front (q : QueueRef) : Exec World (TaskRef × CallID) := do
  let queue ← readQueue q
  match queue.queue_ with
  | [] => .undefined
  | e :: _ => return e

/-- `pop()` erases at `cbegin()`, undefined on an empty vector. -/
def pop (q : QueueRef) : Exec World Unit := do
  let queue ← readQueue q
  match queue.queue_ with
  | [] => .undefined
  | _ :: rest => modifyQueue q (fun k => { k with queue_ := rest })

def update (q : QueueRef) (size : Int) : Exec World Unit :=
  modifyQueue q (fun k => { k with sizeOfQueue := toSizeT size })

def setLogger (q : QueueRef) (logger : Bool) : Exec World Unit :=
  modifyQueue q (fun k => { k with logger_ := logger })

def setRecorders (q : QueueRef) (recorders : List RecorderRef) : Exec World Unit :=
  modifyQueue q (fun k => { k with recorders_ := recorders })

end Queue

/-! What the operations do to the world. -/

namespace World

/-- The world after a task's CDR was written to the recorders of `q`. -/
def journal (w : World) (q : QueueRef) (t : TaskRef) : World :=
  w.emit ((w.queues q).recorders_.map (fun r => .record r t (w.tasks t).cdr))

/-- The world after the CDR of a call no operator took was filled and written. -/
def closed (w : World) (q : QueueRef) (now : TimePoint) (t : TaskRef) (isDuplication : Bool) :
    World :=
  (w.mapCDR t (Queue.refusedCDR isDuplication now)).journal q t

/-- The world after the entry `e` was resolved as overloaded or as a duplicate. -/
def refused (w : World) (q : QueueRef) (now : TimePoint) (e : TaskRef × CallID)
    (isDuplication : Bool) : World :=
  (w.closed q now e.1 isDuplication).settled e.1
    (.value { status := if isDuplication then .Duplication else .Overloaded
              callDuration := 0, callID := e.2 })

/-- The world after the entries of `q` were replaced. -/
def setEntries (w : World) (q : QueueRef) (es : List (TaskRef × CallID)) : World :=
  w.setQueue q { w.queues q with queue_ := es }

end World

namespace Queue

/-- The place of the first entry with the number, and the entry. -/
def findNumber (tasks : TaskRef → Task) (number : List Char) :
    List (TaskRef × CallID) → Option (Nat × (TaskRef × CallID))
  | [] => none
  | e :: rest =>
    if (tasks e.1).number_ = number then some (0, e)
    else (findNumber tasks number rest).map (fun p => (p.1 + 1, p.2))

/-- The reads of numbers the search makes. -/
def searchReads (tasks : TaskRef → Task) (number : List Char) : List (TaskRef × CallID) → List Event
  | [] => []
  | e :: rest =>
    .readNumber e.1 ::
      (if (tasks e.1).number_ = number then [] else searchReads tasks number rest)

theorem findNumber_some {tasks : TaskRef → Task} {number : List Char}
    {es : List (TaskRef × CallID)} {i : Nat} {d : TaskRef × CallID}
    (h : findNumber tasks number es = some (i, d)) :
    es[i]? = some d ∧ (tasks d.1).number_ = number ∧
      ∀ e ∈ es.take i, (tasks e.1).number_ ≠ number := by
  induction es generalizing i with
  | nil => cases h
  | cons e rest ih =>
    rw [findNumber] at h
    split at h
    · rename_i hn
      cases h
      exact ⟨rfl, hn, by simp⟩
    · rename_i hn
      obtain ⟨⟨j, d'⟩, hj, he⟩ := Option.map_eq_some_iff.mp h
      cases he
      obtain ⟨h1, h2, h3⟩ := ih hj
      refine ⟨by simpa using h1, h2, ?_⟩
      intro x hx
      rcases List.mem_cons.mp (by simpa using hx) with rfl | hx
      · exact hn
      · exact h3 x hx

theorem findNumber_none {tasks : TaskRef → Task} {number : List Char}
    {es : List (TaskRef × CallID)} :
    findNumber tasks number es = none ↔ ∀ e ∈ es, (tasks e.1).number_ ≠ number := by
  induction es with
  | nil => simp [findNumber]
  | cons e rest ih => by_cases h : (tasks e.1).number_ = number <;> simp [findNumber, h, ih]

theorem run_find_if (number : List Char) (es : List (TaskRef × CallID)) (w : World) :
    (find_if number es).run w =
      (.ok (findNumber w.tasks number es), w.emit (searchReads w.tasks number es)) := by
  induction es generalizing w with
  | nil => simp [find_if, findNumber, searchReads, World.emit]
  | cons e rest ih =>
    have hread : (Task.getNumber e.1).run w =
        (.ok (w.tasks e.1).number_, w.emit [.readNumber e.1]) := rfl
    rw [find_if, Exec.run_bind_ok hread]
    by_cases h : (w.tasks e.1).number_ = number
    · simp [h, findNumber, searchReads]
    · rw [if_neg h, Exec.run_bind_ok (ih _)]
      simp [findNumber, searchReads, h, World.emit]

theorem run_makeRecords (t : TaskRef) (cdr : CDR) (rs : List RecorderRef) (w : World) :
    (makeRecords t cdr rs).run w = (.ok (), w.emit (rs.map (fun r => .record r t cdr))) := by
  induction rs generalizing w with
  | nil => simp [makeRecords, World.emit]
  | cons r rs ih =>
    have hrec : (makeRecord t cdr r).run w = (.ok (), w.emit [.record r t cdr]) := rfl
    rw [makeRecords, Exec.run_bind_ok hrec, ih]
    simp [World.emit]

theorem run_writeCDR (q : QueueRef) (t : TaskRef) (w : World) :
    (writeCDR q t).run w = (.ok (), w.journal q t) :=
  run_makeRecords t (w.tasks t).cdr (w.queues q).recorders_ w

theorem run_processCDR (q : QueueRef) (now : TimePoint) (t : TaskRef) (isDuplication : Bool)
    (w : World) :
    (processCDR q now t isDuplication).run w = (.ok (), w.closed q now t isDuplication) :=
  run_writeCDR q t _

theorem closed_pending {w : World} {q : QueueRef} {now : TimePoint} {t : TaskRef}
    {isDuplication : Bool} (h : (w.tasks t).promise_.state = none) :
    ((w.closed q now t isDuplication).tasks t).promise_.state = none := by
  simpa [World.closed, World.journal] using h

theorem run_handleOverloadedTask {w : World} {q : QueueRef} {e : TaskRef × CallID}
    (now : TimePoint) (h : (w.tasks e.1).promise_.state = none) :
    (handleOverloadedTask q now e).run w = (.ok (), w.refused q now e false) := by
  rw [handleOverloadedTask, Exec.run_bind_ok (run_processCDR _ _ _ _ _)]
  exact run_settle _ (closed_pending h)

theorem run_evict {w : World} {q : QueueRef} {i : Nat} {d : TaskRef × CallID}
    (now : TimePoint) (h : (w.tasks d.1).promise_.state = none) :
    (evict q now (some (i, d))).run w = (.ok (), (w.refused q now d true).setEntries q
      (((w.refused q now d true).queues q).queue_.eraseIdx i)) := by
  rw [evict, Exec.run_bind_ok (run_processCDR _ _ _ _ _)]
  have hset : (set_value d.1 { status := .Duplication, callDuration := 0, callID := d.2 }).run
      (w.closed q now d.1 true) = (.ok (), w.refused q now d true) :=
    run_settle _ (closed_pending h)
  rw [Exec.run_bind_ok hset]
  rfl

theorem run_push_overloaded {w : World} {q : QueueRef} {e : TaskRef × CallID} (now : TimePoint)
    (hfull : (w.queues q).sizeOfQueue ≤ (w.queues q).queue_.length)
    (h : (w.tasks e.1).promise_.state = none) :
    (push q now e).run w = (.ok false, w.refused q now e false) := by
  have hq : (readQueue q).run w = (.ok (w.queues q), w) := rfl
  rw [push, Exec.run_bind_ok hq, if_pos hfull, Exec.run_bind_ok (run_handleOverloadedTask now h)]
  rfl

/-- The world after the search of an accepted push. -/
def searched (w : World) (q : QueueRef) (t : TaskRef) : World :=
  w.emit (.readNumber t :: searchReads w.tasks (w.tasks t).number_ (w.queues q).queue_)

theorem run_handleTask_searched (w : World) (q : QueueRef) (now : TimePoint) (e : TaskRef × CallID) :
    (handleTask q now e).run w =
      (evict q now (findNumber w.tasks (w.tasks e.1).number_ (w.queues q).queue_) >>= fun _ =>
        modifyQueue q (fun k => { k with queue_ := k.queue_ ++ [e] })).run (searched w q e.1) := by
  have hread : (Task.getNumber e.1).run w =
      (.ok (w.tasks e.1).number_, w.emit [.readNumber e.1]) := rfl
  have hq : (readQueue q).run (w.emit [.readNumber e.1]) =
      (.ok (w.queues q), w.emit [.readNumber e.1]) := rfl
  have hfind : (find_if (w.tasks e.1).number_ (w.queues q).queue_).run (w.emit [.readNumber e.1]) =
      (.ok (findNumber w.tasks (w.tasks e.1).number_ (w.queues q).queue_), searched w q e.1) := by
    rw [run_find_if]
    simp [searched, World.emit]
  rw [handleTask, Exec.run_bind_ok hread, Exec.run_bind_ok hq, Exec.run_bind_ok hfind]

theorem run_handleTask {w v : World} {q : QueueRef} {now : TimePoint} {e : TaskRef × CallID}
    (h : (evict q now (findNumber w.tasks (w.tasks e.1).number_ (w.queues q).queue_)).run
      (searched w q e.1) = (.ok (), v)) :
    (handleTask q now e).run w = (.ok (), v.setEntries q ((v.queues q).queue_ ++ [e])) := by
  rw [run_handleTask_searched, Exec.run_bind_ok h]
  rfl

theorem run_push_room {w v : World} {q : QueueRef} {now : TimePoint} {e : TaskRef × CallID}
    (hroom : (w.queues q).queue_.length < (w.queues q).sizeOfQueue)
    (h : (handleTask q now e).run w = (.ok (), v)) : (push q now e).run w = (.ok true, v) := by
  have hq : (readQueue q).run w = (.ok (w.queues q), w) := rfl
  rw [push, Exec.run_bind_ok hq, if_neg (by omega)]
  show ((handleTask q now e) >>= fun _ => pure true).run w = _
  rw [Exec.run_bind_ok h]
  rfl

theorem run_push_fresh {w : World} {q : QueueRef} {e : TaskRef × CallID} (now : TimePoint)
    (hroom : (w.queues q).queue_.length < (w.queues q).sizeOfQueue)
    (hnew : findNumber w.tasks (w.tasks e.1).number_ (w.queues q).queue_ = none) :
    (push q now e).run w =
      (.ok true, (searched w q e.1).setEntries q ((w.queues q).queue_ ++ [e])) := by
  have hev : (evict q now (findNumber w.tasks (w.tasks e.1).number_ (w.queues q).queue_)).run
      (searched w q e.1) = (.ok (), searched w q e.1) := by
    rw [hnew]
    rfl
  exact run_push_room hroom (run_handleTask hev)

/-- An accepted push of a number the entry `d` at place `i` is waiting with. -/
theorem run_push_duplicate {w : World} {q : QueueRef} {e d : TaskRef × CallID} {i : Nat}
    (now : TimePoint) (hroom : (w.queues q).queue_.length < (w.queues q).sizeOfQueue)
    (hdup : findNumber w.tasks (w.tasks e.1).number_ (w.queues q).queue_ = some (i, d))
    (h : (w.tasks d.1).promise_.state = none) :
    (push q now e).run w =
      (.ok true, ((searched w q e.1).refused q now d true).setEntries q
        ((w.queues q).queue_.eraseIdx i ++ [e])) := by
  have hev := run_evict (w := searched w q e.1) (q := q) (i := i) (d := d) now h
  rw [← hdup] at hev
  rw [run_push_room hroom (run_handleTask hev)]
  simp [World.setEntries, World.setQueue, World.refused, World.closed, World.journal,
    World.settled, searched]

end Queue

end ProteiCov
