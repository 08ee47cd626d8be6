import ProteiCov.Queue

/-
  `TP::ThreadPool` between its critical sections

  The methods here are what one thread does while it holds `task_queue_mutex`, or
  without it where the source takes no lock; notifying a condition variable has
  no effect at this grain. The interleaving of workers inside their critical
  sections is the subject of `PoolThreads`.

  `hash` is `std::hash<std::thread::id>`, a fixed function of the thread id.
-/

namespace ProteiCov
open Cpp

/-- The id of a thread; the library may give it again once the thread has ended. -/
abbrev ThreadId := Nat

/-- The value an `int` has as an `unsigned`. -/
def toUnsigned (n : Int) : Nat := (n % 2 ^ 32).toNat

/-- The value an `unsigned` has as an `int`. -/
def unsignedToInt (n : Nat) : Int := if n < 2 ^ 31 then n else (n : Int) - 2 ^ 32

theorem toUnsigned_of_nonneg {n : Int} (h : 0 ≤ n) (hlt : n < 2 ^ 32) : toUnsigned n = n.toNat := by
  unfold toUnsigned
  rw [Int.emod_eq_of_lt h hlt]

namespace ThreadPool

/-- `ThreadPool(amountOfThreads, sizeOfQueue)`: paused, over a queue of its own. -/
def construct (amountOfThreads sizeOfQueue : Nat) : Exec World PoolRef := do
  let q ← Queue.construct (unsignedToInt sizeOfQueue)
  newPool { task_queue := some q, size := amountOfThreads, stopped := false, paused := true,
            waitForCompletion := false, logger_ := false }

/-- `generateCallID`: `threadID + number` in `unsigned long long`. -/
def generateCallID (hash : ThreadId → UInt64) (thread : ThreadId) (number : Int64) : CallID :=
  hash thread + number.toUInt64

/-- `add_task(task)` called by a thread; `now` is the clock a push reads. -/
def add_task (hash : ThreadId → UInt64) (thread : ThreadId) (now : TimePoint) (p : PoolRef)
    (t : TaskRef) : Exec World CallID := do
  let text ← Task.getNumber t
  let number ← .ofExcept (stoll text)
  let callID := generateCallID hash thread number
  Task.setCallID t callID
  get_future t
  let pool ← readPool p
  match pool.task_queue with
  | some q =>
    let _ ← Queue.push q now (t, callID)
    return callID
  | none => return callID

/-- `run_allowed()`. -/
def run_allowed (p : PoolRef) : Exec World Bool := do
  let pool ← readPool p
  match pool.task_queue with
  | some q =>
    let queue ← readQueue q
    return !queue.queue_.isEmpty && !pool.paused
  | none => return false

/-- `processTask()` called by a worker thread: calls through a null `task_queue`
are undefined. -/
def processTask (hash : ThreadId → UInt64) (thread : ThreadId) (p : PoolRef) :
    Exec World (TaskRef × CallID) := do
  let pool ← readPool p
  match pool.task_queue with
  | some q =>
    let res ← Queue.front q
    Task.setThreadID res.1 (hash thread)
    Queue.pop q
    return res
  | none => .undefined

/-- `executeTask(task, callID)`. -/
def executeTask (env : Service) (p : PoolRef) (t : TaskRef) : Exec World Unit :=
  .tryCatch
    (do
      let res ← Task.doTask env t
      let pool ← readPool p
      match pool.task_queue with
      | some q =>
        Queue.writeCDR q t
        set_value t res
      | none => .undefined)
    (fun e => set_exception t e)

def start (p : PoolRef) : Exec World Unit := do
  let pool ← readPool p
  if pool.paused || pool.stopped then
    modifyPool p (fun k => { k with stopped := false })
    modifyPool p (fun k => { k with paused := false })
    modifyPool p (fun k => { k with waitForCompletion := false })

def stop (p : PoolRef) : Exec World Unit := do
  modifyPool p (fun k => { k with paused := true })
  modifyPool p (fun k => { k with waitForCompletion := true })

/-- The two `lock_guard`s of `transferObjects`: locking one mutex twice is undefined. -/
def lockPools (p old : PoolRef) : Exec World Unit := if p = old then .undefined else pure ()

def transferObjects (p old : PoolRef) : Exec World Unit := do
  lockPools p old
  let oldPool ← readPool old
  if p ≠ old then modifyPool p (fun k => { k with task_queue := oldPool.task_queue })

/-- What the destructor does before it joins the workers. -/
def destruct (p : PoolRef) : Exec World Unit :=
  modifyPool p (fun k => { k with stopped := true })

def setLogger (p : PoolRef) (logger : Bool) : Exec World Unit := do
  modifyPool p (fun k => { k with logger_ := logger })
  if logger then
    let pool ← readPool p
    match pool.task_queue with
    | some q => Queue.setLogger q logger
    | none => .undefined

/-- `getSize()`: `threads.size()`. -/
def getSize (p : PoolRef) : Exec World Nat := do
  let pool ← readPool p
  return pool.size

end ThreadPool

/-- The world after a task was given its CallID and its future. -/
def World.admitted (w : World) (t : TaskRef) (id : CallID) : World :=
  ((Task.identified (w.emit [.readNumber t]) t id).emit [.readNumber t]).retrieved t

namespace ThreadPool
variable {hash : ThreadId → UInt64}

/-- A number `stoll` does not accept is found before anything is written. -/
theorem run_add_task_rejected {thread : ThreadId} {now : TimePoint} {p : PoolRef} {t : TaskRef}
    {w : World} {e : StdException} (hnum : stoll (w.tasks t).number_ = .error e) :
    (add_task hash thread now p t).run w = (.throws e, w.emit [.readNumber t]) := by
  have hread : (Task.getNumber t).run w = (.ok (w.tasks t).number_, w.emit [.readNumber t]) := rfl
  rw [add_task, Exec.run_bind_ok hread, hnum]
  rfl

section
variable {thread : ThreadId} {now : TimePoint} {p : PoolRef} {t : TaskRef} {w : World}
  {number : Int64} (hnum : stoll (w.tasks t).number_ = .ok number)
include hnum

theorem run_add_task_silent (hlog : (w.tasks t).logger_ = false) :
    (add_task hash thread now p t).run w =
      (.undefined, Task.identified (w.emit [.readNumber t]) t (generateCallID hash thread number)) := by
  have hread : (Task.getNumber t).run w = (.ok (w.tasks t).number_, w.emit [.readNumber t]) := rfl
  have hset := Task.run_setCallID_silent (w := w.emit [.readNumber t]) (t := t)
    (generateCallID hash thread number) hlog
  rw [add_task, Exec.run_bind_ok hread, hnum, Exec.run_bind_ok (Exec.run_ofExcept_ok _ _)]
  exact Exec.run_bind_undefined hset

/-- A task whose future was retrieved before has its new CallID when this is found. -/
theorem run_add_task_again (hlog : (w.tasks t).logger_ = true)
    (hfut : (w.tasks t).promise_.retrieved = true) :
    (add_task hash thread now p t).run w = (.throws .future_already_retrieved,
      (Task.identified (w.emit [.readNumber t]) t (generateCallID hash thread number)).emit
        [.readNumber t]) := by
  have hread : (Task.getNumber t).run w = (.ok (w.tasks t).number_, w.emit [.readNumber t]) := rfl
  have hset := Task.run_setCallID (w := w.emit [.readNumber t]) (t := t)
    (generateCallID hash thread number) hlog
  have hget := run_get_future_again (w := (Task.identified (w.emit [.readNumber t]) t
    (generateCallID hash thread number)).emit [.readNumber t]) (t := t)
    (by simpa [Task.identified] using hfut)
  rw [add_task, Exec.run_bind_ok hread, hnum, Exec.run_bind_ok (Exec.run_ofExcept_ok _ _),
    Exec.run_bind_ok hset]
  exact Exec.run_bind_throws hget

theorem run_add_task_admitted (hlog : (w.tasks t).logger_ = true)
    (hfut : (w.tasks t).promise_.retrieved = false) :
    (add_task hash thread now p t).run w = match (w.pools p).task_queue with
      | some q => (Queue.push q now (t, generateCallID hash thread number) >>= fun _ =>
          pure (generateCallID hash thread number)).run
            (w.admitted t (generateCallID hash thread number))
      | none => (.ok (generateCallID hash thread number),
          w.admitted t (generateCallID hash thread number)) := by
  have hread : (Task.getNumber t).run w = (.ok (w.tasks t).number_, w.emit [.readNumber t]) := rfl
  have hset := Task.run_setCallID (w := w.emit [.readNumber t]) (t := t)
    (generateCallID hash thread number) hlog
  have hget := run_get_future (w := (Task.identified (w.emit [.readNumber t]) t
    (generateCallID hash thread number)).emit [.readNumber t]) (t := t)
    (by simpa [Task.identified] using hfut)
  have hpool : (readPool p).run (w.admitted t (generateCallID hash thread number)) =
      (.ok (w.pools p), w.admitted t (generateCallID hash thread number)) := rfl
  rw [add_task, Exec.run_bind_ok hread, hnum, Exec.run_bind_ok (Exec.run_ofExcept_ok _ _),
    Exec.run_bind_ok hset, Exec.run_bind_ok hget]
  show (readPool p >>= fun pool => _).run (w.admitted t (generateCallID hash thread number)) = _
  rw [Exec.run_bind_ok hpool]
  cases (w.pools p).task_queue with
  | some q => rfl
  | none => rfl

end

/-- `add_task` with a number `stoll` accepts, a logger and a fresh promise returns where
the push of the admitted task does. -/
theorem run_add_task {thread : ThreadId} {now : TimePoint} {p : PoolRef} {t : TaskRef}
    {w v : World} {q : QueueRef} {number : Int64} {b : Bool}
    (hnum : stoll (w.tasks t).number_ = .ok number) (hlog : (w.tasks t).logger_ = true)
    (hfut : (w.tasks t).promise_.retrieved = false) (hq : (w.pools p).task_queue = some q)
    (hpush : (Queue.push q now (t, generateCallID hash thread number)).run
      (w.admitted t (generateCallID hash thread number)) = (.ok b, v)) :
    (add_task hash thread now p t).run w = (.ok (generateCallID hash thread number), v) := by
  rw [run_add_task_admitted hnum hlog hfut, hq]
  exact Exec.run_bind_ok hpush

theorem run_processTask (hash : ThreadId → UInt64) (thread : ThreadId) {p : PoolRef} {w : World}
    {q : QueueRef} {e : TaskRef × CallID} {rest : List (TaskRef × CallID)} (hq : (w.pools p).task_queue = some q)
    (hfront : (w.queues q).queue_ = e :: rest) (hlog : (w.tasks e.1).logger_ = true) :
    (processTask hash thread p).run w =
      (.ok e, ((w.mapCDR e.1 (fun c => { c with operatorID := hash thread })).emit
        [.readNumber e.1]).setEntries q rest) := by
  have hpool : (readPool p).run w = (.ok (w.pools p), w) := rfl
  have hfr : (Queue.front q).run w = (.ok e, w) := by
    have hread : (readQueue q).run w = (.ok (w.queues q), w) := rfl
    rw [Queue.front, Exec.run_bind_ok hread, hfront]
    rfl
  have hpop : ∀ u : World, (u.queues q).queue_ = e :: rest →
      (Queue.pop q).run u = (.ok (), u.setEntries q rest) := by
    intro u hu
    have hread : (readQueue q).run u = (.ok (u.queues q), u) := rfl
    rw [Queue.pop, Exec.run_bind_ok hread, hu]
    rfl
  rw [processTask, Exec.run_bind_ok hpool, hq]
  show (Queue.front q >>= fun res => _).run w = _
  rw [Exec.run_bind_ok hfr, Exec.run_bind_ok (Task.run_setThreadID _ hlog),
    Exec.run_bind_ok (hpop _ (by simpa using hfront))]
  rfl

theorem run_executeTask {env : Service} {p : PoolRef} {t : TaskRef} {w v : World} {q : QueueRef}
    {res : Result} (hdo : (Task.doTask env t).run w = (.ok res, v))
    (hq : (v.pools p).task_queue = some q) (hpend : (v.tasks t).promise_.state = none) :
    (executeTask env p t).run w = (.ok (), (v.journal q t).settled t (.value res)) := by
  have hpool : (readPool p).run v = (.ok (v.pools p), v) := rfl
  have hset : (set_value t res).run (v.journal q t) =
      (.ok (), (v.journal q t).settled t (.value res)) :=
    run_settle _ (by simpa [World.journal] using hpend)
  refine Exec.run_tryCatch_ok ?_
  rw [Exec.run_bind_ok hdo, Exec.run_bind_ok hpool, hq]
  show (Queue.writeCDR q t >>= fun _ => set_value t res).run v = _
  rw [Exec.run_bind_ok (Queue.run_writeCDR q t v), hset]

end ThreadPool

/-! Starting, stopping and handing over a pool. -/

/-- A pool after `start()`. -/
def ThreadPool.resumed (k : ThreadPool) : ThreadPool :=
  if k.paused || k.stopped then
    { k with stopped := false, paused := false, waitForCompletion := false }
  else k

/-- A pool after `stop()`. -/
def ThreadPool.suspended (k : ThreadPool) : ThreadPool :=
  { k with paused := true, waitForCompletion := true }

namespace ThreadPool

theorem resumed_paused (k : ThreadPool) : k.resumed.paused = false := by
  unfold resumed
  cases hp : k.paused <;> cases hs : k.stopped <;> simp [hp]

theorem resumed_task_queue (k : ThreadPool) : k.resumed.task_queue = k.task_queue := by
  unfold resumed
  split <;> rfl

theorem resumed_size (k : ThreadPool) : k.resumed.size = k.size := by
  unfold resumed
  split <;> rfl

theorem run_start (p : PoolRef) (w : World) :
    (start p).run w = (.ok (), w.setPool p (w.pools p).resumed) := by
  have hpool : (readPool p).run w = (.ok (w.pools p), w) := rfl
  rw [start, Exec.run_bind_ok hpool]
  unfold resumed
  cases hc : (w.pools p).paused || (w.pools p).stopped with
  | true => simp [modifyPool, Exec.run_bind, World.setPool]
  | false => simp [World.setPool]

theorem run_stop (p : PoolRef) (w : World) :
    (stop p).run w = (.ok (), w.setPool p (w.pools p).suspended) := by
  simp [stop, modifyPool, Exec.run_bind, World.setPool, suspended]

theorem run_transferObjects {p old : PoolRef} (h : p ≠ old) (w : World) :
    (transferObjects p old).run w =
      (.ok (), w.setPool p { w.pools p with task_queue := (w.pools old).task_queue }) := by
  simp [transferObjects, lockPools, h, readPool, modifyPool, Exec.run_bind, World.setPool]

theorem run_transferObjects_self (p : PoolRef) (w : World) :
    (transferObjects p p).run w = (.undefined, w) := by
  simp [transferObjects, lockPools, Exec.run_bind]

end ThreadPool

/-! Building a pool. -/

namespace ThreadPool

/-- A pool just built: paused, over a queue of its own. -/
def fresh (operators : Nat) (q : QueueRef) (logger : Bool) : ThreadPool where
  task_queue := some q
  size := operators
  stopped := false
  paused := true
  waitForCompletion := false
  logger_ := logger

end ThreadPool

/-- The world with one more queue and one more pool over it. -/
def World.withPool (w : World) (operators limit : Nat) (logger : Bool) : World :=
  { w with
    queues := Function.update w.queues w.queueCount
      { queue_ := [], sizeOfQueue := limit, logger_ := logger, recorders_ := [] }
    queueCount := w.queueCount + 1
    pools := Function.update w.pools w.poolCount (ThreadPool.fresh operators w.queueCount logger)
    poolCount := w.poolCount + 1 }

namespace ThreadPool

theorem run_construct {operators size : Nat} (h : 0 ≤ unsignedToInt size) (w : World) :
    (construct operators size).run w =
      (.ok w.poolCount, w.withPool operators (toSizeT (unsignedToInt size)) false) := by
  have hq : (Queue.construct (unsignedToInt size)).run w = (newQueue
      { queue_ := [], sizeOfQueue := toSizeT (unsignedToInt size), logger_ := false, recorders_ := [] }).run w := by
    rw [Queue.construct, if_neg (by omega)]
  rw [construct, Exec.run_bind_ok hq]
  rfl

theorem run_setLogger (w : World) (operators limit : Nat) (logger : Bool) :
    (setLogger w.poolCount logger).run (w.withPool operators limit false) =
      (.ok (), w.withPool operators limit logger) := by
  have hpool : (modifyPool w.poolCount (fun k => { k with logger_ := logger })).run
      (w.withPool operators limit false) = (.ok (), { w.withPool operators limit false with
        pools := Function.update w.pools w.poolCount (fresh operators w.queueCount logger) }) := by
    simp [modifyPool, World.withPool, World.setPool, fresh]
  rw [setLogger, Exec.run_bind_ok hpool]
  cases logger with
  | false => rfl
  | true =>
    simp [Exec.run_bind, readPool, World.withPool, fresh, Queue.setLogger, modifyQueue, World.setQueue]

end ThreadPool

end ProteiCov
