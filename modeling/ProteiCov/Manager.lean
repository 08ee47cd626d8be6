import ProteiCov.ThreadPool

/-
  `Manager`

  `addTask` runs under the shared side of `updateMtx` and `update` under the
  exclusive side. `update` asks the configuration for its values one critical
  section at a time, so it is given here in the pieces between those: a system that
  runs it decides what each reading gives and what other threads do in between.
-/

namespace ProteiCov
open Cpp

/-- `Manager`; its configuration belongs to the system it is part of. -/
structure Manager where
  RMin_ : Int
  RMax_ : Int
  threadPool_ : PoolRef
  logger_ : Bool
  deriving DecidableEq, Repr

namespace Manager

/-- `Manager(conf, pool)`, with what `getMinMax` gave. -/
def construct (minMax : Int × Int) (pool : PoolRef) : Manager where
  RMin_ := minMax.1
  RMax_ := minMax.2
  threadPool_ := pool
  logger_ := false

/-- `addTask(number)` called by a thread; `now` is the start of the call and
`pushNow` the clock a push reads. -/
def addTask (hash : ThreadId → UInt64) (m : Manager) (thread : ThreadId) (now pushNow : TimePoint)
    (number : List Char) : Exec World CallID := do
  let task ← Task.construct m.RMin_ m.RMax_ number now m.logger_
  ThreadPool.add_task hash thread pushNow m.threadPool_ task

/-- `std::tie(RMin_, RMax_) = config_->getMinMax()`. -/
def setMinMax (m : Manager) (minMax : Int × Int) : Manager :=
  { m with RMin_ := minMax.1, RMax_ := minMax.2 }

/-- `threadPool_->task_queue->update(size)`. -/
def updateQueue (m : Manager) (size : Int) : Exec World Unit := do
  let pool ← readPool m.threadPool_
  match pool.task_queue with
  | some q => Queue.update q size
  | none => .undefined

/-- `static_cast<std::size_t>(operators) != threadPool_->getSize()`. -/
def sizeDiffers (m : Manager) (operators : Int) : Exec World Bool := do
  let size ← ThreadPool.getSize m.threadPool_
  return toSizeT operators ≠ size

/-- `std::make_shared<TP::ThreadPool>(operators, size)` and its logger. -/
def buildPool (logger : Bool) (operators size : Int) : Exec World PoolRef := do
  let pool ← ThreadPool.construct (toUnsigned operators) (toUnsigned size)
  ThreadPool.setLogger pool logger
  return pool

def stopThreadPool (m : Manager) : Exec World Unit := ThreadPool.stop m.threadPool_

def startThreadPool (m : Manager) : Exec World Unit := ThreadPool.start m.threadPool_

/-- The last reference to a pool that is being replaced goes, so it is destroyed. -/
def release (m : Manager) (pool : PoolRef) : Exec World Unit :=
  if pool ≠ m.threadPool_ then ThreadPool.destruct m.threadPool_ else pure ()

/-- `this->threadPool_ = pool`. -/
def assignPool (m : Manager) (pool : PoolRef) : Exec World Manager := do
  m.release pool
  return { m with threadPool_ := pool }

/-- `setNewThreadPool(pool)` with nothing in between. -/
def setNewThreadPool (m : Manager) (pool : PoolRef) : Exec World Manager := do
  m.stopThreadPool
  ThreadPool.transferObjects pool m.threadPool_
  let m ← m.assignPool pool
  m.startThreadPool
  return m

theorem setNewThreadPool_result {m m' : Manager} {pool : PoolRef} {w v : World}
    (h : (m.setNewThreadPool pool).run w = (.ok m', v)) : m' = { m with threadPool_ := pool } := by
  obtain ⟨_, _, _, h⟩ := Exec.bind_eq_ok h
  obtain ⟨_, _, _, h⟩ := Exec.bind_eq_ok h
  obtain ⟨m₁, _, h₁, h⟩ := Exec.bind_eq_ok h
  obtain ⟨_, _, _, h⟩ := Exec.bind_eq_ok h
  obtain ⟨_, _, _, h₁⟩ := Exec.bind_eq_ok h₁
  cases h₁
  cases h
  rfl

/-- The pools after the pool `p` replaced the pool `old`. -/
def swapped (pools : PoolRef → ThreadPool) (p old : PoolRef) : PoolRef → ThreadPool :=
  Function.update
    (Function.update pools old { (pools old).suspended with stopped := true }) p
    { pools p with task_queue := (pools old).task_queue }.resumed

theorem run_assignPool {m : Manager} {p : PoolRef} (h : p ≠ m.threadPool_) (w : World) :
    (m.assignPool p).run w = (.ok { m with threadPool_ := p },
      w.setPool m.threadPool_ { w.pools m.threadPool_ with stopped := true }) := by
  simp [assignPool, release, h, ThreadPool.destruct, modifyPool, Exec.run_bind]

/-- Another pool is installed: it takes over the queue, and the old pool is destroyed. -/
theorem run_setNewThreadPool {m : Manager} {p : PoolRef} (h : p ≠ m.threadPool_) (w : World) :
    (m.setNewThreadPool p).run w =
      (.ok { m with threadPool_ := p }, { w with pools := swapped w.pools p m.threadPool_ }) := by
  have hstop := ThreadPool.run_stop m.threadPool_ w
  rw [setNewThreadPool, stopThreadPool, Exec.run_bind_ok hstop,
    Exec.run_bind_ok (ThreadPool.run_transferObjects h _), Exec.run_bind_ok (run_assignPool h _),
    startThreadPool, Exec.run_bind_ok (ThreadPool.run_start _ _)]
  have hpools : swapped w.pools p m.threadPool_ =
      (fun r => if r = p then { w.pools p with
          task_queue := (w.pools m.threadPool_).task_queue }.resumed
        else if r = m.threadPool_ then { (w.pools m.threadPool_).suspended with stopped := true }
        else w.pools r) := by
    funext r
    simp [swapped, Function.update_apply]
  rw [hpools]
  refine congrArg (fun pools => (Outcome.ok _, { w with pools := pools })) ?_
  funext r
  by_cases hr : r = p
  · subst hr
    simp [h, ThreadPool.suspended]
  · by_cases hold : r = m.threadPool_
    · subst hold
      simp [hr]
    · simp [hr, hold]

/-- The pool already installed: its one mutex is locked twice. -/
theorem run_setNewThreadPool_self (m : Manager) (w : World) :
    (m.setNewThreadPool m.threadPool_).run w = (.undefined,
      w.setPool m.threadPool_ (w.pools m.threadPool_).suspended) := by
  rw [setNewThreadPool, stopThreadPool, Exec.run_bind_ok (ThreadPool.run_stop _ _)]
  exact Exec.run_bind_undefined (ThreadPool.run_transferObjects_self _ _)

/-- `reserve` accepts the size of the queue, converted to `unsigned` and back. -/
def Reservable (size : Int) : Prop := 0 ≤ unsignedToInt (toUnsigned size)

theorem run_buildPool {logger : Bool} {operators size : Int}
    (h : Reservable size) (w : World) :
    (buildPool logger operators size).run w = (.ok w.poolCount,
      w.withPool (toUnsigned operators) (toSizeT (unsignedToInt (toUnsigned size))) logger) := by
  rw [buildPool, Exec.run_bind_ok (ThreadPool.run_construct h w),
    Exec.run_bind_ok (ThreadPool.run_setLogger _ _ _ _)]
  rfl

end Manager

end ProteiCov
