import ProteiCov.Manager
import ProteiCov.PoolThreads

/-
  Installing a pool

  `setNewThreadPool` stops the installed pool, lets the new one take over its queue
  and starts the new one. `transferObjects` locks the mutexes of both pools before
  it asks whether they are one pool, so where they are, the calling thread locks a
  `std::mutex` that it holds.
-/

namespace ProteiCov
open Cpp

namespace Threads.Program
variable {π α : Type} [DecidableEq π]

/-- Run by a thread that holds the mutexes `held`, the program asks for one it holds. -/
def Relocks : List π → Program π α → Prop
  | _, [] => False
  | held, .lock p :: rest => p ∈ held ∨ Relocks (p :: held) rest
  | held, .unlock p :: rest => Relocks (held.erase p) rest
  | held, _ :: rest => Relocks held rest

/-- The program of a swap asks for a mutex it holds only where both pools are one. -/
theorem relocks_setNewThreadPool (p old : π) :
    Relocks [] (setNewThreadPool p old : Program π α) ↔ p = old := by
  by_cases h : p = old
  · subst h
    simp [setNewThreadPool, stop, transferObjects, start, Relocks]
  · simp [setNewThreadPool, stop, transferObjects, destroy, start, Relocks, h]

end Threads.Program

namespace Manager

/-- `setNewThreadPool(p)` works: it asks for no mutex twice and returns, and then the
pool is installed, runs, and has the queue the installed pool had. -/
structure Installs (m : Manager) (p : PoolRef) (w : World) : Prop where
  locks : ¬ Threads.Program.Relocks [] (Threads.Program.setNewThreadPool p m.threadPool_ :
    Threads.Program PoolRef (TaskRef × CallID))
  returns : ∃ m' v, (m.setNewThreadPool p).run w = (.ok m', v) ∧ m'.threadPool_ = p ∧
    (v.pools p).paused = false ∧ (v.pools p).task_queue = (w.pools m.threadPool_).task_queue ∧
    v.queues = w.queues

theorem swapped_self (pools : PoolRef → ThreadPool) (p old : PoolRef) :
    swapped pools p old p = { pools p with task_queue := (pools old).task_queue }.resumed :=
  Function.update_self _ _ _

/-- A pool is installed exactly when it is not the one installed already. -/
theorem installs_iff (m : Manager) (p : PoolRef) (w : World) :
    m.Installs p w ↔ p ≠ m.threadPool_ := by
  constructor
  · intro h hp
    exact h.locks ((Threads.Program.relocks_setNewThreadPool _ _).mpr hp)
  · intro hp
    refine ⟨fun h => hp ((Threads.Program.relocks_setNewThreadPool _ _).mp h),
      _, _, run_setNewThreadPool hp w, rfl, ?_, ?_, rfl⟩
    · show (swapped w.pools p m.threadPool_ p).paused = false
      rw [swapped_self, ThreadPool.resumed_paused]
    · show (swapped w.pools p m.threadPool_ p).task_queue = _
      rw [swapped_self, ThreadPool.resumed_task_queue]

/-- The one pool of a program, installed and running. -/
def oneWorld : World :=
  { World.empty.withPool 2 15 true with
    pools := fun _ => (ThreadPool.fresh 2 0 true).resumed }

def oneManager : Manager where
  RMin_ := 10
  RMax_ := 15
  threadPool_ := 0
  logger_ := true

theorem one_not_installs : (oneManager.setNewThreadPool 0).run oneWorld =
    (.undefined, oneWorld.setPool 0 (oneWorld.pools 0).suspended) ∧ ¬ oneManager.Installs 0 oneWorld := by
  have hrun := run_setNewThreadPool_self oneManager oneWorld
  refine ⟨hrun, fun h => ?_⟩
  obtain ⟨m', v, hok, -⟩ := h.returns
  have hfst : Outcome.undefined = Outcome.ok m' := congrArg Prod.fst (hrun.symm.trans hok)
  cases hfst

end Manager

end ProteiCov
