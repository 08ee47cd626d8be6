import Mathlib.Data.Prod.Lex
import ProteiCov.Heap
import ProteiCov.PoolThreads
import ProteiCov.Lib.LockOrder
import ProteiCov.Lib.Transition

/-
  The locks of a running server

  Every thread is the sequence of what it takes and releases: `updateMtx` (shared by
  the calls that are added, alone by an update), `configMutex`, the `task_queue_mutex`
  of each pool, the `cdrMutex_` of each queue and the `writeMutex_` of each recorder. A
  worker holds itself until its function returns, and a join waits for that. What a
  thread does between two locks is here only as far as it decides which lock comes
  next, so the branches of the code are choices, `0` where nothing more is locked.

  Any number of clients connect, and each update may build a pool, whose workers are
  new threads; the pool an update replaces is destroyed by the update. The instructions
  of a pool's methods are those of `Threads.Program`.

  The locks are ordered: `updateMtx`, `configMutex`, the workers, the mutexes of the
  pools from the oldest to the newest, `cdrMutex_`, `writeMutex_`.

  What is proved:
    1. `fits_body` — the body of every call asks only for what ranks above all that
       its caller holds.
    2. `Sound.step` — every step keeps every thread to the order, and what is joined a
       worker that holds itself until it returns.
    3. `deadlock_free` — so in every run no threads wait for each other.
-/

namespace ProteiCov.Locks
open LockOrder

/-- What a thread can take, or wait for. -/
inductive Resource where
  | updateMtx
  | configMutex
  | thread (t : Nat)
  | task_queue_mutex (p : PoolRef)
  | cdrMutex_ (q : QueueRef)
  | writeMutex_ (r : RecorderRef)
  deriving DecidableEq, Repr

/-- A function of the server that locks, or a part of one. -/
inductive Call where
  | addTask
  | add_task
  | push (p : PoolRef)
  | writeCDR (q : QueueRef)
  | get
  | processRequestForUpdate
  | updateWithRequest
  | notify
  | update
  | isUpdated
  | resize
  | setNewThreadPool (operators : Nat)
  | transfer (p old : PoolRef)
  | assign (p : PoolRef)
  | updateConfigThread
  | run (p : PoolRef)
  | wait (p : PoolRef)
  | executeTask (p : PoolRef)
  deriving DecidableEq, Repr

abbrev Op := LockOrder.Op Resource Call

abbrev Thread := LockOrder.Thread Resource Call

/-- A pool: the queue it works on and its worker threads. -/
structure Pool where
  task_queue : QueueRef
  workers : List Nat
  deriving DecidableEq, Repr

structure Server where
  threads : List Thread
  pools : PoolRef → Pool
  poolCount : Nat
  threadPool_ : PoolRef
  recorders_ : QueueRef → List RecorderRef

/-- `std::lock_guard<std::mutex>` around what locks nothing. -/
def lock_guard (r : Resource) : List Op := [.acquire .exclusive r, .release r]

namespace Server

/-- The locks of an instruction of a method of a pool. -/
def locking (s : Server) : Threads.Instr PoolRef Unit → List Op
  | .lock p => [.acquire .exclusive (.task_queue_mutex p)]
  | .unlock p => [.release (.task_queue_mutex p)]
  | .push p _ => [.call (.push p)]
  | .transfer p old => [.call (.transfer p old)]
  | .join p => (s.pools p).workers.map (fun w => .await (.thread w))
  | .startIf _ | .setStopped _ _ | .setPaused _ _ | .setWaitForCompletion _ _ | .notifyAll _ |
    .notifyOne _ => []

def program (s : Server) (prog : Threads.Program PoolRef Unit) : List Op := prog.flatMap s.locking

/-- A worker: it is over when its function has returned. -/
def worker (p : PoolRef) (t : Nat) : Thread where
  held := [(.thread t, .exclusive)]
  todo := [.call (.run p), .release (.thread t)]

/-- `std::make_shared<TP::ThreadPool>(operators, …)`, over a queue of its own. -/
def withPool (s : Server) (operators : Nat) : Server :=
  let workers := (List.range operators).map (fun i => s.threads.length + i)
  { s with
    threads := s.threads ++ workers.map (worker s.poolCount)
    pools := Function.update s.pools s.poolCount ⟨s.poolCount, workers⟩
    poolCount := s.poolCount + 1 }

/-- The body of a call, where the thread takes the branch `choice`, and the server it
leaves. -/
def body (s : Server) (choice : Nat) : Call → List Op × Server
  | .addTask => ([.acquire .shared .updateMtx, .call .add_task, .release .updateMtx], s)
  | .add_task => (s.program (Threads.Program.add_task s.threadPool_ ()), s)
  -- a CDR is written for the call or for the one it evicts
  | .push p => (if choice = 0 then [] else [.call (.writeCDR (s.pools p).task_queue)], s)
  | .writeCDR q =>
    ([.acquire .exclusive (.cdrMutex_ q)] ++
      (s.recorders_ q).flatMap (fun r => [.acquire .exclusive (.writeMutex_ r), .release (.writeMutex_ r)]) ++
      [.release (.cdrMutex_ q)], s)
  -- a call that was refused with an exception has no future
  | .get => (if choice = 0 then [] else [.block], s)
  | .processRequestForUpdate => ([.call .updateWithRequest, .call .isUpdated], s)
  -- with the flag not to update nothing is done
  | .updateWithRequest => (if choice = 0 then [] else lock_guard .configMutex ++ [.call .notify], s)
  -- there may be no manager yet
  | .notify => (if choice = 0 then [] else [.call .update], s)
  -- `getMinMax`, `getSizeOfQueue` and `getAmountOfOperators`
  | .update =>
    ([.acquire .exclusive .updateMtx] ++ lock_guard .configMutex ++ lock_guard .configMutex ++
      lock_guard .configMutex ++ [.call .resize, .release .updateMtx], s)
  -- an exception of the update leaves the request too
  | .isUpdated => (if choice = 0 then [] else lock_guard .configMutex, s)
  -- the size is the same, or the pool cannot be built, or it has `choice - 2` workers
  | .resize =>
    (if choice = 0 then []
      else lock_guard .configMutex ++ lock_guard .configMutex ++
        (if choice = 1 then [] else [.call (.setNewThreadPool (choice - 2))]), s)
  | .setNewThreadPool operators =>
    (s.program (Threads.Program.stop s.threadPool_ ++
      Threads.Program.transferObjects s.poolCount s.threadPool_) ++ [.call (.assign s.poolCount)],
      s.withPool operators)
  | .transfer p old =>
    ([], { s with pools := Function.update s.pools p { s.pools p with task_queue := (s.pools old).task_queue } })
  | .assign p =>
    (s.program (Threads.Program.destroy s.threadPool_ ++ Threads.Program.start p), { s with threadPool_ := p })
  -- the thread is stopped, or the file is as it was, or it changed
  | .updateConfigThread =>
    (if choice = 0 then [] else if choice = 1 then [.call .updateConfigThread]
      else lock_guard .configMutex ++ [.call .notify, .call .updateConfigThread], s)
  -- the loop ends where the pool is stopped, or is to be completed and is empty
  | .run p =>
    (if choice = 0 then []
      else [.acquire .exclusive (.task_queue_mutex p), .call (.wait p), .release (.task_queue_mutex p),
        .call (.executeTask p), .call (.run p)], s)
  -- the predicate is true, or the worker sleeps
  | .wait p =>
    (if choice = 0 then []
      else [.release (.task_queue_mutex p), .block, .acquire .exclusive (.task_queue_mutex p),
        .call (.wait p)], s)
  -- there is no call to take, or its `doTask` throws
  | .executeTask p => (if choice = 0 then [] else [.call (.writeCDR (s.pools p).task_queue)], s)

end Server

inductive Step where
  | phone
  | updateRequest
  | move (t : Nat) (choice : Nat)

namespace Server

/-- A client connects: its request has a thread of its own. -/
def connect (s : Server) (todo : List Op) : Server := { s with threads := s.threads ++ [⟨[], todo⟩] }

/-- A thread makes its next move. -/
def move (s : Server) (t choice : Nat) : Option Server :=
  match s.threads[t]? with
  | some ⟨held, .call c :: ops⟩ =>
    some { (s.body choice c).2 with
      threads := (s.body choice c).2.threads.set t ⟨held, (s.body choice c).1 ++ ops⟩ }
  | some th => (th.step s.threads).map (fun u => { s with threads := s.threads.set t u })
  | none => none

end Server

def system : Transition.System Server Step where
  step s
    | .phone => some (s.connect [.call .addTask, .call .get])
    | .updateRequest => some (s.connect [.call .processRequestForUpdate])
    | .move t choice => s.move t choice

/-- A constructed server: the monitor, if it runs, and the workers of one pool. -/
def initial (monitoring : Bool) (operators : Nat) (recorders : QueueRef → List RecorderRef) : Server :=
  let s : Server :=
    { threads := if monitoring then [⟨[], [.call .updateConfigThread]⟩] else []
      pools := fun _ => ⟨0, []⟩
      poolCount := 0
      threadPool_ := 0
      recorders_ := recorders }
  s.withPool operators

/-! The order of the locks. -/

def Resource.kind : Resource → Nat
  | .updateMtx => 0
  | .configMutex => 1
  | .thread _ => 2
  | .task_queue_mutex _ => 3
  | .cdrMutex_ _ => 4
  | .writeMutex_ _ => 5

/-- Pools are built one after another. -/
def Resource.age : Resource → Nat
  | .task_queue_mutex p => p
  | _ => 0

/-- The place of a resource in the order: newer pools come after older ones. -/
def rank (r : Resource) : Nat ×ₗ Nat := toLex (r.kind, r.age)

theorem rank_lt_of_kind {x r : Resource} (h : x.kind < r.kind) : rank x < rank r :=
  Prod.Lex.toLex_lt_toLex.mpr (Or.inl h)

theorem rank_lt_of_age {p old : PoolRef} (h : old < p) :
    rank (.task_queue_mutex old) < rank (.task_queue_mutex p) :=
  Prod.Lex.toLex_lt_toLex.mpr (Or.inr ⟨rfl, h⟩)

/-- What the caller of a function holds. -/
def Call.pre : Call → List Resource → Prop
  | .addTask | .get | .processRequestForUpdate | .updateWithRequest | .notify | .update | .isUpdated |
    .updateConfigThread => fun held => held = []
  | .add_task | .resize | .setNewThreadPool _ | .assign _ => fun held => held = [.updateMtx]
  | .push _ | .writeCDR _ => fun held => ∀ x ∈ held, x.kind < 4
  | .transfer _ _ => fun _ => True
  | .run _ | .executeTask _ => fun held => ∃ t, held = [.thread t]
  | .wait p => fun held => ∃ t, held = [.task_queue_mutex p, .thread t]

/-- A thread that blocks keeps no mutex. -/
def discipline : Discipline Resource Call (Nat ×ₗ Nat) where
  rank := rank
  keeps r := ∃ t, r = .thread t
  pre := Call.pre

section
variable {held : List Resource}

theorem below_nil (r : Resource) : discipline.Below [] r := by
  intro x hx
  cases hx

theorem below_cons {x r : Resource} (hx : rank x < rank r) (h : discipline.Below held r) :
    discipline.Below (x :: held) r := by
  intro y hy
  rcases List.mem_cons.mp hy with rfl | hy
  · exact hx
  · exact h y hy

theorem fits_lock_guard {r : Resource} (h : discipline.Below held r) :
    discipline.Fits held held (lock_guard r) := ⟨h, .release rfl⟩

theorem fits_writeCDR (s : Server) (choice : Nat) (q : QueueRef)
    (h : ∀ x ∈ held, x.kind < 4) : discipline.Fits held held (s.body choice (.writeCDR q)).1 := by
  have hcdr : discipline.Below held (.cdrMutex_ q) := fun x hx => rank_lt_of_kind (h x hx)
  have hwrite : ∀ r, discipline.Below (.cdrMutex_ q :: held) (.writeMutex_ r) := by
    intro r
    have hlast : rank (.cdrMutex_ q) < rank (.writeMutex_ r) := rank_lt_of_kind (Nat.lt_succ_self 4)
    exact below_cons hlast (fun x hx => lt_trans (hcdr x hx) hlast)
  have hsections : discipline.Fits (.cdrMutex_ q :: held) (.cdrMutex_ q :: held)
      ((s.recorders_ q).flatMap (fun r => [.acquire .exclusive (.writeMutex_ r), .release (.writeMutex_ r)])) := by
    have hbelow : ∀ x ∈ (s.recorders_ q).map Resource.writeMutex_,
        discipline.Below (.cdrMutex_ q :: held) x := by
      intro x hx
      obtain ⟨r, _, rfl⟩ := List.mem_map.mp hx
      exact hwrite r
    have hall := Discipline.Fits.sections .exclusive hbelow
    rwa [List.flatMap_map] at hall
  exact ⟨hcdr, hsections.append (.release rfl)⟩

theorem fits_branch {ops : List Op} (choice : Nat) (h : discipline.Fits held held ops) :
    discipline.Fits held held (if choice = 0 then [] else ops) := by
  split
  · rfl
  · exact h

theorem below_pool (p : PoolRef) : discipline.Below [.updateMtx] (.task_queue_mutex p) :=
  below_cons (rank_lt_of_kind (Nat.zero_lt_succ 2)) (below_nil _)

/-- The mutex of the new pool is taken under the one of the pool it replaces. -/
theorem fits_setNewThreadPool {s : Server} (hpool : s.threadPool_ < s.poolCount) (choice operators : Nat) :
    discipline.Fits [.updateMtx] [.updateMtx] (s.body choice (.setNewThreadPool operators)).1 := by
  have hnew : discipline.Below [.task_queue_mutex s.threadPool_, .updateMtx] (.task_queue_mutex s.poolCount) :=
    below_cons (rank_lt_of_age hpool) (below_pool _)
  have hne : s.poolCount ≠ s.threadPool_ := Nat.ne_of_gt hpool
  simp only [Server.body, Server.program, Threads.Program.stop, Threads.Program.transferObjects, if_pos hne]
  exact ⟨below_pool _, hnew, trivial, .release (.release ⟨rfl, rfl⟩)⟩

/-- The workers are joined under `updateMtx` alone. -/
theorem fits_assign (s : Server) (choice : Nat) (p : PoolRef) :
    discipline.Fits [.updateMtx] [.updateMtx] (s.body choice (.assign p)).1 := by
  have hjoins : ∀ x ∈ (s.pools s.threadPool_).workers.map Resource.thread,
      discipline.Below [.updateMtx] x := by
    intro x hx
    obtain ⟨t, _, rfl⟩ := List.mem_map.mp hx
    exact below_cons (rank_lt_of_kind (Nat.zero_lt_succ 1)) (below_nil _)
  have hall := Discipline.Fits.awaits hjoins
  rw [List.map_map] at hall
  simp only [Server.body, Server.program, Threads.Program.destroy, Threads.Program.start, List.cons_append,
    List.nil_append, List.flatMap_cons, List.flatMap_nil, Server.locking, List.append_nil]
  exact ⟨below_pool _, .release hall⟩

end

/-- With the pool installed between its parts, this is the program of `setNewThreadPool`. -/
theorem program_setNewThreadPool {s : Server} (hpool : s.threadPool_ < s.poolCount) (choice operators : Nat) :
    ∃ ops, (s.body choice (.setNewThreadPool operators)).1 = ops ++ [.call (.assign s.poolCount)] ∧
      s.program (Threads.Program.setNewThreadPool s.poolCount s.threadPool_) =
        ops ++ (s.body choice (.assign s.poolCount)).1 := by
  have hne : s.poolCount ≠ s.threadPool_ := Nat.ne_of_gt hpool
  refine ⟨_, rfl, ?_⟩
  simp only [Server.program, Server.body, Threads.Program.setNewThreadPool, if_pos hne, List.flatMap_append,
    List.append_assoc]

/-- The body of every call fits what its caller holds. -/
theorem fits_body {s : Server} (hpool : s.threadPool_ < s.poolCount) (choice : Nat) {c : Call}
    {held : List Resource} (h : discipline.pre c held) :
    discipline.Fits held held (s.body choice c).1 := by
  have hread : discipline.Fits [.updateMtx] [.updateMtx] (lock_guard .configMutex) :=
    fits_lock_guard (below_cons (rank_lt_of_kind Nat.zero_lt_one) (below_nil _))
  have hworker : ∀ p t, discipline.Below [.thread t] (.task_queue_mutex p) := fun p t =>
    below_cons (rank_lt_of_kind (Nat.lt_succ_self 2)) (below_nil _)
  cases c with
  | addTask =>
    obtain rfl : held = [] := h
    exact ⟨below_nil _, rfl, rfl⟩
  | add_task =>
    obtain rfl : held = [.updateMtx] := h
    refine ⟨below_pool _, ?_, .release rfl⟩
    intro x hx
    simp only [List.mem_cons, List.not_mem_nil, or_false] at hx
    rcases hx with rfl | rfl <;> simp [Resource.kind]
  | push p => exact fits_branch choice ⟨h, rfl⟩
  | writeCDR q => exact fits_writeCDR s choice q h
  | get =>
    obtain rfl : held = [] := h
    exact fits_branch choice ⟨fun x hx => (by cases hx), rfl⟩
  | processRequestForUpdate =>
    obtain rfl : held = [] := h
    exact ⟨rfl, rfl, rfl⟩
  | updateWithRequest =>
    obtain rfl : held = [] := h
    exact fits_branch choice ((fits_lock_guard (below_nil _)).append ⟨rfl, rfl⟩)
  | notify =>
    obtain rfl : held = [] := h
    exact fits_branch choice ⟨rfl, rfl⟩
  | update =>
    obtain rfl : held = [] := h
    refine ⟨below_nil _, ?_⟩
    exact hread.append (hread.append (hread.append ⟨rfl, rfl⟩))
  | isUpdated =>
    obtain rfl : held = [] := h
    exact fits_branch choice (fits_lock_guard (below_nil _))
  | resize =>
    obtain rfl : held = [.updateMtx] := h
    refine fits_branch choice ((hread.append hread).append ?_)
    split
    · rfl
    · exact ⟨rfl, rfl⟩
  | setNewThreadPool operators =>
    obtain rfl : held = [.updateMtx] := h
    exact fits_setNewThreadPool hpool choice operators
  | transfer p old => rfl
  | assign p =>
    obtain rfl : held = [.updateMtx] := h
    exact fits_assign s choice p
  | updateConfigThread =>
    obtain rfl : held = [] := h
    refine fits_branch choice ?_
    split
    · exact ⟨rfl, rfl⟩
    · exact (fits_lock_guard (below_nil _)).append ⟨rfl, rfl, rfl⟩
  | run p =>
    obtain ⟨t, rfl⟩ := h
    exact fits_branch choice ⟨hworker p t, ⟨t, rfl⟩, .release ⟨⟨t, rfl⟩, ⟨t, rfl⟩, rfl⟩⟩
  | wait p =>
    obtain ⟨t, rfl⟩ := h
    refine fits_branch choice (.release ⟨?_, hworker p t, ⟨t, rfl⟩, rfl⟩)
    intro x hx
    exact ⟨t, List.mem_singleton.mp hx⟩
  | executeTask p =>
    obtain ⟨t, rfl⟩ := h
    refine fits_branch choice ⟨?_, rfl⟩
    intro x hx
    rw [List.mem_singleton.mp hx]
    show 2 < 4
    omega

/-! Who runs. -/

/-- The function of the worker `t` has returned, or the worker holds itself and will
release itself last. -/
def Runs (t : Nat) (th : Thread) : Prop :=
  th.todo = [] ∨ (.thread t ∈ th.holds ∧ ∃ ops, th.todo = ops ++ [.release (.thread t)] ∧
    .release (.thread t) ∉ ops)

namespace Runs
variable {t : Nat} {th u : Thread}

theorem call {held : List (Resource × Mode)} {c : Call} {body ops : List Op} (h : Runs t ⟨held, .call c :: ops⟩)
    (hbody : .release (.thread t) ∉ body) : Runs t ⟨held, body ++ ops⟩ := by
  rcases h with h | ⟨hheld, before, htodo, hbefore⟩
  · cases h
  · cases before with
    | nil => cases htodo
    | cons op before =>
      obtain ⟨rfl, rfl⟩ := List.cons.inj htodo
      refine Or.inr ⟨hheld, body ++ before, by simp, ?_⟩
      intro hmem
      rcases List.mem_append.mp hmem with hmem | hmem
      · exact hbody hmem
      · exact hbefore (List.mem_cons_of_mem _ hmem)

theorem step {threads : List Thread} (h : Runs t th) (hstep : th.step threads = some u) : Runs t u := by
  obtain ⟨op, htodo, hkeeps⟩ := Thread.step_todo hstep
  rcases h with h | ⟨hheld, before, hbefore, hno⟩
  · rw [h] at htodo
    cases htodo
  · rw [hbefore] at htodo
    cases before with
    | nil => exact Or.inl (List.cons.inj htodo).2.symm
    | cons op' before =>
      obtain ⟨rfl, hrest⟩ := List.cons.inj htodo
      have hop : op' ≠ .release (.thread t) := fun heq => hno (heq ▸ List.mem_cons_self)
      exact Or.inr ⟨hkeeps _ hheld hop, before, hrest.symm, fun hmem => hno (List.mem_cons_of_mem _ hmem)⟩

end Runs

/-- The thread `t` is a worker. -/
def Server.Worker (s : Server) (t : Nat) : Prop := ∃ th, s.threads[t]? = some th ∧ Runs t th

/-- Every thread keeps to the discipline, what is joined is a worker, and what is
installed is a pool. -/
structure Orderly (s : Server) : Prop where
  conforms : ∀ th ∈ s.threads, discipline.Conforms th
  workers : ∀ p, ∀ t ∈ (s.pools p).workers, s.Worker t
  joined : ∀ th ∈ s.threads, ∀ t, .await (.thread t) ∈ th.todo → s.Worker t
  assigned : ∀ th ∈ s.threads, ∀ p, .call (.assign p) ∈ th.todo → p < s.poolCount

/-- What the body of a call contains: no call releases a worker, one joins only workers
of a pool, and installs only a pool that was built. -/
def Server.Contains (s : Server) (poolCount : Nat) : Op → Prop
  | .release (.thread _) => False
  | .await (.thread t) => ∃ p, t ∈ (s.pools p).workers
  | .call (.assign p) => p < poolCount
  | _ => True

theorem contains_body (s : Server) (choice : Nat) (c : Call) :
    ∀ op ∈ (s.body choice c).1, s.Contains (s.body choice c).2.poolCount op := by
  cases c with
  | writeCDR q =>
    intro op hop
    simp only [Server.body, List.mem_append, List.mem_flatMap, List.mem_cons,
      List.not_mem_nil, or_false] at hop
    rcases hop with (rfl | ⟨r, _, rfl | rfl⟩) | rfl <;> trivial
  | setNewThreadPool operators =>
    have hlast : s.poolCount < (s.withPool operators).poolCount := Nat.lt_succ_self _
    simp [Server.body, Server.program, Server.locking, Threads.Program.stop,
      Threads.Program.transferObjects, Server.Contains, hlast, or_imp, forall_and]
  | assign p =>
    have hjoins : ∀ t ∈ (s.pools s.threadPool_).workers, ∃ p, t ∈ (s.pools p).workers :=
      fun t ht => ⟨_, ht⟩
    simpa [Server.body, Server.program, Server.locking, Threads.Program.destroy, Threads.Program.start,
      Server.Contains] using hjoins
  | _ =>
    simp only [Server.body]
    repeat' split
    all_goals
      simp [lock_guard, Server.program, Server.locking, Threads.Program.add_task, Server.Contains]

theorem Server.Worker.grow {s s' : Server} {news : List Thread} {t : Nat} (h : s.Worker t)
    (hnews : s'.threads = s.threads ++ news) : s'.Worker t := by
  obtain ⟨th, hth, hruns⟩ := h
  have hlt : t < s.threads.length := (List.getElem?_eq_some_iff.mp hth).1
  refine ⟨th, ?_, hruns⟩
  rw [hnews, List.getElem?_append_left hlt]
  exact hth

theorem runs_worker (p : PoolRef) (t : Nat) : Runs t (Server.worker p t) :=
  Or.inr ⟨List.mem_singleton_self _, [.call (.run p)], rfl, by simp⟩

theorem conforms_worker (p : PoolRef) (t : Nat) : discipline.Conforms (Server.worker p t) :=
  ⟨⟨t, rfl⟩, .release rfl⟩

namespace Orderly
variable {s : Server}

theorem grow {s' : Server} (h : Orderly s) {news : List Thread} (hnews : s'.threads = s.threads ++ news)
    (hcount : s.poolCount ≤ s'.poolCount) (hconforms : ∀ th ∈ news, discipline.Conforms th)
    (hjoins : ∀ th ∈ news, ∀ t, .await (.thread t) ∉ th.todo)
    (hassigned : ∀ th ∈ news, ∀ p, .call (.assign p) ∉ th.todo)
    (hworkers : ∀ p, ∀ t ∈ (s'.pools p).workers, s'.Worker t) : Orderly s' := by
  refine ⟨?_, hworkers, ?_, ?_⟩
  · intro th hth
    rw [hnews] at hth
    rcases List.mem_append.mp hth with hth | hth
    · exact h.conforms th hth
    · exact hconforms th hth
  · intro th hth t ht
    rw [hnews] at hth
    rcases List.mem_append.mp hth with hth | hth
    · exact (h.joined th hth t ht).grow hnews
    · exact absurd ht (hjoins th hth t)
  · intro th hth p hp
    rw [hnews] at hth
    rcases List.mem_append.mp hth with hth | hth
    · exact lt_of_lt_of_le (h.assigned th hth p hp) hcount
    · exact absurd hp (hassigned th hth p)

theorem connect (h : Orderly s) {todo : List Op} (hfits : discipline.Fits [] [] todo)
    (hjoins : ∀ t, .await (.thread t) ∉ todo) (hassigned : ∀ p, .call (.assign p) ∉ todo) :
    Orderly (s.connect todo) := by
  have hnews : (s.connect todo).threads = s.threads ++ [⟨[], todo⟩] := rfl
  refine h.grow hnews (Nat.le_refl _) ?_ ?_ ?_ ?_
  · intro th hth
    rw [List.mem_singleton.mp hth]
    exact hfits
  · intro th hth
    rw [List.mem_singleton.mp hth]
    exact hjoins
  · intro th hth
    rw [List.mem_singleton.mp hth]
    exact hassigned
  · intro p t ht
    exact (h.workers p t ht).grow rfl

theorem withPool (h : Orderly s) (operators : Nat) : Orderly (s.withPool operators) := by
  have hnews : ∀ th ∈ ((List.range operators).map (fun i => s.threads.length + i)).map (Server.worker s.poolCount),
      ∃ t, th = Server.worker s.poolCount t := by
    intro th hth
    obtain ⟨t, _, rfl⟩ := List.mem_map.mp hth
    exact ⟨t, rfl⟩
  apply h.grow rfl (Nat.le_succ _)
  · intro th hth
    obtain ⟨t, rfl⟩ := hnews th hth
    exact conforms_worker _ t
  · intro th hth t
    obtain ⟨u, rfl⟩ := hnews th hth
    simp [Server.worker]
  · intro th hth p
    obtain ⟨u, rfl⟩ := hnews th hth
    simp [Server.worker]
  · intro p t ht
    by_cases hp : p = s.poolCount
    · subst hp
      simp only [Server.withPool, Function.update_self] at ht
      obtain ⟨i, hi, rfl⟩ := List.mem_map.mp ht
      refine ⟨Server.worker s.poolCount (s.threads.length + i), ?_, runs_worker _ _⟩
      have hrange : (List.range operators)[i]? = some i := List.getElem?_range (List.mem_range.mp hi)
      show (s.threads ++ _)[s.threads.length + i]? = _
      rw [List.getElem?_append_right (Nat.le_add_right _ _), Nat.add_sub_cancel_left, List.getElem?_map,
        List.getElem?_map, hrange]
      rfl
    · simp only [Server.withPool, Function.update_of_ne hp] at ht
      exact (h.workers p t ht).grow rfl

theorem body (h : Orderly s) (choice : Nat) (c : Call) : Orderly (s.body choice c).2 := by
  cases c with
  | setNewThreadPool operators => exact h.withPool operators
  | transfer p old =>
    refine ⟨h.conforms, ?_, h.joined, h.assigned⟩
    intro x t ht
    by_cases hx : x = p
    · subst hx
      simp only [Server.body, Function.update_self] at ht
      exact h.workers x t ht
    · simp only [Server.body, Function.update_of_ne hx] at ht
      exact h.workers x t ht
  | assign p => exact ⟨h.conforms, h.workers, h.joined, h.assigned⟩
  | _ => exact h

theorem set (h : Orderly s) {i : Nat} {th u : Thread} (hth : s.threads[i]? = some th)
    (hconforms : discipline.Conforms u) (hruns : ∀ t, Runs t th → Runs t u)
    (hjoins : ∀ t, .await (.thread t) ∈ u.todo → s.Worker t)
    (hassigned : ∀ p, .call (.assign p) ∈ u.todo → p < s.poolCount) :
    Orderly { s with threads := s.threads.set i u } := by
  have hworker : ∀ t, s.Worker t → Server.Worker { s with threads := s.threads.set i u } t := by
    rintro t ⟨w, hw, hrun⟩
    by_cases ht : i = t
    · subst ht
      have hlt : i < s.threads.length := (List.getElem?_eq_some_iff.mp hth).1
      rw [hth] at hw
      cases hw
      exact ⟨u, List.getElem?_set_self hlt, hruns i hrun⟩
    · exact ⟨w, (List.getElem?_set_ne ht).trans hw, hrun⟩
  refine ⟨?_, fun p t ht => hworker t (h.workers p t ht), ?_, ?_⟩
  · intro x hx
    rcases List.mem_or_eq_of_mem_set hx with hx | rfl
    · exact h.conforms x hx
    · exact hconforms
  · intro x hx t ht
    rcases List.mem_or_eq_of_mem_set hx with hx | rfl
    · exact hworker t (h.joined x hx t ht)
    · exact hworker t (hjoins t ht)
  · intro x hx p hp
    rcases List.mem_or_eq_of_mem_set hx with hx | rfl
    · exact h.assigned x hx p hp
    · exact hassigned p hp

end Orderly

theorem Server.grown_body (s : Server) (choice : Nat) (c : Call) :
    (∃ news, (s.body choice c).2.threads = s.threads ++ news) ∧
      s.poolCount ≤ (s.body choice c).2.poolCount := by
  cases c with
  | setNewThreadPool operators => exact ⟨⟨_, rfl⟩, Nat.le_succ _⟩
  | _ => exact ⟨⟨[], (List.append_nil _).symm⟩, Nat.le_refl _⟩

/-- The invariant: the server is orderly, and the pool of the manager was built. -/
structure Sound (s : Server) : Prop extends Orderly s where
  pool : s.threadPool_ < s.poolCount

namespace Sound
variable {s s' : Server}

theorem call (h : Sound s) {t choice : Nat} {held : List (Resource × Mode)} {c : Call} {ops : List Op}
    (hth : s.threads[t]? = some ⟨held, .call c :: ops⟩) :
    Sound { (s.body choice c).2 with
      threads := (s.body choice c).2.threads.set t ⟨held, (s.body choice c).1 ++ ops⟩ } := by
  obtain ⟨⟨news, hnews⟩, hcount⟩ := s.grown_body choice c
  have hmem : (⟨held, .call c :: ops⟩ : Thread) ∈ s.threads := List.mem_of_getElem? hth
  have hcontains := contains_body s choice c
  have hkept : (s.body choice c).2.threads[t]? = some ⟨held, .call c :: ops⟩ := by
    rw [hnews, List.getElem?_append_left (List.getElem?_eq_some_iff.mp hth).1]
    exact hth
  refine ⟨(h.toOrderly.body choice c).set hkept ?_ ?_ ?_ ?_, ?_⟩
  · exact Discipline.conforms_call (h.conforms _ hmem) (fits_body h.pool choice)
  · intro w hw
    exact hw.call (fun hop => hcontains _ hop)
  · intro w hw
    rcases List.mem_append.mp hw with hw | hw
    · obtain ⟨p, hp⟩ := hcontains _ hw
      exact (h.workers p w hp).grow hnews
    · exact (h.joined _ hmem w (List.mem_cons_of_mem _ hw)).grow hnews
  · intro p hp
    rcases List.mem_append.mp hp with hp | hp
    · exact hcontains _ hp
    · exact lt_of_lt_of_le (h.assigned _ hmem p (List.mem_cons_of_mem _ hp)) hcount
  · cases c with
    | setNewThreadPool operators => exact Nat.lt_succ_of_lt h.pool
    | assign p => exact h.assigned _ hmem p List.mem_cons_self
    | _ => exact h.pool

theorem operation (h : Sound s) {t : Nat} {th u : Thread} (hth : s.threads[t]? = some th)
    (hstep : th.step s.threads = some u) : Sound { s with threads := s.threads.set t u } := by
  have hmem : th ∈ s.threads := List.mem_of_getElem? hth
  obtain ⟨op, htodo, _⟩ := Thread.step_todo hstep
  have hrest : ∀ x ∈ u.todo, x ∈ th.todo := by
    intro x hx
    rw [htodo]
    exact List.mem_cons_of_mem _ hx
  refine ⟨h.toOrderly.set hth ?_ ?_ ?_ ?_, h.pool⟩
  · exact Discipline.conforms_step (h.conforms th hmem) hstep
  · exact fun w hw => hw.step hstep
  · exact fun w hw => h.joined th hmem w (hrest _ hw)
  · exact fun p hp => h.assigned th hmem p (hrest _ hp)

theorem move (h : Sound s) {t choice : Nat} (hmove : s.move t choice = some s') : Sound s' := by
  unfold Server.move at hmove
  split at hmove
  · rename_i held c ops hth
    cases hmove
    exact h.call hth
  · rename_i th hno hth
    obtain ⟨u, hu, rfl⟩ := Option.map_eq_some_iff.mp hmove
    exact h.operation hth hu
  · cases hmove

/-- The invariant is kept by every step. -/
theorem step (h : Sound s) {e : Step} (hstep : system.step s e = some s') : Sound s' := by
  cases e with
  | phone =>
    cases hstep
    exact ⟨h.toOrderly.connect ⟨rfl, rfl, rfl⟩ (by simp) (by simp), h.pool⟩
  | updateRequest =>
    cases hstep
    exact ⟨h.toOrderly.connect ⟨rfl, rfl⟩ (by simp) (by simp), h.pool⟩
  | move t choice => exact h.move hstep

end Sound

theorem sound_initial (monitoring : Bool) (operators : Nat) (recorders : QueueRef → List RecorderRef) :
    Sound (initial monitoring operators recorders) := by
  refine ⟨Orderly.withPool ?_ operators, Nat.zero_lt_one⟩
  cases monitoring with
  | false => exact ⟨by simp, by simp, by simp, by simp⟩
  | true =>
    refine ⟨?_, by simp, by simp, by simp⟩
    intro th hth
    rw [List.mem_singleton.mp hth]
    exact ⟨rfl, rfl⟩

/-! Deadlock. -/

/-- The thread `t` waits for a mutex that the thread `u` holds, or joins `u`. -/
def Server.Waits (s : Server) (t u : Nat) : Prop :=
  ∃ th, s.threads[t]? = some th ∧
    ((∃ m r, th.todo.head? = some (.acquire m r) ∧ ∃ v, s.threads[u]? = some v ∧ r ∈ v.holds) ∨
      th.todo.head? = some (.await (.thread u)))

def Server.thread (s : Server) (t : Nat) : Thread := s.threads[t]?.getD ⟨[], []⟩

theorem Server.thread_of {s : Server} {t : Nat} {th : Thread} (h : s.threads[t]? = some th) : s.thread t = th := by
  simp [Server.thread, h]

theorem Server.Waits.thread {s : Server} {t u : Nat} (h : s.Waits t u) :
    ∃ th, s.threads[t]? = some th ∧ th.todo ≠ [] := by
  obtain ⟨th, hth, ⟨m, r, hhead, _⟩ | hhead⟩ := h
  · refine ⟨th, hth, fun hnil => ?_⟩
    rw [hnil] at hhead
    cases hhead
  · refine ⟨th, hth, fun hnil => ?_⟩
    rw [hnil] at hhead
    cases hhead

/-- What a thread waits for is held by the other thread, if that has not returned. -/
theorem Sound.wants_of_waits {s : Server} (h : Sound s) {t u : Nat} (hwaits : s.Waits t u) {v : Thread}
    (hv : s.threads[u]? = some v) (hruns : v.todo ≠ []) :
    ∃ r, (s.thread t).wants = some r ∧ r ∈ (s.thread u).holds := by
  rw [Server.thread_of hv]
  obtain ⟨th, hth, ⟨m, r, hhead, x, hx, hr⟩ | hhead⟩ := hwaits
  · obtain ⟨ops, htodo⟩ := List.head?_eq_some_iff.mp hhead
    rw [hv] at hx
    cases hx
    refine ⟨r, ?_, hr⟩
    rw [Server.thread_of hth, Thread.wants, htodo]
  · obtain ⟨ops, htodo⟩ := List.head?_eq_some_iff.mp hhead
    refine ⟨.thread u, ?_, ?_⟩
    · rw [Server.thread_of hth, Thread.wants, htodo]
    · -- what is joined is a worker, which holds itself until it returns
      have hjoin : .await (.thread u) ∈ th.todo := by
        rw [htodo]
        exact List.mem_cons_self
      obtain ⟨w, hw, hworker⟩ := h.joined th (List.mem_of_getElem? hth) u hjoin
      rw [hv] at hw
      cases hw
      rcases hworker with hnil | ⟨hheld, _⟩
      · exact absurd hnil hruns
      · exact hheld

theorem Sound.no_deadlock {s : Server} (h : Sound s) (D : Set Nat) (hne : D.Nonempty) :
    ¬ ∀ t ∈ D, ∃ u ∈ D, s.Waits t u := by
  intro hall
  have hthread : ∀ t ∈ D, ∃ th, s.threads[t]? = some th ∧ th.todo ≠ [] := by
    intro t ht
    obtain ⟨u, _, hwaits⟩ := hall t ht
    exact hwaits.thread
  have hfin : D.Finite := by
    apply (Set.finite_lt_nat s.threads.length).subset
    intro t ht
    obtain ⟨th, hth, _⟩ := hthread t ht
    exact (List.getElem?_eq_some_iff.mp hth).1
  have hconforms : ∀ t ∈ D, discipline.Conforms (s.thread t) := by
    intro t ht
    obtain ⟨th, hth, _⟩ := hthread t ht
    rw [Server.thread_of hth]
    exact h.conforms th (List.mem_of_getElem? hth)
  refine Discipline.no_cycle hfin hne hconforms (fun t ht => ?_)
  obtain ⟨u, hu, hwaits⟩ := hall t ht
  obtain ⟨v, hv, hruns⟩ := hthread u hu
  exact ⟨u, hu, h.wants_of_waits hwaits hv hruns⟩

/-- A thread that blocks holds no mutex. -/
theorem Sound.blocked {s : Server} (h : Sound s) {th : Thread} (hth : th ∈ s.threads)
    (hblock : th.todo.head? = some .block) : ∀ r ∈ th.holds, ∃ t, r = .thread t := by
  have hfits : discipline.Fits [] th.holds th.todo := h.conforms th hth
  obtain ⟨ops, htodo⟩ := List.head?_eq_some_iff.mp hblock
  rw [htodo] at hfits
  exact hfits.1

/-- In every run of a constructed server no threads wait for each other, for mutexes or
as joins, and a thread that waits for a future or sleeps in a condition variable holds
no mutex. -/
theorem deadlock_free {monitoring : Bool} {operators : Nat} {recorders : QueueRef → List RecorderRef}
    {steps : List Step} {s : Server} (h : system.run (initial monitoring operators recorders) steps = some s) :
    (∀ D : Set Nat, D.Nonempty → ¬ ∀ t ∈ D, ∃ u ∈ D, s.Waits t u) ∧
      ∀ th ∈ s.threads, th.todo.head? = some .block → ∀ r ∈ th.holds, ∃ t, r = .thread t := by
  have hsound : Sound s :=
    Transition.System.run_inv (fun _ _ _ hs hstep => hs.step hstep) h (sound_initial monitoring operators recorders)
  exact ⟨hsound.no_deadlock, fun th hth => hsound.blocked hth⟩

/-- An update swaps the pool while the worker journals a call: it joins the worker, one
call waits for its future, and another for the update. -/
def swapAmidCalls : List Step :=
  let moves (t : Nat) (choices : List Nat) : List Step := choices.map (.move t)
  [.phone, .updateRequest, .phone] ++ moves 1 [1, 0, 1, 0] ++ moves 2 [0, 0, 0, 0, 1, 0, 0, 0, 0, 0, 0, 0, 1] ++
    moves 1 [0, 0, 0, 0, 1, 0, 0, 0] ++ moves 3 [0, 1, 0, 0, 1, 0, 0, 0, 0, 0, 0, 0, 0, 4] ++
    moves 3 [0, 0, 0, 0, 0, 0, 0, 0, 0, 0, 0, 0, 0] ++ moves 4 [0]

def amidSwap : Option Server :=
  system.run (initial true 1 (fun q => if q = 0 then [7] else [])) swapAmidCalls

theorem deadlock_free_amidSwap : ∃ s, amidSwap = some s ∧
    [1, 2, 3, 4].map (fun t => (s.thread t).todo.head?) =
      [some (.release (.writeMutex_ 7)), some .block, some (.await (.thread 1)), some (.acquire .shared .updateMtx)] ∧
    (∀ D : Set Nat, D.Nonempty → ¬ ∀ t ∈ D, ∃ u ∈ D, s.Waits t u) ∧
      ∀ th ∈ s.threads, th.todo.head? = some .block → ∀ r ∈ th.holds, ∃ t, r = .thread t := by
  have hsome : amidSwap.isSome = true := by decide +kernel
  obtain ⟨s, hs⟩ := Option.isSome_iff_exists.mp hsome
  have hnext : amidSwap.map (fun s => [1, 2, 3, 4].map (fun t => (s.thread t).todo.head?)) =
      some [some (.release (.writeMutex_ 7)), some .block, some (.await (.thread 1)),
        some (.acquire .shared .updateMtx)] := by
    decide +kernel
  rw [hs, Option.map_some, Option.some_inj] at hnext
  exact ⟨s, hs, hnext, deadlock_free hs⟩

end ProteiCov.Locks
