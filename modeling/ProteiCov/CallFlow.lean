import Mathlib.Data.List.Count
import ProteiCov.Admission
import ProteiCov.Frames
import ProteiCov.Lib.Transition

/-
  The flow of calls

  Clients submit calls through the manager, the operators of the pools take and
  finish them, and `Manager::update` runs one step at a time: it changes the limit
  of the queue and may build a pool, stop the old one, hand the queue over, wait for
  the old operators and start the new pool, while operators of both pools move in
  between. `updateMtx` keeps calls out while an update runs; starting and stopping the
  pool of the manager takes no such lock. Taking the front entry is one step: a pool's
  workers take it under the pool's mutex, and `PoolSwap` shows that a swap lets the
  workers of one pool at a time to the queue.

  `calls` is the history of the calls that were admitted, in the order of their
  tasks; the code never reads it.

  What is proved:
    1. `Flow` — the invariant: the pools share one queue, every other queue is empty,
       and each call is in one place, unresolved, or in none, resolved.
    2. `calls_conserved` — in every reachable state each call is waiting, in service
       or finished, and its promise and the recorders agree.
-/

namespace ProteiCov
open Cpp

namespace CallFlow

/-- What an operator's thread is at. -/
inductive Post where
  | free
  | serving (e : TaskRef × CallID)
  | left
  deriving DecidableEq, Repr

/-- The call that is served there. -/
def Post.call : Post → Option (TaskRef × CallID)
  | .serving e => some e
  | _ => none

/-- A worker thread of a pool. -/
structure Operator where
  pool : PoolRef
  post : Post
  deriving DecidableEq, Repr

/-- What an update does next; from `stop` on, it has built the pool `p`. -/
inductive Stage where
  | limit
  | resize
  | stop (p : PoolRef)
  | transfer (p : PoolRef)
  | assign (p : PoolRef)
  | join (old : PoolRef)
  | start
  deriving DecidableEq, Repr

/-- A call that was admitted: who submitted it, its number and its CallID. -/
structure Call where
  thread : ThreadId
  number : List Char
  callID : CallID
  deriving DecidableEq, Repr

structure State where
  world : World
  manager : Manager
  operators : List Operator
  updating : Option Stage
  calls : List Call

inductive Step where
  | addTask (thread : ThreadId) (now pushNow : TimePoint) (number : List Char)
  | take (i : Nat) (thread : ThreadId)
  | finish (i : Nat) (env : Service)
  | leave (i : Nat)
  | startThreadPool
  | stopThreadPool
  | update (minMax : Int × Int)
  | proceed (operators amount size : Int)

/-- `if (run_allowed()) { … processTask() … }`. -/
def dequeue (hash : ThreadId → UInt64) (thread : ThreadId) (p : PoolRef) :
    Exec World (Option (TaskRef × CallID)) := do
  let allowed ← ThreadPool.run_allowed p
  if allowed then
    let e ← ThreadPool.processTask hash thread p
    return some e
  else return none

/-- `waitForCompletion && task_queue->empty()`. -/
def drained (p : PoolRef) : Exec World Bool := do
  let pool ← readPool p
  if pool.waitForCompletion then
    match pool.task_queue with
    | some q =>
      let queue ← readQueue q
      return queue.queue_.isEmpty
    | none => .undefined
  else return false

/-- `executeTask`, and whether the worker breaks out of its loop after it. -/
def serve (env : Service) (p : PoolRef) (t : TaskRef) : Exec World Bool := do
  ThreadPool.executeTask env p t
  drained p

namespace State

/-- A client's `addTask`; a call whose number `stoll` refuses is not submitted. -/
def addTask (hash : ThreadId → UInt64) (s : State) (thread : ThreadId) (now pushNow : TimePoint)
    (number : List Char) : Option State :=
  match (s.manager.addTask hash thread now pushNow number).run s.world with
  | (.ok id, v) => some { s with world := v, calls := s.calls ++ [⟨thread, number, id⟩] }
  | _ => none

/-- A free operator takes the front entry. -/
def take (hash : ThreadId → UInt64) (s : State) (i : Nat) (thread : ThreadId) : Option State :=
  match s.operators[i]? with
  | some ⟨p, .free⟩ =>
    match (dequeue hash thread p).run s.world with
    | (.ok (some e), v) => some { s with world := v, operators := s.operators.set i ⟨p, .serving e⟩ }
    | _ => none
  | _ => none

/-- A serving operator runs `executeTask`; an exception that leaves it ends the
process. -/
def finish (s : State) (i : Nat) (env : Service) : Option State :=
  match s.operators[i]? with
  | some ⟨p, .serving e⟩ =>
    match (serve env p e.1).run s.world with
    | (.ok out, v) =>
      some { s with world := v, operators := s.operators.set i ⟨p, if out then .left else .free⟩ }
    | _ => none
  | _ => none

/-- An operator whose pool is stopped leaves its loop. -/
def leave (s : State) (i : Nat) : Option State :=
  match s.operators[i]? with
  | some ⟨p, .free⟩ =>
    if (s.world.pools p).stopped then some { s with operators := s.operators.set i ⟨p, .left⟩ }
    else none
  | _ => none

/-- A method of the manager that only sets flags of its pool. -/
def flags (s : State) (x : Exec World Unit) (next : Option Stage) : Option State :=
  match x.run s.world with
  | (.ok (), v) => some { s with world := v, updating := next }
  | _ => none

/-- The pool is compared with the configuration and a new one built if its size
differs; an exception ends the update. -/
def resize (s : State) (operators amount size : Int) : Option State :=
  match (s.manager.sizeDiffers operators).run s.world with
  | (.ok false, v) => some { s with world := v, updating := none }
  | (.ok true, v) =>
    match (Manager.buildPool s.manager.logger_ amount size).run v with
    | (.ok p, u) =>
      some { s with
        world := u
        operators := s.operators ++ List.replicate (toUnsigned amount) ⟨p, .free⟩
        updating := some (.stop p) }
    | (.throws _, u) => some { s with world := u, updating := none }
    | (.undefined, _) => none
  | _ => none

def assign (s : State) (p : PoolRef) : Option State :=
  match (s.manager.assignPool p).run s.world with
  | (.ok m, v) =>
    some { s with world := v, manager := m, updating := some (.join s.manager.threadPool_) }
  | _ => none

/-- The destructor of the old pool joins its operators. -/
def join (s : State) (old : PoolRef) : Option State :=
  if s.operators.all (fun o => o.pool ≠ old ∨ o.post = .left) then
    some { s with updating := some .start }
  else none

/-- The next step of an update; what the configuration gives is `operators`,
`amount` and `size`. -/
def proceed (s : State) (operators amount size : Int) : Option State :=
  match s.updating with
  | none => none
  | some .limit => s.flags (s.manager.updateQueue size) (some .resize)
  | some .resize => s.resize operators amount size
  | some (.stop p) => s.flags s.manager.stopThreadPool (some (.transfer p))
  | some (.transfer p) =>
    s.flags (ThreadPool.transferObjects p s.manager.threadPool_) (some (.assign p))
  | some (.assign p) => s.assign p
  | some (.join old) => s.join old
  | some .start => s.flags s.manager.startThreadPool none

end State

/-- The flow of calls through a manager. -/
def system (hash : ThreadId → UInt64) : Transition.System State Step where
  step s
    | .addTask thread now pushNow number =>
      if s.updating = none then s.addTask hash thread now pushNow number else none
    | .take i thread => s.take hash i thread
    | .finish i env => s.finish i env
    | .leave i => s.leave i
    | .startThreadPool => s.flags s.manager.startThreadPool s.updating
    | .stopThreadPool => s.flags s.manager.stopThreadPool s.updating
    | .update minMax =>
      if s.updating = none then
        some { s with manager := s.manager.setMinMax minMax, updating := some .limit }
      else none
    | .proceed operators amount size => s.proceed operators amount size

/-! Where the calls are. -/

/-- The entries of the queue of the manager's pool. -/
def currentQueue (s : State) : List (TaskRef × CallID) :=
  match (s.world.pools s.manager.threadPool_).task_queue with
  | some q => (s.world.queues q).queue_
  | none => []

def isCall (t : TaskRef) (e : TaskRef × CallID) : Bool := e.1 = t

def Operator.serves (t : TaskRef) (o : Operator) : Bool :=
  match o.post with
  | .serving e => isCall t e
  | _ => false

/-- How often the call is in the queue. -/
def waiting (s : State) (t : TaskRef) : Nat := (currentQueue s).countP (isCall t)

/-- How many operators serve the call. -/
def inService (s : State) (t : TaskRef) : Nat := s.operators.countP (Operator.serves t)

/-- The call is waiting, in service or finished, and was resolved exactly when it is
finished. -/
def Conserved (recorders : List RecorderRef) (s : State) (t : TaskRef) : Prop :=
  (waiting s t = 1 ∧ inService s t = 0 ∧ Unresolved s.world t) ∨
  (waiting s t = 0 ∧ inService s t = 1 ∧ Unresolved s.world t) ∨
  (waiting s t = 0 ∧ inService s t = 0 ∧ Resolved recorders s.world t)

/-- The pools an update has in hand. -/
def StageOk (q : QueueRef) (w : World) (m : Manager) : Option Stage → Prop
  | some (.stop p) | some (.transfer p) => p < w.poolCount ∧ p ≠ m.threadPool_
  | some (.assign p) => p < w.poolCount ∧ (w.pools p).task_queue = some q
  | _ => True

section
variable {q : QueueRef} {w v : World} {m : Manager} {stage : Option Stage}

theorem StageOk.congr (h : StageOk q w m stage) (hpools : v.pools = w.pools) (hcount : v.poolCount = w.poolCount) :
    StageOk q v m stage := by
  cases stage with
  | none => trivial
  | some stage =>
    cases stage with
    | stop p | transfer p => exact ⟨hcount ▸ h.1, h.2⟩
    | assign p => exact ⟨hcount ▸ h.1, hpools ▸ h.2⟩
    | limit | resize | join old | start => trivial

theorem StageOk.reconfigures (h : StageOk q w m stage) (hr : Reconfigures q w v) : StageOk q v m stage := by
  cases stage with
  | none => trivial
  | some stage =>
    cases stage with
    | stop p | transfer p => exact ⟨Nat.lt_of_lt_of_le h.1 hr.poolCount, h.2⟩
    | assign p => exact ⟨Nat.lt_of_lt_of_le h.1 hr.poolCount, hr.pools p h.1 h.2⟩
    | limit | resize | join old | start => trivial

end

/-- The places of a call in the queue object `q` and with the operators. -/
def places (q : QueueRef) (s : State) (t : TaskRef) : Nat :=
  (s.world.queues q).queue_.countP (isCall t) + inService s t

/-- A call in one place is unresolved, and one in no place is over. -/
def Placed (recorders : List RecorderRef) (q : QueueRef) (s : State) (t : TaskRef) : Prop :=
  (places q s t = 1 ∧ Unresolved s.world t) ∨ (places q s t = 0 ∧ Ended recorders s.world t)

/-- The pools and their queue: the manager's pool and the pools of busy operators
share `q`, which has the recorders, and no other queue has an entry. -/
structure Wired (recorders : List RecorderRef) (q : QueueRef) (s : State) : Prop where
  queue : (s.world.pools s.manager.threadPool_).task_queue = some q
  installed : (s.world.queues q).recorders_ = recorders
  others : ∀ r, r ≠ q → (s.world.queues r).queue_ = []
  queueMade : q < s.world.queueCount
  poolMade : s.manager.threadPool_ < s.world.poolCount
  operators : ∀ o ∈ s.operators, o.pool < s.world.poolCount ∧
    ∀ e, o.post = .serving e → (s.world.pools o.pool).task_queue = some q
  stage : StageOk q s.world s.manager s.updating
  taskCount : s.world.taskCount = s.calls.length
  logged : ∀ t : Nat, t < s.calls.length → (s.world.tasks t).logger_ = true

/-- The invariant: the wiring, and where the calls are. -/
structure Flow (recorders : List RecorderRef) (q : QueueRef) (s : State) : Prop
    extends Wired recorders q s where
  known : ∀ t : Nat, t < s.calls.length → Placed recorders q s t
  unknown : ∀ t : Nat, s.calls.length ≤ t → places q s t = 0 ∧ settlements t s.world.trace = [] ∧
    journalOf t s.world.trace = []

/-- What a step does to the calls: it ends `gone`, if any, and takes it out of its
place; the calls it adds come into one place, and nothing else moves. -/
structure Advances (recorders : List RecorderRef) (q : QueueRef) (gone : Option TaskRef)
    (s t : State) : Prop extends Wired recorders q t where
  grows : s.calls.length ≤ t.calls.length
  balance : ∀ x : Nat, places q t x + (if gone = some x then 1 else 0) =
    places q s x + (if s.calls.length ≤ x ∧ x < t.calls.length then 1 else 0)
  ended : ∀ x : Nat, gone = some x → Ended recorders t.world x
  admitted : ∀ x : Nat, s.calls.length ≤ x → x < t.calls.length → gone ≠ some x →
    Unresolved t.world x
  kept : ∀ x : Nat, x < s.calls.length ∨ t.calls.length ≤ x → gone ≠ some x →
    SameCall x s.world t.world

namespace Advances
variable {recorders : List RecorderRef} {q : QueueRef} {gone : Option TaskRef} {s t : State}

theorem inRange (h : Advances recorders q gone s t) (hs : Flow recorders q s) {x : Nat}
    (hx : gone = some x) : x < t.calls.length := by
  rcases Nat.lt_or_ge x t.calls.length with hlt | hge
  · exact hlt
  · have hb := h.balance x
    have hzero := (hs.unknown x (Nat.le_trans h.grows hge)).1
    rw [if_pos hx, if_neg (by omega)] at hb
    omega

theorem unresolved (h : Advances recorders q gone s t) (hs : Flow recorders q s) {x : Nat}
    (hx : gone = some x) (hlt : x < s.calls.length) : Unresolved s.world x := by
  have hb := h.balance x
  rw [if_pos hx, if_neg (by omega)] at hb
  rcases hs.known x hlt with ⟨_, hw⟩ | ⟨hzero, _⟩
  · exact hw
  · omega

theorem placed (h : Advances recorders q gone s t) (hs : Flow recorders q s) {x : Nat}
    (hx : x < t.calls.length) : Placed recorders q t x := by
  have hb := h.balance x
  by_cases hgone : gone = some x
  · refine Or.inr ⟨?_, h.ended x hgone⟩
    rw [if_pos hgone] at hb
    rcases Nat.lt_or_ge x s.calls.length with hlt | hge
    · rw [if_neg (by omega)] at hb
      rcases hs.known x hlt with ⟨hone, _⟩ | ⟨hzero, _⟩ <;> omega
    · have hzero := (hs.unknown x hge).1
      rw [if_pos ⟨hge, hx⟩] at hb
      omega
  · rw [if_neg hgone] at hb
    rcases Nat.lt_or_ge x s.calls.length with hlt | hge
    · rw [if_neg (by omega)] at hb
      have hsame := h.kept x (Or.inl hlt) hgone
      rcases hs.known x hlt with ⟨hone, hw⟩ | ⟨hzero, hw⟩
      · exact Or.inl ⟨by omega, hsame.unresolved hw⟩
      · exact Or.inr ⟨by omega, hsame.ended hw⟩
    · have hzero := (hs.unknown x hge).1
      rw [if_pos ⟨hge, hx⟩] at hb
      exact Or.inl ⟨by omega, h.admitted x hge hx hgone⟩

theorem flow (h : Advances recorders q gone s t) (hs : Flow recorders q s) : Flow recorders q t where
  toWired := h.toWired
  known := fun _ hx => h.placed hs hx
  unknown := by
    intro x hx
    obtain ⟨hzero, hset, hjou⟩ := hs.unknown x (Nat.le_trans h.grows hx)
    have hgone : gone ≠ some x := fun heq => Nat.not_lt.mpr hx (h.inRange hs heq)
    have hsame := h.kept x (Or.inr hx) hgone
    have hb := h.balance x
    rw [if_neg hgone, if_neg (by omega), hzero] at hb
    exact ⟨by omega, hsame.settlements.trans hset, hsame.journal.trans hjou⟩

end Advances

namespace Flow
variable {recorders : List RecorderRef} {q : QueueRef} {s : State}

theorem conserved (hs : Flow recorders q s) {t : TaskRef} (ht : t < s.calls.length)
    (hreturned : ¬ Failed s.world t) : Conserved recorders s t := by
  have hqueue : waiting s t = (s.world.queues q).queue_.countP (isCall t) := by
    simp only [waiting, currentQueue, hs.queue]
  have hplaces : places q s t = waiting s t + inService s t := by
    rw [hqueue]
    rfl
  rcases hs.known t ht with ⟨hone, hw⟩ | ⟨hzero, hw⟩
  -- one place: the queue or an operator
  · rcases Nat.eq_zero_or_pos (waiting s t) with hz | hp
    · exact Or.inr (Or.inl ⟨hz, by omega, hw⟩)
    · exact Or.inl ⟨by omega, by omega, hw⟩
  · exact Or.inr (Or.inr ⟨by omega, by omega, hw.resolve_right hreturned⟩)

theorem somewhere (hs : Flow recorders q s) {x : Nat} (hpos : 0 < places q s x) :
    x < s.calls.length ∧ Unresolved s.world x := by
  have hlt : x < s.calls.length := by
    apply Nat.lt_of_not_le
    intro hge
    rw [(hs.unknown x hge).1] at hpos
    exact Nat.lt_irrefl 0 hpos
  refine ⟨hlt, ?_⟩
  rcases hs.known x hlt with ⟨_, hw⟩ | ⟨hzero, _⟩
  · exact hw
  · omega

theorem entry (hs : Flow recorders q s) {d : TaskRef × CallID}
    (hd : d ∈ (s.world.queues q).queue_) : d.1 < s.calls.length ∧ Unresolved s.world d.1 := by
  apply hs.somewhere
  have hcount : 0 < (s.world.queues q).queue_.countP (isCall d.1) :=
    List.countP_pos_iff.mpr ⟨d, hd, by simp [isCall]⟩
  unfold places
  omega

theorem served (hs : Flow recorders q s) {o : Operator} (ho : o ∈ s.operators)
    {e : TaskRef × CallID} (he : o.post = .serving e) :
    e.1 < s.calls.length ∧ Unresolved s.world e.1 := by
  apply hs.somewhere
  have hcount : 0 < inService s e.1 :=
    List.countP_pos_iff.mpr ⟨o, ho, by simp [Operator.serves, he, isCall]⟩
  unfold places
  omega

/-! Calls arrive. -/

/-- `addTask` in a flow: with a logger and a number `stoll` accepts it returns. -/
theorem submits (hs : Flow recorders q s) (hash : ThreadId → UInt64) (thread : ThreadId)
    (now pushNow : TimePoint) {number : List Char} {n : Int64} (hlog : s.manager.logger_ = true)
    (hnum : stoll number = .ok n) :
    ∃ v gone, (s.manager.addTask hash thread now pushNow number).run s.world =
        (.ok (ThreadPool.generateCallID hash thread n), v) ∧
      Admitted q (s.calls.length, ThreadPool.generateCallID hash thread n) gone s.world v ∧
      (gone = none ↔ Queue.Accepts s.world q number) := by
  have hnew : s.world.taskCount = s.calls.length := hs.taskCount
  have hfresh := hs.unknown s.world.taskCount (Nat.le_of_eq hnew.symm)
  rw [← hnew]
  apply run_addTask hash thread now pushNow hlog hnum hs.queue _ hfresh.2
  intro d hd
  exact ⟨hnew ▸ Nat.ne_of_lt (hs.entry hd).1, (hs.entry hd).2⟩

/-- So a client is never turned away but by an update. -/
theorem addTask_runs (hs : Flow recorders q s) (hash : ThreadId → UInt64) (thread : ThreadId)
    (now pushNow : TimePoint) {number : List Char} {n : Int64} (hlog : s.manager.logger_ = true)
    (hnum : stoll number = .ok n) :
    ∃ t, s.addTask hash thread now pushNow number = some t ∧
      t.calls = s.calls ++ [⟨thread, number, ThreadPool.generateCallID hash thread n⟩] := by
  obtain ⟨v, gone, hrun, _⟩ := hs.submits hash thread now pushNow hlog hnum
  unfold State.addTask
  rw [hrun]
  exact ⟨_, rfl, rfl⟩

theorem wired_admitted (hs : Flow recorders q s) {v : World} {e : TaskRef × CallID}
    {gone : Option (TaskRef × CallID)} (hadm : Admitted q e gone s.world v) (c : Call) :
    Wired recorders q { s with world := v, calls := s.calls ++ [c] } where
  queue := by
    rw [hadm.pools]
    exact hs.queue
  installed := hadm.recorders.trans hs.installed
  others := by
    intro r hr
    rw [hadm.queues r hr]
    exact hs.others r hr
  queueMade := hadm.queueCount ▸ hs.queueMade
  poolMade := hadm.poolCount ▸ hs.poolMade
  operators := by
    intro o ho
    rw [hadm.pools, hadm.poolCount]
    exact hs.operators o ho
  stage := hs.stage.congr hadm.pools hadm.poolCount
  taskCount := by
    rw [List.length_append]
    exact hadm.taskCount.trans (congrArg (fun n => n + 1) hs.taskCount)
  logged := by
    intro x hx
    rw [List.length_append, List.length_singleton] at hx
    rw [hadm.logger]
    by_cases hxe : x = e.1
    · rw [if_pos hxe]
    · rw [if_neg hxe]
      apply hs.logged x
      have htask : @Eq Nat e.1 s.calls.length := hadm.task.trans hs.taskCount
      have hne : ¬ @Eq Nat x e.1 := hxe
      omega

/-- The entries before and the new one are the entries after and the one that went. -/
theorem balance_admitted {w v : World} {e : TaskRef × CallID} {gone : Option (TaskRef × CallID)}
    (hadm : Admitted q e gone w v) (x : Nat) :
    (v.queues q).queue_.countP (isCall x) + (if gone.map Prod.fst = some x then 1 else 0) =
      (w.queues q).queue_.countP (isCall x) + (if e.1 = x then 1 else 0) := by
  have hperm := hadm.entries.countP_eq (isCall x)
  have hgone : gone.toList.countP (isCall x) = if gone.map Prod.fst = some x then 1 else 0 := by
    cases gone <;> simp [isCall, List.countP_singleton]
  simp only [List.countP_append, List.countP_singleton, hgone, isCall, decide_eq_true_eq] at hperm
  omega

/-- What an admission does to the calls. -/
theorem admits (hs : Flow recorders q s) {v : World} {e : TaskRef × CallID}
    {gone : Option (TaskRef × CallID)} (hadm : Admitted q e gone s.world v) (c : Call) :
    Advances recorders q (gone.map Prod.fst) s { s with world := v, calls := s.calls ++ [c] } ∧
      ∀ x : Nat, gone.map Prod.fst = some x → Resolved recorders v x := by
  have htask : @Eq Nat e.1 s.calls.length := hadm.task.trans hs.taskCount
  have hlen : (s.calls ++ [c]).length = s.calls.length + 1 := by simp
  have hresolved : ∀ x : Nat, gone.map Prod.fst = some x → Resolved recorders v x := by
    intro x hx
    obtain ⟨d, hd, rfl⟩ := Option.map_eq_some_iff.mp hx
    exact hs.installed ▸ hadm.resolved d hd
  have hgone : ∀ x : Nat, gone.map Prod.fst ≠ some x → ∀ d, gone = some d → x ≠ d.1 := by
    intro x hne d hd heq
    apply hne
    rw [hd, Option.map_some, ← heq]
  refine ⟨⟨hs.wired_admitted hadm c, ?_, fun x => ?_, fun x hx => Or.inl (hresolved x hx),
    fun x hge hlt hne => ?_, fun x hx hne => ?_⟩, hresolved⟩
  · exact Nat.le_of_lt (hlen ▸ Nat.lt_succ_self _)
  · have hb := balance_admitted hadm x
    have hself : (if e.1 = x then 1 else 0) =
        if s.calls.length ≤ x ∧ x < s.calls.length + 1 then 1 else 0 := by
      apply if_congr _ rfl rfl
      show @Eq Nat e.1 x ↔ _
      omega
    rw [hself] at hb
    show (v.queues q).queue_.countP (isCall x) + inService s x + _ =
      (s.world.queues q).queue_.countP (isCall x) + inService s x + _
    rw [hlen]
    omega
  · -- the new call, which the push may have refused
    rw [hlen] at hlt
    have hxe : @Eq Nat x e.1 := by omega
    rw [hxe]
    apply hadm.admitted
    rw [← hxe]
    exact hgone x hne
  · rw [hlen] at hx
    apply hadm.others x _ (hgone x hne)
    show ¬ @Eq Nat x e.1
    omega

theorem addTask {hash : ThreadId → UInt64} {t : State} {thread : ThreadId} {now pushNow : TimePoint}
    {number : List Char} (hs : Flow recorders q s)
    (h : s.addTask hash thread now pushNow number = some t) :
    ∃ gone, Advances recorders q gone s t ∧ (gone = none ↔ Queue.Accepts s.world q number) ∧
      ∀ x : Nat, gone = some x → Resolved recorders t.world x := by
  unfold State.addTask at h
  split at h
  · rename_i id v hrun
    cases h
    obtain ⟨hlog, n, hnum, _⟩ := addTask_ok hrun
    obtain ⟨u, gone, hrun', hadm, haccepts⟩ := hs.submits hash thread now pushNow hlog hnum
    rw [hrun'] at hrun
    cases hrun
    obtain ⟨hadv, hresolved⟩ := hs.admits hadm ⟨thread, number, ThreadPool.generateCallID hash thread n⟩
    refine ⟨gone.map Prod.fst, hadv, ?_, hresolved⟩
    rw [Option.map_eq_none_iff, haccepts]
  · cases h

end Flow

/-! Calls are taken and finished. -/

theorem inService_set {s t : State} {i : Nat} {o o' : Operator} (hi : s.operators[i]? = some o)
    (ht : t.operators = s.operators.set i o') (x : TaskRef) :
    inService t x + (if o.serves x then 1 else 0) = inService s x + (if o'.serves x then 1 else 0) := by
  obtain ⟨hlt, hget⟩ := List.getElem?_eq_some_iff.mp hi
  have hpos : o.serves x = true → 0 < s.operators.countP (Operator.serves x) := fun h =>
    List.countP_pos_iff.mpr ⟨o, List.mem_of_getElem? hi, h⟩
  unfold inService
  rw [ht, List.countP_set hlt, hget]
  cases ho : o.serves x with
  | false => simp
  | true =>
    have := hpos ho
    simp only [if_true]
    omega

theorem run_run_allowed (p : PoolRef) (w : World) :
    (ThreadPool.run_allowed p).run w = (.ok (match (w.pools p).task_queue with
      | some q => !(w.queues q).queue_.isEmpty && !(w.pools p).paused
      | none => false), w) := by
  have hpool : (readPool p).run w = (.ok (w.pools p), w) := rfl
  rw [ThreadPool.run_allowed, Exec.run_bind_ok hpool]
  cases (w.pools p).task_queue <;> rfl

theorem dequeue_some {hash : ThreadId → UInt64} {thread : ThreadId} {p : PoolRef} {w v : World}
    {e : TaskRef × CallID}
    (hlog : ∀ q d rest, (w.pools p).task_queue = some q → (w.queues q).queue_ = d :: rest →
      (w.tasks d.1).logger_ = true)
    (h : (dequeue hash thread p).run w = (.ok (some e), v)) :
    ∃ q rest, (w.pools p).task_queue = some q ∧ (w.queues q).queue_ = e :: rest ∧
      v = ((w.mapCDR e.1 (fun c => { c with operatorID := hash thread })).emit
        [.readNumber e.1]).setEntries q rest := by
  rw [dequeue, Exec.run_bind_ok (run_run_allowed p w)] at h
  cases hq : (w.pools p).task_queue with
  | none =>
    rw [hq] at h
    cases h
  | some q =>
    rw [hq] at h
    cases hes : (w.queues q).queue_ with
    | nil =>
      simp only [hes] at h
      cases h
    | cons d rest =>
      simp only [hes] at h
      cases hpaused : (w.pools p).paused with
      | true =>
        simp only [hpaused] at h
        cases h
      | false =>
        simp only [hpaused] at h
        have hproc := ThreadPool.run_processTask hash thread hq hes
          (hlog q d rest hq hes)
        rw [if_pos (by rfl), Exec.run_bind_ok hproc] at h
        cases h
        exact ⟨q, rest, rfl, hes, rfl⟩

namespace Flow
variable {recorders : List RecorderRef} {q : QueueRef} {s t : State}

/-- An operator changes its post and ends at most one call: the places of each call
and what is known of it change together. -/
theorem work (hs : Flow recorders q s) {v : World} {i : Nat} {o o' : Operator}
    {gone : Option TaskRef} (hi : s.operators[i]? = some o) (hpool : o'.pool = o.pool)
    (hserving : ∀ e, o'.post = .serving e → (s.world.pools o.pool).task_queue = some q)
    (hr : Touches q gone s.world v) (hgone : ∀ x : Nat, gone = some x → Ended recorders v x)
    (hcount : ∀ x : Nat, (v.queues q).queue_.countP (isCall x) + (if o'.serves x then 1 else 0) +
      (if gone = some x then 1 else 0) =
      (s.world.queues q).queue_.countP (isCall x) + (if o.serves x then 1 else 0)) :
    Advances recorders q gone s { s with world := v, operators := s.operators.set i o' } where
  queue := by
    rw [hr.pools]
    exact hs.queue
  installed := hr.recorders.trans hs.installed
  others := by
    intro r hr'
    rw [hr.queues r hr']
    exact hs.others r hr'
  queueMade := hr.queueCount ▸ hs.queueMade
  poolMade := hr.poolCount ▸ hs.poolMade
  operators := by
    intro o₁ ho₁
    rw [hr.pools, hr.poolCount]
    rcases List.mem_or_eq_of_mem_set ho₁ with hmem | rfl
    · exact hs.operators o₁ hmem
    · rw [hpool]
      exact ⟨(hs.operators o (List.mem_of_getElem? hi)).1, hserving⟩
  stage := hs.stage.congr hr.pools hr.poolCount
  taskCount := hr.taskCount.trans hs.taskCount
  logged := fun x hx => (hr.logger x).trans (hs.logged x hx)
  grows := Nat.le_refl _
  balance := by
    intro x
    have hset := inService_set (t := { s with world := v, operators := s.operators.set i o' }) hi rfl x
    have hc := hcount x
    have hnone : ¬ (s.calls.length ≤ x ∧ x < s.calls.length) := by omega
    show (v.queues q).queue_.countP (isCall x) + inService _ x + _ =
      (s.world.queues q).queue_.countP (isCall x) + inService s x +
        (if s.calls.length ≤ x ∧ x < s.calls.length then 1 else 0)
    rw [if_neg hnone]
    omega
  ended := hgone
  admitted := fun x hge hlt _ => absurd hlt (Nat.not_lt.mpr hge)
  kept := fun x _ hx => hr.others x hx

theorem take {hash : ThreadId → UInt64} {i : Nat} {thread : ThreadId} (hs : Flow recorders q s)
    (h : s.take hash i thread = some t) : Advances recorders q none s t := by
  unfold State.take at h
  split at h
  · rename_i p hi
    split at h
    · rename_i e v hrun
      cases h
      -- only the queue `q` has entries, so the pool's queue is `q`
      have hqueue : ∀ q' d rest, (s.world.queues q').queue_ = d :: rest → q' = q := by
        intro q' d rest hes
        by_contra hne
        rw [hs.others q' hne] at hes
        cases hes
      obtain ⟨q', rest, hq', hes, rfl⟩ := dequeue_some (fun q' d rest _ hes => by
        have hqq := hqueue q' d rest hes
        subst hqq
        exact hs.logged d.1 (hs.entry (hes ▸ List.mem_cons_self)).1) hrun
      have hqq := hqueue q' e rest hes
      subst hqq
      have htouch : Touches q' none s.world (((s.world.mapCDR e.1 (fun c => { c with
          operatorID := hash thread })).emit [.readNumber e.1]).setEntries q' rest) :=
        ((Touches.refl _ q').setEntries rest).undisturbed ((Undisturbed.mapCDR _ _ _).trans _ _ _
          (Undisturbed.emit _ _ (by simp [Event.quiet])))
      refine hs.work hi rfl (fun _ _ => hq') htouch (fun x hx => by cases hx) (fun x => ?_)
      cases hx : isCall x e <;> simp [World.setEntries, hes, Operator.serves, hx]
    · cases h
  · cases h

theorem run_drained {p : PoolRef} {w : World} (hq : (w.pools p).task_queue = some q) :
    (drained p).run w =
      (.ok ((w.pools p).waitForCompletion && (w.queues q).queue_.isEmpty), w) := by
  have hpool : (readPool p).run w = (.ok (w.pools p), w) := rfl
  rw [drained, Exec.run_bind_ok hpool, hq]
  cases (w.pools p).waitForCompletion with
  | true => rfl
  | false => rfl

theorem resolves_served {env : Service} {p : PoolRef} {c : TaskRef} {w : World}
    (hret : Task.Returns env (w.tasks c)) (hq : (w.pools p).task_queue = some q)
    (hun : Unresolved w c) :
    ∃ v, (ThreadPool.executeTask env p c).run w = (.ok (), v) ∧ Resolves q (some c) w v ∧
      v.queues = w.queues := by
  have hdo := Task.run_doTask hret
  have hkeep := served_undisturbed hret
  have hun' := (SameCall.of_undisturbed hkeep).unresolved hun
  refine ⟨_, ThreadPool.run_executeTask hdo (by rw [hkeep.pools, hq]) hun'.pending, ⟨?_, ?_⟩,
    hkeep.queues⟩
  · have hjournal : Touches q (some c) (w.served env c) (((w.served env c).journal q c).settled c
        (.value (servedResult env (w.tasks c)))) := by
      have hset := Touches.settled q c (.value (servedResult env (w.tasks c))) ((w.served env c).journal q c)
      refine ⟨hset.recorders, hset.queues, hset.pools, hset.taskCount, hset.queueCount, hset.poolCount,
        hset.logger, fun x hx => ?_⟩
      exact SameCall.resolve (fun heq => hx (congrArg some heq.symm)) _ q _
    exact hjournal.undisturbed hkeep
  · intro x hx
    cases hx
    refine ⟨_, _, hkeep.queues ▸ hun'.resolve q ?_ ?_⟩
    · simp [World.served, servedResult, servedCDR, answeredCDR]
    · by_cases ht : timely env (w.tasks c) <;> simp [servedResult, ht, CallStatus.final]

/-- A served call that `executeTask` returns from is over: resolved if `doTask`
returned, failed if not. -/
theorem ended_served {env : Service} {p : PoolRef} {c : TaskRef} {w v : World}
    (hrun : (ThreadPool.executeTask env p c).run w = (.ok (), v))
    (hq : (w.pools p).task_queue = some q) (hun : Unresolved w c) :
    Touches q (some c) w v ∧ v.queues = w.queues ∧
      ((Task.Returns env (w.tasks c) ∧ Resolved (w.queues q).recorders_ v c) ∨
        (¬ Task.Returns env (w.tasks c) ∧ Failed v c)) := by
  rcases (executeTask_ok hrun).2 with ⟨hret, _⟩ | ⟨hlog, hthrow, hf⟩
  · obtain ⟨v', hrun', hres, hqueues⟩ := resolves_served hret hq hun
    rw [hrun'] at hrun
    cases hrun
    exact ⟨hres.toTouches, hqueues, Or.inl ⟨hret, hres.resolved c rfl⟩⟩
  · obtain ⟨e, u, hu, hdo, hrun'⟩ := run_executeTask_failed p hun.pending hlog hthrow hf
    rw [hrun'] at hrun
    cases hrun
    refine ⟨(Touches.settled q c _ u).undisturbed hu, hu.queues, Or.inr ⟨fun hret => ?_, ?_⟩⟩
    · rw [Task.run_doTask hret] at hdo
      cases hdo
    · exact ((SameCall.of_undisturbed hu).unresolved hun).fail e

/-- What an operator does that finishes its call. -/
theorem finish {i : Nat} {env : Service} (hs : Flow recorders q s) (h : s.finish i env = some t) :
    ∃ p e, s.operators[i]? = some ⟨p, .serving e⟩ ∧ Advances recorders q (some e.1) s t ∧
      ((Task.Returns env (s.world.tasks e.1) ∧ Resolved recorders t.world e.1) ∨
        (¬ Task.Returns env (s.world.tasks e.1) ∧ Failed t.world e.1)) := by
  unfold State.finish at h
  split at h
  · rename_i p e hi
    have hmem := List.mem_of_getElem? hi
    have hq := (hs.operators _ hmem).2 e rfl
    have hun := (hs.served hmem rfl).2
    split at h
    · rename_i out v hrun
      cases h
      obtain ⟨_, u, hexec, hdrain⟩ := Exec.bind_eq_ok hrun
      -- the call leaves the operator, and the queue stays as it is
      obtain ⟨htouch, hqueues, hend⟩ := ended_served hexec hq hun
      rw [run_drained (q := q) (by rw [htouch.pools, hq])] at hdrain
      cases hdrain
      rw [hs.installed] at hend
      refine ⟨p, e, hi, hs.work hi rfl (fun e' he' => ?_) htouch (fun x hx => ?_) (fun x => ?_), hend⟩
      · split at he' <;> cases he'
      · cases hx
        exact hend.imp And.right And.right
      · rw [hqueues]
        split <;> simp [Operator.serves, isCall, eq_comm]
    · cases h
  · cases h

theorem finish_runs {i : Nat} {p : PoolRef} {e : TaskRef × CallID} {env : Service}
    (hs : Flow recorders q s) (hi : s.operators[i]? = some ⟨p, .serving e⟩)
    (hret : Task.Returns env (s.world.tasks e.1)) : ∃ t, s.finish i env = some t := by
  have hmem := List.mem_of_getElem? hi
  have hq := (hs.operators _ hmem).2 e rfl
  obtain ⟨v, hrun, hres, _⟩ := resolves_served hret hq (hs.served hmem rfl).2
  unfold State.finish
  rw [hi]
  show ∃ t, (match (serve env p e.1).run s.world with | (.ok out, v) => _ | _ => none) = some t
  rw [serve, Exec.run_bind_ok hrun, run_drained (q := q) (by rw [hres.pools, hq])]
  exact ⟨_, rfl⟩

theorem leave {i : Nat} (hs : Flow recorders q s) (h : s.leave i = some t) :
    Advances recorders q none s t := by
  unfold State.leave at h
  split at h
  · rename_i p hi
    split at h
    · cases h
      refine hs.work hi rfl (fun _ he => (by cases he)) (Touches.refl s.world q)
        (fun x hx => (by cases hx)) (fun x => ?_)
      simp [Operator.serves]
    · cases h
  · cases h

/-! An update. -/

/-- A step of an update: the pool of the manager has the queue before and after, and
free operators of a pool that was built may join in. -/
theorem reconfigure (hs : Flow recorders q s) {extra : List Operator}
    (hr : Reconfigures q s.world t.world) (hcalls : t.calls = s.calls)
    (hops : t.operators = s.operators ++ extra)
    (hextra : ∀ o ∈ extra, o.post = .free ∧ o.pool < t.world.poolCount)
    (hm : t.manager.threadPool_ < s.world.poolCount)
    (hq : (s.world.pools t.manager.threadPool_).task_queue = some q)
    (hstage : StageOk q t.world t.manager t.updating) : Advances recorders q none s t where
  queue := hr.pools _ hm hq
  installed := (hr.recorders hs.queueMade).trans hs.installed
  others := hr.others hs.others
  queueMade := Nat.lt_of_lt_of_le hs.queueMade hr.queueCount
  poolMade := Nat.lt_of_lt_of_le hm hr.poolCount
  operators := by
    intro o ho
    rw [hops] at ho
    rcases List.mem_append.mp ho with ho | ho
    · obtain ⟨hlt, hserving⟩ := hs.operators o ho
      exact ⟨Nat.lt_of_lt_of_le hlt hr.poolCount, fun e he => hr.pools _ hlt (hserving e he)⟩
    · obtain ⟨hfree, hlt⟩ := hextra o ho
      refine ⟨hlt, fun e he => ?_⟩
      rw [hfree] at he
      cases he
  stage := hstage
  taskCount := by
    rw [hcalls]
    exact hr.taskCount.trans hs.taskCount
  logged := by
    intro x hx
    rw [hcalls] at hx
    rw [hr.tasks]
    exact hs.logged x hx
  grows := Nat.le_of_eq (congrArg List.length hcalls.symm)
  balance := by
    intro x
    have hnone : extra.countP (Operator.serves x) = 0 := by
      apply List.countP_eq_zero.mpr
      intro o ho
      simp [Operator.serves, (hextra o ho).1]
    have hservice : inService t x = inService s x := by
      unfold inService
      rw [hops, List.countP_append, hnone, Nat.add_zero]
    unfold places
    rw [hr.entries hs.queueMade, hservice, if_neg (by simp), if_neg (by rw [hcalls]; omega)]
  ended := fun x hx => (by cases hx)
  admitted := by
    intro x hge hlt
    rw [hcalls] at hlt
    exact absurd hlt (Nat.not_lt.mpr hge)
  kept := fun x _ _ => SameCall.of_eq hr.tasks hr.trace

theorem flags {x : Exec World Unit} (hs : Flow recorders q s) (next : Option Stage)
    (hx : Respects (Reconfigures q) x)
    (hstage : ∀ v, Reconfigures q s.world v → StageOk q v s.manager next)
    (h : s.flags x next = some t) : Advances recorders q none s t := by
  unfold State.flags at h
  split at h
  · rename_i v hrun
    cases h
    have hr : Reconfigures q s.world v := hx.of_run hrun
    exact hs.reconfigure hr rfl (List.append_nil _).symm (by simp) hs.poolMade hs.queue (hstage v hr)
  · cases h

end Flow

theorem buildPool_ok {logger : Bool} {amount size : Int} {w v : World} {p : PoolRef}
    (h : (Manager.buildPool logger amount size).run w = (.ok p, v)) :
    w.poolCount ≤ p ∧ p < v.poolCount := by
  obtain ⟨p₁, w₁, h₁, h⟩ := Exec.bind_eq_ok h
  obtain ⟨_, w₂, h₂, h⟩ := Exec.bind_eq_ok h
  cases h
  obtain ⟨q₁, w₃, h₃, h₁⟩ := Exec.bind_eq_ok h₁
  have hqueue : w₃.poolCount = w.poolCount := by
    unfold Queue.construct at h₃
    split at h₃
    · cases h₃
    · cases h₃
      rfl
  have hset := ((Reconfigures.setLogger (q := 0) p logger).of_run h₂).poolCount
  cases h₁
  exact ⟨Nat.le_of_eq hqueue.symm, Nat.lt_of_lt_of_le (Nat.lt_succ_self _) hset⟩

namespace Flow
variable {recorders : List RecorderRef} {q : QueueRef} {s t : State}

theorem resize {operators amount size : Int} (hs : Flow recorders q s)
    (h : s.resize operators amount size = some t) : Advances recorders q none s t := by
  unfold State.resize at h
  split at h
  · rename_i v hrun
    cases h
    have hr := (Reconfigures.sizeDiffers (q := q) s.manager operators).of_run hrun
    exact hs.reconfigure hr rfl (List.append_nil _).symm (by simp) hs.poolMade hs.queue trivial
  · rename_i v hrun
    have hr := (Reconfigures.sizeDiffers (q := q) s.manager operators).of_run hrun
    split at h
    · rename_i p u hbuild
      cases h
      have hr' := (Reconfigures.buildPool (q := q) _ amount size).of_run hbuild
      obtain ⟨hge, hlt⟩ := buildPool_ok hbuild
      -- the new pool has a new reference, so it is not the manager's
      have hne : p ≠ s.manager.threadPool_ :=
        Nat.ne_of_gt (Nat.lt_of_lt_of_le hs.poolMade (Nat.le_trans hr.poolCount hge))
      refine hs.reconfigure (hr.trans _ _ _ hr') rfl rfl (fun o ho => ?_) hs.poolMade hs.queue ⟨hlt, hne⟩
      rw [List.eq_of_mem_replicate ho]
      exact ⟨rfl, hlt⟩
    · rename_i e u hbuild
      cases h
      have hr' := (Reconfigures.buildPool (q := q) _ amount size).of_run hbuild
      exact hs.reconfigure (hr.trans _ _ _ hr') rfl (List.append_nil _).symm (by simp) hs.poolMade
        hs.queue trivial
    · cases h
  · cases h

theorem transfer {p : PoolRef} (hs : Flow recorders q s) (hstage : StageOk q s.world s.manager (some (.transfer p)))
    (h : s.flags (ThreadPool.transferObjects p s.manager.threadPool_) (some (.assign p)) = some t) :
    Advances recorders q none s t := by
  obtain ⟨hlt, hne⟩ := hstage
  -- two different pools: the mutexes are locked and the queue is copied
  have hrun : (ThreadPool.transferObjects p s.manager.threadPool_).run s.world =
      (.ok (), s.world.setPool p { s.world.pools p with task_queue := some q }) := by
    have hlock : (ThreadPool.lockPools p s.manager.threadPool_).run s.world = (.ok (), s.world) := by
      rw [ThreadPool.lockPools, if_neg hne]
      rfl
    have hread : (readPool s.manager.threadPool_).run s.world =
        (.ok (s.world.pools s.manager.threadPool_), s.world) := rfl
    rw [ThreadPool.transferObjects, Exec.run_bind_ok hlock, Exec.run_bind_ok hread, if_pos hne, hs.queue]
    rfl
  unfold State.flags at h
  rw [hrun] at h
  cases h
  refine hs.reconfigure ⟨rfl, rfl, rfl, fun _ => rfl, fun _ => rfl, id, Nat.le_refl _, Nat.le_refl _,
    fun r _ hr => ?_⟩ rfl (List.append_nil _).symm (by simp) hs.poolMade hs.queue ⟨hlt, ?_⟩
  · by_cases hrp : r = p
    · subst hrp
      simp
    · simpa [hrp] using hr
  · simp

theorem assign {p : PoolRef} (hs : Flow recorders q s) (hstage : StageOk q s.world s.manager (some (.assign p)))
    (h : s.assign p = some t) : Advances recorders q none s t := by
  unfold State.assign at h
  split at h
  · rename_i m v hrun
    cases h
    obtain ⟨_, u, hrel, hret⟩ := Exec.bind_eq_ok hrun
    cases hret
    have hr := (Reconfigures.release (q := q) s.manager p).of_run hrel
    exact hs.reconfigure hr rfl (List.append_nil _).symm (by simp) hstage.1 hstage.2 trivial
  · cases h

theorem join {old : PoolRef} (hs : Flow recorders q s) (h : s.join old = some t) :
    Advances recorders q none s t := by
  unfold State.join at h
  split at h
  · cases h
    exact hs.reconfigure (Reconfigures.refl _) rfl (List.append_nil _).symm (by simp) hs.poolMade
      hs.queue trivial
  · cases h

/-- No step of an update resolves a call. -/
theorem proceed {operators amount size : Int} (hs : Flow recorders q s)
    (h : s.proceed operators amount size = some t) : Advances recorders q none s t := by
  have hstage := hs.stage
  unfold State.proceed at h
  split at h
  · cases h
  · exact hs.flags (some .resize) (Reconfigures.updateQueue _ size) (fun _ _ => trivial) h
  · exact hs.resize h
  · rename_i p hup
    rw [hup] at hstage
    exact hs.flags (some (.transfer p)) (Reconfigures.stop _)
      (fun v hv => (show StageOk q s.world s.manager (some (.transfer p)) from hstage).reconfigures hv) h
  · rename_i p hup
    rw [hup] at hstage
    exact hs.transfer hstage h
  · rename_i p hup
    rw [hup] at hstage
    exact hs.assign hstage h
  · exact hs.join h
  · exact hs.flags none (Reconfigures.start _) (fun _ _ => trivial) h

end Flow

/-- The queue of the manager's pool takes a call with the number in and evicts none. -/
def Accepting (s : State) (number : List Char) : Prop :=
  ∃ q, (s.world.pools s.manager.threadPool_).task_queue = some q ∧ Queue.Accepts s.world q number

/-- `doTask` returns. -/
def doTaskReturns (env : Service) (t : TaskRef) (w : World) : Bool :=
  match (Task.doTask env t).run w with
  | (.ok _, _) => true
  | _ => false

/-- If the step finishes a call, its `doTask` returns. -/
def Returning (s : State) : Step → Prop
  | .finish i env => ∀ o ∈ s.operators[i]?, ∀ e ∈ o.post.call, doTaskReturns env e.1 s.world = true
  | _ => True

instance (s : State) : ∀ e, Decidable (Returning s e)
  | .finish i env => inferInstanceAs (Decidable (∀ o ∈ s.operators[i]?, ∀ e ∈ o.post.call,
      doTaskReturns env e.1 s.world = true))
  | .addTask .. | .take .. | .leave .. | .startThreadPool | .stopThreadPool | .update .. |
    .proceed .. => .isTrue trivial

/-- The step ends no call with a result: a call that comes is accepted and evicts none,
and if a call is finished, its `doTask` does not return. -/
def NoResult (s : State) : Step → Prop
  | .addTask _ _ _ number => Accepting s number
  | .finish i env => ∀ o ∈ s.operators[i]?, ∀ e ∈ o.post.call, ¬ Task.Returns env (s.world.tasks e.1)
  | _ => True

theorem returns_iff {env : Service} {t : TaskRef} {w : World} :
    doTaskReturns env t w = true ↔ Task.Returns env (w.tasks t) := by
  unfold doTaskReturns
  constructor
  · intro h
    split at h
    · rename_i r v hdo
      exact (Task.doTask_ok hdo).1
    · cases h
  · intro h
    rw [Task.run_doTask h]

namespace Flow
variable {recorders : List RecorderRef} {q : QueueRef} {s t : State}

theorem accepting_iff (hs : Flow recorders q s) (number : List Char) :
    Accepting s number ↔ Queue.Accepts s.world q number := by
  constructor
  · rintro ⟨r, hr, hacc⟩
    rw [hs.queue] at hr
    cases hr
    exact hacc
  · intro hacc
    exact ⟨q, hs.queue, hacc⟩

theorem idle {x : Option State} {u : State} (h : (if s.updating = none then x else none) = some u) :
    x = some u := by
  split at h
  · exact h
  · cases h

/-- How a step ends a call, if it ends one. -/
def Ends (recorders : List RecorderRef) (s t : State) (e : Step) (gone : Option TaskRef) : Prop :=
  (Returning s e → ∀ x : Nat, gone = some x → Resolved recorders t.world x) ∧
  (NoResult s e ↔ ∀ x : Nat, gone = some x → Failed t.world x)

theorem ends_none {e : Step} (h : NoResult s e) : Ends recorders s t e none :=
  ⟨fun _ x hx => (by cases hx), iff_of_true h (fun x hx => (by cases hx))⟩

theorem advances {hash : ThreadId → UInt64} {e : Step} (hs : Flow recorders q s)
    (h : (system hash).step s e = some t) :
    ∃ gone, Advances recorders q gone s t ∧ Ends recorders s t e gone := by
  cases e with
  | addTask thread now pushNow number =>
    obtain ⟨gone, hadv, haccepts, hres⟩ := hs.addTask (idle h)
    refine ⟨gone, hadv, fun _ => hres, ?_⟩
    show Accepting s number ↔ _
    rw [hs.accepting_iff, ← haccepts]
    constructor
    · intro hnone x hx
      rw [hnone] at hx
      cases hx
    · intro hfailed
      cases hg : gone with
      | none => rfl
      | some x => exact absurd (hres x hg) (hfailed x hg).not_resolved
  | take i thread => exact ⟨none, hs.take h, ends_none trivial⟩
  -- what a finished call ends as is decided by whether its `doTask` returns
  | finish i env =>
    obtain ⟨p, d, hi, hadv, hend⟩ := hs.finish h
    refine ⟨some d.1, hadv, fun hret x hx => ?_, ?_⟩
    · cases hx
      have hdo := returns_iff.mp (hret _ hi d rfl)
      exact (hend.resolve_right (fun hno => hno.1 hdo)).2
    · constructor
      · intro hno x hx
        cases hx
        exact (hend.resolve_left (fun hyes => hno _ hi d rfl hyes.1)).2
      · intro hfailed o ho d' hd'
        rw [hi] at ho
        cases ho
        cases hd'
        exact (hend.resolve_left (fun hyes => (hfailed d.1 rfl).not_resolved hyes.2)).1
  | leave i => exact ⟨none, hs.leave h, ends_none trivial⟩
  | startThreadPool =>
    exact ⟨none, hs.flags s.updating (Reconfigures.start _) (fun _ hv => hs.stage.reconfigures hv) h,
      ends_none trivial⟩
  | stopThreadPool =>
    exact ⟨none, hs.flags s.updating (Reconfigures.stop _) (fun _ hv => hs.stage.reconfigures hv) h,
      ends_none trivial⟩
  | update minMax =>
    have h' := idle h
    cases h'
    exact ⟨none, hs.reconfigure (Reconfigures.refl _) rfl (List.append_nil _).symm (by simp) hs.poolMade
      hs.queue trivial, ends_none trivial⟩
  | proceed operators amount size => exact ⟨none, hs.proceed h, ends_none trivial⟩

/-- Every step keeps the flow. -/
theorem step {hash : ThreadId → UInt64} {e : Step} (hs : Flow recorders q s)
    (h : (system hash).step s e = some t) : Flow recorders q t := by
  obtain ⟨gone, hadv, _⟩ := hs.advances h
  exact hadv.flow hs

/-- If every `doTask` returned so far and the step's does, no call failed. -/
theorem step_returning {hash : ThreadId → UInt64} {e : Step} (hs : Flow recorders q s)
    (hreturned : ∀ x : Nat, x < s.calls.length → ¬ Failed s.world x) (hret : Returning s e)
    (h : (system hash).step s e = some t) : ∀ x : Nat, x < t.calls.length → ¬ Failed t.world x := by
  obtain ⟨gone, hadv, hends, _⟩ := hs.advances h
  intro x hx
  by_cases hgone : gone = some x
  · exact fun hf => hf.not_resolved (hends hret x hgone)
  · rcases Nat.lt_or_ge x s.calls.length with hlt | hge
    · exact fun hf => hreturned x hlt ((hadv.kept x (Or.inl hlt) hgone).symm.failed hf)
    · exact fun hf => hf.not_unresolved (hadv.admitted x hge hx hgone)

end Flow

/-! From the beginning. -/

/-- `pool->task_queue->setRecorders(recorders)`. -/
def installRecorders (p : PoolRef) (recorders : List RecorderRef) : Exec World Unit := do
  let pool ← readPool p
  match pool.task_queue with
  | some q => Queue.setRecorders q recorders
  | none => .undefined

/-- A pool whose queue has recorders, and a manager over it. -/
def assemble (operators limit : Nat) (recorders : List RecorderRef) (minMax : Int × Int)
    (logger : Bool) : Exec World Manager := do
  let p ← ThreadPool.construct operators limit
  ThreadPool.setLogger p logger
  installRecorders p recorders
  return { Manager.construct minMax p with logger_ := logger }

/-- Nothing was submitted yet, and the operators of the pool are free. -/
def initial (operators : Nat) (m : Manager) (w : World) : State where
  world := w
  manager := m
  operators := List.replicate operators ⟨m.threadPool_, .free⟩
  updating := none
  calls := []

/-- A world with a pool over an empty queue, and no call. -/
structure Fresh (recorders : List RecorderRef) (q : QueueRef) (p : PoolRef) (w : World) : Prop where
  queue : (w.pools p).task_queue = some q
  installed : (w.queues q).recorders_ = recorders
  empty : ∀ r, (w.queues r).queue_ = []
  queueMade : q < w.queueCount
  poolMade : p < w.poolCount
  taskCount : w.taskCount = 0
  trace : w.trace = []

theorem Fresh.construct {operators limit : Nat} {p : PoolRef} {w : World}
    (h : (ThreadPool.construct operators limit).run .empty = (.ok p, w)) : Fresh [] 0 p w := by
  have hempty : ∀ r, (w.queues r).queue_ = [] := fun r =>
    ((Reconfigures.construct (q := r + 1) operators limit).of_run h).others (fun _ _ => rfl) r
      (Nat.ne_of_lt (Nat.lt_succ_self r))
  obtain ⟨q, w₁, h₁, h⟩ := Exec.bind_eq_ok h
  unfold Queue.construct at h₁
  split at h₁
  · cases h₁
  · cases h₁
    cases h
    exact ⟨rfl, rfl, hempty, Nat.zero_lt_one, Nat.zero_lt_one, rfl, rfl⟩

theorem Fresh.reconfigures {recorders : List RecorderRef} {q : QueueRef} {p : PoolRef} {w v : World}
    (hw : Fresh recorders q p w) (hr : Reconfigures q w v) : Fresh recorders q p v where
  queue := hr.pools p hw.poolMade hw.queue
  installed := (hr.recorders hw.queueMade).trans hw.installed
  empty := by
    intro r
    by_cases h : r = q
    · rw [h, hr.entries hw.queueMade]
      exact hw.empty q
    · exact hr.others (fun x _ => hw.empty x) r h
  queueMade := Nat.lt_of_lt_of_le hw.queueMade hr.queueCount
  poolMade := Nat.lt_of_lt_of_le hw.poolMade hr.poolCount
  taskCount := hr.taskCount.trans hw.taskCount
  trace := hr.trace.trans hw.trace

theorem Fresh.install {recorders : List RecorderRef} {q : QueueRef} {p : PoolRef} {w v : World}
    (hw : Fresh [] q p w) (h : (installRecorders p recorders).run w = (.ok (), v)) :
    Fresh recorders q p v := by
  obtain ⟨pool, _, hpool, h⟩ := Exec.bind_eq_ok h
  cases hpool
  rw [hw.queue] at h
  cases h
  refine ⟨hw.queue, ?_, fun r => ?_, hw.queueMade, hw.poolMade, hw.taskCount, hw.trace⟩
  · simp
  · by_cases hr : r = q
    · subst hr
      simpa using hw.empty r
    · simpa [hr] using hw.empty r

theorem Fresh.flow {recorders : List RecorderRef} {q : QueueRef} {m : Manager} {w : World}
    (hw : Fresh recorders q m.threadPool_ w) (operators : Nat) :
    Flow recorders q (initial operators m w) := by
  have hplaces : ∀ t, places q (initial operators m w) t = 0 := by
    intro t
    have hservice : inService (initial operators m w) t = 0 := by
      apply List.countP_eq_zero.mpr
      intro o ho
      rw [List.eq_of_mem_replicate ho]
      simp [Operator.serves]
    have hempty : ((initial operators m w).world.queues q).queue_ = [] := hw.empty q
    unfold places
    rw [hempty, hservice]
    rfl
  have htrace : (initial operators m w).world.trace = [] := hw.trace
  refine ⟨⟨hw.queue, hw.installed, fun r _ => hw.empty r, hw.queueMade, hw.poolMade, fun o ho => ?_,
    trivial, hw.taskCount, fun t ht => (by cases ht)⟩, fun t ht => (by cases ht), fun t _ => ?_⟩
  · rw [List.eq_of_mem_replicate ho]
    exact ⟨hw.poolMade, fun e he => (by cases he)⟩
  · rw [htrace]
    exact ⟨hplaces t, rfl, rfl⟩

theorem fresh_assemble {operators limit : Nat} {recorders : List RecorderRef} {minMax : Int × Int}
    {logger : Bool} {m : Manager} {w : World}
    (h : (assemble operators limit recorders minMax logger).run .empty = (.ok m, w)) :
    Fresh recorders 0 m.threadPool_ w := by
  obtain ⟨p, w₁, h₁, h⟩ := Exec.bind_eq_ok h
  obtain ⟨_, w₂, h₂, h⟩ := Exec.bind_eq_ok h
  obtain ⟨_, w₃, h₃, h⟩ := Exec.bind_eq_ok h
  cases h
  have hset := (Reconfigures.setLogger (q := 0) p logger).of_run h₂
  exact ((Fresh.construct h₁).reconfigures hset).install h₃

theorem flow_assemble {operators limit : Nat} {recorders : List RecorderRef} {minMax : Int × Int}
    {logger : Bool} {m : Manager} {w : World}
    (h : (assemble operators limit recorders minMax logger).run .empty = (.ok m, w)) :
    Flow recorders 0 (initial operators m w) :=
  (fresh_assemble h).flow operators

/-- Where every `doTask` returns, every call that was submitted is waiting, in service
or finished, and was resolved exactly when it is finished: once, with one CDR for each
recorder. -/
theorem calls_conserved {hash : ThreadId → UInt64} {operators limit : Nat}
    {recorders : List RecorderRef} {minMax : Int × Int} {logger : Bool} {m : Manager} {w : World}
    {events : List Step} {s : State}
    (h₀ : (assemble operators limit recorders minMax logger).run .empty = (.ok m, w))
    (h : (system hash).run (initial operators m w) events = some s)
    (hret : (system hash).Along Returning (initial operators m w) events) (t : TaskRef)
    (ht : t < s.calls.length) : Conserved recorders s t := by
  have hinv : Flow recorders 0 s ∧ ∀ x : Nat, x < s.calls.length → ¬ Failed s.world x := by
    apply Transition.System.run_inv_along _ h hret
    · exact ⟨flow_assemble h₀, fun x hx => (by cases hx)⟩
    · intro s e u hs hok hstep
      exact ⟨hs.1.step hstep, hs.1.step_returning hs.2 hok hstep⟩
  exact hinv.1.conserved ht (hinv.2 t ht)

/-- Three calls come, the second with the number of the first; one is taken, an update
swaps the pool for one of two operators while it is served, and it is finished. -/
def busyDay : List Step :=
  [.startThreadPool, .addTask 1 0 0 ['1'], .addTask 2 0 0 ['1'], .addTask 3 0 0 ['2'], .take 0 9,
    .update (10, 15), .proceed 2 2 2, .proceed 2 2 2, .proceed 2 2 2, .proceed 2 2 2, .proceed 2 2 2,
    .finish 0 (.calm 0 0 0 12), .leave 0, .proceed 2 2 2, .proceed 2 2 2]

/-- That day with one operator, room for two calls, and two recorders. -/
def endOfBusyDay : Option State :=
  match (assemble 1 2 [0, 1] (10, 15) true).run .empty with
  | (.ok m, w) =>
    if (system (fun _ => 7)).Along Returning (initial 1 m w) busyDay then
      (system (fun _ => 7)).run (initial 1 m w) busyDay
    else none
  | _ => none

theorem calls_conserved_busyDay : ∃ s, endOfBusyDay = some s ∧ s.calls.length = 3 ∧
    (currentQueue s).map Prod.fst = [2] ∧ ∀ t, t < 3 → Conserved [0, 1] s t := by
  have hsome : endOfBusyDay.isSome = true := by decide +kernel
  obtain ⟨s, hs⟩ := Option.isSome_iff_exists.mp hsome
  have hcalls : endOfBusyDay.map (fun s => s.calls.length) = some 3 := by decide +kernel
  have hqueue : endOfBusyDay.map (fun s => (currentQueue s).map Prod.fst) = some [2] := by
    decide +kernel
  rw [hs, Option.map_some, Option.some_inj] at hcalls hqueue
  refine ⟨s, hs, hcalls, hqueue, fun t ht => ?_⟩
  unfold endOfBusyDay at hs
  split at hs
  · rename_i m w hassemble
    split at hs
    · rename_i hret
      exact calls_conserved hassemble hs hret t (hcalls ▸ ht)
    · cases hs
  · cases hs

end CallFlow

end ProteiCov
