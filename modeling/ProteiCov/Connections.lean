import ProteiCov.Handlers
import ProteiCov.CdrFile

/-
  The connections of the clients

  `HttpServer::run` gives each connection it accepts to a thread of its own, a handler,
  which reads one request, calls the manager for it and writes one response at most. Here
  the handlers run over the calls at the grain of their critical sections: a handler makes
  the task of its call, adds it and waits for its future, and whatever the other handlers,
  the workers and the updates do may happen in between; where nothing does, the first two
  are `Manager::addTask` (`addTask_whole`).

  A client reads a CallID, a duration and a status off its response exactly when it asked
  for a call and its own call, which is no other client's, has that CallID and ended like
  that; and the atomic queue of the calls, with its limit and with new calls in the place
  of waiting ones with their number, has for that call what the status says
  (`own_answers`). The file of every recorder says the same of it (`replies_filed`).
-/

namespace ProteiCov
open Cpp

/-! The handlers and the calls. -/

namespace CallSteps

/-- A handler makes the step, for the call of its connection. -/
def Step.ofHandler : Step → Bool
  | .arrive _ _ | .addTask _ _ _ => true
  | _ => false

end CallSteps

namespace Connections
open CallSteps (Calls)

/-- Where a handler is with its connection. -/
inductive Handler where
  | reading
  | calling (phone : List Char)
  | adding (phone : List Char) (t : TaskRef)
  | waiting (phone : List Char) (t : TaskRef) (id : CallID)
  | updating (target : List Char)
  | closed (received : Except StdException Request) (task : Option TaskRef) (heard : Heard)

namespace Handler

/-- The call of the connection. -/
def task : Handler → Option TaskRef
  | adding _ t | waiting _ t _ => some t
  | closed _ task _ => task
  | reading | calling _ | updating _ => none

/-- What a handler does about what `http::read` gave. -/
def received : Except StdException Request → Handler
  | .error e => closed (.error e) none .nothing
  | .ok req =>
    if req.get then
      if "/phone=".toList.isPrefixOf req.target then calling (req.target.drop 7)
      else if "/update".toList.isPrefixOf req.target then updating req.target
      else closed (.ok req) none .nothing
    else closed (.ok req) none .nothing

end Handler

/-- The request for a call. -/
def phoneRequest (phone : List Char) : Request := ⟨true, "/phone=".toList ++ phone⟩

theorem phoneRequest_injective : Function.Injective phoneRequest :=
  fun _ _ h => List.append_cancel_left (congrArg Request.target h)

theorem phoneRequest_ne_update (phone rest : List Char) :
    phoneRequest phone ≠ ⟨true, "/update".toList ++ rest⟩ := by
  intro h
  have htarget : "/phone=".toList ++ phone = "/update".toList ++ rest := congrArg Request.target h
  simp at htarget

/-- The server, with the handlers in the order in which `run` started them. -/
structure State where
  calls : Calls
  accepting : Bool
  handlers : List Handler

/-- `received` and `answer` are what `http::read` and `processRequestForUpdate` came to. -/
inductive Step where
  | accept
  | acceptFails
  | read (i : Nat) (received : Except StdException Request)
  | arrive (i : Nat) (now : TimePoint)
  | addTask (i : Nat) (thread : ThreadId) (pushNow : TimePoint)
  | get (i : Nat)
  | update (i : Nat) (answer : Except StdException Bool)
  | calls (e : CallSteps.Step)

namespace State

/-- `acceptor.accept` and a detached thread for the connection. -/
def accept (s : State) : Option State :=
  if s.accepting then some { s with handlers := s.handlers ++ [.reading] } else none

/-- The loop of `run` ends, with `break` or with an exception; the handlers go on as long
as the program does. -/
def acceptFails (s : State) : Option State :=
  if s.accepting then some { s with accepting := false } else none

def read (s : State) (i : Nat) (received : Except StdException Request) : Option State :=
  match s.handlers[i]? with
  | some .reading => some { s with handlers := s.handlers.set i (.received received) }
  | _ => none

/-- `addTask` of the manager up to the new task, which is the next object of its kind. -/
def arrive (s : State) (i : Nat) (now : TimePoint) : Option State :=
  match s.handlers[i]? with
  | some (.calling phone) =>
    match s.calls.arrive phone now with
    | some c => some
      { s with calls := c, handlers := s.handlers.set i (.adding phone s.calls.world.taskCount) }
    | none => none
  | _ => none

/-- The rest of `addTask`: the handler has a CallID and a future, or an exception. -/
def addTask (hash : ThreadId → UInt64) (s : State) (i : Nat) (thread : ThreadId) (pushNow : TimePoint) :
    Option State :=
  match s.handlers[i]? with
  | some (.adding phone t) =>
    match s.calls.addTask hash (s.calls.made.idxOf t) thread pushNow with
    | some c =>
      match ((ThreadPool.add_task hash thread pushNow s.calls.manager.threadPool_ t).run s.calls.world).1 with
      | .ok id => some { s with calls := c, handlers := s.handlers.set i (.waiting phone t id) }
      | .throws e => some
        { s with calls := c,
                 handlers := s.handlers.set i (.closed (.ok (phoneRequest phone)) (some t) (.thrown e)) }
      | .undefined => none
    | none => none
  | _ => none

/-- `future.get()`, which waits for the promise. -/
def get (s : State) (i : Nat) : Option State :=
  match s.handlers[i]? with
  | some (.waiting phone t id) =>
    match (s.calls.world.tasks t).promise_.state with
    | some x => some
      { s with handlers := s.handlers.set i (.closed (.ok (phoneRequest phone)) (some t) (.settled id x)) }
    | none => none
  | _ => none

def update (s : State) (i : Nat) (answer : Except StdException Bool) : Option State :=
  match s.handlers[i]? with
  | some (.updating target) => some
    { s with handlers := s.handlers.set i (.closed (.ok ⟨true, target⟩) none (.updated answer)) }
  | _ => none

/-- A worker or an update moves. -/
def others (hash : ThreadId → UInt64) (s : State) (e : CallSteps.Step) : Option State :=
  if e.ofHandler then none
  else
    match (CallSteps.system hash).step s.calls e with
    | some c => some { s with calls := c }
    | none => none

end State

def system (hash : ThreadId → UInt64) : Transition.System State Step where
  step s
    | .accept => s.accept
    | .acceptFails => s.acceptFails
    | .read i received => s.read i received
    | .arrive i now => s.arrive i now
    | .addTask i thread pushNow => s.addTask hash i thread pushNow
    | .get i => s.get i
    | .update i answer => s.update i answer
    | .calls e => s.others hash e

/-- No client has come yet. -/
def initial (m : Manager) (w : World) (clock : TimePoint) : State where
  calls := CallSteps.initial m w clock
  accepting := true
  handlers := []

end Connections

/-! What the steps of the calls do to one call. -/

namespace CallSteps

section
variable {recorders : List RecorderRef} {q : QueueRef} {s t : Calls} {e : Step} {old : List Seat}
  {new : Option Seat} {hash : ThreadId → UInt64}

theorem arrive_some {number : List Char} {now : TimePoint} (h : s.clock ≤ now) :
    s.arrive number now = some { s with
      world := s.world.arrived (s.newTask number now), clock := now, made := s.made ++ [s.world.taskCount] } := by
  unfold Calls.arrive
  rw [run_construct, if_pos h]
  rfl

theorem arrive_eq {number : List Char} {now : TimePoint} (h : s.arrive number now = some t) : t = { s with
    world := s.world.arrived (s.newTask number now), clock := now, made := s.made ++ [s.world.taskCount] } := by
  have hclock : s.clock ≤ now := by
    by_contra hnot
    unfold Calls.arrive at h
    rw [if_neg hnot] at h
    cases h
  rw [arrive_some hclock] at h
  cases h
  rfl

theorem submits_pools : Submits (fun w v => v.pools = w.pools) where
  refl := fun _ => rfl
  trans := fun _ _ _ h h' => h'.trans h
  emit := fun _ _ => rfl
  taskId := fun _ _ _ => rfl
  cdr := fun _ _ _ => rfl
  promise := fun _ _ _ => rfl
  entries := fun _ _ _ => rfl

/-- A handler that adds its task leaves the manager and the pools as they are. -/
theorem addTask_kept {k : Nat} {thread : ThreadId} {now : TimePoint} (h : s.addTask hash k thread now = some t) :
    t.made = s.made.eraseIdx k ∧ t.manager = s.manager ∧ t.world.pools = s.world.pools := by
  unfold Calls.addTask at h
  split at h
  · rename_i x hk
    split at h
    · have hpools : ∀ {o : Outcome CallID} {v : World},
          (ThreadPool.add_task hash thread now s.manager.threadPool_ x).run s.world = (o, v) → v.pools = s.world.pools :=
        fun hrun => (submits_pools.add_task hash thread now s.manager.threadPool_ x).of_run hrun
      split at h
      · rename_i hrun
        cases h
        exact ⟨rfl, rfl, hpools hrun⟩
      · rename_i hrun
        cases h
        exact ⟨rfl, rfl, hpools hrun⟩
      · cases h
    · cases h
  · cases h

theorem Stepped.made (h : Stepped q s e old new t) : t.made = s.made ∨
    t.made = s.made ++ [s.world.taskCount] ∨
    ∃ k thread now x, e = .addTask k thread now ∧ s.made[k]? = some x ∧ t.made = s.made.eraseIdx k := by
  cases h with
  | arrived number now hclock => exact Or.inr (Or.inl rfl)
  | dropped thread hk hclock => exact Or.inr (Or.inr ⟨_, _, _, _, rfl, hk, rfl⟩)
  | added thread hk hclock hlog hpush => exact Or.inr (Or.inr ⟨_, _, _, _, rfl, hk, rfl⟩)
  | taken thread id hmade hp hes | clockRead hk hclock | returned env hk hret | thrown fails draw hk hown hv
  | journalled hk | settled hk hx hpend => exact Or.inl rfl
  | reconfigured e hr hpool hlimits hsame => exact Or.inl (by rw [hsame])

theorem Stepped.ids (h : Stepped q s e old new t) : t.ids = s.ids ∨
    ∃ k thread now x id, e = .addTask k thread now ∧ s.made[k]? = some x ∧
      t.ids = Function.update s.ids x (some id) := by
  cases h with
  | added thread hk hclock hlog hpush => exact Or.inr ⟨_, _, _, _, _, rfl, hk, rfl⟩
  | arrived number now hclock | dropped thread hk hclock | taken thread id hmade hp hes | clockRead hk hclock
  | returned env hk hret | thrown fails draw hk hown hv | journalled hk | settled hk hx hpend => exact Or.inl rfl
  | reconfigured e hr hpool hlimits hsame => exact Or.inl (by rw [hsame])

theorem Custody.old_pending (hs : Custody recorders q s) (h : Stepped q s e old new t) {y : Seat} (hy : y ∈ old) :
    (s.world.tasks y.task).promise_.state = none := by
  have hok : y.Ok s.world := (hs.known y ((hs.old_seats h).1 y hy)).2
  cases h with
  | arrived number now hclock => cases hy
  | dropped thread hk hclock =>
    rw [List.mem_singleton.mp hy] at hok ⊢
    exact hok.1.pending
  | added thread hk hclock hlog hpush =>
    rcases List.mem_cons.mp hy with rfl | hy
    · exact hok.1.pending
    · cases hpush with
      | fresh => cases hy
      | duplicate i d hi =>
        rw [List.mem_singleton.mp hy] at hok ⊢
        exact hok.1.pending
      | overloaded => cases hy
  | taken thread id hmade hp hes =>
    rw [List.mem_singleton.mp hy] at hok ⊢
    exact hok.1.pending
  | clockRead hk hclock | returned env hk hret | thrown fails draw hk hown hv | journalled hk =>
    rw [List.mem_singleton.mp hy] at hok ⊢
    have hun : Unresolved s.world _ := hok
    exact hun.pending
  | settled hk hx hpend =>
    rw [List.mem_singleton.mp hy]
    exact hpend
  | reconfigured e hr hpool hlimits hsame => cases hy

/-- A promise that is set stays as it is. -/
theorem Custody.promise_kept (hs : Custody recorders q s) (h : Stepped q s e old new t) {u : TaskRef}
    (hu : u < s.world.taskCount) {x : Settled Result} (hx : (s.world.tasks u).promise_.state = some x) :
    (t.world.tasks u).promise_.state = some x := by
  have hold : ∀ y ∈ old, y.task ≠ u := by
    intro y hy heq
    have hpending := hs.old_pending h hy
    rw [heq, hx] at hpending
    cases hpending
  have hnew : ∀ y, new = some y → y.task ≠ u := by
    intro y hy heq
    rcases h.seated hy with ⟨z, hz, hzy⟩ | ⟨hfresh, _⟩
    · exact hold z hz (hzy.trans heq)
    · rw [← heq, hfresh] at hu
      exact Nat.lt_irrefl _ hu
  rw [(h.untouched hold hnew).1.task]
  exact hx

/-- What `add_task` gives back: the exception of `stoll`, or a CallID where there is a
logger. -/
theorem Custody.add_task (hs : Custody recorders q s) {x : TaskRef} (hx : x ∈ s.made) (thread : ThreadId)
    (now : TimePoint) :
    (∃ y, stoll (s.world.tasks x).number_ = .error y ∧
        ((ThreadPool.add_task hash thread now s.manager.threadPool_ x).run s.world).1 = .throws y) ∨
      ∃ n, stoll (s.world.tasks x).number_ = .ok n ∧
        ((ThreadPool.add_task hash thread now s.manager.threadPool_ x).run s.world).1 =
          if (s.world.tasks x).logger_ then .ok (ThreadPool.generateCallID hash thread n) else .undefined := by
  have hseat := seat_made (q := q) hx
  obtain ⟨hun, hfut⟩ := (hs.known _ hseat).2
  cases hnum : stoll (s.world.tasks x).number_ with
  | error y => exact Or.inl ⟨y, rfl, by rw [ThreadPool.run_add_task_rejected hnum]⟩
  | ok n =>
    refine Or.inr ⟨n, rfl, ?_⟩
    cases hlog : (s.world.tasks x).logger_ with
    | false =>
      rw [ThreadPool.run_add_task_silent hnum hlog]
      rfl
    | true =>
      have hothers : ∀ d ∈ (s.world.queues q).queue_,
          ((s.world.admitted x (ThreadPool.generateCallID hash thread n)).tasks d.1).promise_.state = none := by
        intro d hd
        have hne : d.1 ≠ x := by
          intro heq
          cases hs.task_inj (seat_waiting hd) hseat heq
        rw [admitted_tasks s.world x _ hne]
        exact (hs.waiting_unresolved hd).pending
      have hself : ((s.world.admitted x (ThreadPool.generateCallID hash thread n)).tasks x).promise_.state = none := by
        rw [admitted_promise]
        exact hun.pending
      obtain ⟨b, v, _, _, hpush, _⟩ :=
        run_push_to (e := (x, ThreadPool.generateCallID hash thread n)) now hothers hself
      rw [ThreadPool.run_add_task hnum hlog hfut hs.queue hpush]
      rfl

theorem Custody.made_nodup (hs : Custody recorders q s) : s.made.Nodup := by
  have hsingle := hs.single
  rw [seats, seatsOf, List.map_append, List.map_append, List.map_map, List.nodup_append, List.nodup_append] at hsingle
  have hmade : s.made.map (Seat.task ∘ Seat.made) = s.made := List.map_id s.made
  rw [← hmade]
  exact hsingle.1.1

theorem Custody.fate_of_state (hs : Custody recorders q s) {u : TaskRef} {x : Settled Result}
    (hx : (s.world.tasks u).promise_.state = some x) : s.fate q u = some (settledFate x) := by
  have hwaiting : u ∉ (s.world.queues q).queue_.map (fun d => d.1) := by
    intro hu
    obtain ⟨d, hd, rfl⟩ := List.mem_map.mp hu
    have hpending := (hs.waiting_unresolved hd).pending
    rw [hx] at hpending
    cases hpending
  unfold Calls.fate
  rw [if_neg hwaiting, hx]

end

end CallSteps

namespace Connections
open CallSteps (Calls Custody Fates)

/-- The step of the calls that a step of the server is. -/
def callSteps (s : State) : Step → List CallSteps.Step
  | .arrive i now =>
    match s.handlers[i]? with
    | some (.calling phone) => [.arrive phone now]
    | _ => []
  | .addTask i thread pushNow =>
    match s.handlers[i]? with
    | some (.adding _ t) => [.addTask (s.calls.made.idxOf t) thread pushNow]
    | _ => []
  | .calls e => [e]
  | .accept | .acceptFails | .read _ _ | .get _ | .update _ _ => []

/-- A handler goes on and calls nobody. -/
inductive Alone (c : Calls) : Step → Handler → Handler → Prop
  | read (i : Nat) (received : Except StdException Request) :
    Alone c (.read i received) .reading (.received received)
  | got (i : Nat) {phone : List Char} {t : TaskRef} {id : CallID} {x : Settled Result}
      (hx : (c.world.tasks t).promise_.state = some x) :
    Alone c (.get i) (.waiting phone t id) (.closed (.ok (phoneRequest phone)) (some t) (.settled id x))
  | updated (i : Nat) (answer : Except StdException Bool) {target : List Char} :
    Alone c (.update i answer) (.updating target) (.closed (.ok ⟨true, target⟩) none (.updated answer))

/-- What a step does. -/
inductive Moved (hash : ThreadId → UInt64) (s : State) : Step → State → Prop
  | accepted : Moved hash s .accept { s with handlers := s.handlers ++ [.reading] }
  | ended : Moved hash s .acceptFails { s with accepting := false }
  | alone {e : Step} {i : Nat} {g h : Handler} (hi : s.handlers[i]? = some g) (hgo : Alone s.calls e g h) :
    Moved hash s e { s with handlers := s.handlers.set i h }
  | arrived {i : Nat} {now : TimePoint} {phone : List Char} {c : Calls} (hi : s.handlers[i]? = some (.calling phone))
      (hc : s.calls.arrive phone now = some c) : Moved hash s (.arrive i now)
        { s with calls := c, handlers := s.handlers.set i (.adding phone s.calls.world.taskCount) }
  | added {i : Nat} {thread : ThreadId} {now : TimePoint} {phone : List Char} {t : TaskRef} {c : Calls} {id : CallID}
      (hi : s.handlers[i]? = some (.adding phone t))
      (hc : s.calls.addTask hash (s.calls.made.idxOf t) thread now = some c)
      (hrun : ((ThreadPool.add_task hash thread now s.calls.manager.threadPool_ t).run s.calls.world).1 = .ok id) :
    Moved hash s (.addTask i thread now)
      { s with calls := c, handlers := s.handlers.set i (.waiting phone t id) }
  | dropped {i : Nat} {thread : ThreadId} {now : TimePoint} {phone : List Char} {t : TaskRef} {c : Calls}
      {e : StdException} (hi : s.handlers[i]? = some (.adding phone t))
      (hc : s.calls.addTask hash (s.calls.made.idxOf t) thread now = some c)
      (hrun : ((ThreadPool.add_task hash thread now s.calls.manager.threadPool_ t).run s.calls.world).1 = .throws e) :
    Moved hash s (.addTask i thread now) { s with
      calls := c, handlers := s.handlers.set i (.closed (.ok (phoneRequest phone)) (some t) (.thrown e)) }
  | others {e : CallSteps.Step} {c : Calls} (he : e.ofHandler = false)
      (hc : (CallSteps.system hash).step s.calls e = some c) : Moved hash s (.calls e) { s with calls := c }

theorem moved {hash : ThreadId → UInt64} {s t : State} {e : Step} (h : (system hash).step s e = some t) :
    Moved hash s e t := by
  cases e with
  | accept =>
    have h' : s.accept = some t := h
    unfold State.accept at h'
    split at h'
    · cases h'
      exact .accepted
    · cases h'
  | acceptFails =>
    have h' : s.acceptFails = some t := h
    unfold State.acceptFails at h'
    split at h'
    · cases h'
      exact .ended
    · cases h'
  | read i received =>
    have h' : s.read i received = some t := h
    unfold State.read at h'
    split at h'
    · rename_i hi
      cases h'
      exact .alone hi (.read i received)
    · cases h'
  | arrive i now =>
    have h' : s.arrive i now = some t := h
    unfold State.arrive at h'
    split at h'
    · rename_i phone hi
      split at h'
      · rename_i c hc
        cases h'
        exact .arrived hi hc
      · cases h'
    · cases h'
  | addTask i thread now =>
    have h' : s.addTask hash i thread now = some t := h
    unfold State.addTask at h'
    split at h'
    · rename_i phone x hi
      split at h'
      · rename_i c hc
        split at h'
        · rename_i id hrun
          cases h'
          exact .added hi hc hrun
        · rename_i y hrun
          cases h'
          exact .dropped hi hc hrun
        · cases h'
      · cases h'
    · cases h'
  | get i =>
    have h' : s.get i = some t := h
    unfold State.get at h'
    split at h'
    · rename_i phone x id hi
      split at h'
      · rename_i y hy
        cases h'
        exact .alone hi (.got i hy)
      · cases h'
    · cases h'
  | update i answer =>
    have h' : s.update i answer = some t := h
    unfold State.update at h'
    split at h'
    · rename_i target hi
      cases h'
      exact .alone hi (.updated i answer)
    · cases h'
  | calls e =>
    have h' : s.others hash e = some t := h
    unfold State.others at h'
    split at h'
    · cases h'
    · rename_i he
      split at h'
      · rename_i c hc
        cases h'
        exact .others (Bool.not_eq_true _ ▸ he) hc
      · cases h'

/-- The calls go through a run of their own. -/
theorem calls_step {hash : ThreadId → UInt64} (s : State) (e : Step) (t : State) (c : Calls) (hs : s.calls = c)
    (h : (system hash).step s e = some t) :
    ∃ d, (CallSteps.system hash).run c (callSteps s e) = some d ∧ t.calls = d := by
  subst hs
  refine ⟨t.calls, ?_, rfl⟩
  have hone : ∀ {e' : CallSteps.Step} {d : Calls}, (CallSteps.system hash).step s.calls e' = some d →
      (CallSteps.system hash).run s.calls [e'] = some d := by
    intro e' d hd
    rw [Transition.System.run_cons, hd]
    rfl
  cases moved h with
  | accepted | ended => rfl
  | alone hi hgo => cases hgo <;> rfl
  | arrived hi hc =>
    rw [callSteps, hi]
    exact hone hc
  | added hi hc hrun =>
    rw [callSteps, hi]
    exact hone hc
  | dropped hi hc hrun =>
    rw [callSteps, hi]
    exact hone hc
  | others he hc => exact hone hc

/-- A handler that nobody interrupts does what `Manager::addTask` does. -/
theorem addTask_whole {hash : ThreadId → UInt64} {s : State} {i : Nat} {phone : List Char} {thread : ThreadId}
    {now pushNow : TimePoint} (hi : s.handlers[i]? = some (.calling phone)) (hnow : s.calls.clock ≤ now)
    (hpush : now ≤ pushNow) :
    ((system hash).run s [.arrive i now, .addTask i thread pushNow]).map (fun t => (t.calls.world, t.handlers)) =
      match (s.calls.manager.addTask hash thread now pushNow phone).run s.calls.world with
      | (.ok id, v) => some (v, s.handlers.set i (.waiting phone s.calls.world.taskCount id))
      | (.throws e, v) => some
        (v, s.handlers.set i (.closed (.ok (phoneRequest phone)) (some s.calls.world.taskCount) (.thrown e)))
      | (.undefined, _) => none := by
  have harrive : (system hash).step s (.arrive i now) = some
      { s with calls := { s.calls with world := s.calls.world.arrived (s.calls.newTask phone now), clock := now,
                                       made := s.calls.made ++ [s.calls.world.taskCount] }
               handlers := s.handlers.set i (.adding phone s.calls.world.taskCount) } := by
    show s.arrive i now = _
    unfold State.arrive
    rw [hi]
    simp only
    rw [CallSteps.arrive_some hnow]
  obtain ⟨hlt, _⟩ := List.getElem?_eq_some_iff.mp hi
  have hmade : s.calls.world.taskCount ∈ s.calls.made ++ [s.calls.world.taskCount] :=
    List.mem_append_right _ List.mem_cons_self
  rw [Transition.System.run_cons, harrive]
  show ((State.addTask hash _ i thread pushNow).bind (fun t => some t)).map _ = _
  unfold State.addTask
  simp only
  rw [List.getElem?_set_self hlt]
  simp only
  unfold Calls.addTask
  simp only
  rw [List.getElem?_idxOf hmade]
  simp only
  rw [if_pos hpush, Manager.addTask, Exec.run_bind_ok (run_construct _ _ _ _ _ _)]
  show _ = match (ThreadPool.add_task hash thread pushNow s.calls.manager.threadPool_ s.calls.world.taskCount).run
    (s.calls.world.arrived (s.calls.newTask phone now)) with
    | (.ok id, v) => _
    | (.throws e, v) => _
    | (.undefined, _) => _
  cases (ThreadPool.add_task hash thread pushNow s.calls.manager.threadPool_ s.calls.world.taskCount).run
      (s.calls.world.arrived (s.calls.newTask phone now)) with
  | mk o v =>
    cases o with
    | ok id => exact congrArg (fun hs => some (v, hs)) (List.set_set _)
    | throws e => exact congrArg (fun hs => some (v, hs)) (List.set_set _)
    | undefined => rfl

/-! What is known of the handlers. -/

/-- The call was added for the number. -/
structure Added (c : Calls) (phone : List Char) (t : TaskRef) : Prop where
  known : t < c.world.taskCount
  gone : t ∉ c.made
  number : (c.world.tasks t).number_ = phone

/-- A handler that is done. -/
inductive Closed (c : Calls) : Except StdException Request → Option TaskRef → Heard → Prop
  | unread (e : StdException) : Closed c (.error e) none .nothing
  | noGet (target : List Char) : Closed c (.ok ⟨false, target⟩) none .nothing
  | notFound {target : List Char} (hphone : ∀ rest, target ≠ "/phone=".toList ++ rest)
      (hupdate : ∀ rest, target ≠ "/update".toList ++ rest) : Closed c (.ok ⟨true, target⟩) none .nothing
  | updated (rest : List Char) (answer : Except StdException Bool) :
    Closed c (.ok ⟨true, "/update".toList ++ rest⟩) none (.updated answer)
  | thrown {phone : List Char} {t : TaskRef} {e : StdException} (h : Added c phone t) (hids : c.ids t = none)
      (hnum : stoll phone = .error e) : Closed c (.ok (phoneRequest phone)) (some t) (.thrown e)
  | settled {phone : List Char} {t : TaskRef} {id : CallID} {x : Settled Result} (h : Added c phone t)
      (hids : c.ids t = some id) (hnum : ∃ n, stoll phone = .ok n)
      (hx : (c.world.tasks t).promise_.state = some x) : Closed c (.ok (phoneRequest phone)) (some t) (.settled id x)

/-- What is known of a handler. -/
def Handler.Ok (c : Calls) : Handler → Prop
  | .reading | .calling _ => True
  | .adding phone t => t ∈ c.made ∧ (c.world.tasks t).number_ = phone ∧ c.ids t = none
  | .waiting phone t id => Added c phone t ∧ c.ids t = some id ∧ ∃ n, stoll phone = .ok n
  | .updating target => ∃ rest, target = "/update".toList ++ rest
  | .closed received task heard => Closed c received task heard

/-- The invariant: the calls are as `Custody` says, a CallID is of a task, no two
connections have one call, and of each handler is known where it is. -/
structure Kept (recorders : List RecorderRef) (q : QueueRef) (s : State) : Prop where
  custody : Custody recorders q s.calls
  unmade : ∀ t : Nat, s.calls.world.taskCount ≤ t → s.calls.ids t = none
  single : ∀ (i j : Nat) (g h : Handler) (t : TaskRef), s.handlers[i]? = some g → s.handlers[j]? = some h →
    g.task = some t → h.task = some t → i = j
  known : ∀ h ∈ s.handlers, h.Ok s.calls

section
variable {recorders : List RecorderRef} {q : QueueRef} {hash : ThreadId → UInt64} {c d : Calls} {e : CallSteps.Step}
  {phone : List Char} {t : TaskRef}

theorem Added.step (h : Added c phone t) (hc : Custody recorders q c) (hstep : (CallSteps.system hash).step c e = some d) :
    Added d phone t ∧ d.ids t = c.ids t ∧
      ∀ x, (c.world.tasks t).promise_.state = some x → (d.world.tasks t).promise_.state = some x := by
  obtain ⟨old, new, hstepped⟩ := hc.stepped hstep
  have hgiven := hc.given hstep h.known
  refine ⟨⟨Nat.lt_of_lt_of_le h.known hstepped.taskCount, fun hmade => ?_, ?_⟩, ?_,
    fun x hx => hc.promise_kept hstepped h.known hx⟩
  · rcases hstepped.made with hsame | hsame | ⟨k, _, _, _, _, _, hsame⟩
    · exact h.gone (hsame ▸ hmade)
    · rw [hsame] at hmade
      rcases List.mem_append.mp hmade with hmade | hmade
      · exact h.gone hmade
      · exact Nat.ne_of_lt h.known (List.mem_singleton.mp hmade)
    · rw [hsame] at hmade
      exact h.gone (List.mem_of_mem_eraseIdx hmade)
  · exact (congrArg (fun g => g.1) hgiven).trans h.number
  · rcases hstepped.ids with hsame | ⟨k, _, _, x, id, _, hk, hsame⟩
    · rw [hsame]
    · have hne : t ≠ x := by
        rintro rfl
        exact h.gone (List.mem_of_getElem? hk)
      rw [hsame, Function.update_of_ne hne]

theorem Closed.step {received : Except StdException Request} {task : Option TaskRef} {heard : Heard}
    (h : Closed c received task heard) (hc : Custody recorders q c)
    (hstep : (CallSteps.system hash).step c e = some d) : Closed d received task heard := by
  cases h with
  | unread e => exact .unread e
  | noGet target => exact .noGet target
  | notFound hphone hupdate => exact .notFound hphone hupdate
  | updated rest answer => exact .updated rest answer
  | thrown hadded hids hnum =>
    obtain ⟨hadded', hsame, _⟩ := hadded.step hc hstep
    exact .thrown hadded' (hsame.trans hids) hnum
  | settled hadded hids hnum hx =>
    obtain ⟨hadded', hsame, hkept⟩ := hadded.step hc hstep
    exact .settled hadded' (hsame.trans hids) hnum (hkept _ hx)

/-- A step of the calls keeps what is known of a handler, unless it adds its task. -/
theorem Handler.Ok.step {h : Handler} (hok : h.Ok c) (hc : Custody recorders q c)
    (hstep : (CallSteps.system hash).step c e = some d)
    (hother : ∀ k thread now x, e = .addTask k thread now → c.made[k]? = some x → h.task ≠ some x) : h.Ok d := by
  cases h with
  | reading => trivial
  | calling phone => trivial
  | updating target => exact hok
  | waiting phone t id =>
    obtain ⟨hadded, hsame, _⟩ := hok.1.step hc hstep
    exact ⟨hadded, hsame.trans hok.2.1, hok.2.2⟩
  | closed received task heard => exact Closed.step hok hc hstep
  | adding phone t =>
    obtain ⟨hmade, hnumber, hids⟩ := hok
    obtain ⟨old, new, hstepped⟩ := hc.stepped hstep
    have hgiven := hc.given hstep (hc.known _ (CallSteps.seat_made hmade)).1
    refine ⟨?_, (congrArg (fun g => g.1) hgiven).trans hnumber, ?_⟩
    · rcases hstepped.made with hsame | hsame | ⟨k, _, _, x, he, hk, hsame⟩
      · exact hsame ▸ hmade
      · rw [hsame]
        exact List.mem_append_left _ hmade
      · rw [hsame]
        rcases List.mem_cons.mp ((CallSteps.perm_eraseIdx hk).mem_iff.mp hmade) with rfl | hrest
        · exact absurd rfl (hother k _ _ t he hk)
        · exact hrest
    · rcases hstepped.ids with hsame | ⟨k, thread, now, x, id, he, hk, hsame⟩
      · rw [hsame]
        exact hids
      · have hne : t ≠ x := fun heq => hother k thread now x he hk (congrArg some heq)
        rw [hsame, Function.update_of_ne hne]
        exact hids

theorem unmade_step (hc : Custody recorders q c) (hids : ∀ t : Nat, c.world.taskCount ≤ t → c.ids t = none)
    (hstep : (CallSteps.system hash).step c e = some d) : ∀ t : Nat, d.world.taskCount ≤ t → d.ids t = none := by
  obtain ⟨old, new, hstepped⟩ := hc.stepped hstep
  intro t ht
  have hnone := hids t (Nat.le_trans hstepped.taskCount ht)
  rcases hstepped.ids with hsame | ⟨k, _, _, x, id, _, hk, hsame⟩
  · rw [hsame]
    exact hnone
  · have hx := (hc.known _ (CallSteps.seat_made (List.mem_of_getElem? hk))).1
    have hne : t ≠ x := Nat.ne_of_gt (Nat.lt_of_lt_of_le hx (Nat.le_trans hstepped.taskCount ht))
    rw [hsame, Function.update_of_ne hne]
    exact hnone

theorem Handler.Ok.task_lt {h : Handler} (hok : h.Ok c) (hc : Custody recorders q c) (ht : h.task = some t) :
    t < c.world.taskCount := by
  cases h with
  | reading | calling phone | updating target => cases ht
  | adding phone u =>
    cases ht
    exact (hc.known _ (CallSteps.seat_made hok.1)).1
  | waiting phone u id =>
    cases ht
    exact hok.1.known
  | closed received task heard =>
    have hclosed : Closed c received task heard := hok
    cases hclosed with
    | unread e | noGet target | notFound hphone hupdate | updated rest answer => cases ht
    | thrown hadded hids hnum =>
      cases ht
      exact hadded.known
    | settled hadded hids hnum hx =>
      cases ht
      exact hadded.known

end

/-! The handler that moves. -/

section
variable {recorders : List RecorderRef} {q : QueueRef} {hash : ThreadId → UInt64} {c d : Calls} {e : Step}
  {g h : Handler} {phone : List Char} {t : TaskRef} {thread : ThreadId} {now : TimePoint}

theorem Handler.received_ok (c : Calls) (received : Except StdException Request) :
    (Handler.received received).task = none ∧ (Handler.received received).Ok c := by
  cases received with
  | error e => exact ⟨rfl, .unread e⟩
  | ok req =>
    obtain ⟨get, target⟩ := req
    unfold Handler.received
    cases get with
    | false => exact ⟨rfl, .noGet target⟩
    | true =>
      simp only [↓reduceIte]
      split
      · exact ⟨rfl, trivial⟩
      · rename_i hphone
        split
        · rename_i hupdate
          exact ⟨rfl, HttpServer.isPrefixOf_iff.mp hupdate⟩
        · rename_i hupdate
          refine ⟨rfl, .notFound (fun rest hrest => ?_) (fun rest hrest => ?_)⟩
          · exact hphone (HttpServer.isPrefixOf_iff.mpr ⟨rest, hrest⟩)
          · exact hupdate (HttpServer.isPrefixOf_iff.mpr ⟨rest, hrest⟩)

theorem Alone.task (hgo : Alone c e g h) : h.task = g.task := by
  cases hgo with
  | read i received => exact (Handler.received_ok c received).1
  | got i hx => rfl
  | updated i answer => rfl

theorem Alone.ok (hgo : Alone c e g h) (hg : g.Ok c) : h.Ok c := by
  cases hgo with
  | read i received => exact (Handler.received_ok c received).2
  | got i hx => exact Closed.settled hg.1 hg.2.1 hg.2.2 hx
  | updated i answer =>
    obtain ⟨rest, rfl⟩ := hg
    exact Closed.updated rest answer

theorem arrived_ok (hids : c.ids c.world.taskCount = none) (hstep : c.arrive phone now = some d) :
    (Handler.adding phone c.world.taskCount).Ok d := by
  unfold Calls.arrive at hstep
  rw [run_construct] at hstep
  split at hstep
  · cases hstep
    refine ⟨List.mem_append_right _ List.mem_cons_self, ?_, hids⟩
    simp [Task.make]
  · cases hstep

theorem getElem?_made (h : t ∈ c.made) : c.made[c.made.idxOf t]? = some t :=
  List.getElem?_idxOf h

theorem gone_step (hc : Custody recorders q c) (hmade : t ∈ c.made) (hnumber : (c.world.tasks t).number_ = phone)
    (hstep : c.addTask hash (c.made.idxOf t) thread now = some d) : Added d phone t := by
  have hstep' : (CallSteps.system hash).step c (.addTask (c.made.idxOf t) thread now) = some d := hstep
  obtain ⟨old, new, hstepped⟩ := hc.stepped hstep'
  have hlt := (hc.known _ (CallSteps.seat_made hmade)).1
  have hgiven := hc.given hstep' hlt
  refine ⟨Nat.lt_of_lt_of_le hlt hstepped.taskCount, ?_, (congrArg (fun g => g.1) hgiven).trans hnumber⟩
  have hnodup := (CallSteps.perm_eraseIdx (getElem?_made hmade)).nodup_iff.mp hc.made_nodup
  rw [(CallSteps.addTask_kept hstep).1]
  exact (List.nodup_cons.mp hnodup).1

theorem added_ok {id : CallID} (hc : Custody recorders q c) (hok : (Handler.adding phone t).Ok c)
    (hstep : c.addTask hash (c.made.idxOf t) thread now = some d)
    (hrun : ((ThreadPool.add_task hash thread now c.manager.threadPool_ t).run c.world).1 = .ok id) :
    (Handler.waiting phone t id).Ok d := by
  obtain ⟨hmade, hnumber, _⟩ := hok
  refine ⟨gone_step hc hmade hnumber hstep, ?_, ?_⟩
  · unfold Calls.addTask at hstep
    rw [getElem?_made hmade] at hstep
    simp only at hstep
    split at hstep
    · cases hadd : (ThreadPool.add_task hash thread now c.manager.threadPool_ t).run c.world with
      | mk o v =>
        rw [hadd] at hrun hstep
        cases hrun
        cases hstep
        exact Function.update_self _ _ _
    · cases hstep
  · rcases hc.add_task hmade thread now with ⟨z, _, hthrows⟩ | ⟨n, hnum, _⟩
    · rw [hrun] at hthrows
      cases hthrows
    · exact ⟨n, hnumber ▸ hnum⟩

theorem dropped_ok {y : StdException} (hc : Custody recorders q c) (hok : (Handler.adding phone t).Ok c)
    (hstep : c.addTask hash (c.made.idxOf t) thread now = some d)
    (hrun : ((ThreadPool.add_task hash thread now c.manager.threadPool_ t).run c.world).1 = .throws y) :
    (Handler.closed (.ok (phoneRequest phone)) (some t) (.thrown y)).Ok d := by
  obtain ⟨hmade, hnumber, hids⟩ := hok
  have hnum : stoll (c.world.tasks t).number_ = .error y := by
    rcases hc.add_task hmade thread now with ⟨z, hz, hthrows⟩ | ⟨n, _, hreturns⟩
    · rw [hrun] at hthrows
      cases hthrows
      exact hz
    · rw [hrun] at hreturns
      split at hreturns <;> cases hreturns
  obtain ⟨_, _, hsame⟩ := CallSteps.addTask_refused (q := q) (getElem?_made hmade) hnum hstep
  refine Closed.thrown (gone_step hc hmade hnumber hstep) ?_ (hnumber ▸ hnum)
  rw [hsame]
  exact hids

end

/-! Every step keeps the invariant. -/

theorem getElem?_set_cases {l : List Handler} {i j : Nat} {g h : Handler} (h' : (l.set i h)[j]? = some g) :
    (j = i ∧ g = h) ∨ (j ≠ i ∧ l[j]? = some g) := by
  by_cases hj : i = j
  · subst hj
    obtain ⟨hlt, _⟩ := List.getElem?_eq_some_iff.mp h'
    rw [List.getElem?_set_self (List.length_set ▸ hlt)] at h'
    cases h'
    exact Or.inl ⟨rfl, rfl⟩
  · rw [List.getElem?_set_ne hj] at h'
    exact Or.inr ⟨Ne.symm hj, h'⟩

namespace Kept
variable {recorders : List RecorderRef} {q : QueueRef} {s t : State} {e : Step} {hash : ThreadId → UInt64}

theorem set (hs : Kept recorders q s) {i : Nat} {h : Handler} {c : Calls} (hcustody : Custody recorders q c)
    (hunmade : ∀ t : Nat, c.world.taskCount ≤ t → c.ids t = none)
    (hfree : ∀ j g t, j ≠ i → s.handlers[j]? = some g → g.task = some t → h.task ≠ some t) (hok : h.Ok c)
    (hothers : ∀ j g, j ≠ i → s.handlers[j]? = some g → g.Ok c) :
    Kept recorders q { s with calls := c, handlers := s.handlers.set i h } where
  custody := hcustody
  unmade := hunmade
  single := by
    intro a b x y t ha hb hx hy
    rcases getElem?_set_cases ha with ⟨rfl, rfl⟩ | ⟨hai, ha'⟩
    · rcases getElem?_set_cases hb with ⟨rfl, rfl⟩ | ⟨hbi, hb'⟩
      · rfl
      · exact absurd hx (hfree b y t hbi hb' hy)
    · rcases getElem?_set_cases hb with ⟨rfl, rfl⟩ | ⟨hbi, hb'⟩
      · exact absurd hy (hfree a x t hai ha' hx)
      · exact hs.single a b x y t ha' hb' hx hy
  known := by
    intro g hg
    obtain ⟨j, hj⟩ := List.mem_iff_getElem?.mp hg
    rcases getElem?_set_cases hj with ⟨_, rfl⟩ | ⟨hji, hj⟩
    · exact hok
    · exact hothers j g hji hj

theorem free (hs : Kept recorders q s) {i : Nat} {g h : Handler} (hi : s.handlers[i]? = some g)
    (htask : h.task = g.task) :
    ∀ j x t, j ≠ i → s.handlers[j]? = some x → x.task = some t → h.task ≠ some t := by
  intro j x t hj hx hxt hht
  exact hj (hs.single j i x g t hx hi hxt (htask ▸ hht))

theorem ok (hs : Kept recorders q s) {i : Nat} {g : Handler} (hi : s.handlers[i]? = some g) : g.Ok s.calls :=
  hs.known g (List.mem_of_getElem? hi)

theorem add (hs : Kept recorders q s) {i : Nat} {phone : List Char} {x : TaskRef} {thread : ThreadId}
    {now : TimePoint} {c : Calls} {h : Handler} (hi : s.handlers[i]? = some (.adding phone x))
    (hc : s.calls.addTask hash (s.calls.made.idxOf x) thread now = some c) (htask : h.task = some x) (hok : h.Ok c) :
    Kept recorders q { s with calls := c, handlers := s.handlers.set i h } := by
  have hstep : (CallSteps.system hash).step s.calls (.addTask (s.calls.made.idxOf x) thread now) = some c := hc
  obtain ⟨old, new, hstepped⟩ := hs.custody.stepped hstep
  refine hs.set (hs.custody.step hstepped) (unmade_step hs.custody hs.unmade hstep) (hs.free hi htask) hok ?_
  intro j g hj hg
  refine (hs.ok hg).step hs.custody hstep (fun k thread' now' y he hk htask' => ?_)
  -- the task that is added is the handler's own
  cases he
  rw [getElem?_made (hs.ok hi).1] at hk
  cases hk
  exact hj (hs.single j i g _ x hg hi htask' rfl)

theorem step (hs : Kept recorders q s) (h : (system hash).step s e = some t) : Kept recorders q t := by
  cases moved h with
  | ended => exact ⟨hs.custody, hs.unmade, hs.single, hs.known⟩
  | accepted =>
    have hold : ∀ {j : Nat} {g : Handler} {t : TaskRef}, (s.handlers ++ [.reading])[j]? = some g →
        g.task = some t → s.handlers[j]? = some g := by
      intro j g t hj hg
      rw [List.getElem?_append] at hj
      split at hj
      · exact hj
      · rw [List.mem_singleton.mp (List.mem_of_getElem? hj)] at hg
        cases hg
    refine ⟨hs.custody, hs.unmade, fun a b x y t ha hb hx hy => ?_, fun g hg => ?_⟩
    · exact hs.single a b x y t (hold ha hx) (hold hb hy) hx hy
    · rcases List.mem_append.mp hg with hg | hg
      · exact hs.known g hg
      · rw [List.mem_singleton.mp hg]
        trivial
  | alone hi hgo =>
    exact hs.set hs.custody hs.unmade (hs.free hi hgo.task) (hgo.ok (hs.ok hi)) (fun j g _ hg => hs.ok hg)
  | @arrived i now phone c hi hc =>
    have hstep : (CallSteps.system hash).step s.calls (.arrive phone now) = some c := hc
    obtain ⟨old, new, hstepped⟩ := hs.custody.stepped hstep
    refine hs.set (hs.custody.step hstepped) (unmade_step hs.custody hs.unmade hstep) ?_
      (arrived_ok (hs.unmade _ (Nat.le_refl _)) hc) ?_
    · intro j g x _ hg hx heq
      cases heq
      exact Nat.lt_irrefl _ ((hs.ok hg).task_lt hs.custody hx)
    · intro j g _ hg
      exact (hs.ok hg).step hs.custody hstep (fun k thread now x he => (by cases he))
  | added hi hc hrun => exact hs.add hi hc rfl (added_ok hs.custody (hs.ok hi) hc hrun)
  | dropped hi hc hrun => exact hs.add hi hc rfl (dropped_ok hs.custody (hs.ok hi) hc hrun)
  | @others e c he hc =>
    obtain ⟨old, new, hstepped⟩ := hs.custody.stepped hc
    refine ⟨hs.custody.step hstepped, unmade_step hs.custody hs.unmade hc, hs.single, fun g hg => ?_⟩
    refine (hs.known g hg).step hs.custody hc (fun k thread now x heq => ?_)
    rw [heq] at he
    cases he

end Kept

/-! What the clients read. -/

/-- The client of the connection reads the reply. -/
def Reads (received : Except StdException Request) (heard : Heard) (reply : Reply) : Prop :=
  ∃ res ∈ responses received heard, readReply res.body = some reply

/-- What the client of a closed connection is told; `a` is the queue of the calls. -/
structure Informed (a : BoundedQueue.State (TaskRef × List Char)) (s : State) (i : Nat)
    (received : Except StdException Request) (task : Option TaskRef) (heard : Heard) : Prop where
  /-- It gets one response at most. -/
  once : (responses received heard).length ≤ 1
  /-- It reads of a call exactly what became of its own, if it asked for one. -/
  call : ∀ id d status, Reads received heard (.call id d status) ↔ ∃ phone t r,
    received = .ok (phoneRequest phone) ∧ task = some t ∧ s.calls.ids t = some id ∧
    (s.calls.world.tasks t).promise_.state = some (.value r) ∧ r.callDuration = d ∧ r.status = status ∧
    BoundedQueue.fate a (t, phone) = some r.fate
  /-- No other connection has the call. -/
  own : ∀ t, task = some t → ∀ j h, s.handlers[j]? = some h → h.task = some t → j = i

theorem responses_thrown (phone : List Char) (e : StdException) :
    responses (.ok (phoneRequest phone)) (.thrown e) = (Heard.response (.thrown e)).toList :=
  IManager.responses_eq (.thrown rfl rfl)

theorem responses_settled (phone : List Char) (id : CallID) (x : Settled Result) :
    responses (.ok (phoneRequest phone)) (.settled id x) = (Heard.response (.settled id x)).toList :=
  IManager.responses_eq (.settled rfl rfl rfl)

section
variable {c : Calls} {received : Except StdException Request} {task : Option TaskRef} {heard : Heard}

theorem Closed.responses (h : Closed c received task heard) :
    responses received heard = [] ∨ responses received heard = heard.response.toList := by
  cases h with
  | unread e => exact Or.inl rfl
  | noGet target => exact Or.inl rfl
  | notFound hphone hupdate => exact Or.inr (IManager.responses_eq (.nothing hphone hupdate))
  | updated rest answer => exact Or.inr (IManager.responses_eq (.updated rfl rfl))
  | thrown hadded hids hnum => exact Or.inr (responses_thrown _ _)
  | settled hadded hids hnum hx => exact Or.inr (responses_settled _ _ _)

theorem Closed.responses_length (h : Closed c received task heard) : (ProteiCov.responses received heard).length ≤ 1 := by
  rcases h.responses with hnone | hsome
  · rw [hnone]
    exact Nat.zero_le 1
  · rw [hsome]
    cases heard.response with
    | none => exact Nat.zero_le 1
    | some res => exact Nat.le_refl 1

theorem reads_iff {reply : Reply} (h : ProteiCov.responses received heard = heard.response.toList) :
    Reads received heard reply ↔ heard.reply = some reply := by
  rw [← heard.readReply_response, Option.bind_eq_some_iff]
  unfold Reads
  rw [h]
  simp only [Option.mem_toList]

/-- A client reads of a call what became of its own. -/
theorem Closed.reads (h : Closed c received task heard) (id : CallID) (d : Int) (status : CallStatus) :
    Reads received heard (.call id d status) ↔ ∃ phone t r, received = .ok (phoneRequest phone) ∧
      task = some t ∧ c.ids t = some id ∧ (c.world.tasks t).promise_.state = some (.value r) ∧
      r.callDuration = d ∧ r.status = status := by
  have hnone : heard.reply ≠ some (.call id d status) → task = none →
      (ProteiCov.responses received heard = [] ∨ ProteiCov.responses received heard = heard.response.toList) →
      (Reads received heard (.call id d status) ↔ ∃ phone t r, received = .ok (phoneRequest phone) ∧
        task = some t ∧ c.ids t = some id ∧ (c.world.tasks t).promise_.state = some (.value r) ∧
        r.callDuration = d ∧ r.status = status) := by
    intro hreply htask hres
    refine iff_of_false (fun hreads => ?_) ?_
    · rcases hres with hres | hres
      · obtain ⟨res, hmem, _⟩ := hreads
        rw [hres] at hmem
        cases hmem
      · exact hreply ((reads_iff hres).mp hreads)
    · rintro ⟨_, t, _, _, ht, _⟩
      rw [htask] at ht
      cases ht
  cases h with
  | unread e => exact hnone (by simp [Heard.reply]) rfl (Closed.responses (c := c) (.unread e))
  | noGet target => exact hnone (by simp [Heard.reply]) rfl (Closed.responses (c := c) (.noGet target))
  | notFound hphone hupdate =>
    exact hnone (by simp [Heard.reply]) rfl (Closed.responses (c := c) (.notFound hphone hupdate))
  | updated rest answer =>
    refine hnone ?_ rfl (Closed.responses (c := c) (.updated rest answer))
    cases answer <;> simp [Heard.reply]
  | thrown hadded hids hnum =>
    rw [reads_iff (responses_thrown _ _)]
    refine iff_of_false (by simp [Heard.reply]) ?_
    rintro ⟨_, t, _, _, ht, hid, _⟩
    cases ht
    rw [hids] at hid
    cases hid
  | @settled phone t id' x hadded hids hnum hx =>
    rw [reads_iff (responses_settled _ _ _)]
    constructor
    · intro hreply
      cases x with
      | value r =>
        cases hreply
        exact ⟨phone, t, r, rfl, rfl, hids, hx, rfl, rfl⟩
      | exception e => cases hreply
    · rintro ⟨_, t', r, _, ht, hid, hr, rfl, rfl⟩
      cases ht
      rw [hids] at hid
      rw [hx] at hr
      cases hid
      cases hr
      rfl

theorem Closed.number {phone : List Char} {t : TaskRef} (h : Closed c (.ok (phoneRequest phone)) (some t) heard) :
    Added c phone t := by
  generalize hreq : phoneRequest phone = req at h
  generalize htask : some t = task at h
  cases h with
  | noGet target | notFound hp hu | updated rest answer => cases htask
  | thrown hadded hids hnum =>
    cases htask
    rw [phoneRequest_injective hreq]
    exact hadded
  | settled hadded hids hnum hx =>
    cases htask
    rw [phoneRequest_injective hreq]
    exact hadded

end

section
variable {hash : ThreadId → UInt64} {operators limit : Nat} {recorders : List RecorderRef} {minMax : Int × Int}
  {logger : Bool} {m : Manager} {w : World} {clock : TimePoint} {steps : List Step} {s : State}

theorem kept_assemble (h : (CallFlow.assemble operators limit recorders minMax logger).run .empty = (.ok m, w))
    (clock : TimePoint) : Kept recorders 0 (initial m w clock) :=
  ⟨CallSteps.custody_assemble h clock, fun _ _ => rfl, fun i j g h t hi => (by cases hi), fun h hh => (by cases hh)⟩

/-- In every run, whatever handlers, workers and updates do in between, what a client reads
of a call is what became of its own call in the atomic queue of the calls, and a client
whose call ended with a result reads it. -/
theorem own_answers (h₀ : (CallFlow.assemble operators limit recorders minMax logger).run .empty = (.ok m, w))
    (h : (system hash).run (initial m w clock) steps = some s) :
    ∃ a, CallSteps.queueOfCalls.run (BoundedQueue.initial (w.queues 0).sizeOfQueue)
        ((CallSteps.system hash).project CallSteps.points (CallSteps.initial m w clock)
          ((system hash).project callSteps (initial m w clock) steps)) = some a ∧
      ∀ i received task heard, s.handlers[i]? = some (.closed received task heard) →
        Informed a s i received task heard := by
  have hs : Kept recorders 0 s := Transition.System.run_inv (fun _ _ _ hs hstep => hs.step hstep) h
    (kept_assemble h₀ clock)
  obtain ⟨_, hcalls, rfl⟩ := Transition.System.run_project calls_step h rfl
  obtain ⟨a, ha, _, hfates⟩ := Transition.System.run_project CallSteps.fates_step hcalls
    ⟨CallSteps.custody_assemble h₀ clock, CallSteps.fates_assemble h₀ clock⟩
  refine ⟨a, ha, fun i received task heard hi => ?_⟩
  have hclosed : Closed s.calls received task heard := hs.ok hi
  refine ⟨hclosed.responses_length, fun id d status => ?_, fun t ht j h hj hjt => ?_⟩
  · rw [hclosed.reads]
    constructor
    · rintro ⟨phone, t, r, rfl, rfl, hids, hr, hd, hstatus⟩
      refine ⟨phone, t, r, rfl, rfl, hids, hr, hd, hstatus, ?_⟩
      have hlabel : (t, phone) = CallSteps.label s.calls.world t := congrArg (Prod.mk t) hclosed.number.number.symm
      rw [hlabel, hfates.fates t hclosed.number.known]
      exact hs.custody.fate_of_state hr
    · rintro ⟨phone, t, r, hreceived, ht, hids, hr, hd, hstatus, _⟩
      exact ⟨phone, t, r, hreceived, ht, hids, hr, hd, hstatus⟩
  · exact hs.single j i h _ t hj hi hjt ht

end

/-- Five clients: the first two call one number, and the call of the second, which is added
first, is superseded; the third calls no number, the fourth asks for another path, and the
request of the fifth cannot be read. The first call is served. -/
def fiveClients : List Step :=
  let second : TimePoint := 1000000000
  [.calls .startThreadPool, .accept, .accept, .accept, .read 0 (.ok (phoneRequest ['1'])),
    .read 1 (.ok (phoneRequest ['1'])), .accept, .arrive 0 0, .arrive 1 0, .read 2 (.ok (phoneRequest ['a'])),
    .addTask 1 5 0, .arrive 2 0, .addTask 0 6 second, .addTask 2 7 second, .get 1, .accept, .acceptFails,
    .read 3 (.ok ⟨true, ['/']⟩), .read 4 (.error (.other 2)), .calls (.take 9 0),
    .calls (.readClock 0 (2 * second)), .calls (.swap 2 2), .calls (.readClock 0 (2 * second)),
    .calls (.readClock 0 (14 * second)), .calls (.doTask 0 (fun _ => none) 12), .calls (.writeCDR 0),
    .calls (.settle 0), .get 0]

/-- Their end, with room for two calls and two recorders. -/
def afterFiveClients : Option State :=
  match (CallFlow.assemble 1 2 [0, 1] (10, 15) true).run .empty with
  | (.ok m, w) => (system (fun _ => 7)).run (initial m w 0) fiveClients
  | _ => none

/-- What became of the calls, as the handlers heard it. -/
def State.heard (s : State) : List (Option CallStatus) :=
  s.handlers.map (fun h => match h with
    | .closed _ _ (.settled _ (.value r)) => some r.status
    | _ => none)

theorem own_answers_fiveClients : ∃ s, afterFiveClients = some s ∧
    s.heard = [some .Completed, some .Duplication, none, none, none] ∧
    ∃ (w : World) (m : Manager) (a : BoundedQueue.State (TaskRef × List Char)),
      CallSteps.queueOfCalls.run (BoundedQueue.initial (w.queues 0).sizeOfQueue)
        ((CallSteps.system (fun _ => 7)).project CallSteps.points (CallSteps.initial m w 0)
          ((system (fun _ => 7)).project callSteps (initial m w 0) fiveClients)) = some a ∧
      ∀ i received task heard, s.handlers[i]? = some (.closed received task heard) →
        Informed a s i received task heard := by
  have hheard : afterFiveClients.map State.heard =
      some [some .Completed, some .Duplication, none, none, none] := by
    decide +kernel
  obtain ⟨s, hs, hstatus⟩ := Option.map_eq_some_iff.mp hheard
  refine ⟨s, hs, hstatus, ?_⟩
  unfold afterFiveClients at hs
  split at hs
  · rename_i m w hassemble
    obtain ⟨a, ha, hinformed⟩ := own_answers hassemble hs
    exact ⟨w, m, a, ha, hinformed⟩
  · cases hs

section
variable {hash : ThreadId → UInt64} {operators limit : Nat} {recorders : List RecorderRef} {minMax : Int × Int}
  {logger : Bool} {m : Manager} {w : World} {clock : TimePoint} {steps : List Step} {s : State}

/-- In every run of legible steps, the lines of the file of each recorder are those of the
CDRs it was passed, and exactly one of these is of the call a client reads a reply about;
its line has the number the client asked for and what it reads. -/
theorem replies_filed {put_time : Int → List Char} (hinj : Function.Injective put_time)
    (hmarks : Unmarked put_time)
    (h₀ : (CallFlow.assemble operators limit recorders minMax logger).run .empty = (.ok m, w))
    (hlimits : minMax.1 ≤ minMax.2) (hclock : 0 ≤ clock) (hrecorders : recorders.Nodup)
    (h : (system hash).run (initial m w clock) steps = some s)
    (hlegible : (CallSteps.system hash).Along CallSteps.Legible (CallSteps.initial m w clock)
      ((system hash).project callSteps (initial m w clock) steps)) {rec : RecorderRef} (hrec : rec ∈ recorders) :
    readJournal put_time (s.calls.world.cdrFile put_time rec) =
        some ((recordsOf rec s.calls.world.trace).map (fun x => x.2.reading)) ∧
      ∀ (i : Nat) received task heard id d status, s.handlers[i]? = some (.closed received task heard) →
        Reads received heard (.call id d status) →
        ∃ phone t cdr, received = .ok (phoneRequest phone) ∧ task = some t ∧
          (recordsOf rec s.calls.world.trace).filter (fun x => x.1 = t) = [(t, cdr)] ∧
          cdr.reading.number = phone ∧ cdr.reading.callID = id ∧ cdr.reading.callDuration = d ∧
          cdr.reading.status = status := by
  have hs : Kept recorders 0 s := Transition.System.run_inv (fun _ _ _ hs hstep => hs.step hstep) h
    (kept_assemble h₀ clock)
  obtain ⟨_, hcalls, rfl⟩ := Transition.System.run_project calls_step h rfl
  obtain ⟨hst, hfiling⟩ := CallSteps.filing_of_run h₀ hlimits hclock hcalls hlegible
  obtain ⟨hread, hlines⟩ := hfiling.file hinj hmarks hst hrecorders hrec
  refine ⟨hread, fun i received task heard id d status hi hreads => ?_⟩
  have hclosed : Closed s.calls received task heard := hs.ok hi
  obtain ⟨phone, t, r, rfl, rfl, hids, hr, hd, hstatus⟩ := (hclosed.reads id d status).mp hreads
  obtain ⟨cdr, hcdr, hagrees⟩ := hlines t r hr
  refine ⟨phone, t, cdr, rfl, rfl, hcdr, hagrees.number.trans hclosed.number.number, ?_,
    hagrees.callDuration.trans hd, hagrees.status.trans hstatus⟩
  have hid := hagrees.callID.2
  rw [hids] at hid
  cases hid
  rfl

end

/-- The five clients, where every step is legible. -/
def filedFiveClients : Option State :=
  match (CallFlow.assemble 1 2 [0, 1] (10, 15) true).run .empty with
  | (.ok m, w) =>
    if (CallSteps.system (fun _ => 7)).Along CallSteps.Legible (CallSteps.initial m w 0)
        ((system (fun _ => 7)).project callSteps (initial m w 0) fiveClients) then
      (system (fun _ => 7)).run (initial m w 0) fiveClients
    else none
  | _ => none

theorem replies_filed_fiveClients : ∃ s, filedFiveClients = some s ∧
    s.heard = [some .Completed, some .Duplication, none, none, none] ∧
    readJournal firstMinute (s.calls.world.cdrFile firstMinute 1) =
        some ((recordsOf 1 s.calls.world.trace).map (fun x => x.2.reading)) ∧
      ∀ (i : Nat) received task heard id d status, s.handlers[i]? = some (.closed received task heard) →
        Reads received heard (.call id d status) →
        ∃ phone t cdr, received = .ok (phoneRequest phone) ∧ task = some t ∧
          (recordsOf 1 s.calls.world.trace).filter (fun x => x.1 = t) = [(t, cdr)] ∧
          cdr.reading.number = phone ∧ cdr.reading.callID = id ∧ cdr.reading.callDuration = d ∧
          cdr.reading.status = status := by
  have hheard : filedFiveClients.map State.heard =
      some [some .Completed, some .Duplication, none, none, none] := by
    decide +kernel
  obtain ⟨s, hs, hstatus⟩ := Option.map_eq_some_iff.mp hheard
  refine ⟨s, hs, hstatus, ?_⟩
  unfold filedFiveClients at hs
  split at hs
  · rename_i m w hassemble
    split at hs
    · rename_i hlegible
      exact replies_filed firstMinute_injective firstMinute_unmarked hassemble (by decide) (by decide)
        (by decide) hs hlegible (by decide)
    · cases hs
  · cases hs

end Connections

end ProteiCov
