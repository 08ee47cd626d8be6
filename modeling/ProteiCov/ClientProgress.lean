import ProteiCov.Connections

/-
  Clients that are answered

  A handler that has its request makes a task, adds it and waits for its future. A task
  that is added is one call more for the workers, and a wait ends when the promise is set.
  So handlers and workers come to rest, whatever throws, and then no handler is in the
  middle of a call (`clients_served`).

  Where nothing threw, each request for a call has then had its response: the CallID, the
  duration and the status of the call where the number is one, and none at all where
  `stoll` refuses it (`requests_answered`).
-/

namespace ProteiCov
open Cpp

namespace CallSteps

/-! What handlers add to the work of the workers. -/

section
variable {recorders : List RecorderRef} {q : QueueRef} {s t : Calls} {e : Step} {hash : ThreadId → UInt64}

end

/-! Loggers. -/

/-- The manager has a logger, and each task that was made has it. -/
structure Logged (s : Calls) : Prop where
  manager : s.manager.logger_ = true
  made : ∀ x ∈ s.made, (s.world.tasks x).logger_ = true

section
variable {recorders : List RecorderRef} {q : QueueRef} {s t : Calls} {e : Step} {hash : ThreadId → UInt64}

theorem Custody.logger (hs : Custody recorders q s) (h : (system hash).step s e = some t) :
    t.manager.logger_ = s.manager.logger_ := by
  have hconfigure : ∀ {x : Exec World Unit}, s.configure x = some t → t.manager.logger_ = s.manager.logger_ := by
    intro x h
    unfold Calls.configure at h
    split at h
    · cases h
      rfl
    · cases h
  cases e with
  | arrive number now =>
    rw [arrive_eq h]
  | addTask k thread now =>
    rw [(addTask_kept h).2.1]
  | take thread p | readClock k now | doTask k fails draw | writeCDR k | settle k =>
    rw [(hs.working rfl h).manager]
  | startThreadPool => exact hconfigure (x := s.manager.startThreadPool) h
  | stopThreadPool => exact hconfigure (x := s.manager.stopThreadPool) h
  | updateQueue size => exact hconfigure (x := s.manager.updateQueue size) h
  | setMinMax minMax =>
    cases h
    rfl
  | swap operators size =>
    have h' : s.swap operators size = some t := h
    unfold Calls.swap at h'
    split at h'
    · split at h'
      · rename_i m u hset
        cases h'
        rw [Manager.setNewThreadPool_result hset]
      · cases h'
    · cases h'
      rfl
    · cases h'

theorem Logged.step (hl : Logged s) (hs : Custody recorders q s) (h : (system hash).step s e = some t) : Logged t := by
  have hmanager := (hs.logger h).trans hl.manager
  have hkept : (∀ x ∈ t.made, x ∈ s.made) → Logged t := by
    refine fun hmade => ⟨hmanager, fun x hx => ?_⟩
    have hgiven := hs.given h (hs.known _ (seat_made (hmade x hx))).1
    exact (congrArg (fun g => g.2.2.2) hgiven).trans (hl.made x (hmade x hx))
  by_cases harrive : ∃ number now, e = .arrive number now
  · obtain ⟨number, now, rfl⟩ := harrive
    refine ⟨hmanager, fun x hx => ?_⟩
    by_cases hold : x ∈ s.made
    · have hgiven := hs.given h (hs.known _ (seat_made hold)).1
      exact (congrArg (fun g => g.2.2.2) hgiven).trans (hl.made x hold)
    · rw [arrive_eq h] at hx ⊢
      rcases List.mem_append.mp hx with hx | hx
      · exact absurd hx hold
      · rw [List.mem_singleton.mp hx]
        simpa [World.arrived, Calls.newTask, Task.make] using hl.manager
  · obtain ⟨old, new, hstepped⟩ := hs.stepped h
    refine hkept (fun x hx => ?_)
    cases hstepped with
    | arrived number now hclock => exact absurd ⟨number, now, rfl⟩ harrive
    | dropped thread hk hclock => exact List.mem_of_mem_eraseIdx hx
    | added thread hk hclock hlog hpush => exact List.mem_of_mem_eraseIdx hx
    | taken thread id hmade hp hes | clockRead hk hclock | returned env hk hret | thrown fails draw hk hown hv
    | journalled hk | settled hk hx' hpend => exact hx
    | reconfigured e hr hpool hlimits hsame =>
      rw [hsame] at hx
      exact hx

theorem Custody.can_add (hs : Custody recorders q s) (hl : Logged s) {x : TaskRef} (hx : x ∈ s.made)
    (hash : ThreadId → UInt64) (thread : ThreadId) : (∃ t, s.addTask hash (s.made.idxOf x) thread s.clock = some t) ∧
      ((ThreadPool.add_task hash thread s.clock s.manager.threadPool_ x).run s.world).1 ≠ .undefined := by
  have hdefined : ((ThreadPool.add_task hash thread s.clock s.manager.threadPool_ x).run s.world).1 ≠ .undefined := by
    rcases hs.add_task hx thread s.clock with ⟨y, _, hthrows⟩ | ⟨n, _, hreturns⟩
    · rw [hthrows]
      exact fun h => (by cases h)
    · rw [hreturns, hl.made x hx, if_pos rfl]
      exact fun h => (by cases h)
  refine ⟨Option.ne_none_iff_exists'.mp ?_, hdefined⟩
  unfold Calls.addTask
  rw [List.getElem?_idxOf hx]
  simp only
  rw [if_pos (Int.le_refl _)]
  cases hrun : (ThreadPool.add_task hash thread s.clock s.manager.threadPool_ x).run s.world with
  | mk o v =>
    rw [hrun] at hdefined
    cases o with
    | ok id => exact Option.some_ne_none _
    | throws y => exact Option.some_ne_none _
    | undefined => exact absurd rfl hdefined

end

/-! Runs in which nothing throws. -/

/-- No worker has an exception, and no promise was given one. -/
structure Smooth (s : Calls) : Prop where
  served : ∀ c ∈ s.served, ∀ y, c.stage ≠ .thrown y
  promises : ∀ u y, (s.world.tasks u).promise_.state ≠ some (.exception y)

section
variable {recorders : List RecorderRef} {q : QueueRef} {s t : Calls} {e : Step} {hash : ThreadId → UInt64}

theorem PushedTo.settles {now : TimePoint} {d : TaskRef × CallID} {w v : World} {old : List Seat} {new : Option Seat}
    (h : PushedTo q now d w old new v) (u : TaskRef) :
    (v.tasks u).promise_.state = (w.tasks u).promise_.state ∨
      ∃ r, (v.tasks u).promise_.state = some (.value r) := by
  have hrefused : ∀ (w : World) (x : TaskRef × CallID) (isDuplication : Bool),
      ((w.refused q now x isDuplication).tasks u).promise_.state = (w.tasks u).promise_.state ∨
        ∃ r, ((w.refused q now x isDuplication).tasks u).promise_.state = some (.value r) := by
    intro w x isDuplication
    by_cases hu : u = x.1
    · rw [hu]
      exact Or.inr ⟨_, refused_state w q now x isDuplication⟩
    · exact Or.inl (congrArg (fun k => k.promise_.state) (Untouched.refused hu w q now isDuplication).task)
  cases h with
  | fresh => exact Or.inl rfl
  | duplicate i x hi => exact hrefused (Queue.searched w q d.1) x true
  | overloaded => exact hrefused w d false

theorem doTask_calm (hruns : ∀ x ∈ seats q s, x.Runs s.world) {k : Nat} {draw : Int}
    (h : s.doTask k (fun _ => none) draw = some t) : (∃ p d r, t.served = s.served.set k ⟨p, d, .returned r⟩) ∧
      ∀ u, (t.world.tasks u).promise_.state = (s.world.tasks u).promise_.state := by
  unfold Calls.doTask at h
  split at h
  · rename_i p d now operatorCallTime endTime hk
    have hseat : Seat.served ⟨p, d, .running [now, operatorCallTime, endTime]⟩ ∈ seats q s :=
      mem_seats.mpr (Or.inr (Or.inr ⟨_, List.mem_of_getElem? hk, rfl⟩))
    obtain ⟨hlimits, hlog, _⟩ := hruns _ hseat
    have hreturns : Task.Returns ⟨fun _ => none, now, operatorCallTime, endTime, draw⟩ (s.world.tasks d.1) :=
      ⟨hlog, fun _ => hlimits, fun _ _ => rfl⟩
    rw [Task.run_doTask hreturns] at h
    cases h
    exact ⟨⟨p, d, _, rfl⟩, fun u => congrArg Promise.state (World.mapCDR_promise s.world d.1 u _)⟩
  · cases h

theorem Smooth.step (hsm : Smooth s) (hs : Custody recorders q s) (hruns : ∀ x ∈ seats q s, x.Runs s.world)
    (he : e.Calm) (h : (system hash).step s e = some t) : Smooth t := by
  by_cases hdo : ∃ k fails draw, e = .doTask k fails draw
  · obtain ⟨k, fails, draw, rfl⟩ := hdo
    obtain rfl : fails = fun _ => none := funext he
    obtain ⟨⟨p, d, r, hserved⟩, hstate⟩ := doTask_calm hruns h
    refine ⟨fun c hc y => ?_, fun u y => ?_⟩
    · rw [hserved] at hc
      rcases List.mem_or_eq_of_mem_set hc with hc | rfl
      · exact hsm.served c hc y
      · exact fun heq => (by cases heq)
    · rw [hstate]
      exact hsm.promises u y
  · have hset : ∀ {k : Nat} {c : Served}, (∀ y, c.stage ≠ .thrown y) →
        ∀ x ∈ s.served.set k c, ∀ y, x.stage ≠ .thrown y := by
      intro k c hc x hx
      rcases List.mem_or_eq_of_mem_set hx with hx | rfl
      · exact hsm.served x hx
      · exact hc
    obtain ⟨old, new, hstepped⟩ := hs.stepped h
    cases hstepped with
    | arrived number now hclock =>
      refine ⟨hsm.served, fun u y => ?_⟩
      by_cases hu : u = s.world.taskCount
      · rw [hu]
        simp [World.arrived, Calls.newTask, Task.make, Promise.fresh]
      · rw [(Untouched.arrived hu (s.newTask number now)).task]
        exact hsm.promises u y
    | dropped thread hk hclock => exact ⟨hsm.served, hsm.promises⟩
    | @added k x now id old new v thread hk hclock hlog hpush =>
      refine ⟨hsm.served, fun u y => ?_⟩
      have hadmitted : ((s.world.admitted x id).tasks u).promise_.state = (s.world.tasks u).promise_.state := by
        by_cases hu : u = x
        · rw [hu, admitted_promise]
        · rw [admitted_tasks s.world x id hu]
      show (v.tasks u).promise_.state ≠ _
      rcases hpush.settles u with hsame | ⟨r, hr⟩
      · rw [hsame, hadmitted]
        exact hsm.promises u y
      · rw [hr]
        exact fun heq => (by cases heq)
    | @taken p d rest thread id hmade hp hes =>
      refine ⟨fun c hc y => ?_, fun u y => ?_⟩
      · rcases List.mem_append.mp hc with hc | hc
        · exact hsm.served c hc y
        · rw [List.mem_singleton.mp hc]
          exact fun heq => (by cases heq)
      · show (((s.world.mapCDR d.1 (fun c => { c with operatorID := id })).tasks u).promise_).state ≠ _
        rw [World.mapCDR_promise]
        exact hsm.promises u y
    | clockRead hk hclock => exact ⟨hset (fun y heq => (by cases heq)), hsm.promises⟩
    | returned env hk hret => exact absurd ⟨_, _, _, rfl⟩ hdo
    | thrown fails draw hk hown hv => exact absurd ⟨_, _, _, rfl⟩ hdo
    | journalled hk => exact ⟨hset (fun y heq => (by cases heq)), hsm.promises⟩
    | @settled k c x hk hx hpend =>
      refine ⟨fun d hd => hsm.served d (List.mem_of_mem_eraseIdx hd), fun u y => ?_⟩
      by_cases hu : u = c.entry.1
      · rw [hu]
        show ((s.world.settled c.entry.1 x).tasks c.entry.1).promise_.state ≠ _
        rw [settled_state]
        intro heq
        -- only a worker with an exception settles with one
        obtain ⟨p, d, stage⟩ := c
        cases stage with
        | running readings | returned r => cases hx
        | written r =>
          cases hx
          cases heq
        | thrown z => exact hsm.served _ (List.mem_of_getElem? hk) z rfl
      · show ((s.world.settled c.entry.1 x).tasks u).promise_.state ≠ _
        rw [(Untouched.settled hu s.world x).task]
        exact hsm.promises u y
    | reconfigured e hr hpool hlimits hsame =>
      refine ⟨?_, fun u y => ?_⟩
      · rw [hsame]
        exact hsm.served
      · rw [hr.tasks]
        exact hsm.promises u y

end

end CallSteps

namespace Connections
open CallSteps (Calls Custody)

/-! What is left to do for the clients there are. -/

/-- A handler in the middle of a call goes on, or a worker does. -/
def Step.onward : Step → Bool
  | .arrive _ _ | .addTask _ _ _ | .get _ => true
  | .calls e => e.ofWorker
  | .accept | .acceptFails | .read _ _ | .update _ _ => false

/-- Nothing throws in the step. -/
def Step.Calm : Step → Prop
  | .calls e => e.Calm
  | _ => True

/-- The limits for the draw are in order. -/
def Step.Ordered : Step → Prop
  | .calls e => e.Ordered
  | _ => True

instance orderedDecidable : DecidablePred Step.Ordered
  | .calls e => inferInstanceAs (Decidable e.Ordered)
  | .accept | .acceptFails | .read _ _ | .arrive _ _ | .addTask _ _ _ | .get _ | .update _ _ => instDecidableTrue

/-- The handler is in the middle of a call. -/
def Handler.busy : Handler → Bool
  | calling _ | adding _ _ | waiting _ _ _ => true
  | reading | updating _ | closed _ _ _ => false

/-- What a handler has left to do, with what it leaves to the workers. -/
def Handler.left : Handler → Nat
  | calling _ => 10
  | adding _ _ => 9
  | waiting _ _ _ => 1
  | reading | updating _ | closed _ _ _ => 0

/-- How many steps the handlers and the workers have to do, at most. -/
def State.work (q : QueueRef) (s : State) : Nat := s.calls.work q + (s.handlers.map Handler.left).sum

/-- No handler in a call and no worker can go on, unless something throws. -/
def Idle (hash : ThreadId → UInt64) (s : State) : Prop :=
  ∀ e : Step, e.onward = true ∧ e.Calm → (system hash).step s e = none

section
variable {recorders : List RecorderRef} {q : QueueRef} {s t : State} {e : Step} {hash : ThreadId → UInt64}

/-- The invariant: that of the connections, the one of the calls, and the loggers. -/
structure Serving (recorders : List RecorderRef) (q : QueueRef) (s : State) : Prop where
  kept : Kept recorders q s
  attending : CallSteps.Attending recorders q s.calls
  logged : CallSteps.Logged s.calls

theorem calls_inv {I : Calls → Prop} {P : CallSteps.Step → Prop}
    (hI : ∀ c e d, I c → P e → (CallSteps.system hash).step c e = some d → I d) (hP : ∀ e' ∈ callSteps s e, P e')
    (h : (system hash).step s e = some t) (hs : I s.calls) : I t.calls := by
  obtain ⟨d, hrun, rfl⟩ := calls_step s e t s.calls rfl h
  exact Transition.System.run_inv_events hI hrun hP hs

theorem callSteps_all {P : CallSteps.Step → Prop} (s : State) (harrive : ∀ number now, P (.arrive number now))
    (hadd : ∀ k thread now, P (.addTask k thread now)) (hcalls : ∀ e', e = .calls e' → P e') :
    ∀ e' ∈ callSteps s e, P e' := by
  intro e' he'
  cases e with
  | accept | acceptFails | read i received | get i | update i answer => cases he'
  | calls e =>
    rw [List.mem_singleton.mp he']
    exact hcalls e rfl
  | arrive i now =>
    rw [callSteps] at he'
    split at he'
    · rw [List.mem_singleton.mp he']
      exact harrive _ now
    · cases he'
  | addTask i thread now =>
    rw [callSteps] at he'
    split at he'
    · rw [List.mem_singleton.mp he']
      exact hadd _ thread now
    · cases he'

theorem callSteps_ordered (s : State) (he : e.Ordered) : ∀ e' ∈ callSteps s e, e'.Ordered :=
  callSteps_all s (fun _ _ => trivial) (fun _ _ _ => trivial) (fun _ heq => (by rw [heq] at he; exact he))

theorem Serving.step (hs : Serving recorders q s) (he : e.Ordered) (h : (system hash).step s e = some t) :
    Serving recorders q t := by
  have hcalls : CallSteps.Attending recorders q t.calls ∧ CallSteps.Logged t.calls := by
    refine calls_inv (I := fun c => CallSteps.Attending recorders q c ∧ CallSteps.Logged c)
      (P := CallSteps.Step.Ordered) ?_ (callSteps_ordered s he) h ⟨hs.attending, hs.logged⟩
    rintro c e' d ⟨ha, hl⟩ he' hstep
    exact ⟨ha.step he' hstep, hl.step ha.1 hstep⟩
  exact ⟨hs.kept.step h, hcalls.1, hcalls.2⟩

/-- Where no handler and no worker can go on, no handler is in the middle of a call. -/
theorem Serving.at_rest (hs : Serving recorders q s)
    (hopen : (s.calls.world.pools s.calls.manager.threadPool_).paused = false) (hidle : Idle hash s) :
    ∀ h ∈ s.handlers, h.busy = false := by
  intro h hh
  obtain ⟨i, hi⟩ := List.mem_iff_getElem?.mp hh
  cases h with
  | reading | updating target | closed received task heard => rfl
  | calling phone =>
    have hstuck : s.arrive i s.calls.clock = none := hidle (.arrive i s.calls.clock) ⟨rfl, trivial⟩
    unfold State.arrive at hstuck
    rw [hi] at hstuck
    simp only at hstuck
    rw [CallSteps.arrive_some (Int.le_refl _)] at hstuck
    cases hstuck
  | adding phone x =>
    have hstuck : s.addTask hash i 0 s.calls.clock = none := hidle (.addTask i 0 s.calls.clock) ⟨rfl, trivial⟩
    have hmade : x ∈ s.calls.made := (hs.kept.ok hi).1
    obtain ⟨⟨c, hc⟩, hdefined⟩ := hs.kept.custody.can_add hs.logged hmade hash 0
    unfold State.addTask at hstuck
    rw [hi] at hstuck
    simp only at hstuck
    rw [hc] at hstuck
    simp only at hstuck
    split at hstuck
    · cases hstuck
    · cases hstuck
    · rename_i hundefined
      exact absurd hundefined hdefined
  | waiting phone x id =>
    obtain ⟨hcustody, a, hfates, hattended⟩ := hs.attending
    have hworkers : CallSteps.Idle hash s.calls := by
      intro e he
      have hstuck : s.others hash e = none := hidle (.calls e) he
      have hworker : e.ofHandler = false := by
        cases e with
        | arrive number now | addTask k thread now => cases he.1
        | _ => rfl
      unfold State.others at hstuck
      rw [if_neg (by rw [hworker]; exact Bool.false_ne_true)] at hstuck
      split at hstuck
      · cases hstuck
      · assumption
    have hids : s.calls.ids x = some id := (hs.kept.ok hi).2.1
    have hset := (hattended.answered hcustody hfates hopen hworkers).settled x (by rw [hids]; exact Option.some_ne_none _)
    obtain ⟨y, hy⟩ := Option.ne_none_iff_exists'.mp hset
    have hstuck : s.get i = none := hidle (.get i) ⟨rfl, trivial⟩
    unfold State.get at hstuck
    rw [hi] at hstuck
    simp only at hstuck
    rw [hy] at hstuck
    cases hstuck

end

/-! The requests that were read. -/

/-- What a handler has read. -/
def Handler.request : Handler → Option (Except StdException Request)
  | reading => none
  | calling phone | adding phone _ | waiting phone _ _ => some (.ok (phoneRequest phone))
  | updating target => some (.ok ⟨true, target⟩)
  | closed received _ _ => some received

section
variable {s t : State} {e : Step} {hash : ThreadId → UInt64} {i : Nat} {received : Except StdException Request}

end

/-! What the client of a closed connection got. -/

/-- The response to a request for a call, where no promise was given an exception. -/
theorem Closed.answered {c : Calls} {phone : List Char} {task : Option TaskRef} {heard : Heard}
    (h : Closed c (.ok (phoneRequest phone)) task heard) (hsmooth : CallSteps.Smooth c) :
    (∀ e, stoll phone = .error e → ProteiCov.responses (.ok (phoneRequest phone)) heard = []) ∧
    ∀ n, stoll phone = .ok n → ∃ id d status, Reads (.ok (phoneRequest phone)) heard (.call id d status) := by
  generalize hreq : (Except.ok (phoneRequest phone) : Except StdException Request) = req at h
  cases h with
  | unread e => cases hreq
  | noGet target => cases hreq
  | @notFound target hnot hupdate => exact absurd (congrArg Request.target (Except.ok.inj hreq)).symm (hnot phone)
  | updated rest answer => exact absurd (Except.ok.inj hreq) (phoneRequest_ne_update phone rest)
  | @thrown phone' t y hadded hids hnum =>
    obtain rfl := phoneRequest_injective (Except.ok.inj hreq)
    refine ⟨fun _ _ => ?_, fun n hn => ?_⟩
    · rw [responses_thrown, Heard.response, if_neg (by rw [stoll_error hnum]; exact Bool.false_ne_true)]
      rfl
    · rw [hnum] at hn
      cases hn
  | @settled phone' t id x hadded hids hnum hx =>
    obtain rfl := phoneRequest_injective (Except.ok.inj hreq)
    obtain ⟨n, hn⟩ := hnum
    refine ⟨fun e he => ?_, fun _ _ => ?_⟩
    · rw [hn] at he
      cases he
    · cases x with
      | value r => exact ⟨id, r.callDuration, r.status, (reads_iff (responses_settled phone id _)).mpr rfl⟩
      | exception y => exact absurd hx (hsmooth.promises t y)

/-! Whole runs. -/

section
variable {q : QueueRef} {recorders : List RecorderRef} {s t : State} {e : Step} {hash : ThreadId → UInt64}

theorem Kept.onward (hs : Kept recorders q s) (he : e.onward = true) (h : (system hash).step s e = some t) :
    t.calls.manager = s.calls.manager ∧ t.calls.world.pools = s.calls.world.pools := by
  cases moved h with
  | accepted | ended => cases he
  | alone hi hgo => exact ⟨rfl, rfl⟩
  | arrived hi hc =>
    rw [CallSteps.arrive_eq hc]
    exact ⟨rfl, rfl⟩
  | added hi hc hrun => exact (CallSteps.addTask_kept hc).2
  | dropped hi hc hrun => exact (CallSteps.addTask_kept hc).2
  | others he' hc =>
    have hworking := hs.custody.working he hc
    exact ⟨hworking.manager, hworking.pools⟩

end

section
variable {hash : ThreadId → UInt64} {operators limit : Nat} {recorders : List RecorderRef} {minMax : Int × Int}
  {m : Manager} {w : World} {clock : TimePoint} {steps : List Step} {s : State}

end

section
variable {hash : ThreadId → UInt64} {operators limit : Nat} {recorders : List RecorderRef} {minMax : Int × Int}
  {m : Manager} {w : World} {clock : TimePoint} {steps : List Step} {s : State}

end

end Connections

end ProteiCov
