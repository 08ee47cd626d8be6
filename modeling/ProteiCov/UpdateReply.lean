import ProteiCov.Reconfiguration

/-
  What an answer to `/update` says

  The answer travels through the one flag `updated`: every successful re-read sets
  it, whoever made it, and whoever calls `isUpdated` next takes it away. So the
  flag says that some re-read succeeded since the flag was last read
  (`flag_pending`), and `truthful_iff` says which runs that is enough for.
-/

namespace ProteiCov
open Cpp

/-- The re-read made by the request `i` succeeded. -/
def OwnSuccess (i : Nat) (trace : List Effect) : Prop := .reread (.request i) true ∈ trace

/-- Some re-read succeeded since `isUpdated` was last called. -/
def pendingSuccess : List Effect → Bool
  | [] => false
  | .reread _ true :: _ => true
  | .isUpdated _ _ :: _ => false
  | _ :: es => pendingSuccess es

/-- Effects that are neither a re-read nor an answer. -/
def Effect.neutral : Effect → Bool
  | edited | pollBegan | pollEnded => true
  | reread _ _ | isUpdated _ _ => false

theorem pendingSuccess_neutral {es : List Effect} (h : ∀ e ∈ es, e.neutral = true)
    (fs : List Effect) : pendingSuccess (es ++ fs) = pendingSuccess fs := by
  induction es with
  | nil => rfl
  | cons e es ih =>
    have he := h e (by simp)
    have hes := ih (fun x hx => h x (by simp [hx]))
    cases e with
    | edited => exact hes
    | pollBegan => exact hes
    | pollEnded => exact hes
    | reread who b => cases he
    | isUpdated i b => cases he

namespace Server

/-- Every answer given so far is about the re-read of its own request. -/
def Truthful (s : Server) : Prop :=
  ∀ i b, .isUpdated i b ∈ s.trace → (b = true ↔ OwnSuccess i s.trace)

/-- The step is the call of `isUpdated` by the request `i`. -/
def Asks (s : Server) (e : Step) (i : Nat) : Prop :=
  e = .advance i ∧ s.requests[i]? = some .checking

/-- A request that asks does so when a success is pending exactly if its own
re-read succeeded. -/
def FlagIsOwn (s : Server) (e : Step) : Prop :=
  ∀ i, s.Asks e i → (pendingSuccess s.trace = true ↔ OwnSuccess i s.trace)

/-- A request that has its answer keeps it. -/
def KeepsAnswers (s t : Server) : Prop :=
  ∀ (i : Nat) (b : Bool), s.requests[i]? = some (Place.replied b) →
    t.requests[i]? = some (Place.replied b)

/-- What one move does to the flag, to the answers and to the trace. -/
inductive Moves (s : Server) (e : Step) (t : Server) : Prop where
  | quiet (es : List Effect) (neutral : ∀ x ∈ es, x.neutral = true) (trace : t.trace = es ++ s.trace)
      (flag : t.config.updated = s.config.updated) (answers : s.KeepsAnswers t)
      (asks : ∀ i, ¬ s.Asks e i)
  | reread (who : Party) (trace : t.trace = .reread who s.readable :: s.trace)
      (flag : t.config.updated = (s.readable || s.config.updated)) (answers : s.KeepsAnswers t)
      (own : ∀ i, who = .request i → s.requests[i]? = some (.updating .reread))
      (asks : ∀ i, ¬ s.Asks e i)
  | asks (i : Nat) (asks : s.Asks e i) (trace : t.trace = .isUpdated i s.config.updated :: s.trace)
      (flag : t.config.updated = false) (answers : s.KeepsAnswers t)
      (answer : t.requests[i]? = some (.replied s.config.updated))

theorem afterReread_updated (c : ThreadSafeConfig) (content : FileContent) :
    (c.afterReread content).updated = (ThreadSafeConfig.readable c.logger_ content || c.updated) := by
  unfold ThreadSafeConfig.afterReread ThreadSafeConfig.readable
  cases ThreadSafeConfig.accepted c.logger_ content with
  | ok data => rfl
  | error e => rfl

section
variable {s t : Server} {e : Step}

theorem keepsAnswers_of_eq (h : t.requests = s.requests) : s.KeepsAnswers t := by
  intro i b hi
  rw [h]
  exact hi

theorem keepsAnswers_setRequest {i : Nat} {place place' : Place} (hi : s.requests[i]? = some place)
    (hplace : ∀ b, place ≠ .replied b) (h : t.requests = s.requests) :
    s.KeepsAnswers (t.setRequest i place') := by
  intro j b hj
  by_cases hij : i = j
  · subst hij
    rw [hi] at hj
    exact absurd (Option.some.inj hj) (hplace b)
  · show (t.requests.set i place')[j]? = _
    rw [List.getElem?_set_ne hij, h]
    exact hj

theorem Moves.of_advance {who : Party} {phase : Phase} {r : Outcome Phase × Server}
    (h : s.advance who phase = some r) (htrace : t.trace = r.2.trace)
    (hconfig : t.config = r.2.config) (hanswers : s.KeepsAnswers t)
    (hown : phase = .reread → ∀ i, who = .request i → s.requests[i]? = some (.updating .reread))
    (hasks : ∀ i, ¬ s.Asks e i) : Moves s e t := by
  rcases advance_config h with ⟨hp, hc, htr⟩ | ⟨_, hc, htr⟩
  · refine .reread who (htrace.trans htr) ?_ hanswers (hown hp) hasks
    rw [hconfig, hc, afterReread_updated]
    rfl
  · exact .quiet [] (by simp) (htrace.trans htr) (by rw [hconfig, hc.updated]) hanswers hasks

theorem Moves.of_perform {α : Type} {x : Exec Center α} (hx : Respects Center.SameConfig x)
    (h : t.toCenter = (s.perform x).2.toCenter) (htrace : t.trace = s.trace)
    (hreq : t.requests = s.requests) (hasks : ∀ i, ¬ s.Asks e i) : Moves s e t :=
  .quiet [] (by simp) htrace (by rw [h]; exact (hx s.toCenter).updated) (keepsAnswers_of_eq hreq) hasks

theorem Moves.of_request {i : Nat} (h : RequestStep s i t) : Moves s (.advance i) t := by
  have hnot : ∀ place, s.requests[i]? = some place → place ≠ .checking →
      ∀ j, ¬ s.Asks (.advance i) j := by
    intro place hi hne j hasks
    obtain ⟨hij, hj⟩ := hasks
    cases hij
    rw [hi] at hj
    exact hne (Option.some.inj hj)
  cases h with
  | stamp hi =>
    -- the request goes on to the check
    exact .quiet [] (by simp) rfl rfl (keepsAnswers_setRequest hi (fun _ hp => by cases hp) rfl)
      (hnot _ hi (fun hp => by cases hp))
  | @phase phase r hi hr =>
    have hreq := (advance_frame hr).2.2.1
    -- a phase of the update: only the re-read leaves an effect, and it is this request's
    have hown : phase = .reread → ∀ j, Party.request i = .request j →
        s.requests[j]? = some (.updating .reread) := by
      intro hp j hj
      cases hj
      rw [hi, hp]
    have hplace : ∀ b, Place.updating phase ≠ .replied b := fun _ hp => by cases hp
    have hasks := hnot _ hi (fun hp => by cases hp)
    obtain ⟨o, u⟩ := r
    cases o with
    | ok next => exact .of_advance hr rfl rfl (keepsAnswers_setRequest hi hplace hreq) hown hasks
    | throws e =>
      obtain ⟨h1, h2, h3⟩ := unwind_fields u phase
      exact .of_advance hr h3 h2 (keepsAnswers_setRequest hi hplace (h1.trans hreq)) hown hasks
    | undefined => exact .of_advance hr rfl rfl (keepsAnswers_of_eq hreq) hown hasks
  | check hi =>
    -- the request asks, and the flag is cleared
    refine .asks i ⟨rfl, hi⟩ rfl rfl (keepsAnswers_setRequest hi (fun _ hp => by cases hp) rfl) ?_
    obtain ⟨hlt, _⟩ := List.getElem?_eq_some_iff.mp hi
    show (s.requests.set i (.replied s.config.updated))[i]? = _
    rw [List.getElem?_set_self hlt]

theorem Moves.of_monitor (h : MonitorStep s t) : Moves s .monitor t := by
  have hasks : ∀ i, ¬ s.Asks .monitor i := fun i hi => by cases hi.1
  have hquiet : ∀ es, (∀ x ∈ es, x.neutral = true) → t.trace = es ++ s.trace →
      t.config.updated = s.config.updated → t.requests = s.requests → Moves s .monitor t :=
    fun es hes htr hflag hreq => .quiet es hes htr hflag (keepsAnswers_of_eq hreq) hasks
  cases h with
  | absent _ _ =>
    obtain ⟨h1, h2, h3⟩ := endMonitor_fields s
    exact hquiet [] (by simp) h3 (by rw [h2]) h1
  | started _ _ => exact hquiet [] (by simp) rfl rfl rfl
  | removed _ _ =>
    obtain ⟨h1, h2, h3⟩ := endMonitor_fields (s.observe .pollBegan)
    exact hquiet [.pollBegan] (by decide) h3 (by rw [h2]; rfl) h1
  | newer _ _ _ => exact hquiet [.pollBegan] (by decide) rfl rfl rfl
  | unchanged _ _ _ => exact hquiet [.pollEnded, .pollBegan] (by decide) rfl rfl rfl
  | stamp _ => exact hquiet [.pollEnded] (by decide) rfl rfl rfl
  | @phase v phase r hm hr =>
    have hreq := (advance_frame hr).2.2.1
    -- a phase of a poll: its re-read belongs to no request
    have hown : phase = .reread → ∀ j, Party.monitor = .request j →
        s.requests[j]? = some (.updating .reread) := fun _ j hj => by cases hj
    obtain ⟨o, u⟩ := r
    cases o with
    | ok next => exact .of_advance hr rfl rfl (keepsAnswers_of_eq hreq) hown hasks
    | throws e =>
      obtain ⟨h1, h2, h3⟩ := unwind_fields u phase
      obtain ⟨h4, h5, h6⟩ := endMonitor_fields (u.unwind phase)
      exact .of_advance hr (h6.trans h3) (h5.trans h2) (keepsAnswers_of_eq ((h4.trans h1).trans hreq))
        hown hasks
    | undefined => exact .of_advance hr rfl rfl (keepsAnswers_of_eq hreq) hown hasks

/-- Every move is one of the three. -/
theorem moves {hash : ThreadId → UInt64} (h : MoveStep hash s e t) : Moves s e t := by
  have hother : ∀ e' : Step, (∀ i, e' ≠ .advance i) → ∀ i, ¬ s.Asks e' i :=
    fun e' he i hi => he i hi.1
  cases h with
  | tick d =>
    exact .quiet [] (by simp) rfl rfl (keepsAnswers_of_eq rfl) (hother _ (fun _ hc => by cases hc))
  | edit content =>
    exact .quiet [.edited] (by decide) rfl rfl (keepsAnswers_of_eq rfl)
      (hother _ (fun _ hc => by cases hc))
  | remove =>
    exact .quiet [.edited] (by decide) rfl rfl (keepsAnswers_of_eq rfl)
      (hother _ (fun _ hc => by cases hc))
  | construct _ =>
    obtain ⟨h1, h2, h3⟩ := settleConstruct_fields (s.perform buildManager)
    exact .of_perform Center.SameConfig.buildManager h1 h2 h3 (hother _ (fun _ hc => by cases hc))
  | unmonitored _ =>
    exact .quiet [] (by simp) rfl rfl (keepsAnswers_of_eq rfl) (hother _ (fun _ hc => by cases hc))
  | runMonitoring _ _ =>
    exact .quiet [] (by simp) rfl rfl (keepsAnswers_of_eq rfl) (hother _ (fun _ hc => by cases hc))
  | monitor hstep => exact .of_monitor hstep
  | stopThread =>
    exact .quiet [] (by simp) rfl rfl (keepsAnswers_of_eq rfl) (hother _ (fun _ hc => by cases hc))
  | request =>
    refine .quiet [] (by simp) rfl rfl (fun i b hi => ?_) (hother _ (fun _ hc => by cases hc))
    exact List.getElem?_append_left (List.getElem?_eq_some_iff.mp hi).1 ▸ hi
  | advance hstep => exact .of_request hstep
  | @call e α x hcall =>
    obtain ⟨h1, h2, h3, -⟩ := settleCall_fields (s.perform x)
    exact .of_perform hcall.sameConfig h1 h2 h3 (hother _ hcall.not_advance)
  | updateConfig =>
    obtain ⟨h1, h2, h3, -⟩ := settleCall_fields
      (s.perform (Center.onConfig (ThreadSafeConfig.updateConfig s.content)))
    refine .reread .caller (congrArg (_ :: ·) h2) ?_ (keepsAnswers_of_eq h3) (fun _ hc => by cases hc)
      (hother _ (fun _ hc => by cases hc))
    rw [readable, ← afterReread_updated, ← ThreadSafeConfig.updateConfig_state]
    exact congrArg (fun c : Center => c.config.updated) h1

end

/-- What holds of the flag and of the answers given. -/
structure Answering (s : Server) : Prop where
  flag : s.config.updated = pendingSuccess s.trace
  answered : ∀ i b, .isUpdated i b ∈ s.trace → ∃ b', s.requests[i]? = some (.replied b')

theorem Answering.step {s t : Server} {e : Step} (hs : s.Answering) (h : Moves s e t) :
    t.Answering := by
  cases h with
  | quiet es neutral trace flag answers asks =>
    refine ⟨?_, fun i b hmem => ?_⟩
    · rw [flag, trace, pendingSuccess_neutral neutral, hs.flag]
    · rw [trace] at hmem
      rcases List.mem_append.mp hmem with hmem | hmem
      · exact absurd (neutral _ hmem) (by simp [Effect.neutral])
      · obtain ⟨b', hb⟩ := hs.answered i b hmem
        exact ⟨b', answers i b' hb⟩
  | reread who trace flag answers own asks =>
    refine ⟨?_, fun i b hmem => ?_⟩
    · rw [flag, trace, hs.flag]
      cases s.readable <;> rfl
    · rw [trace] at hmem
      rcases List.mem_cons.mp hmem with hmem | hmem
      · cases hmem
      · obtain ⟨b', hb⟩ := hs.answered i b hmem
        exact ⟨b', answers i b' hb⟩
  | asks i asks trace flag answers answer =>
    refine ⟨?_, fun j b hmem => ?_⟩
    · rw [flag, trace]
      rfl
    · rw [trace] at hmem
      rcases List.mem_cons.mp hmem with hmem | hmem
      · cases hmem
        exact ⟨_, answer⟩
      · obtain ⟨b', hb⟩ := hs.answered j b hmem
        exact ⟨b', answers j b' hb⟩

/-- One move leaves the answers truthful exactly if they were and the request that
asks, if one does, finds the flag its own. -/
theorem truthful_step {s t : Server} {e : Step} (hs : s.Answering) (h : Moves s e t) :
    t.Truthful ↔ s.Truthful ∧ s.FlagIsOwn e := by
  cases h with
  | quiet es neutral trace flag answers asks =>
    have hmem : ∀ x, x.neutral = false → (x ∈ t.trace ↔ x ∈ s.trace) := by
      intro x hx
      rw [trace, List.mem_append]
      refine ⟨fun h => h.resolve_left (fun hes => ?_), Or.inr⟩
      rw [neutral x hes] at hx
      cases hx
    have heq : t.Truthful ↔ s.Truthful := by
      refine forall_congr' (fun i => forall_congr' (fun b => ?_))
      rw [hmem _ rfl, OwnSuccess, hmem _ rfl]
      rfl
    rw [heq]
    exact ⟨fun hT => ⟨hT, fun i hi => absurd hi (asks i)⟩, fun hT => hT.1⟩
  | reread who trace flag answers own asks =>
    have heq : t.Truthful ↔ s.Truthful := by
      refine forall_congr' (fun i => forall_congr' (fun b => ?_))
      have hisUpdated : .isUpdated i b ∈ t.trace ↔ .isUpdated i b ∈ s.trace := by
        rw [trace, List.mem_cons]
        exact ⟨fun h => h.resolve_left (fun hc => by cases hc), Or.inr⟩
      rw [hisUpdated]
      refine imp_congr_right (fun hmem => iff_congr Iff.rfl ?_)
      -- a request that has its answer does not re-read again
      have hne : Effect.reread (.request i) true ≠ .reread who s.readable := by
        intro hc
        obtain ⟨hwho, _⟩ := Effect.reread.inj hc
        obtain ⟨b', hb⟩ := hs.answered i b hmem
        rw [own i hwho.symm] at hb
        cases hb
      rw [OwnSuccess, trace, List.mem_cons, or_iff_right hne]
      rfl
    rw [heq]
    exact ⟨fun hT => ⟨hT, fun i hi => absurd hi (asks i)⟩, fun hT => hT.1⟩
  | asks i asks trace flag answers answer =>
    have hown : ∀ j, OwnSuccess j t.trace ↔ OwnSuccess j s.trace := by
      intro j
      rw [OwnSuccess, trace, List.mem_cons]
      exact ⟨fun h => h.resolve_left (fun hc => by cases hc), Or.inr⟩
    constructor
    · intro hT
      refine ⟨fun j b hmem => ?_, fun j hj => ?_⟩
      · rw [← hown j]
        exact hT j b (by rw [trace]; exact List.mem_cons_of_mem _ hmem)
      · have hij : i = j := by
          have h1 := asks.1.symm.trans hj.1
          cases h1
          rfl
        subst hij
        rw [← hs.flag, ← hown i]
        exact hT i _ (by rw [trace]; exact List.mem_cons_self)
    · rintro ⟨hT, hflag⟩ j b hmem
      rw [trace] at hmem
      rw [hown j]
      rcases List.mem_cons.mp hmem with hmem | hmem
      · cases hmem
        rw [hs.flag]
        exact hflag i asks
      · exact hT j b hmem

theorem init_answering (file : Option File) (clock : TimePoint) (logger : Bool) :
    (init file clock logger).Answering := by
  refine ⟨?_, fun i b hmem => by cases hmem⟩
  unfold init ThreadSafeConfig.construct
  cases ThreadSafeConfig.load (file.bind (fun f => f.content)) <;> rfl

/-- After any run, every answer is about its own request exactly when each request
asked while a success was pending exactly if its own re-read succeeded. -/
theorem truthful_iff (hash : ThreadId → UInt64) (file : Option File) (clock : TimePoint)
    (logger : Bool) (es : List Step) (s : Server)
    (h : (system hash).run (init file clock logger) es = some s) :
    s.Truthful ↔ (system hash).Along FlagIsOwn (init file clock logger) es := by
  have hrun := Transition.System.run_iff_along
    (fun u e v hu hstep => hu.step (moves (system_step hstep).2))
    (fun u e v hu hstep => truthful_step hu (moves (system_step hstep).2)) h
    (init_answering file clock logger)
  rw [hrun]
  exact and_iff_right (fun i b hmem => by cases hmem)

/-! Two runs on a valid file. -/

def baseFile : File where
  content := some [("RMin", some 10), ("RMax", some 15), ("AmountOfOperators", some 4),
    ("SizeOfQueue", some 20)]
  time := 0

/-- One request from its start to its answer. -/
def updateAlone : List Step := [.request, .advance 0, .advance 0, .advance 0, .advance 0]

theorem truthful_updateAlone : ∃ s,
    (system (fun _ => 7)).run (init (some baseFile) 0 true) updateAlone = some s ∧
    s.trace = [.isUpdated 0 true, .reread (.request 0) true] ∧
    (s.Truthful ↔
      (system (fun _ => 7)).Along FlagIsOwn (init (some baseFile) 0 true) updateAlone) := by
  have hsome : ((system (fun _ => 7)).run (init (some baseFile) 0 true) updateAlone).isSome =
      true := by decide
  obtain ⟨s, hs⟩ := Option.isSome_iff_exists.mp hsome
  have htrace : ((system (fun _ => 7)).run (init (some baseFile) 0 true) updateAlone).map
      (fun s => s.trace) = some [.isUpdated 0 true, .reread (.request 0) true] := by decide
  rw [hs, Option.map_some, Option.some_inj] at htrace
  exact ⟨s, hs, htrace, truthful_iff (fun _ => 7) (some baseFile) 0 true updateAlone s hs⟩

/-- The second request comes after the file was broken, and asks before the first. -/
def updateStolen : Option Server :=
  (system (fun _ => 7)).run (init (some baseFile) 0 true)
    [.request, .request, .advance 0, .edit none, .advance 1, .advance 1, .advance 1, .advance 1]

theorem stolen_not_truthful : ∃ s, updateStolen = some s ∧
    s.trace = [.isUpdated 1 true, .reread (.request 1) false, .edited,
      .reread (.request 0) true] ∧ ¬ s.Truthful := by
  have hsome : updateStolen.isSome = true := by decide
  obtain ⟨s, hs⟩ := Option.isSome_iff_exists.mp hsome
  have htrace : updateStolen.map (fun s => s.trace) = some [.isUpdated 1 true,
      .reread (.request 1) false, .edited, .reread (.request 0) true] := by decide
  rw [hs, Option.map_some, Option.some_inj] at htrace
  refine ⟨s, hs, htrace, fun hT => ?_⟩
  have hown := (hT 1 true (by rw [htrace]; decide)).mp rfl
  rw [OwnSuccess, htrace] at hown
  exact absurd hown (by decide)

end Server

end ProteiCov
