import ProteiCov.Convergence
import ProteiCov.Lib.Runs

/-
  When the file is in force

  Updates overlap, and one that is late applies what another has read. The file is in
  force all the same once a request that came after the last edit has its answer and
  nobody is updating any more (`in_force`), whatever requests, polls and callers of
  `addTask` did in between and in whatever order.

  `updates_end` says that such a state is reached: updates under way are a bounded number
  of steps, no order of which gets stuck before every request has its answer.
-/

namespace ProteiCov
open Cpp

namespace Server

/-- An edit of the file. -/
def Step.writes : Step → Bool
  | .edit _ | .remove => true
  | _ => false

section
variable {hash : ThreadId → UInt64} {s t : Server} {e : Step} {i : Nat} {phase : Phase}
  {r : Outcome Phase × Server}

theorem unwind_file (u : Server) (phase : Phase) : (u.unwind phase).file = u.file := by
  unfold unwind
  split <;> rfl

theorem endMonitor_file (u : Server) : u.endMonitor.file = u.file := by
  unfold endMonitor
  split <;> rfl

theorem requestAfter_fields (i : Nat) (phase : Phase) (r : Outcome Phase × Server) :
    (requestAfter i phase r).config = r.2.config ∧ (requestAfter i phase r).file = r.2.file ∧
      ∃ place, (requestAfter i phase r).requests = r.2.requests.set i place ∨
        (requestAfter i phase r).requests = r.2.requests := by
  obtain ⟨o, u⟩ := r
  cases o with
  | ok next => exact ⟨rfl, rfl, _, Or.inl rfl⟩
  | undefined => exact ⟨rfl, rfl, .checking, Or.inr rfl⟩
  | throws e =>
    have hreq : (requestAfter i phase (.throws e, u)).requests = (u.unwind phase).requests.set i .failed := rfl
    rw [(unwind_fields u phase).1] at hreq
    exact ⟨(unwind_fields u phase).2.1, unwind_file u phase, _, Or.inl hreq⟩

theorem monitorAfter_fields (v : Int) (phase : Phase) (r : Outcome Phase × Server) :
    (monitorAfter v phase r).config = r.2.config ∧ (monitorAfter v phase r).file = r.2.file ∧
      (monitorAfter v phase r).requests = r.2.requests := by
  obtain ⟨o, u⟩ := r
  cases o with
  | ok next => exact ⟨rfl, rfl, rfl⟩
  | undefined => exact ⟨rfl, rfl, rfl⟩
  | throws e =>
    obtain ⟨hreq, hconfig, -⟩ := unwind_fields u phase
    obtain ⟨hreq', hconfig', -⟩ := endMonitor_fields (u.unwind phase)
    exact ⟨hconfig'.trans hconfig, (endMonitor_file _).trans (unwind_file u phase), hreq'.trans hreq⟩

theorem MoveStep.file (h : MoveStep hash s e t) (he : e.writes = false) : t.file = s.file := by
  cases h with
  | tick d => rfl
  | edit content => cases he
  | remove => cases he
  | construct _ =>
    cases hp : s.perform buildManager with
    | mk o u =>
      have hu : u.file = s.file := (congrArg (fun r : Outcome Unit × Server => r.2.file) hp).symm
      cases o <;> exact hu
  | unmonitored _ => rfl
  | runMonitoring _ _ => rfl
  | monitor hstep =>
    cases hstep with
    | absent _ _ => exact endMonitor_file s
    | removed _ _ => exact endMonitor_file _
    | started _ _ => rfl
    | newer _ _ _ => rfl
    | unchanged _ _ _ => rfl
    | stamp _ => rfl
    | phase _ hr => exact (monitorAfter_fields _ _ _).2.1.trans (advance_frame hr).1
  | stopThread => rfl
  | request => rfl
  | advance hstep =>
    cases hstep with
    | stamp _ => rfl
    | check _ => rfl
    | phase _ hr => exact (requestAfter_fields _ _ _).2.1.trans (advance_frame hr).1
  | call _ => exact (settleCall_fields _).2.2.2
  | updateConfig => exact (settleCall_fields _).2.2.2

/-- What a move does to the values in force, and to the requests before their re-read. -/
inductive Rereads (s t : Server) : Prop
  | kept (settings : t.settings = s.settings)
      (waits : ∀ i : Nat, s.requests[i]? = some (Place.updating .reread) →
        t.requests[i]? = some (Place.updating .reread))
  | reread (config : t.config = s.config.afterReread s.content)

theorem settings_of_config (h : t.config = s.config) : t.settings = s.settings :=
  congrArg (fun c : ThreadSafeConfig => ProteiCov.settings c.data_) h

theorem Rereads.of_same (hset : t.settings = s.settings) (hreq : t.requests = s.requests) : Rereads s t := by
  refine .kept hset (fun i hi => ?_)
  rw [hreq]
  exact hi

theorem Rereads.of_set {place place' : Place} (hi : s.requests[i]? = some place)
    (hne : place ≠ .updating .reread) (hset : t.settings = s.settings)
    (hreq : t.requests = s.requests.set i place' ∨ t.requests = s.requests) : Rereads s t := by
  rcases hreq with hreq | hreq
  · refine .kept hset (fun j hj => ?_)
    have hij : i ≠ j := by
      rintro rfl
      rw [hi] at hj
      exact hne (Option.some_inj.mp hj)
    rw [hreq, List.getElem?_set_ne hij]
    exact hj
  · exact .of_same hset hreq

theorem Rereads.of_monitor (h : MonitorStep s t) : Rereads s t := by
  cases h with
  | absent _ _ =>
    obtain ⟨hreq, hconfig, -⟩ := endMonitor_fields s
    exact .of_same (settings_of_config hconfig) hreq
  | removed _ _ =>
    obtain ⟨hreq, hconfig, -⟩ := endMonitor_fields (s.observe .pollBegan)
    exact .of_same (settings_of_config hconfig) hreq
  | started _ _ => exact .of_same rfl rfl
  | newer _ _ _ => exact .of_same rfl rfl
  | unchanged _ _ _ => exact .of_same rfl rfl
  | stamp _ => exact .of_same rfl rfl
  | @phase v phase r _ hr =>
    obtain ⟨hconfig, -, hreq⟩ := monitorAfter_fields v phase r
    rcases advance_config hr with ⟨-, hc, -⟩ | ⟨-, hc, -⟩
    · exact .reread (hconfig.trans hc)
    · refine .of_same ?_ (hreq.trans (advance_frame hr).2.2.1)
      exact (settings_of_config (s := r.2) hconfig).trans hc.settings

theorem Rereads.of_request (h : RequestStep s i t) : Rereads s t := by
  cases h with
  | stamp hi => exact .of_set hi (fun h => by cases h) rfl (Or.inl rfl)
  | check hi => exact .of_set hi (fun h => by cases h) rfl (Or.inl rfl)
  | @phase phase r hi hr =>
    obtain ⟨hconfig, -, place, hreq⟩ := requestAfter_fields i phase r
    rw [(advance_frame hr).2.2.1] at hreq
    rcases advance_config hr with ⟨-, hc, -⟩ | ⟨hne, hc, -⟩
    · exact .reread (hconfig.trans hc)
    · refine .of_set hi (fun h => hne (Place.updating.inj h)) ?_ hreq
      exact (settings_of_config (s := r.2) hconfig).trans hc.settings

theorem MoveStep.rereads (h : MoveStep hash s e t) : Rereads s t := by
  cases h with
  | tick d => exact .of_same rfl rfl
  | edit content => exact .of_same rfl rfl
  | remove => exact .of_same rfl rfl
  | construct _ =>
    obtain ⟨hc, -, hreq⟩ := settleConstruct_fields (s.perform buildManager)
    refine .of_same ?_ hreq
    rw [hc]
    exact (Center.SameConfig.buildManager s.toCenter).settings
  | unmonitored _ => exact .of_same rfl rfl
  | runMonitoring _ _ => exact .of_same rfl rfl
  | monitor hstep => exact .of_monitor hstep
  | stopThread => exact .of_same rfl rfl
  | request =>
    refine .kept rfl (fun i hi => ?_)
    show (s.requests ++ _)[i]? = _
    rw [List.getElem?_append_left (List.getElem?_eq_some_iff.mp hi).1]
    exact hi
  | advance hstep => exact .of_request hstep
  | @call e α x hcall =>
    obtain ⟨hc, -, hreq, -⟩ := settleCall_fields (s.perform x)
    refine .of_same ?_ hreq
    rw [hc]
    exact (hcall.sameConfig s.toCenter).settings
  | updateConfig =>
    refine .reread ?_
    rw [← ThreadSafeConfig.updateConfig_state]
    exact congrArg Center.config (settleCall_fields _).1

/-- The invariant: the request `i` has its re-read before it, or the values are those of
the file it finds. -/
structure Follows (s : Server) (i : Nat) (data : Data) (u : Server) : Prop where
  file : u.file = s.file
  logger_ : u.config.logger_ = true
  follows : u.requests[i]? = some (.updating .reread) ∨
    u.settings = (ProteiCov.settings data).normalize

theorem Follows.step {s u v : Server} {data : Data} (hread : ThreadSafeConfig.accepted true s.content = .ok data)
    (hu : Follows s i data u) (he : e.writes = false) (h : MoveStep hash u e v) : Follows s i data v := by
  refine ⟨(h.file he).trans hu.file, h.sameLogger.trans hu.logger_, ?_⟩
  cases h.rereads with
  | kept hset hwaits =>
    rw [hset]
    exact hu.follows.imp (hwaits i) id
  | reread hconfig =>
    have hcontent : u.content = s.content := by
      unfold content
      rw [hu.file]
    have hafter : u.config.afterReread u.content = u.config.reloaded data := by
      unfold ThreadSafeConfig.afterReread
      rw [hu.logger_, hcontent, hread]
    refine Or.inr ?_
    have hdata : v.config.data_ = normalizeData data := by rw [hconfig, hafter]; rfl
    show ProteiCov.settings v.config.data_ = _
    rw [hdata, settings_normalizeData]

end

/-- The server was built on a file it could read, a request for an update that comes after
the last edit has its answer, and nobody is updating: then the server works with the values
of the file, if it can be read, whatever the other requests, the monitor and the callers of
`addTask` did meanwhile. -/
theorem in_force (hash : ThreadId → UInt64) (maxThreads : Nat) (file : Option File)
    (clock : TimePoint) (s₀ s t : Server) (es fs : List Step) (first data : Data) (answer : Bool)
    (hvalid : ThreadSafeConfig.load (init file clock true).content = .ok first)
    (hints : (init file clock true).content.Ints) (hmax : maxThreads < 2 ^ 31)
    (hbuilt : Built hash maxThreads file clock s₀) (hes : ∀ e ∈ es, e ≠ .updateConfig)
    (h : (system hash).run s₀ es = some s)
    (hread : ThreadSafeConfig.accepted true s.content = .ok data)
    (hfs : ∀ e ∈ fs, e ≠ .updateConfig ∧ e.writes = false)
    (ht : (system hash).run s (.request :: fs) = some t)
    (hanswer : t.requests[s.requests.length]? = some (.replied answer)) (hq : t.Quiescent) :
    t.settings = (ProteiCov.settings data).normalize ∧ t.Agrees := by
  obtain ⟨hrepairing, hlogger⟩ := hbuilt.repairing hints hmax hes h
  have hfollows : Follows s s.requests.length data t := by
    obtain ⟨u, hstep, hrun⟩ := Transition.System.run_cons_some.mp ht
    obtain ⟨-, hmove⟩ := system_step hstep
    have hstart : Follows s s.requests.length data u := by
      cases hmove with
      | request =>
        refine ⟨rfl, hlogger, Or.inl ?_⟩
        simp [hbuilt.updatable hvalid h]
      | call hcall => cases hcall
    exact Transition.System.run_inv_events (fun _ _ _ hu he hstep =>
      hu.step hread he.2 (system_step hstep).2) hrun hfs hstart
  refine ⟨?_, ?_⟩
  · rcases hfollows.follows with hwaits | hset
    · rw [hanswer] at hwaits
      cases hwaits
    · exact hset
  · have hts : ∀ e ∈ Step.request :: fs, e ≠ .updateConfig := by
      intro e he
      rcases List.mem_cons.mp he with rfl | he
      · exact fun heq => by cases heq
      · exact (hfs e he).1
    exact (hrepairing.run hts ht).agrees hq

/-! Updates under way come to an end. -/

end Server

/-- The steps a caller of `processRequestForUpdate` has before it. -/
def Place.pending : Place → Nat
  | updating phase => phase.rank + 2
  | checking => 1
  | replied _ | failed => 0

/-- The steps of a poll under way. -/
def Monitor.pending : Monitor → Nat
  | updating _ phase => phase.rank + 1
  | _ => 0

namespace Server

/-- The steps all updates under way have before them. -/
def pending (s : Server) : Nat := (s.requests.map Place.pending).sum + s.monitor.pending

theorem Phase.rank_le (phase : Phase) : phase.rank ≤ 8 := by
  cases phase <;> simp [Phase.rank]

/-- Ten steps a request, and nine for a poll. -/
theorem pending_le (s : Server) : s.pending ≤ 10 * s.requests.length + 9 := by
  have hplace : ∀ n ∈ s.requests.map Place.pending, n ≤ 10 := by
    intro n hn
    obtain ⟨place, -, rfl⟩ := List.mem_map.mp hn
    cases place with
    | updating phase => exact Nat.add_le_add_right (Phase.rank_le phase) 2
    | checking => exact Nat.le_add_left 1 9
    | replied b => exact Nat.zero_le 10
    | failed => exact Nat.zero_le 10
  have hmonitor : s.monitor.pending ≤ 9 := by
    cases s.monitor with
    | updating v phase => exact Nat.add_le_add_right (Phase.rank_le phase) 1
    | _ => exact Nat.zero_le 9
  have hsum := List.sum_le_card_nsmul _ 10 hplace
  rw [List.length_map, nsmul_eq_mul, Nat.cast_id] at hsum
  unfold pending
  omega

/-- The server, where only updates under way go on: no poll begins. -/
def updates (hash : ThreadId → UInt64) : Transition.System Server Party where
  step s
    | .request i => (system hash).step s (.advance i)
    | .monitor => if s.monitor.phase = none then none else (system hash).step s .monitor
    | .caller => none

/-- What the updates need to go on. -/
structure Going (s : Server) : Prop where
  steady : s.Steady
  logger_ : s.config.logger_ = true
  running : s.terminated = false

section
variable {hash : ThreadId → UInt64} {s t : Server} {who : Party} {i : Nat} {phase : Phase}
  {r : Outcome Phase × Server}

/-- With a logger no phase fails. -/
theorem Going.advance_ok (hs : s.Going) (hphase : s.phase who = some phase) (hne : phase ≠ .stamp)
    (h : s.advance who phase = some r) : ∃ next, r.1 = .ok next ∧ next.rank < phase.rank := by
  have hrank : ∀ next, r.1 = .ok next → next.rank < phase.rank := by
    intro next hnext
    have hc := advance_center h
    rw [hnext] at hc
    exact Phase.rank_run hne hc
  have hadv := hs.steady.advances hphase h
  cases hadv with
  | manager _ _ _ hr _ => exact ⟨_, hr, hrank _ hr⟩
  | alone _ _ _ hr _ => exact ⟨_, hr, hrank _ hr⟩
  | reread _ hr _ => exact ⟨_, hr, hrank _ hr⟩
  | stamp _ hr _ => exact ⟨_, hr, hrank _ hr⟩
  | failed _ hlogger _ _ =>
    rw [hs.logger_] at hlogger
    cases hlogger

theorem pending_set {place place' : Place} (hi : s.requests[i]? = some place)
    (hlt : place'.pending < place.pending) (hreq : t.requests = s.requests.set i place')
    (hmon : t.monitor = s.monitor) : t.pending < s.pending := by
  have hsum := Transition.sum_map_set Place.pending hi place'
  unfold pending
  rw [hreq, hmon]
  omega

theorem Going.request (hs : s.Going) (h : s.stepRequest i = some t) :
    t.terminated = false ∧ t.pending < s.pending := by
  unfold stepRequest at h
  split at h
  · rename_i hi
    cases h
    exact ⟨hs.running, pending_set hi (by decide) rfl rfl⟩
  · rename_i phase hnot hi
    obtain ⟨r, hr, rfl⟩ := Option.map_eq_some_iff.mp h
    have hne : phase ≠ .stamp := hnot
    obtain ⟨next, hnext, hlt⟩ := hs.advance_ok (phase_request hi) hne hr
    obtain ⟨-, -, hreq, hmon, hterm⟩ := advance_frame hr
    obtain ⟨o, u⟩ := r
    cases hnext
    have hlt' : (Place.updating next).pending < (Place.updating phase).pending := Nat.add_lt_add_right hlt 2
    refine ⟨hterm.trans hs.running, pending_set hi hlt' ?_ hmon⟩
    show u.requests.set i _ = _
    rw [hreq]
  · rename_i hi
    cases h
    have hlt : (Place.replied s.config.updated).pending < Place.checking.pending := Nat.lt_succ_self 0
    exact ⟨hs.running, pending_set hi hlt rfl rfl⟩
  · cases h

theorem Going.poll (hs : s.Going) (hphase : s.monitor.phase ≠ none) (h : s.stepMonitor = some t) :
    t.terminated = false ∧ t.pending < s.pending := by
  have hloop : ∀ u : Server, u.loopMonitor.monitor.pending = 0 := by
    intro u
    unfold loopMonitor
    cases u.config.stopThread <;> rfl
  unfold stepMonitor at h
  split at h
  · cases h
  · cases h
  · rename_i hm
    rw [hm] at hphase
    exact absurd rfl hphase
  · rename_i hm
    rw [hm] at hphase
    exact absurd rfl hphase
  · rename_i v hm
    cases h
    refine ⟨hs.running, ?_⟩
    show (s.requests.map Place.pending).sum + _ < (s.requests.map Place.pending).sum + s.monitor.pending
    rw [hloop, hm]
    exact Nat.lt_succ_self _
  · rename_i v phase hnot hm
    obtain ⟨r, hr, rfl⟩ := Option.map_eq_some_iff.mp h
    have hne : phase ≠ .stamp := hnot
    have hat : s.phase .monitor = some phase := congrArg Monitor.phase hm
    obtain ⟨next, hnext, hlt⟩ := hs.advance_ok hat hne hr
    obtain ⟨-, -, hreq, hmon, hterm⟩ := advance_frame hr
    obtain ⟨o, u⟩ := r
    cases hnext
    refine ⟨hterm.trans hs.running, ?_⟩
    show (u.requests.map Place.pending).sum + (next.rank + 1) < (s.requests.map Place.pending).sum + s.monitor.pending
    rw [hreq, hm]
    exact Nat.add_lt_add_left (Nat.add_lt_add_right hlt 1) _

theorem updates_step (h : (updates hash).step s who = some t) :
    ∃ e, (system hash).step s e = some t ∧ e ≠ .updateConfig ∧
      ((∃ i, e = .advance i ∧ s.stepRequest i = some t) ∨
        e = .monitor ∧ s.monitor.phase ≠ none ∧ s.stepMonitor = some t) := by
  cases who with
  | request i =>
    have hstep : (system hash).step s (.advance i) = some t := h
    refine ⟨_, hstep, by simp, Or.inl ⟨i, rfl, ?_⟩⟩
    unfold system at hstep
    dsimp only at hstep
    split at hstep
    · cases hstep
    · exact hstep
  | monitor =>
    unfold updates at h
    dsimp only at h
    split at h
    · cases h
    · rename_i hphase
      refine ⟨_, h, by simp, Or.inr ⟨rfl, hphase, ?_⟩⟩
      unfold system at h
      dsimp only at h
      split at h
      · cases h
      · exact h
  | caller => cases h

theorem Going.updates_step (hs : s.Going) (h : (updates hash).step s who = some t) :
    t.Going ∧ t.pending < s.pending := by
  obtain ⟨e, hstep, -, hcases⟩ := Server.updates_step h
  obtain ⟨-, hmove⟩ := system_step hstep
  have hboth : t.terminated = false ∧ t.pending < s.pending := by
    rcases hcases with ⟨i, -, hreq⟩ | ⟨-, hphase, hmon⟩
    · exact hs.request hreq
    · exact hs.poll hphase hmon
  exact ⟨⟨hs.steady.update (Update.of_move hs.steady hmove), hmove.sameLogger.trans hs.logger_, hboth.1⟩,
    hboth.2⟩

/-- A party goes on, unless it waits for `updateMtx`. -/
theorem updates_go (hrunning : s.terminated = false) (hphase : s.phase who = some phase)
    (hfree : phase = .notify → s.locked = false) : ∃ t, (updates hash).step s who = some t := by
  have hadv : ∃ r, s.advance who phase = some r := by
    refine ⟨_, if_neg ?_⟩
    rintro ⟨hn, -, hl⟩
    rw [hfree hn] at hl
    cases hl
  obtain ⟨r, hr⟩ := hadv
  cases who with
  | request i =>
    obtain ⟨place, hi, hplace⟩ := Option.bind_eq_some_iff.mp hphase
    cases place with
    | updating phase' =>
      cases hplace
      by_cases hne : phase = .stamp
      · subst hne
        have hstep : (system hash).step s (.advance i) =
            some ((s.stampWith (toTimeT s.clock)).setRequest i .checking) := by
          simp only [system, hrunning, move, stepRequest, hi]
          rfl
        exact ⟨_, hstep⟩
      · have hstep : (system hash).step s (.advance i) = (s.advance (.request i) phase).map (requestAfter i phase) :=
          step_request hrunning hi hne
        rw [hr] at hstep
        exact ⟨_, hstep⟩
    | checking => cases hplace
    | replied b => cases hplace
    | failed => cases hplace
  | monitor =>
    have hsome : s.monitor.phase ≠ none := by
      intro hnone
      rw [show s.monitor.phase = some phase from hphase] at hnone
      cases hnone
    have hupdates : (updates hash).step s .monitor = s.stepMonitor := by
      have hsystem : (system hash).step s .monitor = s.stepMonitor := by
        simp only [system, hrunning, move]
        rfl
      rw [← hsystem]
      exact if_neg hsome
    cases hm : s.monitor with
    | updating v phase' =>
      have heq : phase' = phase := by
        have hphase' : s.monitor.phase = some phase := hphase
        rw [hm] at hphase'
        exact Option.some_inj.mp hphase'
      subst heq
      have hstep : ∃ t, s.stepMonitor = some t := by
        unfold stepMonitor
        rw [hm]
        cases phase' with
        | stamp => exact ⟨_, rfl⟩
        | _ => exact ⟨_, congrArg (Option.map (monitorAfter v _)) hr⟩
      rw [hupdates]
      exact hstep
    | off => rw [hm] at hsome; exact absurd rfl hsome
    | starting => rw [hm] at hsome; exact absurd rfl hsome
    | sleeping => rw [hm] at hsome; exact absurd rfl hsome
    | ended => rw [hm] at hsome; exact absurd rfl hsome
  | caller => cases hphase

/-- Where no update can go on, none is under way and every request has its answer. -/
theorem Going.stuck (hs : s.Going) (h : ∀ who, (updates hash).step s who = none) :
    (∀ who, s.phase who = none) ∧ ∀ place ∈ s.requests, place.pending = 0 := by
  have hcannot : ∀ who phase, s.phase who = some phase → phase = .notify ∧ s.locked = true := by
    intro who phase hphase
    by_contra hnot
    obtain ⟨t, ht⟩ : ∃ t, (updates hash).step s who = some t := updates_go hs.running hphase (fun hn => by
      cases hl : s.locked with
      | false => rfl
      | true => exact absurd ⟨hn, hl⟩ hnot)
    rw [h who] at ht
    cases ht
  have hphases : ∀ who, s.phase who = none := by
    intro who
    cases hphase : s.phase who with
    | none => rfl
    | some phase =>
      -- the one that holds the mutex it waits for could go on
      obtain ⟨-, hl⟩ := hcannot who phase hphase
      obtain ⟨who', phase', hbusy, hholds⟩ := hs.steady.exclusive.locked.mp hl
      obtain ⟨rfl, -⟩ := hcannot who' phase' (busy_some.mp hbusy).1
      cases hholds
  refine ⟨hphases, fun place hmem => ?_⟩
  obtain ⟨i, hlt, hget⟩ := List.mem_iff_getElem.mp hmem
  have hi : s.requests[i]? = some place := by
    rw [List.getElem?_eq_getElem hlt, hget]
  cases place with
  | updating phase =>
    have hnone := hphases (.request i)
    rw [phase_request hi] at hnone
    cases hnone
  | checking =>
    have hstep : (system hash).step s (.advance i) = none := h (.request i)
    simp only [system, hs.running, move, stepRequest, hi] at hstep
    cases hstep
  | replied b => rfl
  | failed => rfl

end

/-- From any state of a server, the updates under way are a bounded number of steps, in
whatever order; and where none can go on, every request has been answered or has failed,
no poll is under way, and the manager works with its configuration. -/
theorem updates_end (hash : ThreadId → UInt64) (maxThreads : Nat) (file : Option File)
    (clock : TimePoint) (s₀ s : Server) (es : List Step)
    (hints : (init file clock true).content.Ints) (hmax : maxThreads < 2 ^ 31)
    (hbuilt : Built hash maxThreads file clock s₀) (hes : ∀ e ∈ es, e ≠ .updateConfig)
    (h : (system hash).run s₀ es = some s) (hrunning : s.terminated = false) :
    (∀ whos t, (updates hash).run s whos = some t → whos.length ≤ 10 * s.requests.length + 9 ∧
      ((∀ who, (updates hash).step t who = none) →
        (∀ place ∈ t.requests, place.pending = 0) ∧ t.monitor.phase = none ∧ t.Agrees)) ∧
    ∃ whos t, (updates hash).run s whos = some t ∧ ∀ who, (updates hash).step t who = none := by
  obtain ⟨hrepairing, hlogger⟩ := hbuilt.repairing hints hmax hes h
  have hgoing : s.Going := ⟨hrepairing.steady, hlogger, hrunning⟩
  have hinv : ∀ u who v, u.Going → True → (updates hash).step u who = some v → v.Going :=
    fun u who v hu _ hstep => (hu.updates_step hstep).1
  have hlower : ∀ u who v, u.Going → True → (updates hash).step u who = some v → v.pending < u.pending :=
    fun u who v hu _ hstep => (hu.updates_step hstep).2
  refine ⟨fun whos t ht => ⟨?_, fun hstuck => ?_⟩, ?_⟩
  · have hlength := Transition.System.length_add_rank_le (P := fun _ => True) hinv hlower ht
      (fun _ _ => trivial) hgoing
    have hbound := s.pending_le
    omega
  · have ht' : t.Going ∧ t.Repairing := Transition.System.run_inv (I := fun u => u.Going ∧ u.Repairing)
      (fun u who v hu hstep => by
        obtain ⟨e, hstep', hne, -⟩ := updates_step hstep
        obtain ⟨-, hmove⟩ := system_step hstep'
        exact ⟨(hu.1.updates_step hstep).1, hu.2.update hne (Update.of_move hu.2.steady hmove)⟩)
      ht ⟨hgoing, hrepairing⟩
    obtain ⟨hphases, hplaces⟩ := ht'.1.stuck hstuck
    refine ⟨hplaces, hphases .monitor, ht'.2.agrees (fun who => ?_)⟩
    unfold busy
    rw [hphases who]
    rfl
  · obtain ⟨whos, t, -, ht, hstuck⟩ := Transition.System.exists_run_stuck (S := updates hash)
      (P := fun _ => True) hinv hlower hgoing
    exact ⟨whos, t, ht, fun who => hstuck who trivial⟩

/-! The first request is late: the file was edited again, and a second one overtakes it. -/

/-- The first request has set the durations of the first edit. -/
def lateBefore : List Step :=
  [.edit mixedFirst, .request, .advance 0, .advance 0, .advance 0, .edit mixedSecond]

/-- The second one re-reads, the first one goes on to the end, and then the second. -/
def lateAfter : List Step := [1, 0, 0, 0, 0, 0, 1, 1, 1, 1, 1, 1].map .advance

theorem in_force_late : ∃ s t, (system (fun _ => 7)).run builtBase lateBefore = some s ∧
    (system (fun _ => 7)).run s (.request :: lateAfter) = some t ∧
    t.settings = (ProteiCov.settings mixedData).normalize ∧ t.Agrees := by
  have hsome : ((system (fun _ => 7)).run builtBase (lateBefore ++ .request :: lateAfter)).isSome = true := by
    decide +kernel
  obtain ⟨t, ht⟩ := Option.isSome_iff_exists.mp hsome
  have hplaces : ((system (fun _ => 7)).run builtBase (lateBefore ++ .request :: lateAfter)).map
      (fun s => (s.requests, s.monitor)) = some ([.updating .stamp, .replied true], .off) := by decide +kernel
  rw [ht, Option.map_some, Option.some_inj, Prod.mk.injEq] at hplaces
  rw [Transition.System.run_append, Option.bind_eq_some_iff] at ht
  obtain ⟨s, hs, ht⟩ := ht
  have hlength : ((system (fun _ => 7)).run builtBase lateBefore).map (fun s => s.requests.length) = some 1 := by
    decide +kernel
  have hcontent : ((system (fun _ => 7)).run builtBase lateBefore).map Server.content =
      some mixedSecond := by decide +kernel
  rw [hs, Option.map_some, Option.some_inj] at hlength hcontent
  refine ⟨s, t, hs, ht, in_force (fun _ => 7) 1000 (some baseFile) 0 builtBase s t lateBefore lateAfter
    _ mixedData true rfl baseFile_ints (by decide) built_baseFile ?_ hs ?_ ?_ ht ?_ ?_⟩
  · intro e he heq
    subst heq
    simp [lateBefore] at he
  · rw [hcontent]
    rfl
  · intro e he
    obtain ⟨i, -, rfl⟩ := List.mem_map.mp he
    exact ⟨by simp, rfl⟩
  · rw [hlength, hplaces.1]
    rfl
  · refine quiescent_of_places ?_ (by rw [hplaces.2]; rfl)
    rw [hplaces.1]
    decide

theorem updates_end_late : ∃ s, (system (fun _ => 7)).run builtBase lateBefore = some s ∧
    (∀ whos t, (updates (fun _ => 7)).run s whos = some t → whos.length ≤ 10 * s.requests.length + 9 ∧
      ((∀ who, (updates (fun _ => 7)).step t who = none) →
        (∀ place ∈ t.requests, place.pending = 0) ∧ t.monitor.phase = none ∧ t.Agrees)) ∧
    ∃ whos t, (updates (fun _ => 7)).run s whos = some t ∧
      ∀ who, (updates (fun _ => 7)).step t who = none := by
  have hsome : ((system (fun _ => 7)).run builtBase lateBefore).isSome = true := by decide +kernel
  obtain ⟨s, hs⟩ := Option.isSome_iff_exists.mp hsome
  have hrunning : ((system (fun _ => 7)).run builtBase lateBefore).map (fun s => s.terminated) =
      some false := by decide +kernel
  rw [hs, Option.map_some, Option.some_inj] at hrunning
  refine ⟨s, hs, updates_end (fun _ => 7) 1000 (some baseFile) 0 builtBase s lateBefore baseFile_ints
    (by decide) built_baseFile ?_ hs hrunning⟩
  intro e he heq
  subst heq
  simp [lateBefore] at he

end Server

end ProteiCov
