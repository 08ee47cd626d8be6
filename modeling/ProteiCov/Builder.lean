import ProteiCov.CallFlow
import ProteiCov.Reconfiguration

/-
  `ManagerBuilder` and what its manager journals

  `Construct` builds a logger, a configuration, the recorders, a pool and a manager
  over the configuration and the pool. The recorders stay a member of the builder: no
  code gives them to the queue, so the queue of the pool has none, and the pools of
  later updates take that queue over.

  What is proved:
    1. `construct_ok` — there is a recorder, and the queue has none.
    2. `journaled_iff_along` — the recorders were passed a CDR of every call that ended
       with a result exactly when no call ended with a result.
-/

namespace ProteiCov
open Cpp CallFlow

/-- `ManagerBuilder`. The recorders made so far are `0`, …, `recorderCount - 1`. -/
structure ManagerBuilder where
  logger : Bool
  config : Option ThreadSafeConfig
  recorders : List RecorderRef
  recorderCount : Nat

namespace ManagerBuilder

def buildLogger : Exec ManagerBuilder Unit := .modify (fun b => { b with logger := true })

def buildConfig (file : FileContent) : Exec ManagerBuilder Unit :=
  .modify (fun b => { b with config := some (ThreadSafeConfig.construct file b.logger) })

/-- `std::make_shared<FileRecorder>("cdrFile.txt")`. -/
def makeFileRecorder : Exec ManagerBuilder RecorderRef := fun b =>
  (.ok b.recorderCount, { b with recorderCount := b.recorderCount + 1 })

def buildRecorders : Exec ManagerBuilder (List RecorderRef) := do
  let recorders ← .get ManagerBuilder.recorders
  if recorders.isEmpty then
    let fileRecorder ← makeFileRecorder
    .modify (fun b => { b with recorders := [fileRecorder] })
    return [fileRecorder]
  else return recorders

/-- The objects of a process that has a configuration and no manager yet. -/
def opening (config : ThreadSafeConfig) : Center where
  config := config
  manager := none
  world := .empty
  locked := false
  built := []

/-- `BuildThreadPool`, the constructor of the manager, its logger and `setManager`. -/
def buildManager : Exec ManagerBuilder Center := fun b =>
  match b.config with
  | none => (.undefined, b)
  | some config =>
    match Server.buildManager.run (opening config) with
    | (.ok (), c) => (.ok c, { b with config := some c.config })
    | (.throws e, c) => (.throws e, { b with config := some c.config })
    | (.undefined, c) => (.undefined, { b with config := some c.config })

/-- `Construct(pathToConfig)`, where the file has the given content. The monitor it
starts only ever asks the manager to update. -/
def construct (file : FileContent) : Exec ManagerBuilder Center := do
  buildLogger
  buildConfig file
  let _ ← buildRecorders
  buildManager

theorem buildRecorders_ok {b b' : ManagerBuilder} {recorders : List RecorderRef}
    (h : buildRecorders.run b = (.ok recorders, b')) : b'.recorders ≠ [] := by
  obtain ⟨rs, b₁, h₁, h⟩ := Exec.bind_eq_ok h
  cases h₁
  cases hempty : b.recorders with
  | nil =>
    rw [hempty] at h
    cases h
    simp
  | cons r rs =>
    rw [hempty] at h
    cases h
    rw [hempty]
    simp

end ManagerBuilder

namespace Center
variable {α : Type} {c d : Center} {a : α}

theorem onConfig_world {x : Exec ThreadSafeConfig α} (h : (onConfig x).run c = (.ok a, d)) :
    d.world = c.world :=
  congrArg (fun r => r.2.world) h.symm

theorem onWorld_ok {x : Exec World α} (h : (onWorld x).run c = (.ok a, d)) :
    x.run c.world = (.ok a, d.world) := by
  have h' : ((x.run c.world).1, { c with world := (x.run c.world).2 }) = (Outcome.ok a, d) := h
  obtain ⟨ho, rfl⟩ := Prod.mk.inj h'
  exact Prod.ext ho rfl

end Center

namespace ManagerBuilder

theorem fresh_buildPool {logger : Bool} {operators size : Int} {c d : Center} {p : PoolRef}
    (hc : c.world = .empty) (h : (Center.buildPool logger operators size).run c = (.ok p, d)) :
    Fresh [] 0 p d.world := by
  obtain ⟨_, c₁, h₁, h⟩ := Exec.bind_eq_ok h
  cases h₁
  have hbuild := Center.onWorld_ok h
  rw [hc] at hbuild
  obtain ⟨p', w₁, hcons, hbuild⟩ := Exec.bind_eq_ok hbuild
  obtain ⟨_, w₂, hset, hbuild⟩ := Exec.bind_eq_ok hbuild
  cases hbuild
  exact (Fresh.construct hcons).reconfigures ((Reconfigures.setLogger (q := 0) p _).of_run hset)

theorem fresh_buildManager {config : ThreadSafeConfig} {c : Center}
    (h : Server.buildManager.run (opening config) = (.ok (), c)) :
    ∃ m, c.manager = some m ∧ Fresh [] 0 m.threadPool_ c.world := by
  obtain ⟨_, c₁, h₁, h⟩ := Exec.bind_eq_ok h
  obtain ⟨operators, c₂, h₂, h⟩ := Exec.bind_eq_ok h
  obtain ⟨size, c₃, h₃, h⟩ := Exec.bind_eq_ok h
  obtain ⟨p, c₄, h₄, h⟩ := Exec.bind_eq_ok h
  obtain ⟨minMax, c₅, h₅, h⟩ := Exec.bind_eq_ok h
  -- the getters leave the heap as it is
  have hopening : c₁.world = .empty := congrArg (fun r => r.2.world) h₁.symm
  have hpool := fresh_buildPool (((Center.onConfig_world h₃).trans (Center.onConfig_world h₂)).trans
    hopening) h₄
  have hset : c = { c₅ with manager := some { Manager.construct minMax p with logger_ := _ } } :=
    congrArg Prod.snd h.symm
  rw [hset]
  exact ⟨_, rfl, Center.onConfig_world h₅ ▸ hpool⟩

/-- There is a recorder, and the queue of the pool has none. -/
theorem construct_ok {file : FileContent} {b b' : ManagerBuilder} {c : Center}
    (h : (construct file).run b = (.ok c, b')) : b'.recorders ≠ [] ∧
      ∃ m, c.manager = some m ∧ Fresh [] 0 m.threadPool_ c.world := by
  obtain ⟨_, b₁, h₁, h⟩ := Exec.bind_eq_ok h
  obtain ⟨_, b₂, h₂, h⟩ := Exec.bind_eq_ok h
  obtain ⟨recorders, b₃, h₃, h⟩ := Exec.bind_eq_ok h
  have hrecorders := buildRecorders_ok h₃
  have h' : buildManager b₃ = (.ok c, b') := h
  unfold buildManager at h'
  split at h'
  · cases h'
  · split at h'
    · rename_i c' hbuild
      cases h'
      exact ⟨hrecorders, fresh_buildManager hbuild⟩
    · cases h'
    · cases h'

end ManagerBuilder

/-! What is journaled. -/

/-- The state in which `Construct` has returned: no call came yet. -/
def Center.opened (c : Center) : Option State :=
  c.manager.map (fun m => initial (c.world.pools m.threadPool_).size m c.world)

/-- Each recorder was passed one CDR of every call that ended with a result. -/
def Journaled (recorders : List RecorderRef) (s : State) : Prop :=
  ∀ t : Nat, t < s.calls.length → (∃ r, (s.world.tasks t).promise_.state = some (.value r)) →
    ∀ rec ∈ recorders, ((journalOf t s.world.trace).map Prod.fst).count rec = 1

/-- No call ended with a result. -/
def Resultless (s : State) : Prop := ∀ t : Nat, t < s.calls.length → ¬ Resolved [] s.world t

section
variable {q : QueueRef} {s t : State}

/-- Where the queue has no recorders, the others hear of no call. -/
theorem journaled_iff {recorders : List RecorderRef} (hs : Flow [] q s) (hne : recorders ≠ []) :
    Journaled recorders s ↔ Resultless s := by
  constructor
  · intro h t ht hres
    -- a result, and not one CDR: any recorder is a counterexample
    obtain ⟨r, c, hr⟩ := hres
    obtain ⟨rec, hrec⟩ := List.exists_mem_of_ne_nil recorders hne
    have hcount := h t ht ⟨r, hr.state⟩ rec hrec
    rw [hr.journal] at hcount
    cases hcount
  · rintro h t ht ⟨r, hstate⟩
    rcases hs.known t ht with ⟨_, hun⟩ | ⟨_, hres | ⟨e, hfailed, _⟩⟩
    · rw [hun.pending] at hstate
      cases hstate
    · exact absurd hres (h t ht)
    · rw [hfailed] at hstate
      cases hstate

theorem resultless_step {hash : ThreadId → UInt64} {e : Step} (hs : Flow [] q s)
    (h : (system hash).step s e = some t) : Resultless t ↔ Resultless s ∧ NoResult s e := by
  obtain ⟨gone, hadv, _, hends⟩ := hs.advances h
  rw [hends]
  constructor
  · intro ht
    -- a call with a result keeps it, so it had none before
    refine ⟨fun x hx hres => ?_, fun x hx => ?_⟩
    · by_cases hgone : gone = some x
      · exact hres.not_unresolved (hadv.unresolved hs hgone hx)
      · apply ht x (Nat.lt_of_lt_of_le hx hadv.grows)
        exact (hadv.kept x (Or.inl hx) hgone).resolved hres
    · exact (hadv.ended x hx).resolve_left (ht x (hadv.inRange hs hx))
  · rintro ⟨hs', hfailed⟩ x hx hres
    by_cases hgone : gone = some x
    · exact (hfailed x hgone).not_resolved hres
    · rcases Nat.lt_or_ge x s.calls.length with hlt | hge
      · exact hs' x hlt ((hadv.kept x (Or.inl hlt) hgone).symm.resolved hres)
      · exact hres.not_unresolved (hadv.admitted x hge hx hgone)

end

/-- Exactly when the recorders of the builder were passed a CDR of every call that
ended with a result: no step of the run ended a call with a result. -/
theorem journaled_iff_along {hash : ThreadId → UInt64} {file : FileContent} {b b' : ManagerBuilder}
    {c : Center} {s₀ s : State} {events : List Step}
    (h₀ : (ManagerBuilder.construct file).run b = (.ok c, b')) (hopen : c.opened = some s₀)
    (h : (system hash).run s₀ events = some s) :
    Journaled b'.recorders s ↔ (system hash).Along NoResult s₀ events := by
  obtain ⟨hne, m, hm, hfresh⟩ := ManagerBuilder.construct_ok h₀
  unfold Center.opened at hopen
  rw [hm] at hopen
  cases hopen
  have hflow := hfresh.flow (c.world.pools m.threadPool_).size
  have hend : Flow [] 0 s :=
    Transition.System.run_inv (fun s e u hs hstep => Flow.step hs hstep) h hflow
  have hstart : Resultless (initial (c.world.pools m.threadPool_).size m c.world) :=
    fun t ht => (by cases ht)
  rw [journaled_iff hend hne, Transition.System.run_iff_along
    (fun s e u hs hstep => Flow.step hs hstep) (fun s e u hs hstep => resultless_step hs hstep) h hflow]
  exact and_iff_right hstart

/-- The configuration file the program comes with. -/
def baseJson : FileContent :=
  some [("RMin", some 10), ("RMax", some 15), ("AmountOfOperators", some 5), ("SizeOfQueue", some 15)]

/-- A new `ManagerBuilder`. -/
def ManagerBuilder.fresh : ManagerBuilder where
  logger := false
  config := none
  recorders := []
  recorderCount := 0

/-- The recorders of the builder and the state in which `Construct` has returned. -/
def constructed : Option (List RecorderRef × State) :=
  match (ManagerBuilder.construct baseJson).run .fresh with
  | (.ok c, b) => c.opened.map (fun s₀ => (b.recorders, s₀))
  | _ => none

/-- Two calls come and an operator takes the first. -/
def twoCalls : List Step :=
  [.startThreadPool, .addTask 1 0 0 ['5'], .addTask 2 0 0 ['6'], .take 0 9]

/-- The operator finishes it. -/
def oneFinished : List Step := twoCalls ++ [.finish 0 (.calm 0 0 0 12)]

/-- Where a run after `Construct` leads. -/
def afterConstruct (events : List Step) : Option State :=
  constructed.bind (fun x => (system (fun _ => 7)).run x.2 events)

theorem journaled_iff_along_twoCalls : ∃ recorders s₀ s, constructed = some (recorders, s₀) ∧
    (system (fun _ => 7)).run s₀ twoCalls = some s ∧ s.calls.length = 2 ∧
    (system (fun _ => 7)).Along NoResult s₀ twoCalls := by
  have hsome : (afterConstruct twoCalls).isSome = true := by decide +kernel
  obtain ⟨s, hs⟩ := Option.isSome_iff_exists.mp hsome
  have hcalls : (afterConstruct twoCalls).map (fun s => s.calls.length) = some 2 := by decide +kernel
  have hstates : (afterConstruct twoCalls).map (fun s =>
      ((s.world.tasks 0).promise_.state, (s.world.tasks 1).promise_.state)) = some (none, none) := by
    decide +kernel
  rw [hs, Option.map_some, Option.some_inj] at hcalls hstates
  obtain ⟨hstate₀, hstate₁⟩ := Prod.mk.inj hstates
  obtain ⟨⟨recorders, s₀⟩, hcons, hrun⟩ := Option.bind_eq_some_iff.mp hs
  have hjournaled : Journaled recorders s := by
    rintro t ht ⟨r, hr⟩
    rw [hcalls] at ht
    have ht' : t = 0 ∨ t = 1 := by omega
    rcases ht' with rfl | rfl
    · rw [hstate₀] at hr
      cases hr
    · rw [hstate₁] at hr
      cases hr
  refine ⟨recorders, s₀, s, hcons, hrun, hcalls, ?_⟩
  unfold constructed at hcons
  split at hcons
  · rename_i c b hconstruct
    obtain ⟨s₁, hopen, heq⟩ := Option.map_eq_some_iff.mp hcons
    cases heq
    exact (journaled_iff_along hconstruct hopen hrun).mp hjournaled
  · cases hcons

/-- The client of a finished call is told `Completed`, and the file recorder nothing. -/
theorem finished_not_journaled : ∃ recorders s₀ s, constructed = some (recorders, s₀) ∧
    (system (fun _ => 7)).run s₀ oneFinished = some s ∧
    (s.world.tasks 0).promise_.state = some (.value ⟨.Completed, 12, 12⟩) ∧
    ¬ Journaled recorders s := by
  have hsome : (afterConstruct oneFinished).isSome = true := by decide +kernel
  obtain ⟨s, hs⟩ := Option.isSome_iff_exists.mp hsome
  have hcalls : (afterConstruct oneFinished).map (fun s => s.calls.length) = some 2 := by
    decide +kernel
  have hstate : (afterConstruct oneFinished).map (fun s => (s.world.tasks 0).promise_.state) =
      some (some (.value ⟨.Completed, 12, 12⟩)) := by decide +kernel
  have hjournal : (afterConstruct oneFinished).map (fun s => journalOf 0 s.world.trace) = some [] := by
    decide +kernel
  have hrecorders : constructed.map Prod.fst = some [0] := by decide +kernel
  rw [hs, Option.map_some, Option.some_inj] at hcalls hstate hjournal
  obtain ⟨⟨recorders, s₀⟩, hcons, hrun⟩ := Option.bind_eq_some_iff.mp hs
  rw [hcons, Option.map_some, Option.some_inj] at hrecorders
  have hmem : 0 ∈ recorders := by
    have heq : recorders = [0] := hrecorders
    rw [heq]
    exact List.mem_cons_self
  refine ⟨recorders, s₀, s, hcons, hrun, hstate, fun h => ?_⟩
  have hcount := h 0 (by omega) ⟨_, hstate⟩ 0 hmem
  rw [hjournal] at hcount
  cases hcount

end ProteiCov
