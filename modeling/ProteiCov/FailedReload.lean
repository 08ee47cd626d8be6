import ProteiCov.Agreement

/-
  A reload that fails

  `updateConfig` swallows its exception when there is a logger, and
  `updateWithRequest` goes on to `notify` as if the file had been read: the manager
  runs its whole `update` on the old values. That this changes nothing is not checked
  anywhere in the code. It holds because in a state without an update in progress
  the manager already works with these values (`Repairing.agrees`): every assignment
  of `update` assigns what is there, and the pool has the size that is asked for.
-/

namespace ProteiCov
open Cpp

/-- The numbers in a file are of type `int`. -/
def FileContent.Ints (content : FileContent) : Prop :=
  ∀ tree, content = some tree → ∀ key n, (key, some n) ∈ tree → -2 ^ 31 ≤ n ∧ n < 2 ^ 31

/-- The values in a map are of type `int`. -/
def IntValues (data : Data) : Prop := ∀ key, -2 ^ 31 ≤ data.value key ∧ data.value key < 2 ^ 31

theorem intValues_assign {data : Data} (h : IntValues data) (key : String) {n : Int}
    (hn : -2 ^ 31 ≤ n ∧ n < 2 ^ 31) : IntValues (data.assign key n) := by
  intro k
  rw [Map.value_assign]
  split
  · exact hn
  · exact h k

theorem intValues_outputMembers {tree : PropertyTree} {res data : Data}
    (htree : ∀ key n, (key, some n) ∈ tree → -2 ^ 31 ≤ n ∧ n < 2 ^ 31) (hres : IntValues res)
    (h : JsonParser.outputMembers res tree = .ok data) : IntValues data := by
  induction tree generalizing res with
  | nil =>
    cases h
    exact hres
  | cons member rest ih =>
    obtain ⟨key, o⟩ := member
    cases o with
    | none => cases h
    | some n =>
      have hn := htree key n List.mem_cons_self
      exact ih (fun k m hm => htree k m (List.mem_cons_of_mem _ hm)) (intValues_assign hres key hn) h

theorem intValues_empty : IntValues Map.empty := by
  intro key
  show -2 ^ 31 ≤ (0 : Int) ∧ (0 : Int) < 2 ^ 31
  decide

theorem intValues_construct {content : FileContent} (h : content.Ints) (logger : Bool) :
    IntValues (ThreadSafeConfig.construct content logger).data_ := by
  unfold ThreadSafeConfig.construct
  cases hl : ThreadSafeConfig.load content with
  | ok data =>
    cases hc : content with
    | none =>
      rw [hc] at hl
      cases hl
    | some tree =>
      rw [hc] at hl
      exact intValues_outputMembers (h tree hc) intValues_empty hl
  | error e =>
    refine intValues_assign (intValues_assign (intValues_assign (intValues_assign
      intValues_empty _ ?_) _ ?_) _ ?_) _ ?_ <;> decide

namespace Server

/-- A server that `Construct` built with a logger, on a platform whose processes have
at most `maxThreads` threads: beyond that the constructor of `std::thread` throws. -/
structure Built (hash : ThreadId → UInt64) (maxThreads : Nat) (file : Option File)
    (clock : TimePoint) (s : Server) : Prop where
  constructed : (system hash).step (init file clock true) .construct = some s
  running : s.terminated = false
  threads : ∀ p, p < s.world.poolCount → (s.world.pools p).size ≤ maxThreads

end Server

namespace Center

/-- What a reload can change, unchanged. -/
structure Unchanged (c d : Center) : Prop where
  settings : d.settings = c.settings
  updated : d.config.updated = c.config.updated
  manager : d.manager = c.manager
  world : d.world = c.world
  built : d.built = c.built

theorem Unchanged.trans {c d e : Center} (h : Unchanged c d) (h' : Unchanged d e) : Unchanged c e :=
  ⟨h'.settings.trans h.settings, h'.updated.trans h.updated, h'.manager.trans h.manager,
    h'.world.trans h.world, h'.built.trans h.built⟩

theorem Unchanged.assembled {c d : Center} (h : Unchanged c d) {m : Manager} {q : QueueRef}
    (hA : c.Assembled m q) : d.Assembled m q := by
  obtain ⟨h₁, h₂, h₃, h₄⟩ := hA
  refine ⟨h.manager.trans h₁, ?_, ?_, ?_⟩ <;> rw [h.world] <;> assumption

theorem Unchanged.agrees {c d : Center} (h : Unchanged c d) {m : Manager} {q : QueueRef}
    (hc : c.Agrees m q) : d.Agrees m q := by
  obtain ⟨h₁, h₂, h₃⟩ := hc
  refine ⟨?_, ?_, ?_⟩
  · unfold DurationsAgree
    rw [h.settings]
    exact h₁
  · unfold LimitAgrees
    rw [h.settings, h.world]
    exact h₂
  · unfold SizeAgrees
    rw [h.settings, h.world]
    exact h₃

theorem Unchanged.asked {α : Type} {x : Exec ThreadSafeConfig α}
    (hx : Respects ThreadSafeConfig.Same x) (c : Center) : Unchanged c (c.asked x) :=
  ⟨(hx c.config).settings, (hx c.config).updated, rfl, rfl, rfl⟩

end Center

/-- The phase after each phase of an update that finds everything in agreement. -/
def Phase.afterAgreed : Phase → Phase
  | reread => notify
  | notify => getMinMax
  | getMinMax => updateQueue
  | updateQueue => compareOperators
  | _ => stamp

namespace Center
variable {c : Center} {m : Manager} {q : QueueRef} {content : FileContent}

/-- Assigning the values in force changes nothing. -/
theorem unchanged_phase {phase : Phase} (hA : c.Assembled m q) (hagrees : c.Agrees m q)
    (hU : c.settings.Usable) (hlogger : c.config.logger_ = true)
    (hread : ThreadSafeConfig.readable c.config.logger_ content = false)
    (hphase : phase ∈ [.reread, .notify, .getMinMax, .updateQueue, .compareOperators])
    (hlocked : c.locked = phase.holds) :
    ∃ d, (phase.run content).run c = (.ok phase.afterAgreed, d) ∧ Unchanged c d ∧
      d.locked = phase.afterAgreed.holds ∧ d.config.logger_ = true := by
  simp only [List.mem_cons, List.not_mem_nil, or_false] at hphase
  rcases hphase with rfl | rfl | rfl | rfl | rfl
  · -- the re-read fails and keeps the configuration
    rcases run_reread_cases content c with hrun | ⟨hl, -⟩
    · have hsame : c.config.afterReread content = c.config := by
        unfold ThreadSafeConfig.afterReread
        cases hacc : ThreadSafeConfig.accepted c.config.logger_ content with
        | ok data =>
          unfold ThreadSafeConfig.readable at hread
          rw [hacc] at hread
          cases hread
        | error e => rfl
      rw [hsame] at hrun
      exact ⟨c, hrun, ⟨rfl, rfl, rfl, rfl, rfl⟩, hlocked, hlogger⟩
    · rw [hlogger] at hl
      cases hl
  · exact ⟨_, run_notify hA.manager, ⟨rfl, rfl, rfl, rfl, rfl⟩, rfl, hlogger⟩
  · refine ⟨_, run_getMinMax hA.manager, ?_, hlocked,
      (ThreadSafeConfig.Same.getMinMax c.config).logger_.trans hlogger⟩
    have hm : m.setMinMax (c.settings.RMin, c.settings.RMax) = m := by
      unfold Manager.setMinMax
      rw [← hagrees.durations.1, ← hagrees.durations.2]
    have hask := Unchanged.asked ThreadSafeConfig.Same.getMinMax c
    refine ⟨hask.settings, hask.updated, ?_, rfl, rfl⟩
    rw [hm]
    exact hA.manager.symm
  · refine ⟨_, run_updateQueue hA, ?_, hlocked,
      (ThreadSafeConfig.Same.getSizeOfQueue c.config).logger_.trans hlogger⟩
    have hlimit : toSizeT c.settings.SizeOfQueue = (c.world.queues q).sizeOfQueue := by
      have hcast := toSizeT_cast hU.queue
      have hl : ((c.world.queues q).sizeOfQueue : Int) = c.settings.SizeOfQueue := hagrees.limit
      omega
    have hask := Unchanged.asked ThreadSafeConfig.Same.getSizeOfQueue c
    refine ⟨hask.settings, hask.updated, rfl, ?_, rfl⟩
    show c.world.setQueue q { c.world.queues q with sizeOfQueue := toSizeT c.settings.SizeOfQueue } = _
    rw [hlimit]
    unfold World.setQueue
    rw [Function.update_eq_self]
  · have hsize : ¬ c.Differs m := by
      have hcast := toSizeT_cast hU.operators
      have hs : ((c.world.pools m.threadPool_).size : Int) = c.settings.AmountOfOperators :=
        hagrees.size
      unfold Differs
      omega
    have hask := Unchanged.asked ThreadSafeConfig.Same.getAmountOfOperators c
    exact ⟨_, run_same hA.manager hsize, ⟨hask.settings, hask.updated, rfl, rfl, rfl⟩, rfl,
      (ThreadSafeConfig.Same.getAmountOfOperators c.config).logger_.trans hlogger⟩

end Center

namespace Server

theorem Built.usable {hash : ThreadId → UInt64} {maxThreads : Nat} {file : Option File}
    {clock : TimePoint} {s : Server} (hints : (init file clock true).content.Ints)
    (hmax : maxThreads < 2 ^ 31) (hs : Built hash maxThreads file clock s) :
    (init file clock true).settings.Usable ∧ s = settleConstruct ((init file clock true).perform buildManager) := by
  have hvalues := intValues_construct hints true
  have hops : -2 ^ 31 ≤ (init file clock true).settings.AmountOfOperators ∧
      (init file clock true).settings.AmountOfOperators < 2 ^ 31 := hvalues "AmountOfOperators"
  have hsize : -2 ^ 31 ≤ (init file clock true).settings.SizeOfQueue ∧
      (init file clock true).settings.SizeOfQueue < 2 ^ 31 := hvalues "SizeOfQueue"
  have hstep := hs.constructed
  rw [step_construct hash rfl rfl, Option.some_inj] at hstep
  refine ⟨?_, hstep.symm⟩
  rcases construct_cases (init file clock true) with ⟨hres, heq⟩ | ⟨-, d, -, -, heq⟩
  · rw [heq] at hstep
    have hpool := hs.threads 0 (by rw [← hstep]; exact Nat.one_pos)
    rw [← hstep] at hpool
    have hthreads : toUnsigned (init file clock true).settings.AmountOfOperators ≤ maxThreads := hpool
    unfold Manager.Reservable unsignedToInt at hres
    unfold toUnsigned at hres hthreads
    -- a negative value would have been converted to more threads than there can be
    refine ⟨by omega, ?_⟩
    split at hres <;> omega
  · rw [heq] at hstep
    have hrun := hs.running
    rw [← hstep] at hrun
    cases hrun

/-- A reload of the request `i` that has failed, seen from the state `s` it began in. -/
structure Reloading (s u : Server) (i : Nat) (place : Place) : Prop where
  unchanged : s.toCenter.Unchanged u.toCenter
  stands : u.requests[i]? = some place
  content : u.content = s.content
  logger_ : u.config.logger_ = true
  running : u.terminated = false
  locked : ∀ phase, place = .updating phase → u.locked = phase.holds

section
variable {hash : ThreadId → UInt64} {s u : Server} {i : Nat} {m : Manager} {q : QueueRef}

theorem step_request {phase : Phase} (ht : u.terminated = false)
    (hi : u.requests[i]? = some (.updating phase)) (hne : phase ≠ .stamp) :
    (system hash).step u (.advance i) =
      (u.advance (.request i) phase).map (requestAfter i phase) := by
  simp only [system, ht, move, stepRequest, hi]
  cases phase with
  | stamp => exact absurd rfl hne
  | _ => rfl

theorem Reloading.phase {phase : Phase} (hu : Reloading s u i (.updating phase))
    (hA : s.toCenter.Assembled m q) (hagrees : s.toCenter.Agrees m q) (hU : s.settings.Usable)
    (hlogger : s.config.logger_ = true) (hread : s.readable = false)
    (hphase : phase ∈ [.reread, .notify, .getMinMax, .updateQueue, .compareOperators]) :
    ∃ v, (system hash).step u (.advance i) = some v ∧
      Reloading s v i (.updating phase.afterAgreed) := by
  have hset : u.settings = s.settings := hu.unchanged.settings
  have hreadable : ThreadSafeConfig.readable u.config.logger_ u.content = false := by
    rw [hu.logger_, hu.content, ← hlogger]
    exact hread
  obtain ⟨d, hrun, hsame, hlocked, hl⟩ := Center.unchanged_phase (hu.unchanged.assembled hA)
    (hu.unchanged.agrees hagrees) (hset ▸ hU) hu.logger_ hreadable hphase (hu.locked phase rfl)
  have hfree : ¬ (phase = .notify ∧ u.manager ≠ none ∧ u.locked = true) := by
    rintro ⟨hn, -, hlock⟩
    have hnot := hu.locked phase rfl
    rw [hn, hlock] at hnot
    cases hnot
  have hne : phase ≠ .stamp := by
    rintro rfl
    simp at hphase
  obtain ⟨⟨o, v⟩, hadv⟩ : ∃ r, u.advance (.request i) phase = some r := ⟨_, if_neg hfree⟩
  obtain ⟨rfl, hc⟩ := Prod.mk.inj (hrun.symm.trans (advance_center hadv))
  obtain ⟨hfile, -, hreq, -, hterm⟩ := advance_frame hadv
  have hstep : (system hash).step u (.advance i) = _ := step_request hu.running hu.stands hne
  rw [hadv] at hstep
  refine ⟨_, hstep, ?_⟩
  obtain ⟨hlt, -⟩ := List.getElem?_eq_some_iff.mp hu.stands
  refine ⟨?_, ?_, ?_, ?_, ?_, ?_⟩
  · show s.toCenter.Unchanged v.toCenter
    rw [← hc]
    exact hu.unchanged.trans hsame
  · show (v.requests.set i _)[i]? = _
    rw [hreq, List.getElem?_set_self hlt]
  · show v.file.bind (fun f => f.content) = s.content
    rw [hfile]
    exact hu.content
  · show v.toCenter.config.logger_ = true
    rw [← hc]
    exact hl
  · exact hterm.trans hu.running
  · intro phase' hp
    cases hp
    show v.toCenter.locked = _
    rw [← hc]
    exact hlocked

theorem Reloading.stamp (hu : Reloading s u i (.updating .stamp)) :
    ∃ v, (system hash).step u (.advance i) = some v ∧ Reloading s v i .checking := by
  have hstep : (system hash).step u (.advance i) =
      some ((u.stampWith (toTimeT u.clock)).setRequest i .checking) := by
    simp only [system, hu.running, move, stepRequest, hu.stands]
    rfl
  obtain ⟨hlt, -⟩ := List.getElem?_eq_some_iff.mp hu.stands
  refine ⟨_, hstep, ⟨?_, ?_, hu.content, hu.logger_, hu.running, fun _ hp => by cases hp⟩⟩
  · exact hu.unchanged.trans ⟨rfl, rfl, rfl, rfl, rfl⟩
  · show (u.requests.set i _)[i]? = _
    rw [List.getElem?_set_self hlt]

/-- Where a request stands after `k` steps of a reload that has nothing to do. -/
def reloadPlace : Nat → Place
  | 0 => .updating .reread
  | 1 => .updating .notify
  | 2 => .updating .getMinMax
  | 3 => .updating .updateQueue
  | 4 => .updating .compareOperators
  | 5 => .updating .stamp
  | _ => .checking

theorem Reloading.run (hu : Reloading s u i (reloadPlace 0)) (hA : s.toCenter.Assembled m q)
    (hagrees : s.toCenter.Agrees m q) (hU : s.settings.Usable) (hlogger : s.config.logger_ = true)
    (hread : s.readable = false) (k : Nat) (hk : k ≤ 6) :
    ∃ v, (system hash).run u (List.replicate k (.advance i)) = some v ∧
      Reloading s v i (reloadPlace k) := by
  induction k with
  | zero => exact ⟨u, rfl, hu⟩
  | succ k ih =>
    obtain ⟨v, hrun, hv⟩ := ih (by omega)
    have hnext : ∃ w, (system hash).step v (.advance i) = some w ∧
        Reloading s w i (reloadPlace (k + 1)) := by
      match k, hv with
      | 0, hv => exact hv.phase hA hagrees hU hlogger hread (by decide)
      | 1, hv => exact hv.phase hA hagrees hU hlogger hread (by decide)
      | 2, hv => exact hv.phase hA hagrees hU hlogger hread (by decide)
      | 3, hv => exact hv.phase hA hagrees hU hlogger hread (by decide)
      | 4, hv => exact hv.phase hA hagrees hU hlogger hread (by decide)
      | 5, hv => exact hv.stamp
      | k + 6, _ => omega
    obtain ⟨w, hstep, hw⟩ := hnext
    refine ⟨w, ?_, hw⟩
    rw [List.replicate_succ']
    exact Transition.System.run_concat hrun hstep

end

theorem logger_of_run {hash : ThreadId → UInt64} {s t : Server} {es : List Step}
    (h : (system hash).run s es = some t) : t.config.logger_ = s.config.logger_ :=
  Transition.System.run_inv (I := fun u => u.config.logger_ = s.config.logger_)
    (fun _ _ _ hu hstep => (system_step hstep).2.sameLogger.trans hu) h rfl

theorem init_logger (file : Option File) (clock : TimePoint) (logger : Bool) :
    (init file clock logger).config.logger_ = logger := by
  unfold init ThreadSafeConfig.construct
  cases ThreadSafeConfig.load (file.bind (fun f => f.content)) <;> rfl

theorem Repairing.unlocked {s : Server} (hs : s.Repairing) (hq : s.Quiescent) : s.locked = false := by
  cases hl : s.locked with
  | false => rfl
  | true =>
    obtain ⟨who, phase, hb, -⟩ := hs.steady.exclusive.locked.mp hl
    rw [hq who] at hb
    cases hb

/-- A reload that fails, from its request to its answer, changes nothing. -/
theorem failed_reload_unchanged (hash : ThreadId → UInt64) (maxThreads : Nat) (file : Option File)
    (clock : TimePoint) (s₀ s : Server) (es : List Step)
    (hints : (init file clock true).content.Ints) (hmax : maxThreads < 2 ^ 31)
    (hbuilt : Built hash maxThreads file clock s₀) (hes : ∀ e ∈ es, e ≠ .updateConfig)
    (h : (system hash).run s₀ es = some s) (hrunning : s.terminated = false) (hq : s.Quiescent)
    (hread : s.readable = false) :
    ∃ n, (∃ t, (system hash).run s (.request :: List.replicate n (.advance s.requests.length)) =
        some t ∧ t.requests[s.requests.length]? = some .checking) ∧
      ∀ k, k ≤ n → ∀ t, (system hash).run s
        (.request :: List.replicate k (.advance s.requests.length)) = some t →
        s.toCenter.Unchanged t.toCenter := by
  obtain ⟨hU₀, hs₀⟩ := hbuilt.usable hints hmax
  have hsettled : s₀.Settled := by
    rw [hs₀]
    exact settled_construct hU₀ (fun who => by cases who <;> rfl) rfl
  -- the manager works with the values of the configuration
  have hrepairing := hsettled.repairing.run hes h
  obtain ⟨m, q, hA, hagrees⟩ := hrepairing.agrees hq
  have hlogger : s.config.logger_ = true := by
    have h₀ := logger_of_run (Transition.System.run_cons_some.mpr ⟨s₀, hbuilt.constructed, h⟩)
    rw [h₀, init_logger]
  have hlocked : s.locked = false := hrepairing.unlocked hq
  cases hno : s.config.notToUpdate with
  | true =>
    -- updates are off, and the request goes straight to the check
    have hstep : (system hash).step s .request =
        some { s with requests := s.requests ++ [.checking] } := by
      simp [system, hrunning, move, hno]
    refine ⟨0, ⟨_, Transition.System.run_cons_some.mpr ⟨_, hstep, rfl⟩, ?_⟩, fun k hk t ht => ?_⟩
    · simp
    · obtain rfl : k = 0 := by omega
      rw [List.replicate_zero, Transition.System.run_cons, hstep] at ht
      cases ht
      exact ⟨rfl, rfl, rfl, rfl, rfl⟩
  | false =>
    have hstep : (system hash).step s .request =
        some { s with requests := s.requests ++ [.updating .reread] } := by
      simp [system, hrunning, move, hno]
    have hstart : Reloading s { s with requests := s.requests ++ [.updating .reread] }
        s.requests.length (reloadPlace 0) := by
      refine ⟨⟨rfl, rfl, rfl, rfl, rfl⟩, ?_, rfl, hlogger, hrunning, fun _ hp => ?_⟩
      · simp [reloadPlace]
      · cases hp
        exact hlocked
    have hrun : ∀ k, k ≤ 6 → ∃ t, (system hash).run s
        (.request :: List.replicate k (.advance s.requests.length)) = some t ∧
        Reloading s t s.requests.length (reloadPlace k) := by
      intro k hk
      obtain ⟨t, ht, hreload⟩ := hstart.run hA hagrees hrepairing.usable hlogger hread k hk
      exact ⟨t, Transition.System.run_cons_some.mpr ⟨_, hstep, ht⟩, hreload⟩
    refine ⟨6, ?_, fun k hk t ht => ?_⟩
    · obtain ⟨t, ht, hreload⟩ := hrun 6 (Nat.le_refl 6)
      exact ⟨t, ht, hreload.stands⟩
    · obtain ⟨t', ht', hreload⟩ := hrun k hk
      rw [ht] at ht'
      cases ht'
      exact hreload.unchanged

/-! A file that lost a key, re-read by the first request. -/

def keyLost : FileContent :=
  some [("RMin", some 20), ("RMax", some 30), ("AmountOfOperators", some 4)]

theorem built_baseFile : Built (fun _ => 7) 1000 (some baseFile) 0
    (settleConstruct ((init (some baseFile) 0 true).perform buildManager)) := by
  refine ⟨step_construct _ rfl rfl, by decide +kernel, fun p hp => ?_⟩
  have hcount : (settleConstruct ((init (some baseFile) 0 true).perform buildManager)).world.poolCount = 1 := by
    decide +kernel
  obtain rfl : p = 0 := by omega
  decide +kernel

theorem failed_reload_keyLost : ∃ s, (system (fun _ => 7)).run
    (settleConstruct ((init (some baseFile) 0 true).perform buildManager)) [.edit keyLost] = some s ∧
    ∃ n, (∃ t, (system (fun _ => 7)).run s (.request :: List.replicate n (.advance s.requests.length)) =
        some t ∧ t.requests[s.requests.length]? = some .checking) ∧
      ∀ k, k ≤ n → ∀ t, (system (fun _ => 7)).run s
        (.request :: List.replicate k (.advance s.requests.length)) = some t →
        s.toCenter.Unchanged t.toCenter := by
  let s₀ := settleConstruct ((init (some baseFile) 0 true).perform buildManager)
  have hrun : (system (fun _ => 7)).run s₀ [.edit keyLost] =
      some { s₀.observe .edited with file := some ⟨keyLost, s₀.clock⟩ } := rfl
  refine ⟨_, hrun, failed_reload_unchanged (fun _ => 7) 1000 (some baseFile) 0 s₀ _ [.edit keyLost]
    ?_ (by decide) built_baseFile ?_ hrun (by decide +kernel) ?_ (by decide +kernel)⟩
  · intro tree htree key n hmem
    cases htree
    simp at hmem
    omega
  · intro e he heq
    subst heq
    simp at he
  · exact quiescent_of_places (by decide +kernel) (by decide +kernel)

end Server

end ProteiCov
