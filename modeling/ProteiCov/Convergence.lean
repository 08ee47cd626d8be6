import ProteiCov.Reload

/-
  What the server works with after the file was edited

  `run_update` says what `Manager::update` leaves, from any state of the manager, as long
  as its pool has a queue: the durations, the limit and the pool of the configuration.
  `reload_applies` puts the re-read of a file before it and the answer after it.
-/

namespace ProteiCov
open Cpp

namespace Center
variable {c d : Center} {m : Manager} {q : QueueRef} {content : FileContent}

/-- The pool of the manager after an update. -/
def nextPool (c : Center) (m : Manager) : PoolRef :=
  if c.Differs m then c.world.poolCount else m.threadPool_

/-- The heap after an update. -/
def nextWorld (c : Center) (m : Manager) (q : QueueRef) : World :=
  let w := (c.limited q c.settings.SizeOfQueue).world
  if c.Differs m then replaced w m c.settings.AmountOfOperators c.settings.SizeOfQueue else w

/-- What an update leaves. -/
structure Applied (c d : Center) (m : Manager) (q : QueueRef) : Prop where
  config : ThreadSafeConfig.Same c.config d.config
  manager : d.manager = some { m.setMinMax (c.settings.RMin, c.settings.RMax) with
    threadPool_ := c.nextPool m }
  world : d.world = c.nextWorld m q
  locked : d.locked = false

theorem run_held {phase next : Phase} (h : phase.holds = true)
    (hrun : (phase.run content).run c = (.ok next, d)) (n : Nat) :
    ((Phase.pieces content).whole (n + 1) phase).run c = ((Phase.pieces content).whole n next).run d := by
  rw [Phase.whole_held content h, Exec.run_bind_ok (unlocking_ok.mpr hrun)]

theorem run_whole_stamp (n : Nat) (c : Center) :
    ((Phase.pieces content).whole n .stamp).run c = (.ok .stamp, c) := by
  rw [Pieces.whole_end (P := Phase.pieces content) (p := .stamp) rfl]
  rfl

theorem run_locked (hA : c.Assembled m q) (hsize : Manager.Reservable c.settings.SizeOfQueue) :
    ∃ d, ((Phase.pieces content).whole 6 .getMinMax).run c = (.ok .stamp, d) ∧ Applied c d m q := by
  have hmin := SameSetup.asked ThreadSafeConfig.Same.getMinMax
  have hque := SameSetup.asked ThreadSafeConfig.Same.getSizeOfQueue
  have hops := SameSetup.asked ThreadSafeConfig.Same.getAmountOfOperators
  let m₁ := m.setMinMax (c.settings.RMin, c.settings.RMax)
  let c₁ : Center := { c.asked ThreadSafeConfig.getMinMax with manager := some m₁ }
  let c₂ := (c₁.asked ThreadSafeConfig.getSizeOfQueue).limited q c₁.settings.SizeOfQueue
  let c₃ := c₂.asked ThreadSafeConfig.getAmountOfOperators
  have hset₁ : c₁.settings = c.settings := (hmin c).settings
  have hset₂ : c₂.settings = c.settings := (hque c₁).settings.trans hset₁
  have hset₃ : c₃.settings = c.settings := (hops c₂).settings.trans hset₂
  have hA₁ : c₁.Assembled m₁ q := ⟨rfl, hA.pool, hA.task_queue, hA.queue⟩
  have hA₂ : c₂.Assembled m₁ q := ⟨rfl, hA.pool, hA.task_queue, hA.queue⟩
  have hworld : c₂.world = (c.limited q c.settings.SizeOfQueue).world := by
    show (c₁.limited q c₁.settings.SizeOfQueue).world = _
    rw [hset₁]
    rfl
  have hconfig : ThreadSafeConfig.Same c.config c₃.config := by
    refine ThreadSafeConfig.Same.trans _ _ _ (ThreadSafeConfig.Same.getMinMax c.config) ?_
    refine ThreadSafeConfig.Same.trans _ _ _ (ThreadSafeConfig.Same.getSizeOfQueue c₁.config) ?_
    exact ThreadSafeConfig.Same.getAmountOfOperators c₂.config
  have hdiffers : c₂.Differs m₁ ↔ c.Differs m := by
    unfold Differs
    rw [hset₂]
    exact Iff.rfl
  rw [run_held rfl (run_getMinMax hA.manager), run_held rfl (run_updateQueue hA₁)]
  by_cases hdiff : c.Differs m
  · -- the pool is replaced, with the values as they are read once more
    let c₄ := c₃.asked ThreadSafeConfig.getAmountOfOperators
    let c₅ := c₄.asked ThreadSafeConfig.getSizeOfQueue
    have hset₄ : c₄.settings = c.settings := (hops c₃).settings.trans hset₃
    have hA₅ : c₅.Assembled m₁ q :=
      (hque c₄).assembled ((hops c₃).assembled ((hops c₂).assembled hA₂))
    rw [run_held rfl (run_differs hA₂.manager (hdiffers.mpr hdiff)),
      run_held rfl (run_readOperators c₃), run_held rfl (run_readSize c₄ _),
      run_held rfl (run_install hA₅ (by rw [hset₄]; exact hsize)), run_whole_stamp]
    refine ⟨_, rfl, ?_, ?_, ?_, rfl⟩
    · refine ThreadSafeConfig.Same.trans _ _ _ hconfig ?_
      exact ThreadSafeConfig.Same.trans _ _ _ (ThreadSafeConfig.Same.getAmountOfOperators c₃.config)
        (ThreadSafeConfig.Same.getSizeOfQueue c₄.config)
    · unfold nextPool
      rw [if_pos hdiff]
      rfl
    · show replaced c₂.world m₁ c₃.settings.AmountOfOperators c₄.settings.SizeOfQueue = _
      rw [hset₃, hset₄, hworld]
      exact (if_pos hdiff).symm
  · rw [run_held rfl (run_same hA₂.manager (fun h => hdiff (hdiffers.mp h))), run_whole_stamp]
    refine ⟨_, rfl, hconfig, ?_, ?_, rfl⟩
    · unfold nextPool
      rw [if_neg hdiff]
      rfl
    · show c₂.world = _
      rw [hworld]
      exact (if_neg hdiff).symm

/-- What `Manager::update` leaves, whatever the manager worked with before. -/
theorem run_update (hA : c.Assembled m q) (hsize : Manager.Reservable c.settings.SizeOfQueue) :
    ∃ d, update.run c = (.ok (), d) ∧ Applied c d m q := by
  have hA' : ({ c with locked := true } : Center).Assembled m q :=
    ⟨hA.manager, hA.pool, hA.task_queue, hA.queue⟩
  obtain ⟨d, hrun, happlied⟩ := @run_locked { c with locked := true } m q none hA' hsize
  have hstamp : (update >>= fun _ => pure Phase.stamp).run c = (.ok .stamp, d) := by
    rw [← Phase.whole_update none]
    exact hrun
  obtain ⟨_, e, hupdate, hpure⟩ := Exec.bind_eq_ok hstamp
  cases hpure
  exact ⟨d, hupdate, happlied.config, happlied.manager, happlied.world, happlied.locked⟩

theorem run_notifying (hA : c.Assembled m q) (hsize : Manager.Reservable c.settings.SizeOfQueue) :
    ∃ d, notify.run c = (.ok (), d) ∧ Applied c d m q := by
  obtain ⟨d, hrun, happlied⟩ := run_update hA hsize
  have hget : (Exec.get id : Exec Center Center).run c = (.ok c, c) := rfl
  refine ⟨d, ?_, happlied⟩
  rw [notify, Exec.run_bind_ok hget, hA.manager]
  exact hrun

/-! What an applied configuration is. -/

namespace Applied

theorem settings (h : Applied c d m q) : d.settings = c.settings := h.config.settings

theorem world_of_same (h : Applied c d m q) (hsame : ¬ c.Differs m) :
    d.world = (c.limited q c.settings.SizeOfQueue).world := h.world.trans (if_neg hsame)

theorem world_of_differs (h : Applied c d m q) (hdiff : c.Differs m) :
    d.world = replaced (c.limited q c.settings.SizeOfQueue).world m c.settings.AmountOfOperators
      c.settings.SizeOfQueue := h.world.trans (if_pos hdiff)

theorem queue (h : Applied c d m q) (hA : c.Assembled m q) : d.world.queues q =
    { c.world.queues q with sizeOfQueue := toSizeT c.settings.SizeOfQueue } := by
  have hlimited : (c.limited q c.settings.SizeOfQueue).world.queues q =
      { c.world.queues q with sizeOfQueue := toSizeT c.settings.SizeOfQueue } := Function.update_self _ _ _
  by_cases hdiff : c.Differs m
  · rw [h.world_of_differs hdiff]
    exact (replaced_queues (w := (c.limited q c.settings.SizeOfQueue).world) hA.queue).trans hlimited
  · rw [h.world_of_same hdiff, hlimited]

theorem calls (h : Applied c d m q) : d.world.tasks = c.world.tasks ∧
    d.world.taskCount = c.world.taskCount ∧ d.world.trace = c.world.trace := by
  by_cases hdiff : c.Differs m
  · rw [h.world_of_differs hdiff]
    exact ⟨rfl, rfl, rfl⟩
  · rw [h.world_of_same hdiff]
    exact ⟨rfl, rfl, rfl⟩

theorem assembled (h : Applied c d m q) (hA : c.Assembled m q) :
    d.Assembled { m.setMinMax (c.settings.RMin, c.settings.RMax) with threadPool_ := c.nextPool m } q := by
  by_cases hdiff : c.Differs m
  · have hnext : c.nextPool m = c.world.poolCount := if_pos hdiff
    refine ⟨h.manager, ?_, ?_, ?_⟩ <;> rw [h.world_of_differs hdiff]
    · rw [hnext]
      exact Nat.lt_succ_self _
    · rw [hnext]
      exact (replaced_task_queue (w := (c.limited q c.settings.SizeOfQueue).world) hA.pool).trans
        hA.task_queue
    · exact Nat.lt_succ_of_lt hA.queue
  · have hnext : c.nextPool m = m.threadPool_ := if_neg hdiff
    refine ⟨h.manager, ?_, ?_, ?_⟩ <;> rw [h.world_of_same hdiff]
    · rw [hnext]
      exact hA.pool
    · rw [hnext]
      exact hA.task_queue
    · exact hA.queue

theorem agrees (h : Applied c d m q) (hA : c.Assembled m q) (hU : c.settings.Usable) :
    d.Agrees { m.setMinMax (c.settings.RMin, c.settings.RMax) with threadPool_ := c.nextPool m } q := by
  refine ⟨?_, ?_, ?_⟩
  · unfold DurationsAgree
    rw [h.settings]
    exact ⟨rfl, rfl⟩
  · unfold LimitAgrees
    rw [h.settings, h.queue hA]
    exact toSizeT_cast hU.queue
  · show ((d.world.pools (c.nextPool m)).size : Int) = d.settings.AmountOfOperators
    rw [h.settings]
    by_cases hdiff : c.Differs m
    · have hnext : c.nextPool m = c.world.poolCount := if_pos hdiff
      have hsize : ((replaced (c.limited q c.settings.SizeOfQueue).world m c.settings.AmountOfOperators
          c.settings.SizeOfQueue).pools c.world.poolCount).size = toUnsigned c.settings.AmountOfOperators :=
        replaced_size (w := (c.limited q c.settings.SizeOfQueue).world)
      rw [h.world_of_differs hdiff, hnext, hsize]
      exact toUnsigned_cast hU.operators
    · have hnext : c.nextPool m = m.threadPool_ := if_neg hdiff
      rw [h.world_of_same hdiff, hnext]
      show ((c.world.pools m.threadPool_).size : Int) = _
      rw [← not_not.mp hdiff]
      exact toSizeT_cast hU.operators

/-- A pool of the right size is kept as it is. -/
theorem kept (h : Applied c d m q) (hsame : ¬ c.Differs m) :
    c.nextPool m = m.threadPool_ ∧ d.world.pools = c.world.pools ∧ d.world.poolCount = c.world.poolCount := by
  rw [h.world_of_same hsame]
  exact ⟨if_neg hsame, rfl, rfl⟩

/-- Otherwise a new one runs over the same queue, and the old one is stopped for good. -/
theorem renewed (h : Applied c d m q) (hA : c.Assembled m q) (hdiff : c.Differs m) :
    c.nextPool m = c.world.poolCount ∧ d.world.poolCount = c.world.poolCount + 1 ∧
      d.world.pools c.world.poolCount =
        { task_queue := some q, size := toUnsigned c.settings.AmountOfOperators, stopped := false,
          paused := false, waitForCompletion := false, logger_ := m.logger_ } ∧
      d.world.pools m.threadPool_ =
        { (c.world.pools m.threadPool_).suspended with stopped := true } := by
  have hne : m.threadPool_ ≠ c.world.poolCount := Nat.ne_of_lt hA.pool
  rw [h.world_of_differs hdiff]
  refine ⟨if_pos hdiff, rfl, ?_, ?_⟩
  · simp [replaced, Manager.swapped, World.withPool, limited, hne, hA.task_queue, ThreadPool.fresh,
      ThreadPool.resumed]
  · simp [replaced, Manager.swapped, World.withPool, limited, hne]

end Applied

/-- `setNewConfig`: the manager works with the values of the configuration it is given. -/
theorem run_setNewConfig (hA : c.Assembled m q) {config : ThreadSafeConfig}
    (hU : (ProteiCov.settings config.data_).Usable) :
    ∃ d m', (setNewConfig config).run c = (.ok (), d) ∧ d.Assembled m' q ∧ d.Agrees m' q := by
  let c₁ : Center := { c with config := config }
  have hA₁ : c₁.Assembled m q := ⟨hA.manager, hA.pool, hA.task_queue, hA.queue⟩
  have hmodify : (Exec.modify (fun c : Center => { c with config := config })).run c = (.ok (), c₁) := rfl
  obtain ⟨d, hrun, happlied⟩ := run_update hA₁ (reservable_of_int hU.queue)
  refine ⟨d, _, ?_, happlied.assembled hA₁, happlied.agrees hA₁ hU⟩
  rw [setNewConfig, Exec.run_bind_ok hmodify]
  exact hrun

/-- What a request for an update leaves, where the file could be read. -/
structure Reloaded (c d : Center) (m m' : Manager) (q : QueueRef) (data : Data) : Prop where
  settings : d.settings = (ProteiCov.settings data).normalize
  assembled : d.Assembled m' q
  agrees : d.Agrees m' q
  queue : d.world.queues q = { c.world.queues q with sizeOfQueue := (d.world.queues q).sizeOfQueue }
  calls : d.world.tasks = c.world.tasks ∧ d.world.taskCount = c.world.taskCount ∧
    d.world.trace = c.world.trace
  kept : d.settings.AmountOfOperators = c.settings.AmountOfOperators →
    m'.threadPool_ = m.threadPool_ ∧ d.world.pools = c.world.pools ∧ d.world.poolCount = c.world.poolCount
  renewed : d.settings.AmountOfOperators ≠ c.settings.AmountOfOperators →
    m'.threadPool_ = c.world.poolCount ∧ d.world.poolCount = c.world.poolCount + 1 ∧
      d.world.pools m'.threadPool_ =
        { task_queue := some q, size := toUnsigned d.settings.AmountOfOperators, stopped := false,
          paused := false, waitForCompletion := false, logger_ := m.logger_ } ∧
      d.world.pools m.threadPool_ = { (c.world.pools m.threadPool_).suspended with stopped := true }

/-- `processRequestForUpdate` on a file that can be read: the answer is true. -/
theorem run_processRequestForUpdate (hA : c.Assembled m q) (hsize : c.SizeAgrees m)
    (hon : c.config.notToUpdate = false) {data : Data}
    (hread : ThreadSafeConfig.accepted c.config.logger_ content = .ok data) (now : TimePoint) :
    ∃ d m', (processRequestForUpdate content now).run c = (.ok true, d) ∧ Reloaded c d m m' q data := by
  let c₁ : Center := { c with config := c.config.reloaded data }
  have hset₁ : c₁.settings = (ProteiCov.settings data).normalize := settings_normalizeData data
  have hrange : c₁.settings.InRange := normalizeData_inRange data
  have hA₁ : c₁.Assembled m q := ⟨hA.manager, hA.pool, hA.task_queue, hA.queue⟩
  obtain ⟨d, hnotify, happlied⟩ := run_notifying hA₁ (reservable_of_int hrange.usable.queue)
  have hreload : (reload content).run c = (.ok (), d) := by
    have hconfig : (onConfig (ThreadSafeConfig.updateConfig content)).run c = (.ok (), c₁) := by
      show (((ThreadSafeConfig.updateConfig content).run c.config).1,
        { c with config := ((ThreadSafeConfig.updateConfig content).run c.config).2 }) = _
      rw [ThreadSafeConfig.run_updateConfig_ok hread]
    rw [reload, Exec.run_bind_ok hconfig]
    exact hnotify
  let d₁ : Center := { d with config := { d.config with lastWriteTime := toTimeT now } }
  let d₂ : Center := { d₁ with config := { d₁.config with updated := false } }
  have hupdated : d.config.updated = true := happlied.config.updated
  have hwith : (updateWithRequest content now).run c = (.ok (), d₁) := by
    have hget : (Exec.get id : Exec Center Center).run c = (.ok c, c) := rfl
    rw [updateWithRequest, Exec.run_bind_ok hget, hon]
    exact Exec.run_bind_ok hreload
  have hanswer : (onConfig ThreadSafeConfig.isUpdated).run d₁ = (.ok true, d₂) := by
    rw [← hupdated]
    rfl
  refine ⟨d₂, { m.setMinMax (c₁.settings.RMin, c₁.settings.RMax) with threadPool_ := c₁.nextPool m }, ?_, ?_⟩
  · rw [processRequestForUpdate, Exec.run_bind_ok hwith, hanswer]
  · have hset : d₂.settings = (ProteiCov.settings data).normalize := happlied.settings.trans hset₁
    have hasked : c₁.settings.AmountOfOperators = d₂.settings.AmountOfOperators :=
      congrArg Settings.AmountOfOperators (hset₁.trans hset.symm)
    have hdiffers : c₁.Differs m ↔ d₂.settings.AmountOfOperators ≠ c.settings.AmountOfOperators := by
      have hcast := toSizeT_cast hrange.usable.operators
      have hpool : ((c.world.pools m.threadPool_).size : Int) = c.settings.AmountOfOperators := hsize
      have hworld : c₁.world = c.world := rfl
      unfold Differs
      rw [hworld, ← hasked]
      omega
    refine ⟨hset, ?_, ?_, ?_, happlied.calls, fun hsame => ?_, fun hdiff => ?_⟩
    · have hd := happlied.assembled hA₁
      exact ⟨hd.manager, hd.pool, hd.task_queue, hd.queue⟩
    · have hd := happlied.agrees hA₁ hrange.usable
      exact ⟨hd.durations, hd.limit, hd.size⟩
    · show d.world.queues q = { c.world.queues q with sizeOfQueue := (d.world.queues q).sizeOfQueue }
      rw [happlied.queue hA₁]
    · exact happlied.kept (fun hd => hdiffers.mp hd hsame)
    · obtain ⟨hnext, hcount, hnew, hold⟩ := happlied.renewed hA₁ (hdiffers.mpr hdiff)
      refine ⟨hnext, hcount, ?_, hold⟩
      rw [← hasked]
      show d.world.pools (c₁.nextPool m) = _
      rw [hnext]
      exact hnew

end Center

namespace Server
variable {hash : ThreadId → UInt64} {s t : Server}

theorem Built.repairing {maxThreads : Nat} {file : Option File} {clock : TimePoint} {s₀ : Server}
    {es : List Step} (hints : (init file clock true).content.Ints) (hmax : maxThreads < 2 ^ 31)
    (hbuilt : Built hash maxThreads file clock s₀) (hes : ∀ e ∈ es, e ≠ .updateConfig)
    (h : (system hash).run s₀ es = some s) : s.Repairing ∧ s.config.logger_ = true := by
  obtain ⟨hU₀, hs₀⟩ := hbuilt.usable hints hmax
  have hsettled : s₀.Settled := by
    rw [hs₀]
    exact settled_construct hU₀ (fun who => by cases who <;> rfl) rfl
  refine ⟨hsettled.repairing.run hes h, ?_⟩
  rw [logger_of_run (Transition.System.run_cons_some.mpr ⟨s₀, hbuilt.constructed, h⟩), init_logger]

theorem MoveStep.sameNotToUpdate {e : Step} (h : MoveStep hash s e t) :
    t.config.notToUpdate = s.config.notToUpdate := by
  by_cases he : e = .stopThread
  · subst he
    cases h with
    | stopThread => rfl
    | call hcall => cases hcall
  · exact (h.sameBasis he).notToUpdate

/-- A server that was built on a file it could read never has updates off. -/
theorem Built.updatable {maxThreads : Nat} {file : Option File} {clock : TimePoint} {s₀ : Server}
    {es : List Step} {first : Data} (hvalid : ThreadSafeConfig.load (init file clock true).content = .ok first)
    (hbuilt : Built hash maxThreads file clock s₀) (h : (system hash).run s₀ es = some s) :
    s.config.notToUpdate = false := by
  have hinit : (init file clock true).config.notToUpdate = false := by
    unfold init ThreadSafeConfig.construct
    rw [show ThreadSafeConfig.load (file.bind (fun f => f.content)) = .ok first from hvalid]
  exact Transition.System.run_inv (I := fun u : Server => u.config.notToUpdate = false)
    (fun _ _ _ hu hstep => (system_step hstep).2.sameNotToUpdate.trans hu)
    (Transition.System.run_cons_some.mpr ⟨s₀, hbuilt.constructed, h⟩) hinit

/-- Where the server was built on a file it could read, a request for an update that finds
a file it can read, and nobody else updating, is answered with true; from then on the
server works with the values of the file. -/
theorem reload_applies (hash : ThreadId → UInt64) (maxThreads : Nat) (file : Option File)
    (clock : TimePoint) (s₀ s : Server) (es : List Step) (first data : Data)
    (hvalid : ThreadSafeConfig.load (init file clock true).content = .ok first)
    (hints : (init file clock true).content.Ints) (hmax : maxThreads < 2 ^ 31)
    (hbuilt : Built hash maxThreads file clock s₀) (hes : ∀ e ∈ es, e ≠ .updateConfig)
    (h : (system hash).run s₀ es = some s) (hrunning : s.terminated = false) (hq : s.Quiescent)
    (hread : ThreadSafeConfig.accepted true s.content = .ok data) :
    ∃ k t m m' q, k ≤ 10 ∧
      (system hash).run s (.request :: List.replicate k (.advance s.requests.length)) = some t ∧
      t.requests = s.requests ++ [.replied true] ∧ s.toCenter.Assembled m q ∧
      s.toCenter.Reloaded t.toCenter m m' q data := by
  obtain ⟨hrepairing, hlogger⟩ := hbuilt.repairing hints hmax hes h
  obtain ⟨m, q, hA, hagrees⟩ := hrepairing.agrees hq
  obtain ⟨d, m', hrun, hreloaded⟩ := Center.run_processRequestForUpdate hA hagrees.size
    (hbuilt.updatable hvalid h) (hlogger.symm ▸ hread) s.clock
  obtain ⟨k, t, hk, ht, -, -, -, hresponds⟩ := request_runs hash hrunning (hrepairing.unlocked hq)
  rw [hrun] at hresponds
  obtain ⟨hreq, -, -⟩ := hresponds.place (.replied true) rfl
  exact ⟨k, t, m, m', q, hk, ht, hreq, hA, hresponds.center ▸ hreloaded⟩

theorem baseFile_ints : (init (some baseFile) 0 true).content.Ints := by
  intro tree htree key n hmem
  cases htree
  simp at hmem
  omega

/-- The members of `mixedSecond`, which asks for one operator less. -/
def mixedData : Data :=
  (((Map.empty.assign "RMin" 6).assign "RMax" 9).assign "AmountOfOperators" 3).assign "SizeOfQueue" 50

theorem reload_applies_mixed : ∃ s, (system (fun _ => 7)).run builtBase [.edit mixedSecond] = some s ∧
    ∃ k t m m' q, k ≤ 10 ∧ (system (fun _ => 7)).run s
        (.request :: List.replicate k (.advance s.requests.length)) = some t ∧
      t.requests = s.requests ++ [.replied true] ∧ s.toCenter.Assembled m q ∧
      s.toCenter.Reloaded t.toCenter m m' q mixedData := by
  have hrun : (system (fun _ => 7)).run builtBase [.edit mixedSecond] =
      some { builtBase.observe .edited with file := some ⟨mixedSecond, builtBase.clock⟩ } := rfl
  refine ⟨_, hrun, reload_applies (fun _ => 7) 1000 (some baseFile) 0 builtBase _ [.edit mixedSecond]
    _ mixedData rfl baseFile_ints (by decide) built_baseFile ?_ hrun (by decide +kernel) ?_ rfl⟩
  · intro e he heq
    subst heq
    simp at he
  · exact quiescent_of_places (by decide +kernel) (by decide +kernel)

end Server

end ProteiCov
