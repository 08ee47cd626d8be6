import ProteiCov.UpdateReply

/-
  Edits of the configuration file

  The monitor re-reads the file when its time of last writing, in whole seconds,
  is greater than `lastWriteTime`. So an edit is seen as long as, whenever the
  monitor sleeps, a file that was not read yet has a later second than
  `lastWriteTime`; that is the invariant `Seen.behind`. Two kinds of steps can break
  it: an edit in the second of `lastWriteTime` or before it, and a write of
  `lastWriteTime` made after the file was edited and before it was read again.
  `edits_seen` says that nothing else can.
-/

namespace ProteiCov
open Cpp

/-- The file was edited since it was last read successfully by `updateConfig`;
`start` says the same of the reading made by the constructor. -/
def Unread (start : Prop) : List Effect → Prop
  | [] => start
  | .edited :: _ => True
  | .reread _ true :: _ => False
  | _ :: es => Unread start es

/-- The file was not edited since the last poll began. -/
def pollClean : List Effect → Bool
  | [] => false
  | .edited :: _ => false
  | .pollBegan :: _ => true
  | _ :: es => pollClean es

/-- A poll that began after the last edit has completed. -/
def polled : List Effect → Bool
  | [] => false
  | .edited :: _ => false
  | .pollEnded :: es => pollClean es || polled es
  | _ :: es => polled es

namespace Server

/-- The values in use are the normalised content of the file. -/
def Current (s : Server) : Prop :=
  ∃ f data, s.file = some f ∧ ThreadSafeConfig.accepted s.config.logger_ f.content = .ok data ∧
    s.config.data_ = normalizeData data

/-- Once a poll that began after the last edit has completed, and no request is
updating, the values in use are those of the file. -/
def EditsSeen (s : Server) : Prop :=
  polled s.trace = true → (∀ phase, .updating phase ∉ s.requests) → s.Current

/-- The second in which the file was last written is after `t`. -/
def WrittenAfter (s : Server) (t : Int) : Prop := ∀ f, s.file = some f → t < toTimeT f.time

/-- Writing `t` to `lastWriteTime` hides no edit: the file was read since it was
last edited, or it was written in a later second than `t`. -/
def MayStamp (start : Prop) (s : Server) (t : Int) : Prop :=
  ¬ Unread start s.trace ∨ s.WrittenAfter t

/-- The file is there throughout and every edit leaves a valid one. -/
def ValidEdit (s : Server) : Step → Prop
  | .edit content => ThreadSafeConfig.readable s.config.logger_ content = true
  | .remove => False
  | _ => True

/-- The step does not race with the stamps. While the monitor sleeps, the file is
edited in a later second than `lastWriteTime`, and the stamp of a request hides no
edit; the stamps of the monitor hide none either. -/
def NoRace (start : Prop) (s : Server) : Step → Prop
  | .edit _ => s.monitor = .sleeping → s.config.lastWriteTime < toTimeT s.clock
  | .advance i =>
    s.requests[i]? = some (Place.updating .stamp) → s.monitor = .sleeping →
      s.MayStamp start (toTimeT s.clock)
  | .monitor =>
    match s.monitor with
    | .starting => ¬ Unread start s.trace
    | .updating currentWriteTime .stamp => s.MayStamp start currentWriteTime
    | _ => True
  | _ => True

/-- No edit is hidden from the monitor. -/
structure Seen (start : Prop) (s : Server) : Prop where
  valid : ∃ f, s.file = some f ∧ ThreadSafeConfig.readable s.config.logger_ f.content = true
  current : ¬ Unread start s.trace → s.Current
  behind : s.monitor = .sleeping → s.MayStamp start s.config.lastWriteTime
  clean : ∀ t phase, s.monitor = .updating t phase → phase ≠ .reread → pollClean s.trace = true →
    ¬ Unread start s.trace
  polled : polled s.trace = true → ¬ Unread start s.trace

section
variable {start : Prop} {s t : Server}

theorem Current.of_data (h : s.Current) (hfile : t.file = s.file)
    (hlog : t.config.logger_ = s.config.logger_)
    (hdata : Complete s.config.data_ → t.config.data_ = s.config.data_) : t.Current := by
  obtain ⟨f, data, hf, hacc, hd⟩ := h
  refine ⟨f, data, hfile.trans hf, by rw [hlog]; exact hacc, ?_⟩
  rw [hdata (by rw [hd]; exact complete_normalizeData data), hd]

theorem Seen.of_same (hs : s.Seen start) (hfile : t.file = s.file) (htrace : t.trace = s.trace)
    (hlog : t.config.logger_ = s.config.logger_)
    (hdata : Complete s.config.data_ → t.config.data_ = s.config.data_)
    (hbehind : t.monitor = .sleeping → t.MayStamp start t.config.lastWriteTime)
    (hmonitor : ∀ u phase, t.monitor = .updating u phase → phase ≠ .reread →
      ∃ u' phase', s.monitor = .updating u' phase' ∧ phase' ≠ .reread) : t.Seen start := by
  refine ⟨?_, fun hu => ?_, hbehind, fun u phase hm hp hc => ?_, fun hp => ?_⟩
  · obtain ⟨f, hf, hr⟩ := hs.valid
    exact ⟨f, hfile.trans hf, by rw [hlog]; exact hr⟩
  · rw [htrace] at hu
    exact (hs.current hu).of_data hfile hlog hdata
  · obtain ⟨u', phase', hm', hp'⟩ := hmonitor u phase hm hp
    rw [htrace] at hc ⊢
    exact hs.clean u' phase' hm' hp' hc
  · rw [htrace] at hp ⊢
    exact hs.polled hp

theorem MayStamp.of_same {u : Int} (h : s.MayStamp start u) (hfile : t.file = s.file)
    (htrace : t.trace = s.trace) : t.MayStamp start u := by
  rw [MayStamp, htrace, WrittenAfter, hfile]
  exact h

theorem Seen.quiet (hs : s.Seen start) (hfile : t.file = s.file) (htrace : t.trace = s.trace)
    (hconfig : ThreadSafeConfig.Same s.config t.config) (hmonitor : t.monitor = s.monitor) :
    t.Seen start := by
  refine hs.of_same hfile htrace hconfig.logger_ hconfig.data (fun hw => ?_) (fun u phase hm hp => ?_)
  · rw [hconfig.lastWriteTime]
    rw [hmonitor] at hw
    exact (hs.behind hw).of_same hfile htrace
  · exact ⟨u, phase, by rw [← hmonitor]; exact hm, hp⟩

/-- A re-read of a valid file makes the values current, whoever makes it. -/
theorem Seen.reread {who : Party} (hs : s.Seen start) (hfile : t.file = s.file)
    (htrace : t.trace = .reread who s.readable :: s.trace)
    (hconfig : t.config = s.config.afterReread s.content) : t.Seen start := by
  obtain ⟨f, hf, hr⟩ := hs.valid
  have hcontent : s.content = f.content := by rw [content, hf]; rfl
  have hreadable : s.readable = true := by rw [readable, hcontent, hr]
  have hread : ¬ Unread start t.trace := by
    rw [htrace, hreadable]
    exact fun h => h
  obtain ⟨data, hacc⟩ := ThreadSafeConfig.readable_iff.mp hr
  have hlogger : t.config.logger_ = s.config.logger_ := by
    rw [hconfig]
    unfold ThreadSafeConfig.afterReread
    split <;> rfl
  refine ⟨⟨f, hfile.trans hf, by rw [hlogger]; exact hr⟩, fun _ => ?_, fun _ => Or.inl hread,
    fun _ _ _ _ _ => hread, fun _ => hread⟩
  refine ⟨f, data, hfile.trans hf, by rw [hlogger]; exact hacc, ?_⟩
  rw [hconfig, ThreadSafeConfig.afterReread, hcontent, hacc]
  rfl

theorem loopMonitor_not_updating (u : Server) (v : Int) (phase : Phase) :
    u.loopMonitor.monitor ≠ .updating v phase := by
  unfold loopMonitor
  cases u.config.stopThread <;> exact fun h => by cases h

theorem Seen.ended (hs : s.Seen start) (hfile : t.file = s.file) (htrace : t.trace = s.trace)
    (hconfig : t.config = s.config) (hmonitor : t.monitor = .ended) : t.Seen start := by
  refine hs.of_same hfile htrace (by rw [hconfig]) (fun _ => by rw [hconfig]) (fun hw => ?_)
    (fun u phase hm => ?_)
  · rw [hmonitor] at hw
    cases hw
  · rw [hmonitor] at hm
    cases hm

theorem Seen.endMonitor (hs : s.Seen start) : s.endMonitor.Seen start := by
  unfold Server.endMonitor
  split
  · exact hs.ended rfl rfl rfl rfl
  · exact hs.quiet rfl rfl (ThreadSafeConfig.Same.refl _) rfl

theorem Seen.unwind (hs : s.Seen start) (phase : Phase) : (s.unwind phase).Seen start := by
  unfold Server.unwind
  split
  · exact hs.quiet rfl rfl (ThreadSafeConfig.Same.refl _) rfl
  · exact hs

theorem Seen.advance {who : Party} {phase : Phase} {r : Outcome Phase × Server}
    (hs : s.Seen start) (h : s.advance who phase = some r) : r.2.Seen start := by
  obtain ⟨hfile, -, -, hmonitor, -⟩ := advance_frame h
  rcases advance_config h with ⟨_, hconfig, htrace⟩ | ⟨_, hconfig, htrace⟩
  · exact hs.reread hfile htrace hconfig
  · exact hs.quiet hfile htrace hconfig hmonitor

/-- After the re-read of a poll, and after every phase that follows one, a file
that was not edited since the poll began has been read. -/
theorem Seen.advance_clean {phase : Phase} {r : Outcome Phase × Server} {v : Int}
    (hs : s.Seen start) (hm : s.monitor = .updating v phase)
    (h : s.advance .monitor phase = some r) (hc : pollClean r.2.trace = true) :
    ¬ Unread start r.2.trace := by
  rcases advance_config h with ⟨_, _, htrace⟩ | ⟨hp, _, htrace⟩
  · obtain ⟨f, hf, hr⟩ := hs.valid
    have hreadable : s.readable = true := by
      rw [readable, content, hf]
      exact hr
    rw [htrace, hreadable]
    exact fun h => h
  · rw [htrace] at hc ⊢
    exact hs.clean v phase hm hp hc

theorem Seen.monitorStep (hs : s.Seen start) (hrace : s.NoRace start .monitor)
    (h : MonitorStep s t) : t.Seen start := by
  unfold NoRace at hrace
  cases h with
  | absent _ hf | removed _ hf =>
    -- the file is there
    obtain ⟨f, hf', -⟩ := hs.valid
    rw [hf] at hf'
    cases hf'
  | started hm hf =>
    rw [hm] at hrace
    refine hs.of_same (s := s) rfl rfl rfl (fun _ => rfl) (fun _ => Or.inl hrace) ?_
    exact fun u phase hu => absurd hu (loopMonitor_not_updating _ u phase)
  | newer hm hf hlt =>
    -- the poll found a newer file and goes on to re-read it
    refine ⟨hs.valid, fun hu => (hs.current hu).of_data rfl rfl (fun _ => rfl),
      fun hw => absurd hw (fun h => by cases h), fun u phase hu hp => ?_, hs.polled⟩
    cases hu
    exact absurd rfl hp
  | unchanged hm hf hlt =>
    -- the poll found nothing newer, so by the invariant nothing is unread
    have hread : ¬ Unread start s.trace := by
      rcases hs.behind hm with hread | hafter
      · exact hread
      · exact absurd (hafter _ hf) hlt
    refine ⟨hs.valid, fun hu => (hs.current hu).of_data rfl rfl (fun _ => rfl),
      fun _ => Or.inl hread, fun u phase hu => ?_, fun _ => hread⟩
    exact absurd hu (loopMonitor_not_updating _ u phase)
  | stamp hm =>
    rw [hm] at hrace
    -- what was polled was re-read in this poll or in an earlier one
    refine ⟨hs.valid, fun hu => (hs.current hu).of_data rfl rfl (fun _ => rfl),
      fun _ => hrace, fun u phase hu => absurd hu (loopMonitor_not_updating _ u phase), fun hpoll => ?_⟩
    rcases Bool.or_eq_true_iff.mp hpoll with hc | hc
    · exact hs.clean _ .stamp hm (fun hc => by cases hc) hc
    · exact hs.polled hc
  | @phase v phase r hm hr =>
    have hseen := hs.advance hr
    have hclean := hs.advance_clean hm hr
    obtain ⟨o, u⟩ := r
    cases o with
    | ok next =>
      exact ⟨hseen.valid, fun hu => (hseen.current hu).of_data rfl rfl (fun _ => rfl),
        fun hw => absurd hw (fun h => by cases h), fun _ _ _ _ hc => hclean hc, hseen.polled⟩
    | throws e => exact (hseen.unwind phase).endMonitor
    | undefined => exact hseen.quiet rfl rfl (ThreadSafeConfig.Same.refl _) rfl

theorem Seen.requestStep {i : Nat} (hs : s.Seen start) (hrace : s.NoRace start (.advance i))
    (h : RequestStep s i t) : t.Seen start := by
  cases h with
  | stamp hi =>
    exact hs.of_same rfl rfl rfl (fun _ => rfl) (hrace hi) (fun u phase hm hp => ⟨u, phase, hm, hp⟩)
  | @phase phase r _ hr =>
    have hseen := hs.advance hr
    obtain ⟨o, u⟩ := r
    cases o with
    | ok next => exact hseen.quiet rfl rfl (ThreadSafeConfig.Same.refl _) rfl
    | throws e =>
      exact (hseen.unwind phase).quiet rfl rfl (ThreadSafeConfig.Same.refl _) rfl
    | undefined => exact hseen.quiet rfl rfl (ThreadSafeConfig.Same.refl _) rfl
  | check _ =>
    exact ⟨hs.valid, fun hu => (hs.current hu).of_data rfl rfl (fun _ => rfl), hs.behind, hs.clean,
      hs.polled⟩

theorem Seen.perform {α : Type} {x : Exec Center α} (hs : s.Seen start)
    (hx : Respects Center.SameConfig x) : (s.perform x).2.Seen start :=
  hs.quiet rfl rfl (hx s.toCenter) rfl

theorem Seen.settleCall {α : Type} {r : Outcome α × Server} (h : r.2.Seen start) :
    (Server.settleCall r).Seen start := by
  obtain ⟨o, u⟩ := r
  cases o with
  | ok a => exact h
  | throws e => exact h
  | undefined => exact h.quiet rfl rfl (ThreadSafeConfig.Same.refl _) rfl

theorem Seen.settleConstruct {r : Outcome Unit × Server} (h : r.2.Seen start) :
    (Server.settleConstruct r).Seen start := by
  obtain ⟨o, u⟩ := r
  cases o with
  | ok a => exact h
  | throws e => exact h.quiet rfl rfl (ThreadSafeConfig.Same.refl _) rfl
  | undefined => exact h.quiet rfl rfl (ThreadSafeConfig.Same.refl _) rfl

theorem Seen.move {hash : ThreadId → UInt64} {e : Step} (hs : s.Seen start)
    (hvalid : s.ValidEdit e) (hrace : s.NoRace start e) (h : MoveStep hash s e t) :
    t.Seen start := by
  have hsame : ThreadSafeConfig.Same s.config s.config := ThreadSafeConfig.Same.refl _
  cases h with
  | tick d => exact hs.quiet rfl rfl hsame rfl
  | edit content =>
    -- the edit is unread, and a sleeping monitor finds its time newer than the stamp
    refine ⟨⟨⟨content, s.clock⟩, rfl, hvalid⟩, fun hu => absurd trivial hu, fun hw => Or.inr ?_,
      fun _ _ _ _ hc => absurd hc (by simp [observe, pollClean]),
      fun hc => absurd hc (by simp [observe, ProteiCov.polled])⟩
    intro f hf
    cases hf
    exact hrace hw
  | remove => exact absurd hvalid (fun h => h)
  | construct _ => exact (hs.perform Center.SameConfig.buildManager).settleConstruct
  | unmonitored _ => exact hs
  | runMonitoring _ _ =>
    exact hs.of_same rfl rfl rfl (fun _ => rfl) (fun hw => by cases hw) (fun u phase hm => by cases hm)
  | monitor hstep => exact hs.monitorStep hrace hstep
  | stopThread =>
    exact hs.of_same rfl rfl rfl (fun _ => rfl) hs.behind (fun u phase hm hp => ⟨u, phase, hm, hp⟩)
  | request => exact hs.quiet rfl rfl hsame rfl
  | advance hstep => exact hs.requestStep hrace hstep
  | call hcall => exact (hs.perform hcall.sameConfig).settleCall
  | updateConfig =>
    obtain ⟨hcenter, htrace, -, hfile⟩ := settleCall_fields
      (s.perform (Center.onConfig (ThreadSafeConfig.updateConfig s.content)))
    refine hs.reread hfile (congrArg (_ :: ·) htrace) ?_
    rw [← ThreadSafeConfig.updateConfig_state]
    exact congrArg Center.config hcenter

end

/-- The values the constructor took from the file are not in their normalised form. -/
def StartsRaw (file : File) (clock : TimePoint) (logger : Bool) : Prop :=
  ¬ (init (some file) clock logger).Current

/-- In a run on a valid file in which no edit and no stamp races with the other,
every edit is seen by the first poll that begins after it. -/
theorem edits_seen (hash : ThreadId → UInt64) (file : File) (clock : TimePoint) (logger : Bool)
    (es : List Step) (s : Server) (hfile : ThreadSafeConfig.readable logger file.content = true)
    (h : (system hash).run (init (some file) clock logger) es = some s)
    (hok : (system hash).Along
      (fun u e => u.ValidEdit e ∧ u.NoRace (StartsRaw file clock logger) e)
      (init (some file) clock logger) es) : s.EditsSeen := by
  have hlogger : (init (some file) clock logger).config.logger_ = logger := by
    unfold init ThreadSafeConfig.construct
    split <;> rfl
  have hinit : (init (some file) clock logger).Seen (StartsRaw file clock logger) := by
    refine ⟨⟨file, rfl, by rw [hlogger]; exact hfile⟩, fun hraw => not_not.mp hraw,
      fun hw => absurd hw (fun h => by cases h), fun _ _ hm => absurd hm (fun h => by cases h),
      fun hp => absurd hp (fun h => by cases h)⟩
  have hseen : s.Seen (StartsRaw file clock logger) :=
    Transition.System.run_inv_along
      (fun u e v hu hstep hmove => hu.move hstep.1 hstep.2 (system_step hmove).2) h hok hinit
  intro hpolled _
  exact hseen.current (hseen.polled hpolled)

/-! A run in which a poll sees an edit, and one in which no poll ever does. -/

def editedContent : FileContent :=
  some [("RMin", some 20), ("RMax", some 30), ("AmountOfOperators", some 4), ("SizeOfQueue", some 20)]

/-- A request, then the monitor, an edit two seconds later, and a poll. -/
def editPolled : List Step :=
  [.request, .advance 0, .advance 0, .advance 0, .runMonitoring, .monitor, .tick 2000000000,
    .edit editedContent, .monitor, .monitor, .monitor, .monitor]

theorem along_editPolled : (system (fun _ => 7)).Along
    (fun u e => u.ValidEdit e ∧ u.NoRace (StartsRaw baseFile 0 true) e)
    (init (some baseFile) 0 true) editPolled := by
  -- the request re-reads the file and stamps before there is a monitor
  refine Transition.System.along_cons rfl ⟨trivial, trivial⟩ ?_
  refine Transition.System.along_cons rfl ⟨trivial, fun h => by cases h⟩ ?_
  refine Transition.System.along_cons rfl ⟨trivial, fun h => by cases h⟩ ?_
  refine Transition.System.along_cons rfl ⟨trivial, fun _ h => by cases h⟩ ?_
  -- the monitor starts, and the edit comes in a later second
  refine Transition.System.along_cons rfl ⟨trivial, trivial⟩ ?_
  refine Transition.System.along_cons rfl ⟨trivial, fun h => h⟩ ?_
  refine Transition.System.along_cons rfl ⟨trivial, trivial⟩ ?_
  refine Transition.System.along_cons rfl ⟨rfl, fun _ => (by decide : (0 : Int) < 2)⟩ ?_
  -- the poll
  refine Transition.System.along_cons rfl ⟨trivial, trivial⟩ ?_
  refine Transition.System.along_cons rfl ⟨trivial, trivial⟩ ?_
  refine Transition.System.along_cons rfl ⟨trivial, trivial⟩ ?_
  exact Transition.System.along_cons rfl ⟨trivial, Or.inl fun h => h⟩ trivial

theorem edits_seen_editPolled : ∃ s,
    (system (fun _ => 7)).run (init (some baseFile) 0 true) editPolled = some s ∧
    polled s.trace = true ∧ settings s.config.data_ = ⟨20, 30, 4, 20⟩ ∧ s.EditsSeen := by
  have hsome : ((system (fun _ => 7)).run (init (some baseFile) 0 true) editPolled).isSome = true := by
    decide
  obtain ⟨s, hs⟩ := Option.isSome_iff_exists.mp hsome
  have hpolled : ((system (fun _ => 7)).run (init (some baseFile) 0 true) editPolled).map
      (fun s => polled s.trace) = some true := by decide
  have hset : ((system (fun _ => 7)).run (init (some baseFile) 0 true) editPolled).map
      (fun s => settings s.config.data_) = some ⟨20, 30, 4, 20⟩ := by decide
  rw [hs, Option.map_some, Option.some_inj] at hpolled hset
  exact ⟨s, hs, hpolled, hset, edits_seen (fun _ => 7) baseFile 0 true editPolled s (by decide) hs
    along_editPolled⟩

/-- The edit falls between the re-read and the stamp of a request. -/
def editHidden : Option Server :=
  (system (fun _ => 7)).run (init (some baseFile) 0 true)
    [.runMonitoring, .monitor, .tick 2000000000, .request, .advance 0, .edit editedContent,
      .advance 0, .advance 0, .advance 0, .monitor]

theorem hidden_not_seen : ∃ s, editHidden = some s ∧ polled s.trace = true ∧
    s.requests = [.replied true] ∧ settings s.config.data_ = ⟨10, 15, 4, 20⟩ ∧ ¬ s.EditsSeen := by
  have hsome : editHidden.isSome = true := by decide
  obtain ⟨s, hs⟩ := Option.isSome_iff_exists.mp hsome
  have hpolled : editHidden.map (fun s => polled s.trace) = some true := by decide
  have hreq : editHidden.map (fun s => s.requests) = some [.replied true] := by decide
  have hset : editHidden.map (fun s => settings s.config.data_) = some ⟨10, 15, 4, 20⟩ := by decide
  have hfile : editHidden.map (fun s => s.file.map (fun f => f.content)) =
      some (some editedContent) := by decide
  rw [hs, Option.map_some, Option.some_inj] at hpolled hreq hset hfile
  refine ⟨s, hs, hpolled, hreq, hset, fun hseen => ?_⟩
  have hidle : ∀ phase, Place.updating phase ∉ s.requests := by
    rw [hreq]
    simp
  obtain ⟨f, data, hf, hacc, hd⟩ := hseen hpolled hidle
  have hcontent : f.content = editedContent := by
    rw [hf] at hfile
    exact Option.some_inj.mp hfile
  have hmin : (settings s.config.data_).RMin = 20 := by
    rw [hcontent] at hacc
    rw [hd]
    cases hl : s.config.logger_ with
    | true =>
      rw [hl] at hacc
      cases hacc
      decide
    | false =>
      rw [hl] at hacc
      cases hacc
      decide
  rw [hset] at hmin
  exact absurd hmin (by decide)

end Server

end ProteiCov
