import ProteiCov.FailedReload
import ProteiCov.Lib.Pieces

/-
  A request for an update, from one end to the other

  `Manager::update`, `notify` and `updateWithRequest` are given here as the source has
  them, in one go. The server runs them in pieces, between which other parties move, and
  `request_alone` says that a request nobody interferes with does what the source says:
  the same answer, the same exceptions, the same configuration, manager and pools.

  So what a reload does can be read off the source. `reload_applies` says it of a file
  that can be read: the server then works with the values of the file, and no call that
  waits is lost, although the pool is replaced where its size changed.
-/

namespace ProteiCov
open Cpp

/-! The source, in one go. -/

namespace Center

/-- The destructor of a lock on `updateMtx`, when an exception leaves its scope. -/
def unlocking {α : Type} (x : Exec Center α) : Exec Center α := fun c =>
  match x.run c with
  | (.throws e, d) => (.throws e, { d with locked := false })
  | r => r

/-- `std::unique_lock lc(updateMtx)` and its scope. -/
def withUpdateMtx (x : Exec Center Unit) : Exec Center Unit := do
  setLocked true
  unlocking x
  setLocked false

/-- `setNewThreadPool` of a pool that was just made. -/
def renewPool (operators size : Int) : Exec Center Unit := do
  let m ← this
  let pool ← buildPool m.logger_ operators size
  let m ← onWorld (m.setNewThreadPool pool)
  setManager m

/-- `Manager::update()` -/
def update : Exec Center Unit := withUpdateMtx do
  let minMax ← onConfig ThreadSafeConfig.getMinMax
  let m ← this
  setManager (m.setMinMax minMax)
  let size ← onConfig ThreadSafeConfig.getSizeOfQueue
  let m ← this
  onWorld (m.updateQueue size)
  let operators ← onConfig ThreadSafeConfig.getAmountOfOperators
  let m ← this
  let differs ← onWorld (m.sizeDiffers operators)
  if differs then
    let operators ← onConfig ThreadSafeConfig.getAmountOfOperators
    let size ← onConfig ThreadSafeConfig.getSizeOfQueue
    renewPool operators size
  else pure ()

/-- The branches of `ThreadSafeConfig::notify()`. -/
def notifying : Option Manager → Exec Center Unit
  | none => pure ()
  | some _ => update

/-- `ThreadSafeConfig::notify()` -/
def notify : Exec Center Unit := do
  let c ← .get id
  notifying c.manager

/-- The part of `updateWithRequest` that a poll of the monitor has too. -/
def reload (content : FileContent) : Exec Center Unit := do
  onConfig (ThreadSafeConfig.updateConfig content)
  notify

/-- `lastWriteTime = t` -/
def stampWith (t : Int) : Exec Center Unit :=
  onConfig (.modify (fun c => { c with lastWriteTime := t }))

/-- `ThreadSafeConfig::updateWithRequest()`, where the file has the content. -/
def updateWithRequest (content : FileContent) (now : TimePoint) : Exec Center Unit := do
  let c ← .get id
  if c.config.notToUpdate then pure ()
  else do
    reload content
    stampWith (toTimeT now)

/-- `Manager::processRequestForUpdate()` -/
def processRequestForUpdate (content : FileContent) (now : TimePoint) : Exec Center Bool := do
  updateWithRequest content now
  onConfig ThreadSafeConfig.isUpdated

/-- `Manager::setNewConfig(config)` -/
def setNewConfig (config : ThreadSafeConfig) : Exec Center Unit := do
  .modify (fun c => { c with config := config })
  update

/-! Code under the lock. -/

section
variable {α β : Type}

theorem run_unlocking (x : Exec Center α) (c : Center) : (unlocking x).run c = match x.run c with
    | (.throws e, d) => (.throws e, { d with locked := false })
    | r => r := rfl

theorem unlocking_ok {x : Exec Center α} {c d : Center} {a : α} :
    (unlocking x).run c = (.ok a, d) ↔ x.run c = (.ok a, d) := by
  rw [run_unlocking]
  cases hx : x.run c with
  | mk o d' => cases o <;> simp

theorem unlocking_bind (x : Exec Center α) (f : α → Exec Center β) :
    unlocking (x >>= f) = unlocking x >>= fun a => unlocking (f a) := by
  funext c
  show (unlocking (x >>= f)).run c = (unlocking x >>= fun a => unlocking (f a)).run c
  cases hx : x.run c with
  | mk o d =>
    have hleft := run_unlocking x c
    rw [hx] at hleft
    rw [run_unlocking (x >>= f)]
    cases o with
    | ok a => rw [Exec.run_bind_ok hx, Exec.run_bind_ok hleft, run_unlocking]
    | throws e => rw [Exec.run_bind_throws hx, Exec.run_bind_throws hleft]
    | undefined => rw [Exec.run_bind_undefined hx, Exec.run_bind_undefined hleft]

end

end Center

/-! The pieces of an update. -/

namespace Phase
open Center

/-- How many pieces of an update are left. -/
def rank : Phase → Nat
  | reread => 8
  | notify => 7
  | getMinMax => 6
  | updateQueue => 5
  | compareOperators => 4
  | readOperators => 3
  | readSize _ => 2
  | install _ _ => 1
  | stamp => 0

/-- One piece, and what an exception unlocks on its way out. -/
def piece (content : FileContent) (phase : Phase) : Exec Center Phase :=
  if phase.holds then unlocking (phase.run content) else phase.run content

theorem rank_run {content : FileContent} {phase next : Phase} {c d : Center} (hphase : phase ≠ .stamp)
    (h : (phase.run content).run c = (.ok next, d)) : next.rank < phase.rank := by
  have hleave : ∀ {c d : Center} {next : Phase}, leave.run c = (.ok next, d) → next.rank = 0 := by
    intro c d next h
    cases h
    rfl
  cases phase with
  | stamp => exact absurd rfl hphase
  | reread =>
    obtain ⟨_, _, _, h⟩ := Exec.bind_eq_ok h
    cases h
    decide
  | notify =>
    obtain ⟨b, _, _, h⟩ := Exec.bind_eq_ok h
    cases hm : b.manager with
    | none =>
      rw [hm] at h
      cases h
      decide
    | some m =>
      rw [hm] at h
      cases h
      decide
  | getMinMax =>
    obtain ⟨_, _, _, h⟩ := Exec.bind_eq_ok h
    obtain ⟨_, _, _, h⟩ := Exec.bind_eq_ok h
    obtain ⟨_, _, _, h⟩ := Exec.bind_eq_ok h
    cases h
    decide
  | updateQueue =>
    obtain ⟨_, _, _, h⟩ := Exec.bind_eq_ok h
    obtain ⟨_, _, _, h⟩ := Exec.bind_eq_ok h
    obtain ⟨_, _, _, h⟩ := Exec.bind_eq_ok h
    cases h
    decide
  | compareOperators =>
    obtain ⟨_, _, _, h⟩ := Exec.bind_eq_ok h
    obtain ⟨_, _, _, h⟩ := Exec.bind_eq_ok h
    obtain ⟨differs, _, _, h⟩ := Exec.bind_eq_ok h
    cases differs with
    | true =>
      cases h
      decide
    | false =>
      have hrank := hleave h
      rw [hrank]
      decide
  | readOperators =>
    obtain ⟨_, _, _, h⟩ := Exec.bind_eq_ok h
    cases h
    exact Nat.lt_succ_self 2
  | readSize operators =>
    obtain ⟨_, _, _, h⟩ := Exec.bind_eq_ok h
    cases h
    exact Nat.lt_succ_self 1
  | install operators size =>
    obtain ⟨_, _, _, h⟩ := Exec.bind_eq_ok h
    obtain ⟨_, _, _, h⟩ := Exec.bind_eq_ok h
    obtain ⟨_, _, _, h⟩ := Exec.bind_eq_ok h
    obtain ⟨_, _, _, h⟩ := Exec.bind_eq_ok h
    have hrank := hleave h
    rw [hrank]
    exact Nat.lt_succ_self 0

/-- An update in pieces. -/
def pieces (content : FileContent) : Pieces Center Phase where
  piece := piece content
  rank := rank
  lowers := by
    intro p q c d hp h
    have hne : p ≠ .stamp := fun heq => hp (heq ▸ rfl)
    unfold piece at h
    split at h
    · exact rank_run hne (unlocking_ok.mp h)
    · exact rank_run hne h

/-! From each of its points on, the pieces are what is left of the source. -/

section
variable (content : FileContent)

theorem whole_leave (n : Nat) : leave >>= (pieces content).whole n = leave := by
  rw [leave, Exec.bind_assoc]
  refine bind_congr (fun _ => ?_)
  rw [Exec.pure_bind]
  exact Pieces.whole_end rfl n

theorem unlocking_leave : unlocking leave = leave := rfl

/-- A piece under the lock, and then the pieces after it. -/
theorem whole_held {phase : Phase} (h : phase.holds = true) (n : Nat) :
    (pieces content).whole (n + 1) phase =
      unlocking (phase.run content) >>= (pieces content).whole n := by
  have hrank : (pieces content).rank phase ≠ 0 := by
    cases phase with
    | reread => cases h
    | notify => cases h
    | stamp => cases h
    | _ => exact Nat.succ_ne_zero _
  rw [Pieces.whole_succ hrank]
  exact congrArg (· >>= _) (if_pos h)

theorem whole_install (operators size : Int) : (pieces content).whole 1 (.install operators size) =
    unlocking (renewPool operators size) >>= fun _ => leave := by
  have hrun : (install operators size).run content = renewPool operators size >>= fun _ => leave := by
    rw [Phase.run, renewPool]
    simp only [Exec.bind_assoc]
  rw [whole_held content rfl, hrun, unlocking_bind, unlocking_leave, Exec.bind_assoc]
  exact bind_congr (fun _ => whole_leave content 0)

theorem whole_readSize (operators : Int) : (pieces content).whole 2 (.readSize operators) =
    unlocking (onConfig ThreadSafeConfig.getSizeOfQueue >>= renewPool operators) >>= fun _ => leave := by
  rw [whole_held content rfl, Phase.run, unlocking_bind, unlocking_bind, Exec.bind_assoc, Exec.bind_assoc]
  exact bind_congr (fun size => whole_install content operators size)

theorem whole_readOperators : (pieces content).whole 3 .readOperators =
    unlocking (do
      let operators ← onConfig ThreadSafeConfig.getAmountOfOperators
      let size ← onConfig ThreadSafeConfig.getSizeOfQueue
      renewPool operators size) >>= fun _ => leave := by
  rw [whole_held content rfl, Phase.run, unlocking_bind, unlocking_bind, Exec.bind_assoc, Exec.bind_assoc]
  exact bind_congr (fun operators => whole_readSize content operators)

/-- What `update` does after it set the limit of the queue. -/
def resize : Exec Center Unit := do
  let operators ← onConfig ThreadSafeConfig.getAmountOfOperators
  let m ← this
  let differs ← onWorld (m.sizeDiffers operators)
  if differs then
    let operators ← onConfig ThreadSafeConfig.getAmountOfOperators
    let size ← onConfig ThreadSafeConfig.getSizeOfQueue
    renewPool operators size
  else pure ()

theorem whole_compareOperators : (pieces content).whole 4 .compareOperators =
    unlocking resize >>= fun _ => leave := by
  rw [whole_held content rfl, Phase.run, resize]
  simp only [unlocking_bind, Exec.bind_assoc]
  refine bind_congr (fun _ => bind_congr (fun _ => bind_congr (fun differs => ?_)))
  cases differs with
  | true =>
    have hrest := whole_readOperators content
    simp only [unlocking_bind, Exec.bind_assoc] at hrest
    exact hrest
  | false => exact whole_leave content 3

theorem whole_getMinMax : (pieces content).whole 6 .getMinMax =
    unlocking (do
      let minMax ← onConfig ThreadSafeConfig.getMinMax
      let m ← this
      setManager (m.setMinMax minMax)
      let size ← onConfig ThreadSafeConfig.getSizeOfQueue
      let m ← this
      onWorld (m.updateQueue size)
      resize) >>= fun _ => leave := by
  have hqueue : (pieces content).whole 5 .updateQueue =
      unlocking (do
        let size ← onConfig ThreadSafeConfig.getSizeOfQueue
        let m ← this
        onWorld (m.updateQueue size)
        resize) >>= fun _ => leave := by
    rw [whole_held content rfl, Phase.run]
    simp only [unlocking_bind, Exec.bind_assoc]
    exact bind_congr (fun _ => bind_congr (fun _ => bind_congr (fun _ =>
      whole_compareOperators content)))
  rw [whole_held content rfl, Phase.run]
  simp only [unlocking_bind, Exec.bind_assoc] at hqueue ⊢
  exact bind_congr (fun _ => bind_congr (fun _ => bind_congr (fun _ => hqueue)))

theorem whole_update : (setLocked true >>= fun _ => (pieces content).whole 6 .getMinMax) =
    update >>= fun _ => pure .stamp := by
  rw [whole_getMinMax, update, withUpdateMtx]
  simp only [Exec.bind_assoc]
  rfl

theorem whole_notify : (pieces content).whole 7 .notify = Center.notify >>= fun _ => pure .stamp := by
  rw [Pieces.whole_succ (Nat.succ_ne_zero 6)]
  show (Exec.get id >>= fun c => enter c.manager) >>= (pieces content).whole 6 =
    (Exec.get id >>= fun c => notifying c.manager) >>= fun _ => pure .stamp
  rw [Exec.bind_assoc, Exec.bind_assoc]
  refine bind_congr (fun c => ?_)
  cases c.manager with
  | none => exact Pieces.whole_end (P := pieces content) (p := .stamp) rfl 6
  | some m => exact whole_update content

/-- All the pieces are the whole of a reload. -/
theorem whole_reread : (pieces content).whole 8 .reread = reload content >>= fun _ => pure .stamp := by
  rw [Pieces.whole_succ (Nat.succ_ne_zero 7)]
  show (onConfig (ThreadSafeConfig.updateConfig content) >>= fun _ => pure notify) >>=
    (pieces content).whole 7 = _
  rw [Exec.bind_assoc, reload, Exec.bind_assoc]
  exact bind_congr (fun _ => whole_notify content)

end

/-- Whether an update holds `updateMtx` stays. -/
def SameLock (c d : Center) : Prop := d.locked = c.locked

namespace SameLock

theorem bind {α β : Type} {x : Exec Center α} {f : α → Exec Center β} (hx : Respects SameLock x)
    (hf : ∀ a, Respects SameLock (f a)) : Respects SameLock (x >>= f) :=
  Respects.bind (R := SameLock) (fun _ _ _ h h' => Eq.trans h' h) hx hf

theorem setManager (m : Manager) : Respects SameLock (Center.setManager m) := fun _ => rfl

theorem this : Respects SameLock Center.this := by
  intro c
  cases hm : c.manager with
  | none =>
    rw [run_this_none hm]
    rfl
  | some m =>
    rw [run_this_some hm]
    rfl

end SameLock

/-- A phase that returns leaves the lock as the next phase has it. -/
theorem locked_run {content : FileContent} {phase next : Phase} {c d : Center}
    (hlocked : c.locked = phase.holds) (h : (phase.run content).run c = (.ok next, d)) :
    d.locked = next.holds := by
  have hconfig : ∀ {α : Type} (x : Exec ThreadSafeConfig α), Respects SameLock (onConfig x) :=
    fun x c => rfl
  have hworld : ∀ {α : Type} (x : Exec World α), Respects SameLock (onWorld x) := fun x c => rfl
  have hpure : ∀ {α : Type} (a : α), Respects SameLock (pure a) := fun a c => rfl
  have hleave : ∀ {c : Center}, leave.run c = (.ok next, d) → d.locked = next.holds := by
    intro c h
    cases h
    rfl
  cases phase with
  | reread =>
    have hsame : SameLock c d :=
      (SameLock.bind (hconfig _) (fun _ => hpure _)).of_run h
    obtain ⟨_, _, _, h⟩ := Exec.bind_eq_ok h
    cases h
    exact hsame.trans hlocked
  | notify =>
    obtain ⟨b, _, hb, h⟩ := Exec.bind_eq_ok h
    cases hb
    cases hm : c.manager with
    | none =>
      rw [id_eq, hm] at h
      cases h
      exact hlocked
    | some m =>
      rw [id_eq, hm] at h
      cases h
      rfl
  | getMinMax =>
    have hsame : SameLock c d :=
      (SameLock.bind (hconfig _) (fun _ => SameLock.bind SameLock.this (fun _ =>
        SameLock.bind (SameLock.setManager _) (fun _ => hpure _)))).of_run h
    obtain ⟨_, _, _, h⟩ := Exec.bind_eq_ok h
    obtain ⟨_, _, _, h⟩ := Exec.bind_eq_ok h
    obtain ⟨_, _, _, h⟩ := Exec.bind_eq_ok h
    cases h
    exact hsame.trans hlocked
  | updateQueue =>
    have hsame : SameLock c d :=
      (SameLock.bind (hconfig _) (fun _ => SameLock.bind SameLock.this (fun _ =>
        SameLock.bind (hworld _) (fun _ => hpure _)))).of_run h
    obtain ⟨_, _, _, h⟩ := Exec.bind_eq_ok h
    obtain ⟨_, _, _, h⟩ := Exec.bind_eq_ok h
    obtain ⟨_, _, _, h⟩ := Exec.bind_eq_ok h
    cases h
    exact hsame.trans hlocked
  | compareOperators =>
    obtain ⟨_, c₁, h₁, h⟩ := Exec.bind_eq_ok h
    obtain ⟨_, c₂, h₂, h⟩ := Exec.bind_eq_ok h
    obtain ⟨differs, c₃, h₃, h⟩ := Exec.bind_eq_ok h
    cases differs with
    | true =>
      cases h
      exact ((hworld _).of_run h₃).trans ((SameLock.this.of_run h₂).trans
        (((hconfig _).of_run h₁).trans hlocked))
    | false => exact hleave h
  | readOperators =>
    have hsame : SameLock c d :=
      (SameLock.bind (hconfig _) (fun _ => hpure _)).of_run h
    obtain ⟨_, _, _, h⟩ := Exec.bind_eq_ok h
    cases h
    exact hsame.trans hlocked
  | readSize operators =>
    have hsame : SameLock c d :=
      (SameLock.bind (hconfig _) (fun _ => hpure _)).of_run h
    obtain ⟨_, _, _, h⟩ := Exec.bind_eq_ok h
    cases h
    exact hsame.trans hlocked
  | install operators size =>
    obtain ⟨_, _, _, h⟩ := Exec.bind_eq_ok h
    obtain ⟨_, _, _, h⟩ := Exec.bind_eq_ok h
    obtain ⟨_, _, _, h⟩ := Exec.bind_eq_ok h
    obtain ⟨_, _, _, h⟩ := Exec.bind_eq_ok h
    exact hleave h
  | stamp =>
    cases h
    exact hlocked

/-- An exception releases what its phase holds. -/
theorem unlocked_piece {content : FileContent} {phase : Phase} {c d : Center} {e : StdException}
    (hlocked : c.locked = phase.holds) (h : (piece content phase).run c = (.throws e, d)) :
    d.locked = false := by
  unfold piece at h
  split at h
  · rw [run_unlocking] at h
    cases hx : (phase.run content).run c with
    | mk o d' =>
      rw [hx] at h
      cases o <;> cases h
      rfl
  · rename_i hfree
    cases phase with
    | reread =>
      have hsame : SameLock c d := by
        refine (SameLock.bind (x := onConfig (ThreadSafeConfig.updateConfig content)) ?_ ?_).of_run h
        · exact fun c => rfl
        · exact fun _ c => rfl
      exact hsame.trans hlocked
    | notify =>
      obtain ⟨b, c₁, hb, h⟩ : ∃ b c₁, (Exec.get id : Exec Center Center).run c = (.ok b, c₁) ∧
          (enter b.manager).run c₁ = (.throws e, d) := ⟨c, c, rfl, h⟩
      cases hm : b.manager with
      | none =>
        rw [hm] at h
        cases h
      | some m =>
        rw [hm] at h
        cases h
    | stamp => cases h
    | _ => exact absurd rfl hfree

theorem locked_piece {content : FileContent} {phase next : Phase} {c d : Center}
    (hlocked : c.locked = phase.holds) (h : (piece content phase).run c = (.ok next, d)) :
    d.locked = next.holds := by
  unfold piece at h
  split at h
  · exact locked_run hlocked (unlocking_ok.mp h)
  · exact locked_run hlocked h

/-- The lock after a piece that ended so. -/
def released {α : Type} (phase : Phase) (o : Outcome α) (d : Center) : Center :=
  match o with
  | .throws _ => if phase.holds then { d with locked := false } else d
  | _ => d

theorem run_piece {content : FileContent} {phase : Phase} {c d : Center} {o : Outcome Phase}
    (h : (phase.run content).run c = (o, d)) :
    (piece content phase).run c = (o, phase.released o d) := by
  unfold piece
  cases hh : phase.holds with
  | false => cases o <;> simpa [released, hh] using h
  | true =>
    rw [if_pos rfl, run_unlocking, h]
    cases o <;> simp [released, hh]

end Phase

/-! One request, alone. -/

/-- Where the caller stands after `processRequestForUpdate`. -/
def Place.after : Outcome Bool → Option Place
  | .ok b => some (.replied b)
  | .throws _ => some .failed
  | .undefined => none

namespace Server

/-- The request `i` came to `o` in the state `u`, and nobody else has moved since `s`. -/
structure Stands (s : Server) (i : Nat) (u : Server) (o : Outcome Phase) (c : Center) : Prop where
  center : u.toCenter = c
  file : u.file = s.file
  clock : u.clock = s.clock
  monitor : u.monitor = s.monitor
  stands : ∀ phase, o = .ok phase → u.requests = s.requests.set i (.updating phase) ∧
    u.terminated = false ∧ c.locked = phase.holds
  failed : ∀ e, o = .throws e → u.requests = s.requests.set i .failed ∧ u.terminated = false ∧
    c.locked = false
  lost : o = .undefined → u.terminated = true

section
variable {hash : ThreadId → UInt64} {s u : Server} {i : Nat} {c : Center}

/-- A step of the request is the next piece of its update. -/
theorem Stands.step {phase : Phase} (hi : i < s.requests.length) (h : Stands s i u (.ok phase) c)
    (hne : phase ≠ .stamp) : ∃ v, (system hash).step u (.advance i) = some v ∧
      Stands s i v ((phase.piece s.content).run c).1 ((phase.piece s.content).run c).2 := by
  obtain ⟨hreq, hrunning, hlocked⟩ := h.stands phase rfl
  have hcontent : u.content = s.content := by
    unfold content
    rw [h.file]
  have hplace : u.requests[i]? = some (.updating phase) := by
    rw [hreq, List.getElem?_set_self hi]
  have hfree : ¬ (phase = .notify ∧ u.manager ≠ none ∧ u.locked = true) := by
    rintro ⟨rfl, -, hlock⟩
    have hnot : u.locked = false := (congrArg Center.locked h.center).trans hlocked
    rw [hlock] at hnot
    cases hnot
  obtain ⟨r, hadv⟩ : ∃ r, u.advance (.request i) phase = some r := ⟨_, if_neg hfree⟩
  have hc := advance_center hadv
  rw [hcontent, h.center] at hc
  obtain ⟨hfile, hclock, hreqs, hmon, hterm⟩ := advance_frame hadv
  have hstep : (system hash).step u (.advance i) = (u.advance (.request i) phase).map (requestAfter i phase) :=
    step_request hrunning hplace hne
  rw [hadv] at hstep
  refine ⟨_, hstep, ?_⟩
  obtain ⟨o, v⟩ := r
  have hpiece := Phase.run_piece hc
  cases o with
  | ok next =>
    rw [hpiece]
    have hreq' : (v.setRequest i (.updating next)).requests = s.requests.set i (.updating next) := by
      show v.requests.set i _ = _
      rw [hreqs, hreq, List.set_set]
    refine ⟨rfl, hfile.trans h.file, hclock.trans h.clock, hmon.trans h.monitor, fun p hp => ?_, ?_, ?_⟩
    · cases hp
      exact ⟨hreq', hterm.trans hrunning, Phase.locked_piece hlocked hpiece⟩
    · intro e he
      cases he
    · intro he
      cases he
  | throws e =>
    rw [hpiece]
    have hunwind : v.unwind phase = { v with toCenter := phase.released (.throws e : Outcome Phase) v.toCenter } := by
      unfold unwind Phase.released
      cases phase.holds <;> rfl
    show Stands s i ((v.unwind phase).setRequest i .failed) _ _
    rw [hunwind]
    refine ⟨rfl, hfile.trans h.file, hclock.trans h.clock, hmon.trans h.monitor, ?_, fun e' _ => ?_, ?_⟩
    · intro p hp
      cases hp
    · refine ⟨?_, hterm.trans hrunning, Phase.unlocked_piece hlocked hpiece⟩
      show v.requests.set i _ = _
      rw [hreqs, hreq, List.set_set]
    · intro he
      cases he
  | undefined =>
    rw [hpiece]
    refine ⟨rfl, hfile.trans h.file, hclock.trans h.clock, hmon.trans h.monitor, ?_, ?_, fun _ => rfl⟩
    · intro p hp
      cases hp
    · intro e he
      cases he

/-- The request and the center came to what the source comes to. -/
structure Responds (s t : Server) (o : Outcome Bool) (c : Center) : Prop where
  center : t.toCenter = c
  place : ∀ place, Place.after o = some place →
    t.requests = s.requests ++ [place] ∧ t.terminated = false ∧ c.locked = false
  lost : o = .undefined → t.terminated = true

theorem step_check (hrunning : u.terminated = false) (hlocked : u.locked = false)
    (h : u.requests = s.requests ++ [.checking]) :
    ∃ v, (system hash).step u (.advance s.requests.length) = some v ∧
      v.file = u.file ∧ v.clock = u.clock ∧ v.monitor = u.monitor ∧
      Responds s v (.ok u.config.updated) { u.toCenter with config := { u.config with updated := false } } := by
  have hi : u.requests[s.requests.length]? = some .checking := by simp [h]
  have hstep : (system hash).step u (.advance s.requests.length) =
      some (((u.setConfig { u.config with updated := false }).observe
        (.isUpdated s.requests.length u.config.updated)).setRequest s.requests.length
          (.replied u.config.updated)) := by
    simp only [system, hrunning, move, stepRequest, hi]
    rfl
  refine ⟨_, hstep, rfl, rfl, rfl, rfl, fun place hplace => ?_, fun ho => by cases ho⟩
  cases hplace
  refine ⟨?_, hrunning, hlocked⟩
  show u.requests.set s.requests.length _ = _
  rw [h, List.set_append_right _ _ (Nat.le_refl _), Nat.sub_self]
  rfl

/-- A request nobody interferes with does what `processRequestForUpdate` does. -/
theorem request_runs (hash : ThreadId → UInt64) {s : Server} (hrunning : s.terminated = false)
    (hlocked : s.locked = false) :
    ∃ k t, k ≤ 10 ∧
      (system hash).run s (.request :: List.replicate k (.advance s.requests.length)) = some t ∧
      t.file = s.file ∧ t.clock = s.clock ∧ t.monitor = s.monitor ∧
      Responds s t ((Center.processRequestForUpdate s.content s.clock).run s.toCenter).1
        ((Center.processRequestForUpdate s.content s.clock).run s.toCenter).2 := by
  have hget : (Exec.get id : Exec Center Center).run s.toCenter = (.ok s.toCenter, s.toCenter) := rfl
  cases hno : s.config.notToUpdate with
  | true =>
    have hstep : (system hash).step s .request =
        some { s with requests := s.requests ++ [.checking] } := by
      simp [system, hrunning, move, hno]
    have hsource : (Center.processRequestForUpdate s.content s.clock).run s.toCenter =
        (Center.onConfig ThreadSafeConfig.isUpdated).run s.toCenter := by
      refine Exec.run_bind_ok (x := Center.updateWithRequest s.content s.clock) (a := ()) ?_
      rw [Center.updateWithRequest, Exec.run_bind_ok hget, if_pos hno]
      rfl
    obtain ⟨t, ht, hfile, hclock, hmon, hresponds⟩ := @step_check hash s
      { s with requests := s.requests ++ [.checking] } hrunning hlocked rfl
    refine ⟨1, t, by decide, ?_, hfile, hclock, hmon, hsource ▸ hresponds⟩
    exact Transition.System.run_cons_some.mpr ⟨_, hstep, Transition.System.run_cons_some.mpr ⟨t, ht, rfl⟩⟩
  | false =>
    let s₁ : Server := { s with requests := s.requests ++ [.updating .reread] }
    have hstep : (system hash).step s .request = some s₁ := by
      simp [s₁, system, hrunning, move, hno]
    have hi : s.requests.length < s₁.requests.length := by simp [s₁]
    have hset : ∀ place, s₁.requests.set s.requests.length place = s.requests ++ [place] := by
      intro place
      rw [List.set_append_right _ _ (Nat.le_refl _), Nat.sub_self]
      rfl
    have hstart : Stands s₁ s.requests.length s₁ (.ok .reread) s.toCenter := by
      refine ⟨rfl, rfl, rfl, rfl, fun p hp => ?_, ?_, ?_⟩
      · cases hp
        exact ⟨(hset _).symm, hrunning, hlocked⟩
      · intro e he
        cases he
      · intro he
        cases he
    obtain ⟨k, hk, v, hv, hend⟩ := Pieces.run_pieces (P := Phase.pieces s.content) (S := system hash)
      (e := .advance s.requests.length)
      (fun u p c hu hp => hu.step hi (fun heq => hp (heq ▸ rfl))) (Nat.le_refl 8) hstart
    rw [Phase.whole_reread] at hend
    have hrun : (system hash).run s (.request :: List.replicate k (.advance s.requests.length)) = some v :=
      Transition.System.run_cons_some.mpr ⟨s₁, hstep, hv⟩
    have hsource : (Center.processRequestForUpdate s.content s.clock).run s.toCenter =
        (Center.reload s.content >>= fun _ => Center.stampWith (toTimeT s.clock) >>= fun _ =>
          Center.onConfig ThreadSafeConfig.isUpdated).run s.toCenter := by
      have hupdate : (Center.updateWithRequest s.content s.clock).run s.toCenter =
          (Center.reload s.content >>= fun _ => Center.stampWith (toTimeT s.clock)).run s.toCenter := by
        rw [Center.updateWithRequest, Exec.run_bind_ok hget, hno]
        rfl
      rw [Center.processRequestForUpdate, Exec.run_bind, hupdate, ← Exec.run_bind, Exec.bind_assoc]
    rw [hsource]
    cases hr : (Center.reload s.content).run s.toCenter with
    | mk o c =>
      cases o with
      | throws e =>
        rw [Exec.run_bind_throws hr] at hend ⊢
        obtain ⟨hreq, hterm, hfree⟩ := hend.failed e rfl
        refine ⟨k, v, by omega, hrun, hend.file, hend.clock, hend.monitor, hend.center,
          fun place hplace => ?_, fun ho => by cases ho⟩
        cases hplace
        exact ⟨hreq.trans (hset _), hterm, hfree⟩
      | undefined =>
        rw [Exec.run_bind_undefined hr] at hend ⊢
        refine ⟨k, v, by omega, hrun, hend.file, hend.clock, hend.monitor, hend.center,
          fun place hplace => ?_, fun _ => hend.lost rfl⟩
        cases hplace
      | ok a =>
        -- the time stamp and the check are left
        rw [Exec.run_bind_ok hr] at hend ⊢
        obtain ⟨hreq, hterm, hfree⟩ := hend.stands .stamp rfl
        have hv' : v.requests[s.requests.length]? = some (.updating .stamp) := by
          rw [hreq, hset]
          simp
        have hstamp : (system hash).step v (.advance s.requests.length) =
            some ((v.stampWith (toTimeT v.clock)).setRequest s.requests.length .checking) := by
          simp only [system, hterm, move, stepRequest, hv']
          rfl
        let w := (v.stampWith (toTimeT v.clock)).setRequest s.requests.length .checking
        have hreqw : w.requests = s.requests ++ [.checking] := by
          show v.requests.set s.requests.length _ = _
          rw [hreq, List.set_set, hset]
        have hlockw : w.locked = false := (congrArg Center.locked hend.center).trans hfree
        obtain ⟨t, ht, hfile, hclock, hmon, hresponds⟩ := @step_check hash s w hterm hlockw hreqw
        have hcenter : (Center.stampWith (toTimeT s.clock)).run c = (.ok (), w.toCenter) := by
          have hclock : v.clock = s.clock := hend.clock
          have hc : v.toCenter = c := hend.center
          rw [← hc, ← hclock]
          rfl
        rw [Exec.run_bind_ok hcenter]
        refine ⟨k + 2, t, by omega, ?_, hfile.trans hend.file, hclock.trans hend.clock,
          hmon.trans hend.monitor, hresponds⟩
        rw [List.replicate_succ', List.replicate_succ', ← List.cons_append, ← List.cons_append]
        exact Transition.System.run_concat (Transition.System.run_concat hrun hstamp) ht

end

/-! Requests that come one after the other. -/

/-- A request, the time that passes before it and the file it finds. -/
structure Visit where
  delay : Nat
  content : FileContent

end Server

namespace Center

/-- The requests served in one go each, as the source has it: how each of them ended,
and the center that is left. Undefined behaviour ends them all. -/
def serveAll : TimePoint → List Server.Visit → Center → Option (List Place × Center)
  | _, [], c => some ([], c)
  | now, v :: visits, c =>
    let r := (processRequestForUpdate v.content (now + v.delay)).run c
    (Place.after r.1).bind (fun place =>
      (serveAll (now + v.delay) visits r.2).map (fun rest => (place :: rest.1, rest.2)))

end Center

namespace Server

/-- What the world does, as against what the server does of itself. -/
def Step.isInput : Step → Bool
  | .advance _ | .monitor => false
  | _ => true

/-- The inputs of one visit. -/
def Visit.inputs (v : Visit) : List Step := [.tick v.delay, .edit v.content, .request]

/-- Requests that do not overlap are served as the source says. -/
theorem serves_serially (hash : ThreadId → UInt64) {s : Server} (hrunning : s.terminated = false)
    (hlocked : s.locked = false) {visits : List Visit} {places : List Place} {c : Center}
    (h : Center.serveAll s.clock visits s.toCenter = some (places, c)) :
    ∃ es t, (system hash).run s es = some t ∧ es.filter Step.isInput = visits.flatMap Visit.inputs ∧
      t.toCenter = c ∧ t.requests = s.requests ++ places ∧ t.monitor = s.monitor ∧
      t.terminated = false := by
  induction visits generalizing s places with
  | nil =>
    cases h
    exact ⟨[], s, rfl, rfl, rfl, by simp, rfl, hrunning⟩
  | cons v visits ih =>
    -- the file is there when the request comes
    let s₁ : Server := { s with clock := s.clock + v.delay }
    let s₂ : Server := { s₁.observe .edited with file := some ⟨v.content, s.clock + v.delay⟩ }
    have htick : (system hash).step s (.tick v.delay) = some s₁ := by
      simp [system, hrunning, move, s₁]
    have hedit : (system hash).step s₁ (.edit v.content) = some s₂ := by
      simp [system, hrunning, move, s₁, s₂, observe]
    obtain ⟨k, t, -, hrun, -, hclock, hmon, hresponds⟩ := @request_runs hash s₂ hrunning hlocked
    let visit : List Step :=
      .tick v.delay :: .edit v.content :: .request :: List.replicate k (.advance s₂.requests.length)
    have hvisit : (system hash).run s visit = some t :=
      Transition.System.run_cons_some.mpr ⟨s₁, htick, Transition.System.run_cons_some.mpr ⟨s₂, hedit, hrun⟩⟩
    have hinputs : visit.filter Step.isInput = v.inputs := by
      have hnone : (List.replicate k (Step.advance s₂.requests.length)).filter Step.isInput = [] :=
        List.filter_replicate_of_neg (by simp [Step.isInput])
      have hfilter : visit.filter Step.isInput = .tick v.delay :: .edit v.content :: .request ::
          (List.replicate k (Step.advance s₂.requests.length)).filter Step.isInput := rfl
      rw [hfilter, hnone, Visit.inputs]
    have hsource : (Place.after ((Center.processRequestForUpdate s₂.content s₂.clock).run s₂.toCenter).1).bind
        (fun place => (Center.serveAll s₂.clock visits
          ((Center.processRequestForUpdate s₂.content s₂.clock).run s₂.toCenter).2).map
            (fun rest => (place :: rest.1, rest.2))) = some (places, c) := h
    obtain ⟨place, hplace, hrest⟩ := Option.bind_eq_some_iff.mp hsource
    obtain ⟨⟨places', c'⟩, hlater, heq⟩ := Option.map_eq_some_iff.mp hrest
    cases heq
    obtain ⟨hreq, ht, hl⟩ := hresponds.place place hplace
    rw [← hresponds.center, ← hclock] at hlater
    have htl : t.locked = false := (congrArg Center.locked hresponds.center).trans hl
    obtain ⟨es, u, hes, hfilter, hcenter, hplaces, hmonitor, hend⟩ := ih ht htl hlater
    refine ⟨visit ++ es, u, ?_, ?_, hcenter, ?_, hmonitor.trans hmon, hend⟩
    · rw [Transition.System.run_append, hvisit]
      exact hes
    · rw [List.filter_append, hinputs, hfilter]
      rfl
    · rw [hplaces, hreq, List.append_assoc]
      rfl

/-- The server of `baseFile`, just built. -/
def builtBase : Server := settleConstruct ((init (some baseFile) 0 true).perform buildManager)

/-- A file that can be read, one that cannot, and one with a key less. -/
def threeVisits : List Visit :=
  [⟨5, some [("RMin", some 20), ("RMax", some 30), ("AmountOfOperators", some 6), ("SizeOfQueue", some 40)]⟩,
    ⟨1, none⟩, ⟨3, keyLost⟩]

theorem serves_serially_threeVisits : ∃ c, Center.serveAll builtBase.clock threeVisits builtBase.toCenter =
      some ([.replied true, .replied false, .replied false], c) ∧
    ∃ es t, (system (fun _ => 7)).run builtBase es = some t ∧
      es.filter Step.isInput = threeVisits.flatMap Visit.inputs ∧ t.toCenter = c ∧
      t.requests = builtBase.requests ++ [.replied true, .replied false, .replied false] ∧
      t.monitor = builtBase.monitor ∧ t.terminated = false := by
  have hplaces : (Center.serveAll builtBase.clock threeVisits builtBase.toCenter).map Prod.fst =
      some [.replied true, .replied false, .replied false] := by decide +kernel
  obtain ⟨⟨places, c⟩, hc, hmap⟩ := Option.map_eq_some_iff.mp hplaces
  cases hmap
  exact ⟨c, hc, serves_serially (fun _ => 7) (by decide +kernel) (by decide +kernel) hc⟩

end Server

end ProteiCov
