import ProteiCov.Answers

/-
  What a handler of a connection writes

  A handler thread reads one request, lets the manager act on it and writes one response
  at most. What it writes depends on what it heard from the manager only: `Hears.written`
  says so of `handleHttpRequest` and any manager, and `responses` is what is written.
-/

namespace ProteiCov
open Cpp

/-- What the calls of the manager came to in a handler; `settled` is a call with a CallID
and what its future gave. -/
inductive Heard where
  | nothing
  | thrown (e : StdException)
  | settled (id : CallID) (x : Settled Result)
  | updated (answer : Except StdException Bool)

/-- What `future.get()` does with what the promise was settled with. -/
def delivered {σ : Type} : Settled Result → Exec σ Result
  | .value r => pure r
  | .exception e => .throw e

/-- The manager a handler may as well have called. -/
def Heard.manager (heard : Heard) : IManager Unit Unit where
  addTask _ :=
    match heard with
    | .thrown e => .throw e
    | .settled id _ => pure (id, ())
    | .nothing | .updated _ => .undefined
  get _ :=
    match heard with
    | .settled _ x => delivered x
    | .nothing | .thrown _ | .updated _ => .undefined
  processRequestForUpdate :=
    match heard with
    | .updated answer => .ofExcept answer
    | .nothing | .thrown _ | .settled _ _ => .undefined

/-- What a handler writes to its socket. -/
def responses (received : Except StdException Request) (heard : Heard) : List Response :=
  (((HttpServer.construct heard.manager).handleHttpRequest received).run (HttpServer.opened ())).2.written

namespace IManager
open HttpServer
variable {σ φ : Type} {m : IManager σ φ} {s : σ} {target : List Char} {heard : Heard}

/-- What a handler hears of a target. -/
inductive Hears (m : IManager σ φ) (s : σ) (target : List Char) : Heard → Prop
  | nothing (hphone : ∀ rest, target ≠ "/phone=".toList ++ rest)
      (hupdate : ∀ rest, target ≠ "/update".toList ++ rest) : Hears m s target .nothing
  | thrown {phone : List Char} {e : StdException} {s' : σ} (htarget : target = "/phone=".toList ++ phone)
      (hadd : (m.addTask phone).run s = (.throws e, s')) : Hears m s target (.thrown e)
  | settled {phone : List Char} {id : CallID} {f : φ} {x : Settled Result} {s₁ s₂ : σ}
      (htarget : target = "/phone=".toList ++ phone) (hadd : (m.addTask phone).run s = (.ok (id, f), s₁))
      (hget : (m.get f).run s₁ = (delivered x).run s₂) : Hears m s target (.settled id x)
  | updated {rest : List Char} {answer : Except StdException Bool} {s' : σ}
      (htarget : target = "/update".toList ++ rest)
      (h : m.processRequestForUpdate.run s = (Exec.ofExcept answer).run s') : Hears m s target (.updated answer)

end IManager

namespace Heard
open HttpServer

/-- The response of a handler, if it comes to one. -/
def response : Heard → Option Response
  | nothing => some (finish { Response.default with result := .not_found, body := "Not Found".toList })
  | thrown e | settled _ (.exception e) => if e.isFutureError then some (finish .default) else none
  | settled id (.value r) =>
    some (finish { Response.default with result := r.status.httpStatus, body := callBody id r })
  | updated (.ok answer) => some (finish
      { Response.default with result := (Reply.updated answer).httpStatus, body := updateBody answer })
  | updated (.error _) => none

/-- What the client reads off it. -/
def reply : Heard → Option Reply
  | nothing => some .notFound
  | settled id (.value r) => some (.call id r.callDuration r.status)
  | updated (.ok answer) => some (.updated answer)
  | thrown _ | settled _ (.exception _) | updated (.error _) => none

theorem readReply_response (heard : Heard) : heard.response.bind (fun res => readReply res.body) = heard.reply := by
  -- the default response has no text
  have hdefault : ∀ e : StdException, (if e.isFutureError then some (finish .default) else none).bind
      (fun res => readReply res.body) = none := by
    intro e
    split
    · exact readReply_nil
    · rfl
  cases heard with
  | nothing => exact readReply_notFound
  | thrown e => exact hdefault e
  | settled id x =>
    cases x with
    | value r => exact readReply_callBody id r
    | exception e => exact hdefault e
  | updated answer =>
    cases answer with
    | ok b => exact readReply_updateBody b
    | error e => rfl

end Heard

namespace IManager
open HttpServer
variable {σ φ : Type} {m : IManager σ φ} {s : σ} {target : List Char} {heard : Heard}

theorem handled_of_throws {phone : List Char} {e : StdException} {s' : σ}
    (h : ((construct m).phoneCall phone).run (opened s) = (.throws e, { opened s with state := s' })) :
    ∃ c, ((construct m).handleHttpRequest (.ok ⟨true, "/phone=".toList ++ phone⟩)).run (opened s) =
      (.ok (), c) ∧ c.written = (Heard.response (.thrown e)).toList := by
  cases he : e.isFutureError with
  | true =>
    have hroute : ((construct m).route ("/phone=".toList ++ phone)).run (opened s) =
        (.ok (), { opened s with state := s' }) := by
      rw [route_phone, processPhoneCall, Exec.run_tryCatch_throws h, if_pos he]
      rfl
    refine ⟨_, handle_ok hroute, ?_⟩
    rw [Heard.response, if_pos he]
    rfl
  | false =>
    have hroute : ((construct m).route ("/phone=".toList ++ phone)).run (opened s) =
        (.throws e, { opened s with state := s' }) := by
      rw [route_phone, processPhoneCall, Exec.run_tryCatch_throws h, if_neg (by simp [he])]
      rfl
    refine ⟨_, handle_throws hroute, ?_⟩
    rw [Heard.response, if_neg (by simp [he])]
    rfl

theorem handled_of_route {s' : σ} {res : Response}
    (h : ((construct m).route target).run (opened s) = (.ok (), ⟨s', res, []⟩)) :
    ∃ c, ((construct m).handleHttpRequest (.ok ⟨true, target⟩)).run (opened s) = (.ok (), c) ∧
      c.written = [finish res] :=
  ⟨_, handle_ok h, rfl⟩

theorem Hears.handled (h : m.Hears s target heard) :
    ∃ c, ((construct m).handleHttpRequest (.ok ⟨true, target⟩)).run (opened s) = (.ok (), c) ∧
      c.written = heard.response.toList := by
  cases h with
  | nothing hphone hupdate =>
    have hroute : ((construct m).route target).run (opened s) =
        (.ok (), ⟨s, { Response.default with result := .not_found, body := "Not Found".toList }, []⟩) := by
      rw [route_other _ hphone hupdate]
      rfl
    exact handled_of_route hroute
  | @thrown phone e s' htarget hadd =>
    subst htarget
    apply handled_of_throws
    rw [phoneCall, Exec.run_bind_ok (run_logDebug rfl _)]
    exact Exec.run_bind_throws (run_call hadd)
  | @settled phone id f x s₁ s₂ htarget hadd hget =>
    subst htarget
    cases x with
    | value r =>
      have hrun := @run_processPhoneCall_added _ _ (construct m) (opened s) rfl phone id f r s₁ s₂ hadd hget
      rw [← route_phone] at hrun
      exact handled_of_route hrun
    | exception e =>
      apply handled_of_throws
      rw [phoneCall, Exec.run_bind_ok (run_logDebug rfl _), Exec.run_bind_ok (run_call hadd)]
      exact Exec.run_bind_throws (run_call (c := { opened s with state := s₁ }) hget)
  | @updated rest answer s' htarget hreq =>
    subst htarget
    cases answer with
    | ok b =>
      have hrun := @run_processUpdate_body _ _ (construct m) (opened s) b s' hreq
      rw [← route_update _ rest] at hrun
      exact handled_of_route hrun
    | error e =>
      have hroute : ((construct m).route ("/update".toList ++ rest)).run (opened s) =
          (.throws e, { opened s with state := s' }) := by
        rw [route_update, processUpdate]
        exact Exec.run_bind_throws (run_call hreq)
      exact ⟨_, handle_throws hroute, rfl⟩

/-- A handler hears the same of the manager that says just this. -/
theorem Hears.again (h : m.Hears s target heard) : heard.manager.Hears () target heard := by
  cases h with
  | nothing hphone hupdate => exact .nothing hphone hupdate
  | thrown htarget hadd => exact .thrown htarget rfl
  | settled htarget hadd hget => exact .settled htarget rfl rfl
  | updated htarget hreq => exact .updated htarget rfl

theorem responses_eq (h : heard.manager.Hears () target heard) :
    responses (.ok ⟨true, target⟩) heard = heard.response.toList := by
  obtain ⟨c, hrun, hwritten⟩ := h.handled
  rw [responses, hrun]
  exact hwritten

/-- What `handleHttpRequest` writes is up to what the handler heard. -/
theorem Hears.written (h : m.Hears s target heard) :
    ∃ c, ((construct m).handleHttpRequest (.ok ⟨true, target⟩)).run (opened s) = (.ok (), c) ∧
      c.written = responses (.ok ⟨true, target⟩) heard := by
  obtain ⟨c, hrun, hwritten⟩ := h.handled
  refine ⟨c, hrun, ?_⟩
  rw [responses_eq h.again]
  exact hwritten

end IManager

end ProteiCov
