import ProteiCov.HttpServer

/-
  What a client can read off its response

  The body of a response is a text for people: the CallID, the duration and the status of
  the call in it, or a few words on the update. `readReply` reads it back, and `reply_tells`
  says that nothing is lost or made up on the way: the client reads what the manager gave
  for the request, no more and no less. A handler that failed leaves nothing to be read,
  although the status of what it sends may be 200.
-/

namespace ProteiCov
open Cpp Text

/-- What a response tells. -/
inductive Reply where
  | call (callID : CallID) (callDuration : Int) (status : CallStatus)
  | updated (answer : Bool)
  | notFound
  deriving DecidableEq, Repr

def Reply.httpStatus : Reply → HttpStatus
  | call _ _ status => status.httpStatus
  | updated answer => if answer then .ok else .forbidden
  | notFound => .not_found

/-- The status with the name. -/
def readStatusStr (text : List Char) : CallStatus :=
  ([.Completed, .Duplication, .Overloaded, .Rejected, .Timeout].find?
    (fun status => HttpServer.statusStr status = text)).getD .Awaiting

/-- The words of a body; a call takes seven, of which the last but two ends with `s` and
both it and the last with the end of a line. -/
def readReply (body : List Char) : Option Reply :=
  match body.splitOn ' ' with
  | [_, callID, _, _, callDuration, _, status] =>
    some (.call (UInt64.ofNat (Nat.ofDigitChars 10 callID 0)) (readInteger callDuration.dropLast.dropLast)
      (readStatusStr status.dropLast))
  | _ =>
    if body = "Updated".toList then some (.updated true)
    else if body = "Could not update".toList then some (.updated false)
    else if body = "Not Found".toList then some .notFound
    else none

/-- What the manager has for the request. -/
inductive IManager.Due {σ φ : Type} (m : IManager σ φ) (s : σ) (target : List Char) : Reply → Prop
  | call {phone : List Char} {id : CallID} {f : φ} {r : Result} {s₁ s₂ : σ}
      (htarget : target = "/phone=".toList ++ phone) (hadd : (m.addTask phone).run s = (.ok (id, f), s₁))
      (hget : (m.get f).run s₁ = (.ok r, s₂)) : Due m s target (.call id r.callDuration r.status)
  | update {rest : List Char} {answer : Bool} (htarget : target = "/update".toList ++ rest)
      (h : m.Replies s answer) : Due m s target (.updated answer)
  | other (hphone : ∀ rest, target ≠ "/phone=".toList ++ rest)
      (hupdate : ∀ rest, target ≠ "/update".toList ++ rest) : Due m s target .notFound

namespace HttpServer

/-- The whole body of the response to a call, with its status. -/
def callBody (id : CallID) (r : Result) : List Char :=
  callText id r.callDuration ++ ("\n Status: ".toList ++ statusStr r.status ++ "\n".toList)

/-! Reading the body of a call. -/

/-- The words of the body. -/
def callWords (id : CallID) (r : Result) : List (List Char) :=
  ["CallID:".toList, Nat.toDigits 10 id.toNat, "call".toList, "duration:".toList,
    integer r.callDuration ++ "s\n".toList, "Status:".toList, statusStr r.status ++ "\n".toList]

theorem callBody_eq (id : CallID) (r : Result) : callBody id r = [' '].intercalate (callWords id r) := by
  have hid : "CallID: ".toList = "CallID:".toList ++ [' '] := by decide +kernel
  have hcall : " call duration: ".toList =
      [' '] ++ "call".toList ++ [' '] ++ "duration:".toList ++ [' '] := by decide +kernel
  have hstatus : "\n Status: ".toList = "\n".toList ++ [' '] ++ "Status:".toList ++ [' '] := by
    decide +kernel
  have hend : "s\n".toList = "s".toList ++ "\n".toList := by decide +kernel
  unfold callBody callText callWords
  rw [hid, hcall, hstatus, hend]
  generalize "CallID:".toList = w₁, "call".toList = w₂, "duration:".toList = w₃, "Status:".toList = w₄,
    "s".toList = w₅, "\n".toList = w₆
  simp only [List.intercalate_cons_cons, List.intercalate_singleton, List.append_assoc]

theorem space_not_in_words (id : CallID) (r : Result) : ∀ w ∈ callWords id r, ' ' ∉ w := by
  have hdigits : ' ' ∉ Nat.toDigits 10 id.toNat := by
    intro h
    cases mem_toDigits h
  have hinteger : ' ' ∉ integer r.callDuration := not_mem_integer (by decide) (by decide) _
  have hstatus : ' ' ∉ statusStr r.status := by
    cases r.status <;> decide
  intro w hw
  simp only [callWords, List.mem_cons, List.not_mem_nil, or_false] at hw
  rcases hw with rfl | rfl | rfl | rfl | rfl | rfl | rfl
  · decide
  · exact hdigits
  · decide
  · decide
  · simp [hinteger]
  · decide
  · simp [hstatus]

theorem readStatusStr_statusStr (status : CallStatus) : readStatusStr (statusStr status) = status := by
  cases status <;> decide

theorem readReply_callBody (id : CallID) (r : Result) :
    readReply (callBody id r) = some (.call id r.callDuration r.status) := by
  have hwords : (callBody id r).splitOn ' ' = callWords id r := by
    rw [callBody_eq]
    exact (splitOn_intercalate_iff ' ' (by simp [callWords])).mpr (space_not_in_words id r)
  have hduration : (integer r.callDuration ++ "s\n".toList).dropLast.dropLast = integer r.callDuration := by
    simp
  have hstatus : (statusStr r.status ++ "\n".toList).dropLast = statusStr r.status := by simp
  unfold readReply
  rw [hwords]
  show some (Reply.call _ _ _) = _
  rw [hduration, hstatus, readInteger_integer, readStatusStr_statusStr, Nat.ofDigitChars_ten_toDigits,
    UInt64.ofNat_toNat]

/-! What is written. -/

section
variable {σ φ : Type} {server : HttpServer σ φ} {c : Exchange σ}

theorem run_processPhoneCall_added (hlog : server.logger_ = true) {phone : List Char} {id : CallID}
    {f : φ} {r : Result} {s₁ s₂ : σ} (hadd : (server.manager.addTask phone).run c.state = (.ok (id, f), s₁))
    (hget : (server.manager.get f).run s₁ = (.ok r, s₂)) :
    (server.processPhoneCall phone).run c =
      (.ok (), ⟨s₂, { c.res with result := r.status.httpStatus, body := callBody id r }, c.written⟩) := by
  refine Exec.run_tryCatch_ok ?_
  rw [phoneCall, Exec.run_bind_ok (run_logDebug hlog c), Exec.run_bind_ok (run_call hadd),
    Exec.run_bind_ok (run_call (c := { c with state := s₁ }) hget), Exec.run_bind_ok (run_modifyRes _ _)]
  rfl

/-- The body of the response to an update. -/
def updateBody (answer : Bool) : List Char :=
  if answer then "Updated".toList else "Could not update".toList

theorem readReply_updateBody (answer : Bool) : readReply (updateBody answer) = some (.updated answer) := by
  cases answer <;> decide +kernel

theorem readReply_notFound : readReply "Not Found".toList = some .notFound := by
  decide +kernel

theorem readReply_nil : readReply [] = none := by
  decide +kernel

theorem run_processUpdate_body {b : Bool} {s' : σ}
    (h : server.manager.processRequestForUpdate.run c.state = (.ok b, s')) :
    server.processUpdate.run c = (.ok (),
      ⟨s', { c.res with result := (Reply.updated b).httpStatus, body := updateBody b }, c.written⟩) := by
  rw [processUpdate, Exec.run_bind_ok (run_call h)]
  cases b with
  | true => rfl
  | false => rfl

end

end HttpServer

/-! The handler of one request. -/

namespace IManager
open HttpServer
variable {σ φ : Type} {m : IManager σ φ} {s : σ} {target : List Char} {reply : Reply}

/-- A GET request for the target gets the one response. -/
def Written (m : IManager σ φ) (s : σ) (target : List Char) (res : Response) : Prop :=
  ∃ c, ((construct m).handleHttpRequest (.ok ⟨true, target⟩)).run (opened s) = (.ok (), c) ∧
    c.written = [res]

theorem Written.unique {res res' : Response} (h : m.Written s target res) (h' : m.Written s target res') :
    res = res' := by
  obtain ⟨c, hrun, hres⟩ := h
  obtain ⟨c', hrun', hres'⟩ := h'
  rw [hrun] at hrun'
  cases hrun'
  rw [hres] at hres'
  cases hres'
  rfl

theorem written_of_route {s' : σ} {res : Response}
    (h : ((construct m).route target).run (opened s) = (.ok (), ⟨s', res, []⟩)) :
    m.Written s target (finish res) :=
  ⟨_, handle_ok h, rfl⟩

/-- The response says the same with its body and with its status, in HTTP/1.1. -/
structure Says (res : Response) (reply : Reply) : Prop where
  body : readReply res.body = some reply
  result : res.result = reply.httpStatus
  version : res.version = 11

theorem says_finish {res : Response} (hbody : readReply res.body = some reply)
    (hresult : res.result = reply.httpStatus) : Says (finish res) reply :=
  ⟨hbody, hresult, rfl⟩

theorem Due.written (h : m.Due s target reply) : ∃ res, m.Written s target res ∧ Says res reply := by
  cases h with
  | @call phone id f r s₁ s₂ htarget hadd hget =>
    have hrun := @run_processPhoneCall_added _ _ (construct m) (opened s) rfl phone id f r s₁ s₂ hadd hget
    rw [← route_phone, ← htarget] at hrun
    exact ⟨_, written_of_route hrun, says_finish (readReply_callBody id r) rfl⟩
  | @update rest b htarget hreplies =>
    obtain ⟨s', hreply⟩ := hreplies
    have hrun := @run_processUpdate_body _ _ (construct m) (opened s) b s' hreply
    rw [← route_update _ rest, ← htarget] at hrun
    exact ⟨_, written_of_route hrun, says_finish (readReply_updateBody b) rfl⟩
  | other hphone hupdate =>
    have hrun : ((construct m).route target).run (opened s) =
        (.ok (), ⟨s, { Response.default with result := .not_found, body := "Not Found".toList }, []⟩) := by
      rw [route_other _ hphone hupdate]
      rfl
    exact ⟨_, written_of_route hrun, says_finish readReply_notFound rfl⟩

theorem Gives.due {phone : List Char} {r : Result} (h : m.Gives s phone r) :
    ∃ reply, m.Due s ("/phone=".toList ++ phone) reply := by
  obtain ⟨id, f, s₁, s₂, hadd, hget⟩ := h
  exact ⟨_, .call rfl hadd hget⟩

/-- A response that can be read is due to one. -/
theorem Written.due {res : Response} (h : m.Written s target res) (hread : readReply res.body = some reply) :
    ∃ reply, m.Due s target reply := by
  obtain ⟨c, hrun, hres⟩ := h
  by_cases hphone : ∃ phone, target = "/phone=".toList ++ phone
  · obtain ⟨phone, rfl⟩ := hphone
    by_cases hgives : ∃ r, m.Gives s phone r
    · obtain ⟨r, hr⟩ := hgives
      exact hr.due
    · -- the handler left the response as it was, and the default one has no text
      obtain ⟨o, s', hroute⟩ := @run_processPhoneCall_fails _ _ (construct m) (opened s) rfl phone
        (fun r hr => hgives ⟨r, hr⟩)
      rw [← route_phone] at hroute
      obtain ⟨_, heq⟩ := handle_written hroute rfl hrun hres
      rw [heq] at hread
      cases readReply_nil.symm.trans hread
  · by_cases hupdate : ∃ rest, target = "/update".toList ++ rest
    · obtain ⟨rest, rfl⟩ := hupdate
      by_cases hreplies : ∃ b, m.Replies s b
      · obtain ⟨b, hb⟩ := hreplies
        exact ⟨_, .update rfl hb⟩
      · have hfails := @run_processUpdate_fails _ _ (construct m) (opened s) (fun b hb => hreplies ⟨b, hb⟩)
        rcases hfails with ⟨e, s', hroute⟩ | ⟨s', hroute⟩
        · rw [← route_update _ rest] at hroute
          cases (handle_written hroute rfl hrun hres).1
        · rw [← route_update _ rest] at hroute
          cases (handle_written hroute rfl hrun hres).1
    · exact ⟨.notFound, .other (fun rest hrest => hphone ⟨rest, hrest⟩)
        (fun rest hrest => hupdate ⟨rest, hrest⟩)⟩

/-- Whatever the calls of the manager do, a client reads a reply off its response exactly
when the manager has that reply for the request, and the status of the response goes
with it. -/
theorem reply_tells (m : IManager σ φ) (s : σ) (target : List Char) (reply : Reply) :
    ((∃ res, m.Written s target res ∧ readReply res.body = some reply) ↔ m.Due s target reply) ∧
      (m.Due s target reply → ∃ res, m.Written s target res ∧ Says res reply) := by
  refine ⟨⟨?_, ?_⟩, Due.written⟩
  · rintro ⟨res, hres, hread⟩
    obtain ⟨reply', hdue⟩ := hres.due hread
    obtain ⟨res', hres', hsays⟩ := hdue.written
    have hsame := hsays.body
    rw [hres'.unique hres, hread] at hsame
    cases hsame
    exact hdue
  · intro hdue
    obtain ⟨res, hres, hsays⟩ := hdue.written
    exact ⟨res, hres, hsays.body⟩

end IManager

end ProteiCov
