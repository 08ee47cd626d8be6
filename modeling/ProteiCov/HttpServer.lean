import ProteiCov.Admission
import ProteiCov.Lib.Text

/-
  `net::HttpServer`: what a client is answered

  A handler thread reads one request, lets the manager act on it and writes one
  response. Two layers of handlers stand around the calls of the manager: the inner one
  takes a `std::future_error` and lets the response stand as it is, the outer one takes
  any other exception and leaves before the response is written.

  The manager is a parameter, with whatever outcomes its calls have; `Manager.serving`
  is the real one. `answered_iff` says which outcomes the client is told the truth
  about.
-/

namespace ProteiCov
open Cpp Text

/-- The calls of the manager a handler makes. `φ` is the type of a future. -/
structure IManager (σ φ : Type) where
  addTask : List Char → Exec σ (CallID × φ)
  get : φ → Exec σ Result
  processRequestForUpdate : Exec σ Bool

/-- `http::status`. -/
inductive HttpStatus where
  | ok
  | forbidden
  | not_found
  | not_acceptable
  | request_timeout
  | conflict
  | too_many_requests
  deriving DecidableEq, Repr

def HttpStatus.code : HttpStatus → Nat
  | ok => 200
  | forbidden => 403
  | not_found => 404
  | not_acceptable => 406
  | request_timeout => 408
  | conflict => 409
  | too_many_requests => 429

/-- The status tells the client of an error. -/
def HttpStatus.isError (s : HttpStatus) : Bool := 400 ≤ s.code

/-- `http::response<string_body>`, without the fields Beast adds in `prepare_payload`. -/
structure Response where
  result : HttpStatus
  version : Nat
  server : Option (List Char)
  body : List Char
  deriving DecidableEq, Repr

/-- A default response. -/
def Response.default : Response where
  result := .ok
  version := 11
  server := none
  body := []

/-- `http::request<string_body>`; of the methods the code tells GET apart. -/
structure Request where
  get : Bool
  target : List Char
  deriving DecidableEq, Repr

/-- What a handler thread works on: the state the manager acts on, the response and
what was written to the socket. -/
structure Exchange (σ : Type) where
  state : σ
  res : Response
  written : List Response

/-- `net::HttpServer` -/
structure HttpServer (σ φ : Type) where
  manager : IManager σ φ
  logger_ : Bool

/-- The response a call status is answered with. -/
def CallStatus.httpStatus : CallStatus → HttpStatus
  | Awaiting => .ok
  | Completed => .ok
  | Duplication => .conflict
  | Overloaded => .too_many_requests
  | Rejected => .not_acceptable
  | Timeout => .request_timeout

namespace HttpServer
variable {σ φ : Type}

/-- The constructor: `BuildLogger` gives a logger or throws. -/
def construct (manager : IManager σ φ) : HttpServer σ φ where
  manager := manager
  logger_ := true

/-- A call of the manager. -/
def call {α : Type} (x : Exec σ α) : Exec (Exchange σ) α := fun c =>
  match x.run c.state with
  | (o, s) => (o, { c with state := s })

def modifyRes (f : Response → Response) : Exec (Exchange σ) Unit :=
  .modify (fun c => { c with res := f c.res })

/-- `res.result(status)` and the text added to the body. -/
def answer (status : HttpStatus) (text : List Char) (res : Response) : Response :=
  { res with result := status, body := res.body ++ text }

/-- `statusStr` -/
def statusStr : CallStatus → List Char
  | .Awaiting => "Awaiting".toList
  | .Completed => "Completed".toList
  | .Duplication => "Duplication".toList
  | .Overloaded => "Overloaded".toList
  | .Rejected => "rejected".toList
  | .Timeout => "timeout".toList

def workWithCallStatus (status : CallStatus) : Exec (Exchange σ) Unit :=
  modifyRes (answer status.httpStatus ("\n Status: ".toList ++ statusStr status ++ "\n".toList))

/-- `logger_->debug(…)`, not guarded. -/
def logDebug (server : HttpServer σ φ) : Exec (Exchange σ) Unit :=
  if server.logger_ then pure () else .undefined

/-- The body of the response to a call before its status is added. -/
def callText (callID : CallID) (seconds : Int) : List Char :=
  "CallID: ".toList ++ Nat.toDigits 10 callID.toNat ++ " call duration: ".toList ++
    integer seconds ++ "s".toList

/-- The `try` block of `processPhoneCall`. -/
def phoneCall (server : HttpServer σ φ) (phone : List Char) : Exec (Exchange σ) Unit := do
  server.logDebug
  let added ← call (server.manager.addTask phone)
  let result ← call (server.manager.get added.2)
  modifyRes (fun res => { res with body := callText added.1 result.callDuration })
  workWithCallStatus result.status

/-- Only a `future_error` is caught; the handler logs it. -/
def processPhoneCall (server : HttpServer σ φ) (phone : List Char) : Exec (Exchange σ) Unit :=
  .tryCatch (server.phoneCall phone) (fun e => if e.isFutureError then pure () else .throw e)

def processUpdate (server : HttpServer σ φ) : Exec (Exchange σ) Unit := do
  let resUpd ← call server.manager.processRequestForUpdate
  if resUpd then modifyRes (fun res => { res with result := .ok, body := "Updated".toList })
  else modifyRes (fun res => { res with result := .forbidden, body := "Could not update".toList })

/-- The branches of `handleRequest`. -/
def route (server : HttpServer σ φ) (path : List Char) : Exec (Exchange σ) Unit :=
  if "/phone=".toList.isPrefixOf path then server.processPhoneCall (path.drop 7)
  else if "/update".toList.isPrefixOf path then server.processUpdate
  else modifyRes (fun res => { res with result := .not_found, body := "Not Found".toList })

/-- `version` and the server field. -/
def finish (res : Response) : Response :=
  { res with version := 11, server := some "Boost.Beast HTTP Server".toList }

def handleRequest (server : HttpServer σ φ) (path : List Char) : Exec (Exchange σ) Unit := do
  server.route path
  modifyRes finish

/-- `http::write(stream, res)`, which does not throw here. -/
def write : Exec (Exchange σ) Unit := .modify (fun c => { c with written := c.written ++ [c.res] })

/-- `handleHttpRequest(socket)`, with what `http::read` gave; both handlers only log. -/
def handleHttpRequest (server : HttpServer σ φ) (received : Except StdException Request) :
    Exec (Exchange σ) Unit :=
  .tryCatch
    (do
      let req ← .ofExcept received
      modifyRes (fun _ => .default)
      if req.get then
        server.handleRequest req.target
        write
      else pure ())
    (fun _ => pure ())

/-- A connection nothing was written to. -/
def opened (s : σ) : Exchange σ where
  state := s
  res := .default
  written := []

end HttpServer

/-! What the client should be told. -/

namespace IManager
variable {σ φ : Type}

/-- The call of the number is admitted and its future gives the result. -/
def Gives (m : IManager σ φ) (s : σ) (phone : List Char) (r : Result) : Prop :=
  ∃ id f s₁ s₂, (m.addTask phone).run s = (.ok (id, f), s₁) ∧ (m.get f).run s₁ = (.ok r, s₂)

/-- `processRequestForUpdate` returns the value. -/
def Replies (m : IManager σ φ) (s : σ) (b : Bool) : Prop :=
  ∃ s', m.processRequestForUpdate.run s = (.ok b, s')

/-- The response fits what became of the request. -/
structure Fits (m : IManager σ φ) (s : σ) (target : List Char) (res : Response) : Prop where
  phone_ok : ∀ phone, target = "/phone=".toList ++ phone → res.result = .ok →
    ∃ r, m.Gives s phone r ∧ (r.status = .Completed ∨ r.status = .Awaiting)
  phone_status : ∀ phone r, target = "/phone=".toList ++ phone → m.Gives s phone r →
    res.result = r.status.httpStatus
  phone_failed : ∀ phone, target = "/phone=".toList ++ phone → (∀ r, ¬ m.Gives s phone r) →
    res.result.isError = true
  update : ∀ rest, target = "/update".toList ++ rest → (res.result = .ok ↔ m.Replies s true)
  other : (∀ rest, target ≠ "/phone=".toList ++ rest) → (∀ rest, target ≠ "/update".toList ++ rest) →
    res.result = .not_found

/-- A GET request for the target gets one response, and it fits. -/
def Answered (m : IManager σ φ) (s : σ) (target : List Char) : Prop :=
  ∃ c res, ((HttpServer.construct m).handleHttpRequest (.ok ⟨true, target⟩)).run
      (HttpServer.opened s) = (.ok (), c) ∧
    c.written = [res] ∧ m.Fits s target res

/-- The calls of the manager the target leads to return. -/
structure Returns (m : IManager σ φ) (s : σ) (target : List Char) : Prop where
  phone : ∀ phone, target = "/phone=".toList ++ phone → ∃ r, m.Gives s phone r
  update : ∀ rest, target = "/update".toList ++ rest → ∃ b, m.Replies s b

end IManager

/-! What the handlers do. -/

namespace HttpServer
variable {σ φ : Type} {server : HttpServer σ φ} {c c' : Exchange σ}

theorem run_call {α : Type} {x : Exec σ α} {o : Outcome α} {s' : σ}
    (h : x.run c.state = (o, s')) : (call x).run c = (o, { c with state := s' }) := by
  have hcall : (call x).run c = ((x.run c.state).1, { c with state := (x.run c.state).2 }) := rfl
  rw [hcall, h]

theorem run_modifyRes (f : Response → Response) (c : Exchange σ) :
    (modifyRes f).run c = (.ok (), { c with res := f c.res }) := rfl

/-- `path.find(text) == 0` -/
theorem isPrefixOf_iff {text path : List Char} :
    text.isPrefixOf path = true ↔ ∃ rest, path = text ++ rest := by
  rw [List.isPrefixOf_iff_prefix]
  exact ⟨fun ⟨rest, h⟩ => ⟨rest, h.symm⟩, fun ⟨rest, h⟩ => ⟨rest, h.symm⟩⟩

theorem phone_ne_update (a b : List Char) : "/phone=".toList ++ a ≠ "/update".toList ++ b := by
  intro h
  cases h

theorem route_phone (server : HttpServer σ φ) (phone : List Char) :
    server.route ("/phone=".toList ++ phone) = server.processPhoneCall phone := by
  have hdrop : ("/phone=".toList ++ phone).drop 7 = phone := List.drop_left' rfl
  unfold route
  rw [if_pos (isPrefixOf_iff.mpr ⟨phone, rfl⟩), hdrop]

theorem route_update (server : HttpServer σ φ) (rest : List Char) :
    server.route ("/update".toList ++ rest) = server.processUpdate := by
  have hphone : ¬ "/phone=".toList.isPrefixOf ("/update".toList ++ rest) = true := by
    intro h
    obtain ⟨phone, heq⟩ := isPrefixOf_iff.mp h
    exact phone_ne_update phone rest heq.symm
  unfold route
  rw [if_neg hphone, if_pos (isPrefixOf_iff.mpr ⟨rest, rfl⟩)]

theorem route_other (server : HttpServer σ φ) {path : List Char}
    (hphone : ∀ rest, path ≠ "/phone=".toList ++ rest)
    (hupdate : ∀ rest, path ≠ "/update".toList ++ rest) :
    server.route path =
      modifyRes (fun res => { res with result := .not_found, body := "Not Found".toList }) := by
  have hp : ¬ "/phone=".toList.isPrefixOf path = true := by
    intro h
    obtain ⟨rest, heq⟩ := isPrefixOf_iff.mp h
    exact hphone rest heq
  have hu : ¬ "/update".toList.isPrefixOf path = true := by
    intro h
    obtain ⟨rest, heq⟩ := isPrefixOf_iff.mp h
    exact hupdate rest heq
  unfold route
  rw [if_neg hp, if_neg hu]

/-- The connection after a response was written to it. -/
def responded (c : Exchange σ) : Exchange σ :=
  { c with res := finish c.res, written := c.written ++ [finish c.res] }

theorem handle_ok {target : List Char} {s : σ}
    (h : (server.route target).run (opened s) = (.ok (), c)) :
    (server.handleHttpRequest (.ok ⟨true, target⟩)).run (opened s) = (.ok (), responded c) := by
  refine Exec.run_tryCatch_ok ?_
  rw [Exec.run_bind_ok (Exec.run_ofExcept_ok _ _), Exec.run_bind_ok (run_modifyRes _ _)]
  show (server.handleRequest target >>= fun _ => write).run (opened s) = _
  have hreq : (server.handleRequest target).run (opened s) = (.ok (), { c with res := finish c.res }) := by
    rw [handleRequest, Exec.run_bind_ok h]
    rfl
  rw [Exec.run_bind_ok hreq]
  rfl

/-- A branch that throws leaves nothing to be written. -/
theorem handle_throws {target : List Char} {s : σ} {e : StdException}
    (h : (server.route target).run (opened s) = (.throws e, c)) :
    (server.handleHttpRequest (.ok ⟨true, target⟩)).run (opened s) = (.ok (), c) := by
  refine (Exec.run_tryCatch_throws (e := e) (t := c) ?_).trans rfl
  rw [Exec.run_bind_ok (Exec.run_ofExcept_ok _ _), Exec.run_bind_ok (run_modifyRes _ _)]
  show (server.handleRequest target >>= fun _ => write).run (opened s) = _
  refine Exec.run_bind_throws ?_
  rw [handleRequest]
  exact Exec.run_bind_throws h

theorem handle_undefined {target : List Char} {s : σ}
    (h : (server.route target).run (opened s) = (.undefined, c)) :
    (server.handleHttpRequest (.ok ⟨true, target⟩)).run (opened s) = (.undefined, c) := by
  refine Exec.run_tryCatch_undefined ?_
  rw [Exec.run_bind_ok (Exec.run_ofExcept_ok _ _), Exec.run_bind_ok (run_modifyRes _ _)]
  show (server.handleRequest target >>= fun _ => write).run (opened s) = _
  refine Exec.run_bind_undefined ?_
  rw [handleRequest]
  exact Exec.run_bind_undefined h

/-- A handler that wrote a response came back from its branch. -/
theorem handle_written {target : List Char} {s : σ} {res : Response} {o : Outcome Unit}
    (hroute : (server.route target).run (opened s) = (o, c)) (hempty : c.written = [])
    (h : (server.handleHttpRequest (.ok ⟨true, target⟩)).run (opened s) = (.ok (), c'))
    (hres : c'.written = [res]) : o = .ok () ∧ res = finish c.res := by
  cases o with
  | ok a =>
    rw [handle_ok hroute] at h
    cases h
    refine ⟨rfl, ?_⟩
    simpa [responded, hempty] using hres.symm
  | throws e =>
    rw [handle_throws hroute] at h
    cases h
    rw [hempty] at hres
    cases hres
  | undefined =>
    rw [handle_undefined hroute] at h
    cases h

/-! The three branches. -/

theorem run_logDebug (hlog : server.logger_ = true) (c : Exchange σ) :
    server.logDebug.run c = (.ok (), c) := by
  unfold logDebug
  rw [if_pos hlog]
  rfl

theorem run_processPhoneCall_gives (hlog : server.logger_ = true) {phone : List Char} {r : Result}
    (h : server.manager.Gives c.state phone r) :
    ∃ s' res, (server.processPhoneCall phone).run c = (.ok (), ⟨s', res, c.written⟩) ∧
      res.result = r.status.httpStatus := by
  obtain ⟨id, f, s₁, s₂, hadd, hget⟩ := h
  have hbody : (server.phoneCall phone).run c = (.ok (), ⟨s₂, answer r.status.httpStatus
      ("\n Status: ".toList ++ statusStr r.status ++ "\n".toList)
      { c.res with body := callText id r.callDuration }, c.written⟩) := by
    rw [phoneCall, Exec.run_bind_ok (run_logDebug hlog c), Exec.run_bind_ok (run_call hadd),
      Exec.run_bind_ok (run_call (c := { c with state := s₁ }) hget),
      Exec.run_bind_ok (run_modifyRes _ _)]
    rfl
  exact ⟨s₂, _, Exec.run_tryCatch_ok hbody, rfl⟩

/-- A call that gives no result leaves the `try` block early, the response as it was. -/
theorem run_phoneCall_fails (hlog : server.logger_ = true) {phone : List Char}
    (h : ∀ r, ¬ server.manager.Gives c.state phone r) :
    (∃ e s', (server.phoneCall phone).run c = (.throws e, { c with state := s' })) ∨
      ∃ s', (server.phoneCall phone).run c = (.undefined, { c with state := s' }) := by
  rw [phoneCall, Exec.run_bind_ok (run_logDebug hlog c)]
  cases hadd : (server.manager.addTask phone).run c.state with
  | mk o s₁ =>
    cases o with
    | throws e => exact Or.inl ⟨e, s₁, Exec.run_bind_throws (run_call hadd)⟩
    | undefined => exact Or.inr ⟨s₁, Exec.run_bind_undefined (run_call hadd)⟩
    | ok added =>
      rw [Exec.run_bind_ok (run_call hadd)]
      cases hget : (server.manager.get added.2).run s₁ with
      | mk o' s₂ =>
        have hcall := run_call (c := { c with state := s₁ }) hget
        cases o' with
        | ok r => exact absurd ⟨added.1, added.2, s₁, s₂, hadd, hget⟩ (h r)
        | throws e => exact Or.inl ⟨e, s₂, Exec.run_bind_throws hcall⟩
        | undefined => exact Or.inr ⟨s₂, Exec.run_bind_undefined hcall⟩

theorem run_processPhoneCall_fails (hlog : server.logger_ = true) {phone : List Char}
    (h : ∀ r, ¬ server.manager.Gives c.state phone r) :
    ∃ o s', (server.processPhoneCall phone).run c = (o, { c with state := s' }) := by
  rcases run_phoneCall_fails hlog h with ⟨e, s', hbody⟩ | ⟨s', hbody⟩
  · rw [processPhoneCall, Exec.run_tryCatch_throws hbody]
    cases he : e.isFutureError with
    | true => exact ⟨.ok (), s', rfl⟩
    | false => exact ⟨.throws e, s', rfl⟩
  · exact ⟨.undefined, s', Exec.run_tryCatch_undefined hbody⟩

theorem run_processUpdate_replies {b : Bool} {s' : σ}
    (h : server.manager.processRequestForUpdate.run c.state = (.ok b, s')) :
    ∃ res, server.processUpdate.run c = (.ok (), ⟨s', res, c.written⟩) ∧
      res.result = if b then .ok else .forbidden := by
  rw [processUpdate, Exec.run_bind_ok (run_call h)]
  cases b with
  | true => exact ⟨_, rfl, rfl⟩
  | false => exact ⟨_, rfl, rfl⟩

theorem run_processUpdate_fails (h : ∀ b, ¬ server.manager.Replies c.state b) :
    (∃ e s', server.processUpdate.run c = (.throws e, { c with state := s' })) ∨
      ∃ s', server.processUpdate.run c = (.undefined, { c with state := s' }) := by
  cases hreq : server.manager.processRequestForUpdate.run c.state with
  | mk o s' =>
    cases o with
    | ok b => exact absurd ⟨s', hreq⟩ (h b)
    | throws e => exact Or.inl ⟨e, s', Exec.run_bind_throws (run_call hreq)⟩
    | undefined => exact Or.inr ⟨s', Exec.run_bind_undefined (run_call hreq)⟩

end HttpServer

namespace IManager
open HttpServer
variable {σ φ : Type} {m : IManager σ φ} {s : σ}

theorem Gives.unique {phone : List Char} {r r' : Result} (h : m.Gives s phone r)
    (h' : m.Gives s phone r') : r = r' := by
  obtain ⟨id, f, s₁, s₂, hadd, hget⟩ := h
  obtain ⟨id', f', s₁', s₂', hadd', hget'⟩ := h'
  rw [hadd] at hadd'
  cases hadd'
  rw [hget] at hget'
  cases hget'
  rfl

theorem Replies.unique {b b' : Bool} (h : m.Replies s b) (h' : m.Replies s b') : b = b' := by
  obtain ⟨t, ht⟩ := h
  obtain ⟨t', ht'⟩ := h'
  rw [ht] at ht'
  cases ht'
  rfl

theorem httpStatus_ok {status : CallStatus} (h : status.httpStatus = .ok) :
    status = .Completed ∨ status = .Awaiting := by
  cases status with
  | Awaiting => exact Or.inr rfl
  | Completed => exact Or.inl rfl
  | Duplication => cases h
  | Overloaded => cases h
  | Rejected => cases h
  | Timeout => cases h

theorem answered_phone {phone : List Char} {r : Result} (h : m.Gives s phone r) :
    m.Answered s ("/phone=".toList ++ phone) := by
  obtain ⟨s', res, hrun, hresult⟩ := @run_processPhoneCall_gives _ _ (construct m) (opened s)
    rfl phone r h
  rw [← route_phone] at hrun
  refine ⟨_, _, handle_ok hrun, rfl, ?_⟩
  -- the number is the rest of the target, so the result is the one of this call
  have hthis : ∀ phone', "/phone=".toList ++ phone = "/phone=".toList ++ phone' → phone' = phone :=
    fun phone' heq => (List.append_cancel_left heq).symm
  refine ⟨?_, ?_, ?_, ?_, ?_⟩
  · intro phone' heq hok
    rw [hthis phone' heq]
    exact ⟨r, h, httpStatus_ok (hresult.symm.trans hok)⟩
  · intro phone' r' heq h'
    rw [hthis phone' heq] at h'
    rw [h'.unique h]
    exact hresult
  · intro phone' heq hnone
    exact absurd (hthis phone' heq ▸ h) (hnone r)
  · intro rest heq
    exact absurd heq (phone_ne_update phone rest)
  · intro hphone _
    exact absurd rfl (hphone phone)

theorem answered_update {rest : List Char} {b : Bool} (h : m.Replies s b) :
    m.Answered s ("/update".toList ++ rest) := by
  obtain ⟨s', hreply⟩ := h
  obtain ⟨res, hrun, hresult⟩ := @run_processUpdate_replies _ _ (construct m) (opened s)
    b s' hreply
  rw [← route_update _ rest] at hrun
  refine ⟨_, _, handle_ok hrun, rfl, ?_⟩
  refine ⟨?_, ?_, ?_, ?_, ?_⟩
  · intro phone heq
    exact absurd heq.symm (phone_ne_update phone rest)
  · intro phone r heq
    exact absurd heq.symm (phone_ne_update phone rest)
  · intro phone heq
    exact absurd heq.symm (phone_ne_update phone rest)
  · intro rest' _
    show res.result = .ok ↔ _
    rw [hresult]
    cases b with
    | true => exact ⟨fun _ => ⟨s', hreply⟩, fun _ => rfl⟩
    | false => exact ⟨fun hok => (by cases hok), fun htrue => (by cases htrue.unique ⟨s', hreply⟩)⟩
  · intro _ hupdate
    exact absurd rfl (hupdate rest)

theorem answered_other {target : List Char} (hphone : ∀ rest, target ≠ "/phone=".toList ++ rest)
    (hupdate : ∀ rest, target ≠ "/update".toList ++ rest) : m.Answered s target := by
  have hrun : ((construct m).route target).run (opened s) =
      (.ok (), { opened s with res := { Response.default with
        result := .not_found, body := "Not Found".toList } }) := by
    rw [route_other _ hphone hupdate]
    rfl
  refine ⟨_, _, handle_ok hrun, rfl, ?_⟩
  exact ⟨fun phone h => absurd h (hphone phone), fun phone _ h => absurd h (hphone phone),
    fun phone h => absurd h (hphone phone), fun rest h => absurd h (hupdate rest), fun _ _ => rfl⟩

/-- An answered call has its result: without it the response is not written, or is the
default one. -/
theorem Answered.gives {phone : List Char} (h : m.Answered s ("/phone=".toList ++ phone)) :
    ∃ r, m.Gives s phone r := by
  obtain ⟨c, res, hrun, hwritten, hfits⟩ := h
  by_contra hnone
  have hfails : ∀ r, ¬ m.Gives s phone r := fun r hr => hnone ⟨r, hr⟩
  obtain ⟨o, s', hroute⟩ := @run_processPhoneCall_fails _ _ (construct m) (opened s)
    rfl phone hfails
  rw [← route_phone] at hroute
  obtain ⟨_, hres⟩ := handle_written hroute rfl hrun hwritten
  have herror := hfits.phone_failed phone rfl hfails
  rw [hres] at herror
  cases herror

theorem Answered.replies {rest : List Char} (h : m.Answered s ("/update".toList ++ rest)) :
    ∃ b, m.Replies s b := by
  obtain ⟨c, res, hrun, hwritten, _⟩ := h
  by_contra hnone
  have hfails : ∀ b, ¬ m.Replies s b := fun b hb => hnone ⟨b, hb⟩
  rcases @run_processUpdate_fails _ _ (construct m) (opened s) hfails with
    ⟨e, s', hroute⟩ | ⟨s', hroute⟩
  · rw [← route_update _ rest] at hroute
    cases (handle_written hroute rfl hrun hwritten).1
  · rw [← route_update _ rest] at hroute
    cases (handle_written hroute rfl hrun hwritten).1

/-- A request is answered, and with the truth, exactly when the calls of the manager it
leads to return. -/
theorem answered_iff (m : IManager σ φ) (s : σ) (target : List Char) :
    m.Answered s target ↔ m.Returns s target := by
  constructor
  · intro h
    refine ⟨?_, ?_⟩
    · rintro phone rfl
      exact h.gives
    · rintro rest rfl
      exact h.replies
  · intro h
    by_cases hphone : ∃ phone, target = "/phone=".toList ++ phone
    · obtain ⟨phone, rfl⟩ := hphone
      obtain ⟨r, hr⟩ := h.phone phone rfl
      exact answered_phone hr
    · by_cases hupdate : ∃ rest, target = "/update".toList ++ rest
      · obtain ⟨rest, rfl⟩ := hupdate
        obtain ⟨b, hb⟩ := h.update rest rfl
        exact answered_update hb
      · exact answered_other (fun rest hrest => hphone ⟨rest, hrest⟩)
          (fun rest hrest => hupdate ⟨rest, hrest⟩)

/-- After a `future_error` the default response is written, whose status is 200. -/
theorem written_of_future_error {phone : List Char} {e : StdException} {s' : σ}
    (he : e.isFutureError = true) (h : ((construct m).phoneCall phone).run (opened s) =
      (.throws e, { opened s with state := s' })) :
    ∃ c, ((construct m).handleHttpRequest (.ok ⟨true, "/phone=".toList ++ phone⟩)).run (opened s) =
      (.ok (), c) ∧ c.written.map Response.result = [.ok] := by
  have hroute : ((construct m).route ("/phone=".toList ++ phone)).run (opened s) =
      (.ok (), { opened s with state := s' }) := by
    rw [route_phone, processPhoneCall, Exec.run_tryCatch_throws h, if_pos he]
    rfl
  exact ⟨_, handle_ok hroute, rfl⟩

end IManager

/-! The manager of the server. -/

/-- What a handler gets from the manager: `others` is what happens in the pool until the
future is ready, `update` is `processRequestForUpdate`. -/
def Manager.serving (hash : ThreadId → UInt64) (m : Manager) (thread : ThreadId)
    (now pushNow : TimePoint) (others : World → World) (update : Exec World Bool) :
    IManager World TaskRef where
  addTask number := do
    let t ← .get World.taskCount
    let id ← m.addTask hash thread now pushNow number
    return (id, t)
  get t := do
    .modify others
    let task ← readTask t
    match task.promise_.state with
    | some (.value r) => return r
    | some (.exception e) => .throw e
    | none => .throw .broken_promise
  processRequestForUpdate := update

section
variable {hash : ThreadId → UInt64} {m : Manager} {thread : ThreadId} {now pushNow : TimePoint}
  {others : World → World} {update : Exec World Bool}

/-- Only a call with a number `stoll` accepts is answered. -/
theorem Manager.stoll_of_answered {w : World} {number : List Char}
    (h : (m.serving hash thread now pushNow others update).Answered w ("/phone=".toList ++ number)) :
    ∃ n, stoll number = .ok n := by
  obtain ⟨r, id, t, v, u, hadd, _⟩ := h.gives
  obtain ⟨_, w₁, _, hrest⟩ := Exec.bind_eq_ok hadd
  obtain ⟨id', v', hid, _⟩ := Exec.bind_eq_ok hrest
  obtain ⟨_, n, hn, _⟩ := addTask_ok hid
  exact ⟨n, hn⟩

end

/-- A pool of one operator over a queue for one call. -/
def onePool : World := ((Manager.buildPool true 1 1).run World.empty).2

/-- The call of a number that is none gets no answer at all. -/
theorem phone_abc_not_answered :
    ¬ ((⟨1, 2, 0, true⟩ : Manager).serving (fun _ => 7) 0 5 6 id (pure true)).Answered onePool
      "/phone=abc".toList := by
  intro h
  obtain ⟨n, hn⟩ : ∃ n, stoll "abc".toList = .ok n := Manager.stoll_of_answered h
  have hnone : stoll "abc".toList = .error .invalid_argument := by decide
  rw [hnone] at hn
  cases hn

end ProteiCov
