import SocialGaming.Server

/-!
# HTTP requests

`handleRequest` answers through `send`, and goes on after it has. So a request with an illegal
target is answered, and then handled as if the target were legal. The endpoints do not answer at
all, and nothing answers a `POST`.

## Main definitions

* `HTTPSession.handleRequest`
* `HTTPSession.answers` — the responses it hands to `send`
* `Request.AnsweredOnce` — the requests it answers once
* `Request.ForIndex` — the requests for the page

## Main results

* `ends_handleRequest_sent` — what is handed to `send`, however the call ends
* `handleRequest_answers_once_iff` — when it is exactly one response
* `handleRequest_serves_page_iff` — when a request for the page gets the page
* `handleRequest_cases` — what becomes of the server
-/

namespace SocialGaming

/-! ### Requests and responses -/

/-- `verb`, as far as it is looked at. -/
inductive Verb where
  | get
  | head
  | post
  | other (code : ℕ)
  deriving DecidableEq, Repr

/-- `request<string_body>`, without the fields and the body, which nothing looks at. -/
structure Request where
  method : Verb
  target : Bytes
  version : ℕ := 11
  keepAlive : Bool := true
  deriving DecidableEq, Repr

/-- `status`. -/
inductive HttpStatus where
  | ok
  | badRequest
  deriving DecidableEq, Repr

/-- `response<string_body>`, or `response<empty_body>`, which has no body. -/
structure HttpResponse where
  status : HttpStatus
  version : ℕ
  server : Bytes
  contentType : Bytes
  contentLength : ℕ
  keepAlive : Bool
  body : Option Bytes
  deriving DecidableEq, Repr

/-- `shouldServeIndex`. -/
def shouldServeIndex (target : Bytes) : Bool :=
  let index := ascii "/index.html"
  target = ascii "/"
    || target = ascii "/create-game"
    || target = ascii "/configure-game"
    || target = ascii "/input-game-configuration"
    || target = ascii "/finalize-creating-game"
    || target = ascii "/join-game"
    || (index.length ≤ target.length && target.drop (target.length - index.length) = index)

/-- `HTTPSession::requestHandlers`. -/
def requestHandlers : List (Bytes × RequestHandler) :=
  [(ascii "/create-game", .createGame),
    (ascii "/join-game", .joinGame),
    (ascii "/configure-game", .configureGame)]

/-- `class HTTPSession`, with what was handed to `send`. -/
structure HTTPSession (γ σ : Type) where
  server : Server γ σ
  request : Request
  sent : List HttpResponse := []

namespace HTTPSession

variable {γ σ : Type} (lib : ServerLib σ)

/-- The `send` of `handleRequest`. -/
def send (response : HttpResponse) : Prog AmbassadorExn (HTTPSession γ σ) Unit :=
  modify fun session => { session with sent := session.sent ++ [response] }

/-- The `badRequest` of `handleRequest`. -/
def badRequest (request : Request) (why : String) : HttpResponse :=
  { status := .badRequest
    version := request.version
    server := lib.versionString
    contentType := ascii "text/html"
    contentLength := (ascii why).length
    keepAlive := request.keepAlive
    body := some (ascii why) }

/-- The response of `handleRequest` with status ok, for a body of that size. -/
def okResponse (request : Request) (bodySize : ℕ) (body : Option Bytes) : HttpResponse :=
  { status := .ok
    version := request.version
    server := lib.versionString
    contentType := ascii "text/html"
    contentLength := bodySize
    keepAlive := request.keepAlive
    body }

/-- A call on the server of the session. -/
def onServer {α : Type} (x : Server.Handles γ σ α) : Prog AmbassadorExn (HTTPSession γ σ) α :=
  Prog.zoom server (fun server session => { session with server }) x

/-- The part of `handleRequest` after the check of the target. -/
def handleRequest.serve (request : Request) : Prog AmbassadorExn (HTTPSession γ σ) Unit := do
  let body := (← get).server.impl.httpMessage
  if request.method = .head then
    send (okResponse lib request body.length none)
  else if request.method = .get then
    if request.target = ascii "/" then
      send (okResponse lib request body.length (some body))
    else
      match requestHandlers.lookup request.target with
      | some endpoint => onServer (endpoint.handle lib)
      | none => send (badRequest lib request "Not Found 404")

/-- `HTTPSession::handleRequest`. -/
def handleRequest : Prog AmbassadorExn (HTTPSession γ σ) Unit := do
  let request := (← get).request
  if request.method ≠ .get ∧ request.method ≠ .head ∧ request.method ≠ .post then
    send (badRequest lib request "Unknown HTTP-method")
  else
    if !shouldServeIndex request.target then
      send (badRequest lib request "Illegal request-target")
    handleRequest.serve lib request

/-! ### What is sent -/

/-- What is answered to an illegal target. -/
def illegalAnswers (request : Request) : List HttpResponse :=
  if shouldServeIndex request.target then []
  else [badRequest lib request "Illegal request-target"]

/-- What is answered after that. -/
def serveAnswers (request : Request) (body : Bytes) : List HttpResponse :=
  match request.method with
  | .head => [okResponse lib request body.length none]
  | .get =>
    if request.target = ascii "/" then [okResponse lib request body.length (some body)]
    else if (requestHandlers.lookup request.target).isSome then []
    else [badRequest lib request "Not Found 404"]
  | _ => []

/-- What is handed to `send`. -/
def answers (request : Request) (body : Bytes) : List HttpResponse :=
  match request.method with
  | .other _ => [badRequest lib request "Unknown HTTP-method"]
  | _ => illegalAnswers lib request ++ serveAnswers lib request body

end HTTPSession

open HTTPSession

/-- The requests that are answered once. -/
def Request.AnsweredOnce (request : Request) : Prop :=
  match request.method with
  | .other _ => True
  | .head => shouldServeIndex request.target
  | .get => shouldServeIndex request.target ∧ requestHandlers.lookup request.target = none
  | .post => shouldServeIndex request.target = false

section

variable {γ σ : Type} (lib : ServerLib σ)

/-- A call on the server hands nothing to `send`. -/
theorem ends_onServer_sent {α : Type} (x : Server.Handles γ σ α) (session : HTTPSession γ σ) :
    (Prog.ends ((onServer x).run session)).sent = session.sent := by
  rw [onServer, Prog.run_zoom]
  cases x.run session.server with
  | ok a s => rfl
  | error f s => rfl

theorem ends_serve_sent (request : Request) (session : HTTPSession γ σ) :
    (Prog.ends ((handleRequest.serve lib request).run session)).sent
      = session.sent ++ serveAnswers lib request session.server.impl.httpMessage := by
  rw [handleRequest.serve, EStateM.run_bind, EStateM.run_get, serveAnswers]
  cases hmethod : request.method with
  | other code => exact (List.append_nil _).symm
  | head => rfl
  | post => exact (List.append_nil _).symm
  | get =>
    by_cases hindex : request.target = ascii "/"
    · simp only [hindex, if_true]
      rfl
    · simp only [hindex, if_false]
      cases hendpoint : requestHandlers.lookup request.target with
      | none => rfl
      | some endpoint =>
        rw [Option.isSome_some, if_pos rfl, List.append_nil]
        exact ends_onServer_sent _ session

/-- A request with a known method is served after its target has been checked. -/
theorem handleRequest_run_known {session : HTTPSession γ σ}
    (hmethod : session.request.method = .get ∨ session.request.method = .head ∨
      session.request.method = .post) :
    (handleRequest lib).run session = (handleRequest.serve lib session.request).run
      { session with sent := session.sent ++ illegalAnswers lib session.request } := by
  have hknown : ¬ (session.request.method ≠ .get ∧ session.request.method ≠ .head ∧
      session.request.method ≠ .post) := by tauto
  rw [handleRequest, EStateM.run_bind, EStateM.run_get]
  simp only [if_neg hknown]
  by_cases hlegal : shouldServeIndex session.request.target
  · rw [illegalAnswers, if_pos hlegal, List.append_nil]
    simp only [hlegal, Bool.not_true, Bool.false_eq_true, if_false]
  · rw [illegalAnswers, if_neg hlegal]
    simp only [hlegal, Bool.not_false, if_true]
    rfl

theorem handleRequest_run_other {session : HTTPSession γ σ} {code : ℕ}
    (hmethod : session.request.method = .other code) :
    (handleRequest lib).run session = .ok () { session with
      sent := session.sent ++ [badRequest lib session.request "Unknown HTTP-method"] } := by
  rw [handleRequest, EStateM.run_bind, EStateM.run_get]
  simp only [hmethod]
  rfl

/-- **What is handed to `send`, however the call ends.** -/
theorem ends_handleRequest_sent (session : HTTPSession γ σ) :
    (Prog.ends ((handleRequest lib).run session)).sent
      = session.sent ++ answers lib session.request session.server.impl.httpMessage := by
  have hserve : session.request.method = .get ∨ session.request.method = .head ∨
      session.request.method = .post → (Prog.ends ((handleRequest lib).run session)).sent
        = session.sent ++ (illegalAnswers lib session.request ++
          serveAnswers lib session.request session.server.impl.httpMessage) := by
    intro hmethod
    rw [handleRequest_run_known lib hmethod, ends_serve_sent, List.append_assoc]
  cases hmethod : session.request.method with
  | other code =>
    rw [handleRequest_run_other lib hmethod, answers, hmethod]
    rfl
  | get =>
    rw [answers, hmethod]
    exact hserve (Or.inl hmethod)
  | head =>
    rw [answers, hmethod]
    exact hserve (Or.inr (Or.inl hmethod))
  | post =>
    rw [answers, hmethod]
    exact hserve (Or.inr (Or.inr hmethod))

theorem lookup_requestHandlers_iff {target : Bytes} {endpoint : RequestHandler} :
    requestHandlers.lookup target = some endpoint ↔ (target, endpoint) ∈ requestHandlers := by
  constructor
  · intro h
    obtain ⟨l₁, l₂, hl, -⟩ := List.lookup_eq_some_iff.mp h
    rw [hl]
    exact List.mem_append_right _ List.mem_cons_self
  · have hlookup : ∀ entry ∈ requestHandlers,
        requestHandlers.lookup entry.1 = some entry.2 := by decide
    exact hlookup (target, endpoint)

/-- An endpoint is a legal target. -/
theorem shouldServeIndex_of_lookup {target : Bytes} {endpoint : RequestHandler}
    (h : requestHandlers.lookup target = some endpoint) : shouldServeIndex target = true := by
  have hlegal : ∀ entry ∈ requestHandlers, shouldServeIndex entry.1 = true := by decide
  exact hlegal _ (lookup_requestHandlers_iff.mp h)

/-- The root is no endpoint. -/
theorem ne_root_of_lookup {target : Bytes} {endpoint : RequestHandler}
    (h : requestHandlers.lookup target = some endpoint) : target ≠ ascii "/" := by
  intro hroot
  have hnone : requestHandlers.lookup (ascii "/") = none := by decide
  rw [hroot, hnone] at h
  cases h

/-- How many responses are handed over. -/
theorem length_answers_eq_one_iff (request : Request) (body : Bytes) :
    (answers lib request body).length = 1 ↔ request.AnsweredOnce := by
  rw [answers, Request.AnsweredOnce]
  cases hmethod : request.method with
  | other code => simp
  | head =>
    rw [List.length_append, illegalAnswers, serveAnswers, hmethod]
    cases shouldServeIndex request.target with
    | true => simp
    | false => simp
  | post =>
    rw [List.length_append, illegalAnswers, serveAnswers, hmethod]
    cases shouldServeIndex request.target with
    | true => simp
    | false => simp
  | get =>
    rw [List.length_append, illegalAnswers, serveAnswers, hmethod]
    cases hendpoint : requestHandlers.lookup request.target with
    | some endpoint =>
      simp [shouldServeIndex_of_lookup hendpoint, ne_root_of_lookup hendpoint]
    | none =>
      have hserve : (if request.target = ascii "/" then
          [okResponse lib request body.length (some body)]
          else if (none : Option RequestHandler).isSome then []
          else [badRequest lib request "Not Found 404"]).length = 1 := by
        split
        · rfl
        · rfl
      rw [hserve]
      cases shouldServeIndex request.target with
      | true => simp
      | false => simp

/-- **When a request is answered exactly once**: a `GET` of a legal target that is no endpoint, a
`HEAD` of a legal target, a `POST` of an illegal one, or a request with any other method. -/
theorem handleRequest_answers_once_iff (session : HTTPSession γ σ) :
    (∃ response, (Prog.ends ((handleRequest lib).run session)).sent = session.sent ++ [response]) ↔
      session.request.AnsweredOnce := by
  rw [← length_answers_eq_one_iff lib session.request session.server.impl.httpMessage,
    ends_handleRequest_sent, List.length_eq_one_iff]
  simp only [List.append_cancel_left_eq]

/-! ### What becomes of the server -/

/-- A `GET` of an endpoint does what the endpoint does. -/
theorem handleRequest_endpoint (session : HTTPSession γ σ) {endpoint : RequestHandler}
    (hmethod : session.request.method = .get)
    (hendpoint : requestHandlers.lookup session.request.target = some endpoint) :
    (handleRequest lib).run session = (onServer (endpoint.handle lib)).run session := by
  rw [handleRequest_run_known lib (Or.inl hmethod), illegalAnswers,
    if_pos (shouldServeIndex_of_lookup hendpoint), List.append_nil, handleRequest.serve,
    EStateM.run_bind, EStateM.run_get]
  simp [hmethod, hendpoint, ne_root_of_lookup hendpoint]

/-- Any other request leaves the server alone. -/
theorem handleRequest_no_endpoint (session : HTTPSession γ σ)
    (h : session.request.method = .get → requestHandlers.lookup session.request.target = none) :
    ∃ sent, (handleRequest lib).run session = .ok () { session with sent } := by
  have hserve : ∀ t : HTTPSession γ σ, ∃ sent,
      (handleRequest.serve lib session.request).run t = .ok () { t with sent } := by
    intro t
    rw [handleRequest.serve, EStateM.run_bind, EStateM.run_get]
    cases hmethod : session.request.method with
    | other code => exact ⟨t.sent, rfl⟩
    | head => exact ⟨_, rfl⟩
    | post => exact ⟨t.sent, rfl⟩
    | get =>
      by_cases hindex : session.request.target = ascii "/"
      · simp only [hindex, if_true]
        exact ⟨_, rfl⟩
      · simp only [hindex, if_false, h hmethod]
        exact ⟨_, rfl⟩
  have hknown : session.request.method = .get ∨ session.request.method = .head ∨
      session.request.method = .post →
      ∃ sent, (handleRequest lib).run session = .ok () { session with sent } := by
    intro hmethod
    rw [handleRequest_run_known lib hmethod]
    exact hserve _
  cases hmethod : session.request.method with
  | other code => exact ⟨_, handleRequest_run_other lib hmethod⟩
  | get => exact hknown (Or.inl hmethod)
  | head => exact hknown (Or.inr (Or.inl hmethod))
  | post => exact hknown (Or.inr (Or.inr hmethod))

/-- **What a request does to the server**: a `GET` of an endpoint what the endpoint does, and any
other nothing. -/
theorem handleRequest_cases (session : HTTPSession γ σ) :
    (∃ endpoint, session.request.method = .get ∧
      requestHandlers.lookup session.request.target = some endpoint ∧
      (handleRequest lib).run session = (onServer (endpoint.handle lib)).run session) ∨
    (session.request.method = .get → requestHandlers.lookup session.request.target = none) ∧
      ∃ sent, (handleRequest lib).run session = .ok () { session with sent } := by
  by_cases h : session.request.method = .get →
      requestHandlers.lookup session.request.target = none
  · exact Or.inr ⟨h, handleRequest_no_endpoint lib session h⟩
  · obtain ⟨hmethod, hsome⟩ := Classical.not_imp.mp h
    obtain ⟨endpoint, hlookup⟩ := Option.ne_none_iff_exists'.mp hsome
    exact Or.inl ⟨endpoint, hmethod, hlookup, handleRequest_endpoint lib session hmethod hlookup⟩

/-! ### The page -/

/-- A `GET` of `"/"`, or of a target that ends in `"/index.html"`. -/
def Request.ForIndex (request : Request) : Prop :=
  request.method = .get ∧
    (request.target = ascii "/" ∨ ascii "/index.html" <:+ request.target)

instance (request : Request) : Decidable request.ForIndex :=
  inferInstanceAs (Decidable (_ ∧ _))

/-- The call returns, and what it has sent is the page. -/
def HTTPSession.ServesPage (session : HTTPSession γ σ) : Prop :=
  ∃ response : HttpResponse,
    (handleRequest lib).run session = .ok () { session with sent := session.sent ++ [response] } ∧
      response.status = .ok ∧ response.body = some session.server.impl.httpMessage

/-- What ends in `"/index.html"` is a legal target. -/
theorem shouldServeIndex_of_suffix {target : Bytes} (h : ascii "/index.html" <:+ target) :
    shouldServeIndex target = true := by
  have hlength : (ascii "/index.html").length ≤ target.length := h.length_le
  have hdrop : target.drop (target.length - (ascii "/index.html").length) = ascii "/index.html" :=
    (List.suffix_iff_eq_drop.mp h).symm
  simp [shouldServeIndex, hlength, hdrop]

/-- No endpoint ends in `"/index.html"`. -/
theorem lookup_of_suffix {target : Bytes} (h : ascii "/index.html" <:+ target) :
    requestHandlers.lookup target = none := by
  have hsuffix : ∀ entry ∈ requestHandlers, ¬ ascii "/index.html" <:+ entry.1 := by decide
  rw [Option.eq_none_iff_forall_ne_some]
  intro endpoint hendpoint
  exact hsuffix _ (lookup_requestHandlers_iff.mp hendpoint) h

theorem answers_root (request : Request) (body : Bytes) (hmethod : request.method = .get)
    (hroot : request.target = ascii "/") :
    answers lib request body = [okResponse lib request body.length (some body)] := by
  have hlegal : shouldServeIndex (ascii "/") = true := by decide
  simp [answers, illegalAnswers, serveAnswers, hmethod, hlegal, hroot]

/-- Such a target is accepted, and then not found. -/
theorem answers_of_suffix (request : Request) (body : Bytes) (hmethod : request.method = .get)
    (hsuffix : ascii "/index.html" <:+ request.target) :
    answers lib request body = [badRequest lib request "Not Found 404"] := by
  have hroot : request.target ≠ ascii "/" := by
    intro h
    rw [h] at hsuffix
    revert hsuffix
    decide
  simp [answers, illegalAnswers, serveAnswers, hmethod, shouldServeIndex_of_suffix hsuffix,
    lookup_of_suffix hsuffix, hroot]

/-- So no page is sent. -/
theorem not_servesPage_of_suffix {session : HTTPSession γ σ}
    (hmethod : session.request.method = .get)
    (hsuffix : ascii "/index.html" <:+ session.request.target) : ¬ session.ServesPage lib := by
  rintro ⟨response, hrun, hstatus, -⟩
  have hsent := ends_handleRequest_sent lib session
  rw [hrun, answers_of_suffix lib _ _ hmethod hsuffix] at hsent
  have hresponse : response = badRequest lib session.request "Not Found 404" := by
    simpa [Prog.ends] using hsent
  rw [hresponse] at hstatus
  exact absurd hstatus (by simp [badRequest])

/-- **When a request for the page gets the page**: the target is accepted by its suffix, and the
page is chosen by an exact comparison. -/
theorem handleRequest_serves_page_iff (session : HTTPSession γ σ)
    (hindex : session.request.ForIndex) :
    session.ServesPage lib ↔ session.request.target = ascii "/" := by
  obtain ⟨hmethod, htarget⟩ := hindex
  constructor
  · intro hpage
    rcases htarget with hroot | hsuffix
    · exact hroot
    · exact absurd hpage (not_servesPage_of_suffix lib hmethod hsuffix)
  · intro hroot
    have hnone : session.request.method = .get →
        requestHandlers.lookup session.request.target = none := by
      intro _
      rw [hroot]
      decide
    obtain ⟨sent, hrun⟩ := handleRequest_no_endpoint lib session hnone
    have hsent := ends_handleRequest_sent lib session
    rw [hrun, answers_root lib _ _ hmethod hroot] at hsent
    have hsent' : sent = session.sent ++ [okResponse lib session.request
        session.server.impl.httpMessage.length (some session.server.impl.httpMessage)] := hsent
    exact ⟨_, by rw [hrun, hsent'], rfl, rfl⟩

end

/-- The message for a new game of chess. -/
def gameInitText : Bytes :=
  ascii "\x7b\"attrs\":\x7b\"gameInstanceId\":\"1\",\"val\":\"chess\"\x7d,\"resType\":5\x7d"

/-- The libraries, when that message is all that is ever sent. -/
def chessLib : ServerLib Unit where
  json := { parse := fun _ => none, dump := fun _ => some gameInitText }
  queue := { trySend := fun _ q => (.sent, q), tryReceive := fun q => (none, q) }
  stack := fun _ => 0
  versionString := ascii "Boost.Beast"

/-- A request to a server without channels. -/
def newSession (method : Verb) (target : String) : HTTPSession Unit Unit :=
  { server := { impl := { httpMessage := ascii "<html></html>", writeQ := () }, client := () }
    request := { method, target := ascii target } }

/-- The form on the page is sent by `POST`, and is not answered. An unknown target is answered
twice. -/
theorem handleRequest_post_unanswered :
    (∀ response,
      (Prog.ends ((handleRequest chessLib).run (newSession .post "/create-game"))).sent
        ≠ (newSession .post "/create-game").sent ++ [response]) ∧
      (Prog.ends ((handleRequest chessLib).run (newSession .get "/nowhere"))).sent
        = [badRequest chessLib (newSession .get "/nowhere").request "Illegal request-target",
          badRequest chessLib (newSession .get "/nowhere").request "Not Found 404"] := by
  refine ⟨?_, by decide⟩
  rintro response ⟨⟩

theorem handleRequest_serves_root :
    (newSession .get "/").request.ForIndex ∧
      ((newSession .get "/").ServesPage chessLib ↔
        (newSession .get "/").request.target = ascii "/") :=
  ⟨by decide, handleRequest_serves_page_iff chessLib (newSession .get "/") (by decide)⟩

/-- The page that the server is documented to serve, by the name that it is documented under. -/
theorem handleRequest_index_not_found :
    (newSession .get "/index.html").request.ForIndex ∧
      ¬ (newSession .get "/index.html").ServesPage chessLib ∧
      (Prog.ends ((handleRequest chessLib).run (newSession .get "/index.html"))).sent
        = [badRequest chessLib (newSession .get "/index.html").request "Not Found 404"] := by
  have hsuffix : ascii "/index.html" <:+ (newSession .get "/index.html").request.target := by
    decide
  exact ⟨by decide, not_servesPage_of_suffix chessLib rfl hsuffix, by decide⟩

end SocialGaming
