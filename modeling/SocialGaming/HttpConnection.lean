import SocialGaming.ServerRounds

/-!
# A connection over its lifetime

A session reads a request, handles it, writes the answer and reads the next request. The operations
are asynchronous, and Beast wants one of them at a time on a stream. Nothing keeps a session from
starting more than one: it starts a write for each answer, and a read after each write. So there is
one operation at a time for as long as no request is answered twice. A request that is not answered
at all leaves the session without an operation, and nothing happens to it any more.

## Design

Whether a response ends the connection is decided by Beast, and left open. A session shares the
server with others, which may change everything in it but the page. An operation that is in flight
may complete at any time, and when there are more of them in any order.

## Main definitions

* `Exchange`, `ExchangeStep` — a session with its operations in flight
* `served`, `wrote`, `ended` — what has happened in a run
* `Request.AnsweredTwice` — the requests that are answered twice

## Main results

* `one_operation_iff` — when there is one operation at a time
* `answers_in_order` — what the client gets
-/

namespace SocialGaming

open HTTPSession

variable {σ : Type}

/-! ### Sessions -/

/-- A session, with the operations that are in flight on its socket. -/
structure Exchange (σ : Type) where
  server : GameServer σ
  /-- The number of `async_read`s. -/
  reads : ℕ := 0
  /-- The response of each `async_write`. -/
  writes : List HttpResponse := []

namespace Exchange

/-- `HTTPSession::start`. -/
def start (x : Exchange σ) : Exchange σ := { x with reads := x.reads + 1 }

/-- The number of operations that are in flight. -/
def operations (x : Exchange σ) : ℕ := x.reads + x.writes.length

end Exchange

/-- What happens to a session. -/
inductive ExchangeEvent where
  /-- Other sessions use the server. -/
  | others
  /-- A read fails. -/
  | readFailed
  /-- A request is read that is an upgrade: the socket is given to a `Channel`. -/
  | upgraded
  /-- Another request is read. -/
  | requested (request : Request)
  /-- A write fails. -/
  | writeFailed (response : HttpResponse)
  /-- A response is written that ends the connection. -/
  | closed (response : HttpResponse)
  /-- Another response is written. -/
  | written (response : HttpResponse)

/-- One step of a session. -/
inductive ExchangeStep (lib : ServerLib σ) (needEof : HttpResponse → Bool) :
    Exchange σ → ExchangeEvent → Exchange σ → Prop
  | others {x : Exchange σ} (server : GameServer σ)
      (hpage : server.impl.httpMessage = x.server.impl.httpMessage) :
      ExchangeStep lib needEof x .others { x with server }
  | readFailed {x : Exchange σ} {n : ℕ} (hreads : x.reads = n + 1) :
      ExchangeStep lib needEof x .readFailed { x with reads := n }
  | upgraded {x : Exchange σ} {n : ℕ} (hreads : x.reads = n + 1) :
      ExchangeStep lib needEof x .upgraded { x with reads := n }
  | requested {x : Exchange σ} {n : ℕ} (hreads : x.reads = n + 1) (request : Request)
      {session : HTTPSession (List Connection) σ}
      (h : Prog.after? ((handleRequest lib).run { server := x.server, request }) = some session) :
      ExchangeStep lib needEof x (.requested request)
        { server := session.server, reads := n, writes := x.writes ++ session.sent }
  | writeFailed {x : Exchange σ} {before later : List HttpResponse} {response : HttpResponse}
      (hwrites : x.writes = before ++ response :: later) :
      ExchangeStep lib needEof x (.writeFailed response) { x with writes := before ++ later }
  | closed {x : Exchange σ} {before later : List HttpResponse} {response : HttpResponse}
      (hwrites : x.writes = before ++ response :: later) (heof : needEof response) :
      ExchangeStep lib needEof x (.closed response) { x with writes := before ++ later }
  | written {x : Exchange σ} {before later : List HttpResponse} {response : HttpResponse}
      (hwrites : x.writes = before ++ response :: later) (heof : needEof response = false) :
      ExchangeStep lib needEof x (.written response)
        (Exchange.start { x with writes := before ++ later })

/-! ### What has happened -/

namespace ExchangeEvent

/-- The request that was handled. -/
def served? : ExchangeEvent → Option Request
  | requested request => some request
  | _ => none

/-- The response that was written. -/
def wrote? : ExchangeEvent → Option HttpResponse
  | closed response => some response
  | written response => some response
  | _ => none

/-- No operation follows the one that completed. -/
def ends : ExchangeEvent → Bool
  | readFailed => true
  | upgraded => true
  | writeFailed _ => true
  | closed _ => true
  | _ => false

end ExchangeEvent

/-- The requests that were handled in a run, in order. -/
def served (trace : List (Exchange σ × ExchangeEvent)) : List Request :=
  trace.filterMap fun p => p.2.served?

/-- The responses that were written in a run, in order. -/
def wrote (trace : List (Exchange σ × ExchangeEvent)) : List HttpResponse :=
  trace.filterMap fun p => p.2.wrote?

section

variable (trace : List (Exchange σ × ExchangeEvent)) (x : Exchange σ) (e : ExchangeEvent)

@[simp] theorem served_snoc : served (trace ++ [(x, e)]) = served trace ++ e.served?.toList := by
  rw [served, List.filterMap_append, ← served]
  cases e <;> rfl

@[simp] theorem wrote_snoc : wrote (trace ++ [(x, e)]) = wrote trace ++ e.wrote?.toList := by
  rw [wrote, List.filterMap_append, ← wrote]
  cases e <;> rfl

end

/-! ### What a request starts -/

/-- The requests that are answered twice. -/
def Request.AnsweredTwice (request : Request) : Prop :=
  (request.method = .get ∨ request.method = .head) ∧ shouldServeIndex request.target = false

theorem length_answers_of_answeredTwice (lib : ServerLib σ) {request : Request}
    (h : request.AnsweredTwice) (page : Bytes) : (answers lib request page).length = 2 := by
  obtain ⟨hmethod, hillegal⟩ := h
  have hroot : request.target ≠ ascii "/" := by
    intro hroot
    rw [hroot] at hillegal
    exact absurd hillegal (by decide)
  have hendpoint : requestHandlers.lookup request.target = none := by
    cases hlookup : requestHandlers.lookup request.target with
    | none => rfl
    | some endpoint =>
      rw [shouldServeIndex_of_lookup hlookup] at hillegal
      cases hillegal
  obtain hmethod | hmethod := hmethod
  · simp [answers, illegalAnswers, serveAnswers, hmethod, hillegal, hroot, hendpoint]
  · simp [answers, illegalAnswers, serveAnswers, hmethod, hillegal]

theorem length_answers_le_one (lib : ServerLib σ) {request : Request}
    (h : ¬ request.AnsweredTwice) (page : Bytes) : (answers lib request page).length ≤ 1 := by
  have hserve : (serveAnswers lib request page).length ≤ 1 := by
    rw [serveAnswers]
    cases request.method with
    | head => exact le_rfl
    | get =>
      show (if _ then _ else if _ then _ else _ : List HttpResponse).length ≤ 1
      split_ifs
      · exact le_rfl
      · exact Nat.zero_le 1
      · exact le_rfl
    | post => exact Nat.zero_le 1
    | other code => exact Nat.zero_le 1
  cases hmethod : request.method with
  | other code => rw [answers, hmethod]; exact le_rfl
  | post =>
    have hnone : serveAnswers lib request page = [] := by rw [serveAnswers, hmethod]
    have hillegal : (illegalAnswers lib request).length ≤ 1 := by
      rw [illegalAnswers]
      split_ifs
      · exact Nat.zero_le 1
      · exact le_rfl
    rw [answers, hmethod, hnone, List.append_nil]
    exact hillegal
  | get =>
    have hlegal : shouldServeIndex request.target = true := by
      by_contra hillegal
      exact h ⟨Or.inl hmethod, Bool.eq_false_iff.mpr hillegal⟩
    rw [answers, hmethod, illegalAnswers, if_pos hlegal]
    exact hserve
  | head =>
    have hlegal : shouldServeIndex request.target = true := by
      by_contra hillegal
      exact h ⟨Or.inr hmethod, Bool.eq_false_iff.mpr hillegal⟩
    rw [answers, hmethod, illegalAnswers, if_pos hlegal]
    exact hserve

section

variable {lib : ServerLib σ} {needEof : HttpResponse → Bool}

/-- What is handed to `send` by a call that a caller goes on from. -/
theorem sent_of_after? {request : Request} {server : GameServer σ}
    {session : HTTPSession (List Connection) σ}
    (h : Prog.after? ((handleRequest lib).run { server, request }) = some session) :
    session.sent = answers lib request server.impl.httpMessage := by
  have hends := Prog.ends_of_after? h
  have hsent := ends_handleRequest_sent lib ({ server, request } : HTTPSession (List Connection) σ)
  rw [hends] at hsent
  exact hsent

/-! ### Steps -/

/-- **What a step does to the operations.** -/
theorem ExchangeStep.balance {x x' : Exchange σ} {e : ExchangeEvent}
    (h : ExchangeStep lib needEof x e x') :
    x'.operations + e.ends.toNat + e.served?.toList.length = x.operations +
      (e.served?.toList.flatMap fun request =>
        answers lib request x.server.impl.httpMessage).length := by
  have hremoved : ∀ {before later : List HttpResponse} {response : HttpResponse},
      x.writes = before ++ response :: later →
        x.writes.length = (before ++ later).length + 1 := by
    intro before later response hwrites
    rw [hwrites, List.length_append, List.length_append, List.length_cons, Nat.add_assoc]
  cases h with
  | others server hpage => rfl
  | @readFailed n hreads =>
    show n + x.writes.length + 1 + 0 = x.reads + x.writes.length + 0
    omega
  | @upgraded n hreads =>
    show n + x.writes.length + 1 + 0 = x.reads + x.writes.length + 0
    omega
  | @requested n hreads request session hrun =>
    have hlength : (x.writes ++ session.sent).length
        = x.writes.length + (answers lib request x.server.impl.httpMessage).length := by
      rw [List.length_append, sent_of_after? hrun]
    have hanswers : ([request].flatMap fun request =>
        answers lib request x.server.impl.httpMessage)
          = answers lib request x.server.impl.httpMessage := List.append_nil _
    show n + (x.writes ++ session.sent).length + 0 + 1 = x.reads + x.writes.length +
      ([request].flatMap fun request => answers lib request x.server.impl.httpMessage).length
    rw [hanswers]
    omega
  | @writeFailed before later _ hwrites =>
    have hlength := hremoved hwrites
    show x.reads + (before ++ later).length + 1 + 0 = x.reads + x.writes.length + 0
    omega
  | @closed before later _ hwrites heof =>
    have hlength := hremoved hwrites
    show x.reads + (before ++ later).length + 1 + 0 = x.reads + x.writes.length + 0
    omega
  | @written before later _ hwrites heof =>
    have hlength := hremoved hwrites
    show x.reads + 1 + (before ++ later).length + 0 + 0 = x.reads + x.writes.length + 0
    omega

/-- The page is what it was. -/
theorem ExchangeStep.httpMessage {x x' : Exchange σ} {e : ExchangeEvent}
    (h : ExchangeStep lib needEof x e x') :
    x'.server.impl.httpMessage = x.server.impl.httpMessage := by
  cases h with
  | others server hpage => exact hpage
  | requested hreads request hrun => exact (handleRequest_undisturbed lib hrun).httpMessage
  | readFailed hreads => rfl
  | upgraded hreads => rfl
  | writeFailed hwrites => rfl
  | closed hwrites heof => rfl
  | written hwrites heof => rfl

/-- A session that is read from, when a request comes. -/
theorem ExchangeStep.operations_pos {x x' : Exchange σ} {e : ExchangeEvent}
    (h : ExchangeStep lib needEof x e x') {request : Request} (he : e.served? = some request) :
    0 < x.operations := by
  cases h with
  | requested hreads request hrun =>
    rw [Exchange.operations, hreads]
    omega
  | others server hpage => cases he
  | readFailed hreads => cases he
  | upgraded hreads => cases he
  | writeFailed hwrites => cases he
  | closed hwrites heof => cases he
  | written hwrites heof => cases he

end

/-! ### Runs -/

section

variable {lib : ServerLib σ} {needEof : HttpResponse → Bool} {server : GameServer σ}
  {trace : List (Exchange σ × ExchangeEvent)} {x : Exchange σ}

/-- A session whose socket was accepted. -/
def Exchange.new (server : GameServer σ) : Exchange σ := Exchange.start { server }

theorem Run.httpMessage (h : Run (ExchangeStep lib needEof) (Exchange.new server) trace x) :
    x.server.impl.httpMessage = server.impl.httpMessage :=
  h.invariant (P := fun u => u.server.impl.httpMessage = server.impl.httpMessage) rfl
    fun _ _ _ hstep hu => hstep.httpMessage.trans hu

/-- **One operation at a time.** There is never more than one operation in flight exactly when no
request that was handled is answered twice: no `GET` or `HEAD` of an illegal target. -/
theorem one_operation_iff
    (h : Run (ExchangeStep lib needEof) (Exchange.new server) trace x) :
    ((∀ p ∈ trace, p.1.operations ≤ 1) ∧ x.operations ≤ 1) ↔
      ∀ request ∈ served trace, ¬ request.AnsweredTwice := by
  induction h with
  | nil => exact iff_of_true ⟨List.forall_mem_nil _, le_rfl⟩ (List.forall_mem_nil _)
  | @snoc trace u x e hrun hstep ih =>
    have hbalance := hstep.balance
    rw [served_snoc, List.forall_mem_append, List.forall_mem_append, List.forall_mem_singleton, ih]
    refine and_congr_right fun hserved => ?_
    have hone : u.operations ≤ 1 := (ih.mpr hserved).2
    cases he : e.served? with
    | none =>
      rw [he] at hbalance
      have hless : x.operations ≤ 1 := by
        simp only [Option.toList_none, List.flatMap_nil, List.length_nil] at hbalance
        omega
      exact iff_of_true hless (List.forall_mem_nil _)
    | some request =>
      have hpos := hstep.operations_pos he
      rw [he] at hbalance
      simp only [Option.toList_some, List.length_singleton, List.flatMap_singleton] at hbalance
      rw [Option.toList_some, List.forall_mem_singleton]
      constructor
      · intro hless htwice
        rw [length_answers_of_answeredTwice lib htwice] at hbalance
        have hends : e.ends.toNat = 0 := by
          cases e <;> first | rfl | cases he
        omega
      · intro honce
        have hle := length_answers_le_one lib honce u.server.impl.httpMessage
        omega

/-- **What the client gets.** For as long as no request is answered twice, the responses are written
in the order of the requests, and at most the last of the answers is not: it is still being written,
or that has failed. -/
theorem answers_in_order (h : Run (ExchangeStep lib needEof) (Exchange.new server) trace x)
    (honce : ∀ request ∈ served trace, ¬ request.AnsweredTwice) :
    ∃ lost, (served trace).flatMap (fun request => answers lib request server.impl.httpMessage)
      = wrote trace ++ (lost ++ x.writes) ∧ lost.length + x.operations ≤ 1 := by
  induction h with
  | nil => exact ⟨[], rfl, le_rfl⟩
  | @snoc trace u x e hrun hstep ih =>
    have hpage := hrun.httpMessage
    rw [served_snoc, List.forall_mem_append] at honce
    obtain ⟨lost, heq, hle⟩ := ih honce.1
    -- the response that completes is the only one, and none was lost before
    have halone : ∀ {before later : List HttpResponse} {response : HttpResponse},
        u.writes = before ++ response :: later →
          lost = [] ∧ before = [] ∧ later = [] ∧ u.reads = 0 := by
      intro before later response hwrites
      have hlength := congrArg List.length hwrites
      rw [List.length_append, List.length_cons] at hlength
      rw [Exchange.operations] at hle
      exact ⟨List.length_eq_zero_iff.mp (by omega), List.length_eq_zero_iff.mp (by omega),
        List.length_eq_zero_iff.mp (by omega), by omega⟩
    rw [served_snoc, wrote_snoc, List.flatMap_append, heq]
    cases hstep with
    | others server hother =>
      exact ⟨lost, by simp [ExchangeEvent.served?, ExchangeEvent.wrote?], hle⟩
    | @readFailed n hreads =>
      refine ⟨lost, by simp [ExchangeEvent.served?, ExchangeEvent.wrote?], ?_⟩
      show lost.length + (n + u.writes.length) ≤ 1
      rw [Exchange.operations] at hle
      omega
    | @upgraded n hreads =>
      refine ⟨lost, by simp [ExchangeEvent.served?, ExchangeEvent.wrote?], ?_⟩
      show lost.length + (n + u.writes.length) ≤ 1
      rw [Exchange.operations] at hle
      omega
    | @requested n hreads request session hafter =>
      have hsent := sent_of_after? hafter
      rw [hpage] at hsent
      have hless := length_answers_le_one lib (honce.2 request (List.mem_singleton_self _))
        server.impl.httpMessage
      rw [Exchange.operations] at hle
      refine ⟨lost, ?_, ?_⟩
      · simp [ExchangeEvent.served?, ExchangeEvent.wrote?, hsent]
      · show lost.length + (n + (u.writes ++ session.sent).length) ≤ 1
        rw [List.length_append, hsent]
        omega
    | @writeFailed before later response hwrites =>
      obtain ⟨rfl, rfl, rfl, hreads⟩ := halone hwrites
      refine ⟨[response], ?_, ?_⟩
      · simp [ExchangeEvent.served?, ExchangeEvent.wrote?, hwrites]
      · show 1 + (u.reads + 0) ≤ 1
        omega
    | @closed before later response hwrites heof =>
      obtain ⟨rfl, rfl, rfl, hreads⟩ := halone hwrites
      refine ⟨[], ?_, ?_⟩
      · simp [ExchangeEvent.served?, ExchangeEvent.wrote?, hwrites]
      · show 0 + (u.reads + 0) ≤ 1
        omega
    | @written before later response hwrites heof =>
      obtain ⟨rfl, rfl, rfl, hreads⟩ := halone hwrites
      refine ⟨[], ?_, ?_⟩
      · simp [ExchangeEvent.served?, ExchangeEvent.wrote?, hwrites, Exchange.start]
      · show 0 + (u.reads + 1 + 0) ≤ 1
        omega

end

/-! ### Two connections -/

/-- After a `HEAD` of an illegal target two responses are being written. -/
theorem one_operation_iff_head : ∃ trace x,
    Run (ExchangeStep chessLib fun _ => false) (Exchange.new chessServer) trace x ∧
      x.operations = 2 ∧ ¬ ∀ request ∈ served trace, ¬ request.AnsweredTwice := by
  have hnil : Run (ExchangeStep chessLib fun _ => false) (Exchange.new chessServer) []
    (Exchange.new chessServer) := Run.nil
  have hrun := hnil.snoc
    (.requested rfl { method := .head, target := ascii "/chess" } rfl)
  exact ⟨_, _, hrun, rfl, fun honce =>
    absurd ((one_operation_iff hrun).mpr honce).2 (by decide)⟩

/-- The page is written, and the next request is read. -/
theorem answers_in_order_root : ∃ trace x,
    Run (ExchangeStep chessLib fun _ => false) (Exchange.new chessServer) trace x ∧
      ∃ response, wrote trace = [response] ∧ response.body = some chessServer.impl.httpMessage ∧
        (served trace).flatMap (fun request =>
          answers chessLib request chessServer.impl.httpMessage) = wrote trace := by
  have hnil : Run (ExchangeStep chessLib fun _ => false) (Exchange.new chessServer) []
    (Exchange.new chessServer) := Run.nil
  have hread := hnil.snoc (.requested rfl { method := .get, target := ascii "/" } rfl)
  have hrun := hread.snoc (.written (show _ = [] ++ _ :: [] from rfl) rfl)
  have honce : ¬ ({ method := .get, target := ascii "/" } : Request).AnsweredTwice := by
    rintro ⟨-, hillegal⟩
    exact absurd hillegal (by decide)
  obtain ⟨lost, heq, hle⟩ := answers_in_order hrun (by
    intro request hrequest
    obtain rfl := List.mem_singleton.mp hrequest
    exact honce)
  have hlost : lost = [] := List.length_eq_zero_iff.mp (Nat.le_zero.mp (Nat.le_of_succ_le_succ hle))
  rw [hlost] at heq
  exact ⟨_, _, hrun, _, rfl, rfl, heq⟩

end SocialGaming
