import SocialGaming.GameServer

/-!
# The main loop of the game server

Each round of `main` polls the network, processes the messages that have come, answers two messages
the event loop is made out to have sent, and sends the log. Whether a client asked for a shutdown is
taken from the result of `processMessages` and never looked at again: the loop is left only when the
poll threw, or when an exception leaves `main`.

## Design

What a poll does to the server is a run of its callbacks. What it brings from the event loop is in
the state of the queue, which may hold what the event loop is still going to send; a round reads it
as often as there are turns, since no bound on them is part of the program.

## Main definitions

* `ActionEventLoop`, `processEventLoopMessages` — the messages from the event loop
* `mainRound` — a round, from the poll on
* `Update`, `MainStep` — what a poll comes to, and a round after which the next one is started
* `RoundReturns` — no exception leaves the round

## Main results

* `mainStep_iff` — when the next round is started
* `shutdown_stops_iff` — when a shutdown request stops the server
-/

namespace SocialGaming

variable {γ σ ρ : Type}

open Server (Handles readWord sendResponse)

/-! ### Messages from the event loop -/

/-- The classes that derive from `ActionEventLoop`. -/
inductive ActionEventLoop where
  | inputRequest
  | configRequest
  | gameMade
  | playerAck
  deriving DecidableEq, Repr

/-- `ActionEventLoop::executeEventLoopMsg`. Two of them only print what the message holds. -/
def ActionEventLoop.executeEventLoopMsg (lib : ServerLib σ) : ActionEventLoop → Handles γ σ Unit
  | inputRequest => do sendResponse lib .inputRes [(ascii "val", ← readWord)]
  | configRequest => do sendResponse lib .configRes [(ascii "val", ← readWord)]
  | gameMade => return
  | playerAck => return

/-- The `actions` of `processEventLoopMessages`, in the order in which they are put in the map. -/
def eventLoopActions : List (MsgType × ActionEventLoop) :=
  [(.inputReq, .inputRequest), (.configRes, .configRequest), (.configRes, .gameMade),
    (.configRes, .playerAck)]

/-- The action for a type of messages: the last that was put. -/
def MsgType.action (t : MsgType) : Option ActionEventLoop := eventLoopActions.reverse.lookup t

/-- `processEventLoopMessages`. Each message is printed, and so turned into a text, first. -/
def processEventLoopMessages (lib : ServerLib σ) : List Response → Handles γ σ Unit
  | [] => return
  | eventLoopMessage :: rest => do
    let some _ := eventLoopMessage.toString lib.json | throw (.thrown .json)
    if let some action := eventLoopMessage.resType.action then action.executeEventLoopMsg lib
    processEventLoopMessages lib rest

/-! ### Rounds -/

/-- What `main` works with: the server, and the reading side of its ambassador. -/
structure GameMain (σ ρ : Type) where
  server : GameServer σ
  reader : Reader ρ

/-- What it is built with. -/
structure MainLib (σ ρ : Type) where
  server : ServerLib σ
  memory : ℕ → MsgType
  readQ : MsgQ ρ

/-- One of the messages `main` makes up. -/
def fakeResponse (aType : MsgType) (val : String) : Except (Fault AmbassadorExn) Response :=
  (({} : Response).setType aType).setAttr (ascii "val").view (ascii val).view

/-- `fakeMessages`. -/
def fakeMessages : Except (Fault AmbassadorExn) (List Response) := do
  return [← fakeResponse .configReq "Config info: ", ← fakeResponse .inputReq "PlayerId"]

/-- A round of `main` after the poll: whether the next one is started. -/
def mainRound (lib : MainLib σ ρ) (turns : ℕ) (errorWhileUpdating : Bool) :
    Prog AmbassadorExn (GameMain σ ρ) Bool := do
  let (incoming, server) := (← get).server.receive
  -- `shouldQuit` is a part of the result too, and nothing reads it
  let (messageResult, server) := processMessages server incoming
  modify fun m => { m with server }
  let _ ← Prog.zoom GameMain.reader (fun reader m => { m with reader })
    (Ambassador.getAllMsg lib.server.json lib.memory lib.readQ turns)
  let messages ← Prog.ofExcept fakeMessages
  Prog.zoom GameMain.server (fun server m => { m with server })
    (processEventLoopMessages lib.server messages)
  modify fun m =>
    { m with server := m.server.send (buildOutgoing m.server.client messageResult.result) }
  return !errorWhileUpdating

/-- What a poll comes to: whether it threw, and what it leaves. -/
structure Update (σ ρ : Type) where
  threw : Bool
  after : GameMain σ ρ

/-- The events a poll can bring. -/
def ServerEvent.IsCallback : ServerEvent → Prop
  | .processed => False
  | .sent _ => False
  | _ => True

/-- `server.update()`: the callbacks run, one after the other, and the reader is left alone. -/
structure Polled (lib : MainLib σ ρ) (m : GameMain σ ρ) (u : Update σ ρ) : Prop where
  server : ∃ polls, Run (ServerStep lib.server) m.server polls u.after.server ∧
    ∀ poll ∈ polls, poll.2.IsCallback
  readContentQ : u.after.reader.readContentQ = m.reader.readContentQ
  made : u.after.reader.made = m.reader.made

/-- A round after which `main` starts the next one. -/
inductive MainStep (lib : MainLib σ ρ) : GameMain σ ρ → Update σ ρ → GameMain σ ρ → Prop
  | next {m m' : GameMain σ ρ} {u : Update σ ρ} {turns : ℕ} (hpoll : Polled lib m u)
      (h : (mainRound lib turns u.threw).run u.after = .ok true m') : MainStep lib m u m'

/-- The batch has a message `shutdown`. -/
def RequestsShutdown (m : GameMain σ ρ) : Prop :=
  ∃ message ∈ m.server.impl.incoming, message.text = ascii "shutdown"

/-- The answer to a request for input. -/
def inputResponse (input : Bytes) : Response :=
  { resType := .inputRes
    attrs := (∅ : Std.ExtTreeMap Bytes Bytes compare).insert (ascii "val")
      (input.takeWhile (· ≠ 0)) }

/-- No exception leaves a round that starts with this state: the messages in the queue can be read
to their end, the messages `main` makes up can be printed, and what is typed in answer to one of
them can be sent. -/
structure RoundReturns (lib : MainLib σ ρ) (m : GameMain σ ρ) : Prop where
  reads : ∃ turns messages reader,
    (Ambassador.getAllMsg lib.server.json lib.memory lib.readQ turns).run m.reader
      = .ok messages reader
  prints : ∀ messages, fakeMessages = .ok messages → ∀ res ∈ messages,
    (res.toString lib.server.json).isSome
  answers : ∃ returned writeQ, (Ambassador.sendMsg lib.server.json lib.server.writeQ
    (inputResponse (m.server.stdin.headD []))).run m.server.impl.writeQ = .ok returned writeQ

/-! ### What a round needs -/

section

variable (lib : ServerLib σ)

theorem readWord_run (s : Server γ σ) :
    (readWord : Handles γ σ Bytes).run s
      = .ok (s.stdin.headD []) { s with stdin := s.stdin.tail } := by
  obtain ⟨impl, client, released, stdin⟩ := s
  cases stdin with
  | nil => rfl
  | cons input rest => rfl

/-- Up to a NUL, a string is the same with the NUL that ends it. -/
theorem takeWhile_view (text : Bytes) :
    text.view.cString = some (text.takeWhile (· ≠ 0)) := by
  have hmem : (0 : UInt8) ∈ text.view.data := List.mem_append_right text (List.mem_singleton_self 0)
  have htake : text.view.data.takeWhile (· ≠ 0) = text.takeWhile (· ≠ 0) := by
    rw [Bytes.view, List.takeWhile_append]
    split
    · rename_i hall
      have htext : text.takeWhile (· ≠ 0) = text := (List.takeWhile_sublist _).eq_of_length hall
      have hnul : ([0] : Bytes).takeWhile (· ≠ 0) = [] := rfl
      rw [hnul, List.append_nil, htext]
    · rfl
  rw [StringView.cString, if_pos hmem, htake]

/-- The two messages `main` makes up. -/
theorem fakeMessages_eq : ∃ one two, fakeMessages = .ok [one, two] ∧ one.resType = .configReq ∧
    two.resType = .inputReq := by
  have hfake : ∀ aType val, ∃ res, fakeResponse aType val = .ok res ∧ res.resType = aType := by
    intro aType val
    rw [fakeResponse, Response.setAttr, takeWhile_view, takeWhile_view]
    exact ⟨_, rfl, rfl⟩
  obtain ⟨one, hone, hconfig⟩ := hfake .configReq "Config info: "
  obtain ⟨two, htwo, hinput⟩ := hfake .inputReq "PlayerId"
  refine ⟨one, two, ?_, hconfig, hinput⟩
  rw [fakeMessages, hone, htwo]
  rfl

/-- What is typed is sent. -/
theorem inputRequest_run (s : Server γ σ) :
    (ActionEventLoop.inputRequest.executeEventLoopMsg lib).run s
      = (Server.sendMsg lib (inputResponse (s.stdin.headD [])) >>= fun _ => pure ()).run
        { s with stdin := s.stdin.tail } := by
  have hval : (ascii "val").takeWhile (· ≠ 0) = ascii "val" := by decide
  have hattrs : [(ascii "val", s.stdin.headD [])].foldlM
      (fun newRes attr => newRes.setAttr attr.1.view attr.2.view)
        (({} : Response).setType .inputRes) = .ok (inputResponse (s.stdin.headD [])) := by
    rw [List.foldlM_cons, Response.setAttr, takeWhile_view, takeWhile_view, hval]
    rfl
  rw [ActionEventLoop.executeEventLoopMsg, EStateM.run_bind, readWord_run]
  show (sendResponse lib .inputRes [(ascii "val", s.stdin.headD [])]).run _ = _
  rw [sendResponse, EStateM.run_bind, hattrs]
  rfl

/-- The two messages are processed when both can be printed, and the answer to the second can be
sent. -/
theorem processEventLoopMessages_returns_iff {one two : Response} (hone : one.resType = .configReq)
    (htwo : two.resType = .inputReq) (s : Server γ σ) :
    (∃ s', (processEventLoopMessages lib [one, two]).run s = .ok () s') ↔
      (one.toString lib.json).isSome ∧ (two.toString lib.json).isSome ∧
      ∃ returned writeQ, (Ambassador.sendMsg lib.json lib.writeQ
        (inputResponse (s.stdin.headD []))).run s.impl.writeQ = .ok returned writeQ := by
  have hnone : one.resType.action = none := by rw [hone]; rfl
  have hsome : two.resType.action = some .inputRequest := by rw [htwo]; rfl
  rcases htext : one.toString lib.json with _ | text
  · simp [processEventLoopMessages, htext]
  rcases htext' : two.toString lib.json with _ | text'
  · simp [processEventLoopMessages, htext, htext', hnone]
  have hrun : (processEventLoopMessages lib [one, two]).run s
      = (Server.sendMsg lib (inputResponse (s.stdin.headD [])) >>= fun _ => pure ()).run
        { s with stdin := s.stdin.tail } := by
    rw [← inputRequest_run]
    simp [processEventLoopMessages, htext, htext', hnone, hsome]
  rw [hrun, EStateM.run_bind, Server.sendMsg, Prog.run_zoom]
  rcases hsend : (Ambassador.sendMsg lib.json lib.writeQ
      (inputResponse (s.stdin.headD []))).run s.impl.writeQ with ⟨returned, writeQ⟩ | ⟨f, writeQ⟩
  · simp
  · simp

/-- Processing messages changes neither the queue nor what will be typed. -/
theorem processMessages_keeps (s : GameServer σ) (incoming : List Message) :
    (processMessages s incoming).2.impl.writeQ = s.impl.writeQ ∧
      (processMessages s incoming).2.stdin = s.stdin := by
  rcases processMessages_loop_cases s [] incoming with
    ⟨-, heq⟩ | ⟨before, message, after, action, -, -, -, heq⟩
  · rw [processMessages, heq]
    exact ⟨rfl, rfl⟩
  · rw [processMessages, heq]
    cases action with
    | shutDown => exact ⟨rfl, rfl⟩
    | quit =>
      show (s.disconnect gameHandler message.connection).impl.writeQ = _ ∧
        (s.disconnect gameHandler message.connection).stdin = _
      rw [Server.disconnect]
      split
      · exact ⟨rfl, rfl⟩
      · exact ⟨rfl, rfl⟩

end

/-! ### When the loop goes on -/

variable (lib : MainLib σ ρ)

/-- What a round does, when it returns. -/
theorem mainRound_run (turns : ℕ) (threw : Bool) (m : GameMain σ ρ) :
    ∃ server : GameServer σ, server.impl.writeQ = m.server.impl.writeQ ∧
      server.stdin = m.server.stdin ∧
      ∀ b m', (mainRound lib turns threw).run m = .ok b m' ↔ ∃ messages reader one two server',
        (Ambassador.getAllMsg lib.server.json lib.memory lib.readQ turns).run m.reader
          = .ok messages reader ∧ fakeMessages = .ok [one, two] ∧
        (processEventLoopMessages lib.server [one, two]).run server = .ok () server' ∧
        b = !threw ∧ m' = { reader, server := server'.send (buildOutgoing server'.client
          (processMessages m.server.receive.2 m.server.receive.1).1.result) } := by
  obtain ⟨hwriteQ, hstdin⟩ := processMessages_keeps m.server.receive.2 m.server.receive.1
  obtain ⟨one, two, hfake, -⟩ := fakeMessages_eq
  refine ⟨(processMessages m.server.receive.2 m.server.receive.1).2, hwriteQ, hstdin,
    fun b m' => ?_⟩
  rcases hread : (Ambassador.getAllMsg lib.server.json lib.memory lib.readQ turns).run m.reader with
    ⟨messages, reader⟩ | ⟨f, reader⟩
  · rcases hprocess : (processEventLoopMessages lib.server [one, two]).run
        (processMessages m.server.receive.2 m.server.receive.1).2 with ⟨⟨⟩, server'⟩ | ⟨f, server'⟩
    · simp [mainRound, Prog.run_zoom, hread, hfake, hprocess, eq_comm]
    · simp [mainRound, Prog.run_zoom, hread, hfake, hprocess]
  · simp [mainRound, Prog.run_zoom, hread]

variable {lib}

/-- **When the next round is started**: the poll did not throw, and no exception leaves the round.
The messages that have come play no part in it. -/
theorem mainStep_iff {m : GameMain σ ρ} {u : Update σ ρ} (hpoll : Polled lib m u) :
    (∃ m', MainStep lib m u m') ↔ u.threw = false ∧ RoundReturns lib u.after := by
  constructor
  · rintro ⟨m', h⟩
    cases h with
    | @next _ _ turns _ h =>
      obtain ⟨server, hwriteQ, hstdin, hrun⟩ := mainRound_run lib turns u.threw u.after
      obtain ⟨messages, reader, one, two, server', hread, hfake, hprocess, hthrew, -⟩ :=
        (hrun _ _).mp h
      obtain ⟨one', two', hfake', hone, htwo⟩ := fakeMessages_eq
      rw [hfake] at hfake'
      obtain ⟨rfl, rfl⟩ : one = one' ∧ two = two' := by simpa using Except.ok.inj hfake'
      obtain ⟨hprint, hprint', hanswer⟩ :=
        (processEventLoopMessages_returns_iff lib.server hone htwo server).mp ⟨server', hprocess⟩
      rw [hwriteQ, hstdin] at hanswer
      refine ⟨by simpa using hthrew.symm, ⟨turns, messages, reader, hread⟩, ?_, hanswer⟩
      intro messages' hmessages res hres
      rw [hfake] at hmessages
      obtain rfl := Except.ok.inj hmessages
      rcases List.mem_cons.mp hres with rfl | hres
      · exact hprint
      · obtain rfl := List.mem_singleton.mp hres
        exact hprint'
  · rintro ⟨hthrew, ⟨turns, messages, reader, hread⟩, hprints, hanswer⟩
    obtain ⟨server, hwriteQ, hstdin, hrun⟩ := mainRound_run lib turns u.threw u.after
    obtain ⟨one, two, hfake, hone, htwo⟩ := fakeMessages_eq
    have hprint := hprints _ hfake
    rw [← hwriteQ, ← hstdin] at hanswer
    obtain ⟨server', hprocess⟩ :=
      (processEventLoopMessages_returns_iff lib.server hone htwo server).mpr
        ⟨hprint one (by simp), hprint two (by simp), hanswer⟩
    have hround := (hrun true _).mpr ⟨messages, reader, one, two, server', hread, hfake, hprocess,
      by rw [hthrew]; rfl, rfl⟩
    exact ⟨_, MainStep.next hpoll hround⟩

/-- **When a shutdown request stops the server.** After a round whose batch has a message `shutdown`
the next one is not started exactly when the poll threw or an exception leaves the round. So a run
of the main loop in which this is so whenever there is such a message in the batch goes on only
after batches without one. -/
theorem shutdown_stops_iff (lib : MainLib σ ρ) :
    (∀ m u, Polled lib m u → RequestsShutdown u.after →
      ((¬ ∃ m', MainStep lib m u m') ↔ u.threw = true ∨ ¬ RoundReturns lib u.after)) ∧
    ∀ m₀ trace m, Run (MainStep lib) m₀ trace m →
      (∀ round ∈ trace, RequestsShutdown round.2.after →
        round.2.threw = true ∨ ¬ RoundReturns lib round.2.after) →
      ∀ round ∈ trace, ¬ RequestsShutdown round.2.after := by
  have hstops : ∀ m u, Polled lib m u →
      ((¬ ∃ m', MainStep lib m u m') ↔ u.threw = true ∨ ¬ RoundReturns lib u.after) := by
    intro m u hpoll
    rw [mainStep_iff hpoll, not_and_or, Bool.not_eq_false]
  refine ⟨fun m u hpoll _ => hstops m u hpoll, ?_⟩
  intro m₀ trace m hrun hmeets round hround hshutdown
  obtain ⟨m', hstep⟩ := hrun.exists_step hround
  have hpoll : Polled lib round.1 round.2 := by
    cases hstep with
    | next hpoll _ => exact hpoll
  exact (hstops _ _ hpoll).mpr (hmeets round hround hshutdown) ⟨m', hstep⟩

/-- Queues that are empty at first, and a library that prints everything as nothing. -/
def quietLib : MainLib (List Bytes) (List Bytes) where
  server := { json := { parse := fun _ => none, dump := fun _ => some [] }
              queue := boundedQueue MSG_MAX_COUNT fun m => m.length ≤ MSG_MAX_SIZE
              stack := fun _ => 0
              versionString := [] }
  memory := fun _ => .empty
  readQ := msgQImpl (boundedQueue MSG_MAX_COUNT fun m => m.length ≤ MSG_MAX_SIZE) (fun _ => 0) false
    true

/-- A server with one message that has come. -/
def shutdownMain : GameMain (List Bytes) (List Bytes) where
  server := { impl := { httpMessage := [], writeQ := [],
                        incoming := [{ connection := 1, text := ascii "shutdown" }] }
              client := [] }
  reader := { readQ := [] }

theorem polled_shutdownMain (threw : Bool) :
    Polled quietLib shutdownMain { threw, after := shutdownMain } :=
  ⟨⟨[], Run.nil, List.forall_mem_nil _⟩, rfl, rfl⟩

/-- The poll throws in the round with the request. -/
theorem shutdown_stops_iff_threw :
    ¬ ∃ m', MainStep quietLib shutdownMain { threw := true, after := shutdownMain } m' :=
  ((shutdown_stops_iff quietLib).1 _ _ (polled_shutdownMain true)
    ⟨_, List.mem_singleton_self _, rfl⟩).mpr (Or.inl rfl)

/-- The poll does not, and the next round is started. -/
theorem shutdown_ignored :
    RequestsShutdown shutdownMain ∧
      ∃ m', MainStep quietLib shutdownMain { threw := false, after := shutdownMain } m' :=
  ⟨⟨_, List.mem_singleton_self _, rfl⟩, _, MainStep.next (polled_shutdownMain false)
    (rfl : (mainRound quietLib 1 false).run shutdownMain = .ok true _)⟩

end SocialGaming
