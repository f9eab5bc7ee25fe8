import SocialGaming.HttpRequests
import SocialGaming.Library.Collections
import SocialGaming.Library.Runs

/-!
# The game server

The client of the server is a chat: it keeps a list of the connections, takes the messages that have
come as commands or as lines of a log, and sends the log to everyone on its list.

Everything else comes from outside, in any order: handshakes that end, messages, connections that
are lost, and HTTP requests.

## Main definitions

* `onConnect`, `onDisconnect`, `processMessages`, `buildOutgoing`
* `ServerEvent`, `ServerStep` — one step of the server

## Main results

* `processMessages_loop_cases` — what processing messages can do
-/

namespace SocialGaming

open Std (ExtTreeMap)

/-! ### The client of the server -/

/-- `onConnect`. -/
def onConnect (c : Connection) (clients : List Connection) : List Connection := clients ++ [c]

/-- `onDisconnect`. -/
def onDisconnect (c : Connection) (clients : List Connection) : List Connection :=
  clients.filter (· ≠ c)

/-- The callbacks the server is made with. -/
def gameHandler : ConnectionHandler (List Connection) where
  handleConnect := onConnect
  handleDisconnect := onDisconnect

/-- The server, with the list `clients`. -/
abbrev GameServer (σ : Type) : Type := Server (List Connection) σ

/-- `struct MessageResult`. -/
structure MessageResult where
  result : Bytes
  shouldShutdown : Bool
  deriving DecidableEq, Repr

/-- The classes that derive from `ActionClient`. -/
inductive ActionClient where
  | quit
  | shutDown
  deriving DecidableEq, Repr

variable {σ : Type}

/-- `ActionClient::executeClientMsg`. -/
def ActionClient.executeClientMsg (message : Message) (s : GameServer σ) :
    ActionClient → MessageResult × GameServer σ
  | quit =>
    ({ result := [], shouldShutdown := false }, s.disconnect gameHandler message.connection)
  | shutDown => ({ result := [], shouldShutdown := true }, s)

/-- The `actions` of `processMessages`. -/
def actions : List (Bytes × ActionClient) :=
  [(ascii "quit", .quit), (ascii "shutdown", .shutDown)]

/-- The line of the log for a message. -/
def Message.line (message : Message) : Bytes :=
  ascii message.connection.toNat.repr ++ ascii "> " ++ message.text ++ ascii "\n"

/-- The action of a message, if it is a command. -/
def Message.action (message : Message) : Option ActionClient := actions.lookup message.text

/-- The loop of `processMessages`, with the log so far. -/
def processMessages.loop (s : GameServer σ) (result : Bytes) :
    List Message → MessageResult × GameServer σ
  | [] => ({ result, shouldShutdown := false }, s)
  | message :: rest =>
    match message.action with
    | some action => action.executeClientMsg message s
    | none => processMessages.loop s (result ++ message.line) rest

/-- `processMessages`. -/
def processMessages (s : GameServer σ) (incoming : List Message) : MessageResult × GameServer σ :=
  processMessages.loop s [] incoming

/-- `buildOutgoing`. -/
def buildOutgoing (clients : List Connection) (log : Bytes) : List Message :=
  clients.map fun client => { connection := client, text := log }

/-! ### Steps -/

/-- What happens to the server. -/
inductive ServerEvent where
  /-- The handshake of a new channel ends. -/
  | accepted (errorCode : Bool) (connection : Connection)
  /-- A message comes. -/
  | arrived (message : Message)
  /-- A connection is given up, after an error or for any other reason. -/
  | disconnected (connection : Connection)
  /-- An HTTP request comes that does not ask for a web socket. -/
  | requested (request : Request)
  /-- The messages that have come are processed. -/
  | processed
  /-- Messages are sent. -/
  | sent (messages : List Message)

/-- One step of the server. -/
inductive ServerStep (lib : ServerLib σ) : GameServer σ → ServerEvent → GameServer σ → Prop
  | accepted {s : GameServer σ} (errorCode : Bool) (connection : Connection)
      (hnew : connection ∉ s.impl.channels) :
      ServerStep lib s (.accepted errorCode connection)
        (s.afterAccept gameHandler errorCode connection)
  | arrived {s : GameServer σ} (message : Message) :
      ServerStep lib s (.arrived message) (s.afterRead message)
  | disconnected {s : GameServer σ} (connection : Connection) :
      ServerStep lib s (.disconnected connection) (s.disconnect gameHandler connection)
  | requested {s : GameServer σ} (request : Request) {session : HTTPSession (List Connection) σ}
      (h : Prog.after? ((HTTPSession.handleRequest lib).run { server := s, request })
        = some session) :
      ServerStep lib s (.requested request) session.server
  | processed {s : GameServer σ} :
      ServerStep lib s .processed (processMessages s.receive.2 s.receive.1).2
  | sent {s : GameServer σ} (messages : List Message) :
      ServerStep lib s (.sent messages) (s.send messages)

/-- **What processing messages can do**: the log of all of them, or what the first command does. -/
theorem processMessages_loop_cases (s : GameServer σ) (result : Bytes) (incoming : List Message) :
    ((∀ message ∈ incoming, message.action = none) ∧
      processMessages.loop s result incoming
        = ({ result := result ++ (incoming.map Message.line).flatten, shouldShutdown := false },
          s)) ∨
    ∃ before message after action, incoming = before ++ message :: after ∧
      (∀ earlier ∈ before, earlier.action = none) ∧ message.action = some action ∧
      processMessages.loop s result incoming = action.executeClientMsg message s := by
  induction incoming generalizing result with
  | nil =>
    refine Or.inl ⟨List.forall_mem_nil _, ?_⟩
    rw [processMessages.loop, List.map_nil, List.flatten_nil, List.append_nil]
  | cons message rest ih =>
    cases haction : message.action with
    | some action =>
      refine Or.inr ⟨[], message, rest, action, rfl, List.forall_mem_nil _, haction, ?_⟩
      rw [processMessages.loop, haction]
    | none =>
      have hloop : processMessages.loop s result (message :: rest)
          = processMessages.loop s (result ++ message.line) rest := by
        rw [processMessages.loop, haction]
      rw [hloop]
      rcases ih (result ++ message.line) with
        ⟨hall, heq⟩ | ⟨before, command, after, action, rfl, hbefore, hcommand, heq⟩
      · refine Or.inl ⟨List.forall_mem_cons.mpr ⟨haction, hall⟩, ?_⟩
        rw [heq, List.map_cons, List.flatten_cons, List.append_assoc]
      · exact Or.inr ⟨message :: before, command, after, action, rfl,
          List.forall_mem_cons.mpr ⟨haction, hbefore⟩, hcommand, heq⟩

end SocialGaming
