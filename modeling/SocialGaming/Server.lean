import SocialGaming.Ambassador

/-!
# The server

The server talks to browsers: over web sockets, each with a `Channel`, and by HTTP. All it does is
done in callbacks, one at a time, and in the calls of its client.

## Design

A `Connection` is the address of its `Channel`, so a pointer to a channel is its connection. A
channel remembers what `send` was called on, and what it called `async_write` on. The pointer is in
`channels` from the handshake on until `disconnect`; what is left of the channel after that is the
business of its own callbacks, which find it among the released ones.

The two callbacks of the client work on a state of the client's. What is typed at the server's
terminal is a list of words, one for each `std::cin >>`.

What is not part of the program is a parameter: the JSON library, the message queue to the event
loop with the memory its messages are copied to, and the version text of the HTTP library.

## Main definitions

* `Channel`, `ServerImpl`, `Server` — the state
* `Server.registerChannel`, `Server.disconnect`, `Server.send`, `Server.receive`
* `RequestHandler.handle` — what the endpoints do

## Main results

* `Server.giveId_cases` — what an endpoint that gives an id does
-/

namespace SocialGaming

open Std (ExtTreeMap)

/-! ### Channels -/

/-- A `Connection`, by its id. -/
abbrev Connection : Type := UInt64

/-- `struct Message`. -/
structure Message where
  connection : Connection
  text : Bytes
  deriving DecidableEq, Repr

/-- `class Channel`. -/
structure Channel where
  connection : Connection
  disconnected : Bool := false
  writeBuffer : List Bytes := []
  /-- What `send` was called on. -/
  handed : List Bytes := []
  /-- What `async_write` was called on. -/
  written : List Bytes := []
  deriving DecidableEq, Repr

namespace Channel

/-- `Channel::disconnect`. -/
def disconnect (channel : Channel) : Channel := { channel with disconnected := true }

/-- `Channel::send`. -/
def send (outgoing : Bytes) (channel : Channel) : Channel :=
  let channel := { channel with handed := channel.handed ++ [outgoing] }
  if outgoing = [] then channel
  else
    let channel := { channel with writeBuffer := channel.writeBuffer ++ [outgoing] }
    if 1 < channel.writeBuffer.length then channel
    else { channel with written := channel.written ++ channel.writeBuffer.take 1 }

/-- `Channel::afterWrite`. `server.disconnect(connection)` closes the channel if the server has it
registered. `pop_front` on an empty deque is undefined. -/
def afterWrite (registered errorCode : Bool) (channel : Channel) :
    Except (Fault AmbassadorExn) Channel :=
  if errorCode then
    if !channel.disconnected && registered then .ok channel.disconnect else .ok channel
  else
    match channel.writeBuffer with
    | [] => .error (.undefined .pastEnd)
    | _ :: writeBuffer =>
      .ok { channel with writeBuffer, written := channel.written ++ writeBuffer.take 1 }

end Channel

/-! ### The state -/

/-- `Server::ConnectionHandler`: the two callbacks, on the state of the client. -/
structure ConnectionHandler (γ : Type) where
  handleConnect : Connection → γ → γ
  handleDisconnect : Connection → γ → γ

/-- `class ServerImpl`. -/
structure ServerImpl (σ : Type) where
  httpMessage : Bytes
  channels : ExtTreeMap Connection Channel compare := ∅
  activeChannel : Option Connection := none
  incoming : List Message := []
  writeQ : σ
  socketToGameInstanceID : ExtTreeMap Connection Int32 compare := ∅
  socketToPlayerID : ExtTreeMap Connection Int32 compare := ∅
  gameInstanceId : Int32 := 1
  playerId : Int32 := 1

namespace ServerImpl

variable {σ : Type}

/-- `GameInstanceId` is written. -/
def setGameInstanceId (i : Int32) (impl : ServerImpl σ) : ServerImpl σ :=
  { impl with gameInstanceId := i }

/-- `PlayerId` is written. -/
def setPlayerId (i : Int32) (impl : ServerImpl σ) : ServerImpl σ := { impl with playerId := i }

/-- `socketToGameInstanceID[connection]` is written. -/
def storeGameInstanceID (connection : Connection) (id : Int32) (impl : ServerImpl σ) :
    ServerImpl σ :=
  { impl with socketToGameInstanceID := impl.socketToGameInstanceID.insert connection id }

/-- `socketToPlayerID[connection]` is written. -/
def storePlayerID (connection : Connection) (id : Int32) (impl : ServerImpl σ) : ServerImpl σ :=
  { impl with socketToPlayerID := impl.socketToPlayerID.insert connection id }

end ServerImpl

/-- A `Server`: its implementation, the state of the client, the channels that have been released,
and the words to be typed. -/
structure Server (γ σ : Type) where
  impl : ServerImpl σ
  client : γ
  released : List Channel := []
  stdin : List Bytes := []

namespace Server

variable {γ σ : Type} (handler : ConnectionHandler γ)

/-- `ServerImpl::registerChannel`. -/
def registerChannel (channel : Channel) (s : Server γ σ) : Server γ σ :=
  let connection := channel.connection
  { s with
    impl := { s.impl with
      channels := s.impl.channels.insert connection channel
      activeChannel := some connection }
    client := handler.handleConnect connection s.client }

/-- `Server::disconnect`. -/
def disconnect (connection : Connection) (s : Server γ σ) : Server γ σ :=
  match s.impl.channels[connection]? with
  | none => s
  | some found =>
    { s with
      impl := { s.impl with
        socketToGameInstanceID := s.impl.socketToGameInstanceID.erase connection
        socketToPlayerID := s.impl.socketToPlayerID.erase connection
        channels := s.impl.channels.erase connection }
      client := handler.handleDisconnect connection s.client
      released := s.released ++ [found.disconnect] }

/-- `Server::receive`. -/
def receive (s : Server γ σ) : List Message × Server γ σ :=
  (s.impl.incoming, { s with impl := { s.impl with incoming := [] } })

/-- The body of the loop of `Server::send`. -/
def sendOne (s : Server γ σ) (message : Message) : Server γ σ :=
  match s.impl.channels[message.connection]? with
  | none => s
  | some found =>
    { s with
      impl := { s.impl with
        channels := s.impl.channels.insert message.connection (found.send message.text) } }

/-- `Server::send`. -/
def send (messages : List Message) (s : Server γ σ) : Server γ σ := messages.foldl sendOne s

/-- The callback of `Channel::start`, on a new channel. -/
def afterAccept (errorCode : Bool) (connection : Connection) (s : Server γ σ) : Server γ σ :=
  if !errorCode then s.registerChannel handler { connection }
  else s.disconnect handler connection

/-- The callback of `Channel::readMessage` when a message has come. -/
def afterRead (message : Message) (s : Server γ σ) : Server γ σ :=
  { s with impl := { s.impl with incoming := s.impl.incoming ++ [message] } }

end Server

/-! ### Endpoints -/

/-- What the server is built with. -/
structure ServerLib (σ : Type) where
  json : JsonLib
  queue : MessageQueue σ Bytes
  stack : ℕ → UInt8
  versionString : Bytes

/-- The queue the server writes to: `msgQImpl(SERVER_QUEUE, true, false)`. -/
def ServerLib.writeQ {σ : Type} (lib : ServerLib σ) : MsgQ σ :=
  msgQImpl lib.queue lib.stack true false

/-- The decimal digits of an `int`: `std::to_string`. -/
def Int32.digits (i : Int32) : Bytes := ascii i.toInt.repr

namespace Server

variable {γ σ : Type}

/-- A call on the server. -/
abbrev Handles (γ σ α : Type) : Type := Prog AmbassadorExn (Server γ σ) α

/-- `std::cin >> input`, on an empty string. -/
def readWord : Handles γ σ Bytes := do
  match (← get).stdin with
  | [] => return []
  | input :: rest =>
    modify fun s => { s with stdin := rest }
    return input

/-- `i++` on an `int` of the implementation. -/
def increment (counter : ServerImpl σ → Int32) (setCounter : Int32 → ServerImpl σ → ServerImpl σ) :
    Handles γ σ Int32 := do
  let i := counter (← get).impl
  if i = Int32.maxValue then throw (.undefined .signedOverflow)
  modify fun s => { s with impl := setCounter (i + 1) s.impl }
  return i

/-- `ServerImpl::generateUniqueGameInstanceID`. -/
def generateUniqueGameInstanceID : Handles γ σ Int32 :=
  increment ServerImpl.gameInstanceId ServerImpl.setGameInstanceId

/-- `ServerImpl::generateUniquePlayerID`. -/
def generateUniquePlayerID : Handles γ σ Int32 :=
  increment ServerImpl.playerId ServerImpl.setPlayerId

/-- `activeChannel->getConnection()`. -/
def activeConnection : Handles γ σ Connection := do
  match (← get).impl.activeChannel with
  | none => throw (.undefined .nullDeref)
  | some connection => return connection

/-- `loopAmbassador.sendMsg`. -/
def sendMsg (lib : ServerLib σ) (res : Response) : Handles γ σ Int32 :=
  Prog.zoom (fun s => s.impl.writeQ) (fun writeQ s => { s with impl := { s.impl with writeQ } })
    (Ambassador.sendMsg lib.json lib.writeQ res)

/-- The end of a handler: a `Response` of the type is made, given the attributes, and sent. -/
def sendResponse (lib : ServerLib σ) (resType : MsgType) (attrs : List (Bytes × Bytes)) :
    Handles γ σ Unit := do
  let newRes := ({} : Response).setType resType
  let newRes ← Prog.ofExcept
    (attrs.foldlM (fun newRes attr => newRes.setAttr attr.1.view attr.2.view) newRes)
  let _ ← sendMsg lib newRes

/-- What two of the endpoints do: a word is read, an id is generated and stored for the connection
of the active channel, and a `Response` with both is sent. -/
def giveId (lib : ServerLib σ) (generate : Handles γ σ Int32)
    (store : Connection → Int32 → ServerImpl σ → ServerImpl σ) (resType : MsgType)
    (attrName : String) : Handles γ σ Unit := do
  let input ← readWord
  let id ← generate
  let connection ← activeConnection
  modify fun s => { s with impl := store connection id s.impl }
  sendResponse lib resType [(ascii "val", input), (ascii attrName, Int32.digits id)]

end Server

/-- The classes that derive from `RequestHandler`. -/
inductive RequestHandler where
  | createGame
  | joinGame
  | configureGame
  deriving DecidableEq, Repr

namespace RequestHandler

variable {γ σ : Type} (lib : ServerLib σ)

open Server (Handles readWord generateUniqueGameInstanceID generateUniquePlayerID sendResponse
  giveId)

/-- `CreateGameRequestHandler::handle`. -/
def createGame.handle : Handles γ σ Unit :=
  giveId lib generateUniqueGameInstanceID ServerImpl.storeGameInstanceID .gameInit "gameInstanceId"

/-- `JoinGameRequestHandler::handle`. -/
def joinGame.handle : Handles γ σ Unit :=
  giveId lib generateUniquePlayerID ServerImpl.storePlayerID .playerJoin "playerId"

/-- `ConfigureGameRequestHandler::handle`. -/
def configureGame.handle : Handles γ σ Unit := do
  let input ← readWord
  sendResponse lib .configRes [(ascii "val", input)]

/-- `RequestHandler::handle`. -/
def handle : RequestHandler → Handles γ σ Unit
  | createGame => createGame.handle lib
  | joinGame => joinGame.handle lib
  | configureGame => configureGame.handle lib

end RequestHandler

/-! ### What the parts of an endpoint do -/

namespace Server

variable {γ σ : Type} (lib : ServerLib σ)

theorem readWord_cases (s : Server γ σ) :
    ∃ input stdin, (readWord : Handles γ σ Bytes).run s = .ok input { s with stdin } := by
  cases hstdin : s.stdin with
  | nil =>
    have hrun : (readWord : Handles γ σ Bytes).run s = .ok [] s := by simp [readWord, hstdin]
    exact ⟨[], s.stdin, hrun⟩
  | cons input rest => exact ⟨input, rest, by simp [readWord, hstdin]⟩

theorem increment_run (counter : ServerImpl σ → Int32)
    (setCounter : Int32 → ServerImpl σ → ServerImpl σ) (s : Server γ σ) :
    (increment counter setCounter).run s =
      if counter s.impl = Int32.maxValue then .error (.undefined .signedOverflow) s
      else .ok (counter s.impl) { s with impl := setCounter (counter s.impl + 1) s.impl } := by
  rw [increment, EStateM.run_bind, EStateM.run_get]
  by_cases hmax : counter s.impl = Int32.maxValue
  · simp [hmax]
  · simp [hmax]

/-- Strings can be set. -/
theorem setAttrs_eq_ok (attrs : List (Bytes × Bytes)) (res : Response) :
    ∃ res', attrs.foldlM (fun newRes attr => newRes.setAttr attr.1.view attr.2.view) res
      = .ok res' := by
  induction attrs generalizing res with
  | nil => exact ⟨res, rfl⟩
  | cons attr attrs ih =>
    obtain ⟨key, hkey, -⟩ := exists_cString_view attr.1
    obtain ⟨val, hval, -⟩ := exists_cString_view attr.2
    rw [List.foldlM_cons, Response.setAttr, hkey, hval]
    exact ih _

/-- A string is sent, or it is not. -/
theorem write_cases (text : Bytes) (q : σ) :
    ∃ q', (∃ returned, (lib.writeQ.write text.view).run q = .ok returned q') ∨
      (lib.writeQ.write text.view).run q = .error (.thrown .interprocess) q' := by
  obtain ⟨content, hcontent, hlength⟩ := exists_cString_view text
  have hfits : ¬ text.length < content.length := Nat.not_lt.mpr hlength
  have hsize : text.view.size = text.length := rfl
  have hrun : (lib.writeQ.write text.view).run q
      = (msgQImpl.write lib.queue lib.stack true text.view).run q := rfl
  rw [hrun]
  cases hsend : lib.queue.trySend (content ++ 0 ::
      (List.range (text.length - content.length)).map lib.stack) q with
  | mk sending q' =>
    refine ⟨q', ?_⟩
    cases sending with
    | sent => exact Or.inl ⟨0, by simp [msgQImpl.write, hcontent, hfits, hsize, hsend]⟩
    | full => exact Or.inl ⟨-1, by simp [msgQImpl.write, hcontent, hfits, hsize, hsend]⟩
    | tooLarge => exact Or.inr (by simp [msgQImpl.write, hcontent, hfits, hsize, hsend])

/-- **What sending a `Response` does**: it returns or throws, and only the queue is changed. -/
theorem sendResponse_cases (resType : MsgType) (attrs : List (Bytes × Bytes)) (s : Server γ σ) :
    ∃ writeQ : σ,
      (sendResponse lib resType attrs).run s = .ok () { s with impl := { s.impl with writeQ } } ∨
      ∃ e, (sendResponse lib resType attrs).run s
        = .error (.thrown e) { s with impl := { s.impl with writeQ } } := by
  obtain ⟨res, hres⟩ := setAttrs_eq_ok attrs (({} : Response).setType resType)
  have hrun : (sendResponse lib resType attrs).run s
      = (sendMsg lib res >>= fun _ => pure ()).run s := by
    rw [sendResponse, EStateM.run_bind, hres]
    rfl
  rw [hrun, EStateM.run_bind, sendMsg, Prog.run_zoom]
  cases htext : res.toString lib.json with
  | none =>
    refine ⟨s.impl.writeQ, Or.inr ⟨.json, ?_⟩⟩
    simp [Ambassador.sendMsg, htext]
  | some text =>
    have hsend : (Ambassador.sendMsg lib.json lib.writeQ res).run s.impl.writeQ
        = (lib.writeQ.write text.view).run s.impl.writeQ := by
      simp [Ambassador.sendMsg, htext]
    rw [hsend]
    obtain ⟨writeQ, ⟨returned, hwrite⟩ | hwrite⟩ := write_cases lib text s.impl.writeQ
    · exact ⟨writeQ, Or.inl (by rw [hwrite]; rfl)⟩
    · exact ⟨writeQ, Or.inr ⟨.interprocess, by rw [hwrite]⟩⟩

/-- **What an endpoint that gives an id does.** The counter is at its end; or there is no active
channel, and a null pointer is dereferenced; or the id is given to the active channel's connection,
and after that only the queue is changed. -/
theorem giveId_cases (counter : ServerImpl σ → Int32)
    {setCounter : Int32 → ServerImpl σ → ServerImpl σ}
    (hset : ∀ i impl, (setCounter i impl).activeChannel = impl.activeChannel)
    (store : Connection → Int32 → ServerImpl σ → ServerImpl σ) (resType : MsgType)
    (attrName : String) (s : Server γ σ) :
    (counter s.impl = Int32.maxValue ∧ ∃ t,
      (giveId lib (increment counter setCounter) store resType attrName).run s
        = .error (.undefined .signedOverflow) t) ∨
    (counter s.impl ≠ Int32.maxValue ∧ s.impl.activeChannel = none ∧ ∃ t,
      (giveId lib (increment counter setCounter) store resType attrName).run s
        = .error (.undefined .nullDeref) t) ∨
    ∃ c stdin writeQ, s.impl.activeChannel = some c ∧ ∃ t : Server γ σ,
      t = { s with stdin, impl :=
        { store c (counter s.impl) (setCounter (counter s.impl + 1) s.impl) with writeQ } } ∧
      ((giveId lib (increment counter setCounter) store resType attrName).run s = .ok () t ∨
        ∃ e, (giveId lib (increment counter setCounter) store resType attrName).run s
          = .error (.thrown e) t) := by
  obtain ⟨input, stdin, hword⟩ := readWord_cases s
  have hincrement := increment_run counter setCounter { s with stdin }
  have hactive' := hset (counter s.impl + 1) s.impl
  rw [giveId, EStateM.run_bind, hword]
  simp only [EStateM.run_bind, hincrement]
  by_cases hmax : counter s.impl = Int32.maxValue
  · refine Or.inl ⟨hmax, ?_⟩
    simp only [hmax, if_true]
    exact ⟨_, rfl⟩
  · simp only [hmax, if_false]
    cases hactive : s.impl.activeChannel with
    | none =>
      refine Or.inr (Or.inl ⟨hmax, rfl, ?_⟩)
      rw [hactive] at hactive'
      simp [activeConnection, hactive']
    | some c =>
      rw [hactive] at hactive'
      obtain ⟨writeQ, hsend⟩ := sendResponse_cases lib resType
        [(ascii "val", input), (ascii attrName, Int32.digits (counter s.impl))]
        { s with stdin, impl := store c (counter s.impl) (setCounter (counter s.impl + 1) s.impl) }
      refine Or.inr (Or.inr ⟨c, stdin, writeQ, rfl, _, rfl, ?_⟩)
      simpa [activeConnection, hactive'] using hsend

end Server

end SocialGaming
