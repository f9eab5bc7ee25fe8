import SocialGaming.GameServer

/-!
# The tables of the server

The server and its client remember connections in five places: the channels, the list of clients,
the active channel, and the ids of games and of players. `Tables` is what is in them, and the
counters of the ids. Of a step it only matters what it does there.

## Main definitions

* `Tables`, `TablesMove` — the tables, and what a step can do to them
* `Server.tables` — the tables of a server

## Main results

* `tables_registerChannel`, `tables_disconnect`, `tables_send` — the operations on the tables
* `ServerStep.move` — every step is a move of the tables
-/

namespace SocialGaming

open Std (ExtTreeMap)
open Server HTTPSession

/-- The tables of connections, and the next ids. -/
@[ext] structure Tables where
  channels : Set Connection
  clients : List Connection
  active : Option Connection
  gameIds : Set Connection
  playerIds : Set Connection
  nextGameId : Int32
  nextPlayerId : Int32

namespace Tables

/-- A connection is made. -/
def connect (c : Connection) (T : Tables) : Tables :=
  { T with channels := insert c T.channels, clients := T.clients ++ [c], active := some c }

/-- A connection is given up. -/
def disconnect (c : Connection) (T : Tables) : Tables :=
  { T with
    channels := T.channels \ {c}
    clients := onDisconnect c T.clients
    gameIds := T.gameIds \ {c}
    playerIds := T.playerIds \ {c} }

/-- A game id is given to a connection. -/
def giveGameId (c : Connection) (T : Tables) : Tables :=
  { T with gameIds := insert c T.gameIds, nextGameId := T.nextGameId + 1 }

/-- A player id is given to a connection. -/
def givePlayerId (c : Connection) (T : Tables) : Tables :=
  { T with playerIds := insert c T.playerIds, nextPlayerId := T.nextPlayerId + 1 }

end Tables

/-- An HTTP request that asks for an id. -/
def Request.AsksForId (request : Request) : Prop :=
  request.method = .get ∧
    (request.target = ascii "/create-game" ∨ request.target = ascii "/join-game")

/-- The event is such a request. -/
def ServerEvent.AsksForId : ServerEvent → Prop
  | .requested request => request.AsksForId
  | _ => False

/-- What a step can do to the tables. -/
inductive TablesMove (T : Tables) (e : ServerEvent) (T' : Tables) : Prop
  | stay (hasks : ¬ e.AsksForId) (h : T' = T)
  | connect {c : Connection} (hasks : ¬ e.AsksForId) (hnew : c ∉ T.channels) (h : T' = T.connect c)
  | disconnect {c : Connection} (hasks : ¬ e.AsksForId) (hin : c ∈ T.channels)
      (h : T' = T.disconnect c)
  | give {c : Connection} (hasks : e.AsksForId) (hactive : T.active = some c)
      (h : T' = T.giveGameId c ∨ T' = T.givePlayerId c)

/-! ### The tables of a server -/

variable {σ : Type}

/-- The tables of a server. -/
def Server.tables (s : GameServer σ) : Tables where
  channels := keySet s.impl.channels
  clients := s.client
  active := s.impl.activeChannel
  gameIds := keySet s.impl.socketToGameInstanceID
  playerIds := keySet s.impl.socketToPlayerID
  nextGameId := s.impl.gameInstanceId
  nextPlayerId := s.impl.playerId

theorem tables_registerChannel (s : GameServer σ) (channel : Channel) :
    (s.registerChannel gameHandler channel).tables = s.tables.connect channel.connection := by
  refine Tables.ext ?_ rfl rfl rfl rfl rfl rfl
  exact keySet_insert _ _ _

theorem disconnect_of_not_mem {s : GameServer σ} {c : Connection} (h : c ∉ s.impl.channels) :
    s.disconnect gameHandler c = s := by
  rw [Server.disconnect, ExtTreeMap.getElem?_eq_none h]

theorem tables_disconnect {s : GameServer σ} {c : Connection} (h : c ∈ s.impl.channels) :
    (s.disconnect gameHandler c).tables = s.tables.disconnect c := by
  rw [Server.disconnect, ExtTreeMap.getElem?_eq_some_getElem h]
  exact Tables.ext (keySet_erase _ _) rfl rfl (keySet_erase _ _) (keySet_erase _ _) rfl rfl

theorem tables_sendOne (s : GameServer σ) (message : Message) :
    (s.sendOne message).tables = s.tables := by
  rw [Server.sendOne]
  cases hfound : s.impl.channels[message.connection]? with
  | none => rfl
  | some found =>
    have hmem : message.connection ∈ keySet s.impl.channels :=
      ExtTreeMap.mem_iff_isSome_getElem?.mpr (by rw [hfound]; rfl)
    refine Tables.ext ?_ rfl rfl rfl rfl rfl rfl
    exact (keySet_insert _ _ _).trans (Set.insert_eq_of_mem hmem)

theorem tables_send (s : GameServer σ) (messages : List Message) :
    (s.send messages).tables = s.tables := by
  induction messages generalizing s with
  | nil => rfl
  | cons message messages ih => exact (ih (s.sendOne message)).trans (tables_sendOne s message)

/-! ### Requests -/

variable (lib : ServerLib σ)

/-- **What an endpoint that gives an id does to the tables.** If it ends, the connection of the
active channel has been given the id. It dereferences a null pointer exactly when there is no active
channel, unless the counter is at its end. -/
theorem giveId_tables (counter : ServerImpl σ → Int32)
    (setCounter : Int32 → ServerImpl σ → ServerImpl σ)
    (store : Connection → Int32 → ServerImpl σ → ServerImpl σ)
    (give : Connection → Tables → Tables)
    (hset : ∀ i impl, (setCounter i impl).activeChannel = impl.activeChannel)
    (hgive : ∀ (s : GameServer σ) c, Server.tables
      { s with impl := store c (counter s.impl) (setCounter (counter s.impl + 1) s.impl) }
        = give c s.tables)
    (resType : MsgType) (attrName : String) (s : GameServer σ) :
    (∀ t, Prog.after? ((giveId lib (increment counter setCounter) store resType attrName).run s)
      = some t → ∃ c, s.impl.activeChannel = some c ∧ t.tables = give c s.tables) ∧
    ((∃ t, (giveId lib (increment counter setCounter) store resType attrName).run s
      = .error (.undefined .nullDeref) t) ↔
      s.impl.activeChannel = none ∧ counter s.impl ≠ Int32.maxValue) := by
  rcases giveId_cases lib counter hset store resType attrName s with
    ⟨hmax, t, hrun⟩ | ⟨hmax, hnone, t, hrun⟩ | ⟨c, stdin, writeQ, hactive, t, ht, hrun⟩
  · rw [hrun]
    refine ⟨by rintro t ⟨⟩, iff_of_false ?_ fun h => h.2 hmax⟩
    rintro ⟨t, ⟨⟩⟩
  · rw [hrun]
    exact ⟨by rintro t ⟨⟩, iff_of_true ⟨t, rfl⟩ ⟨hnone, hmax⟩⟩
  · have htables : t.tables = give c s.tables := by
      rw [ht, ← hgive]
      rfl
    have hnone : ¬ (s.impl.activeChannel = none ∧ counter s.impl ≠ Int32.maxValue) := by
      rintro ⟨hnone, -⟩
      rw [hactive] at hnone
      cases hnone
    rcases hrun with hrun | ⟨e, hrun⟩
    · rw [hrun]
      refine ⟨?_, iff_of_false (by rintro ⟨t, ⟨⟩⟩) hnone⟩
      rintro t ⟨⟩
      exact ⟨c, hactive, htables⟩
    · rw [hrun]
      refine ⟨?_, iff_of_false (by rintro ⟨t, ⟨⟩⟩) hnone⟩
      rintro t ⟨⟩
      exact ⟨c, hactive, htables⟩

theorem createGame_tables (s : GameServer σ) :
    (∀ t, Prog.after? ((RequestHandler.createGame.handle lib).run s) = some t →
      ∃ c, s.impl.activeChannel = some c ∧ t.tables = s.tables.giveGameId c) ∧
    ((∃ t, (RequestHandler.createGame.handle lib).run s = .error (.undefined .nullDeref) t) ↔
      s.impl.activeChannel = none ∧ s.impl.gameInstanceId ≠ Int32.maxValue) :=
  giveId_tables lib ServerImpl.gameInstanceId ServerImpl.setGameInstanceId
    ServerImpl.storeGameInstanceID Tables.giveGameId (fun _ _ => rfl)
    (fun _ _ => Tables.ext rfl rfl rfl (keySet_insert _ _ _) rfl rfl rfl) _ _ s

theorem joinGame_tables (s : GameServer σ) :
    (∀ t, Prog.after? ((RequestHandler.joinGame.handle lib).run s) = some t →
      ∃ c, s.impl.activeChannel = some c ∧ t.tables = s.tables.givePlayerId c) ∧
    ((∃ t, (RequestHandler.joinGame.handle lib).run s = .error (.undefined .nullDeref) t) ↔
      s.impl.activeChannel = none ∧ s.impl.playerId ≠ Int32.maxValue) :=
  giveId_tables lib ServerImpl.playerId ServerImpl.setPlayerId
    ServerImpl.storePlayerID Tables.givePlayerId (fun _ _ => rfl)
    (fun _ _ => Tables.ext rfl rfl rfl rfl (keySet_insert _ _ _) rfl rfl) _ _ s

theorem configureGame_tables (s : GameServer σ) :
    (∀ t, Prog.after? ((RequestHandler.configureGame.handle lib).run s) = some t →
      t.tables = s.tables) ∧
    ¬ ∃ t, (RequestHandler.configureGame.handle lib).run s = .error (.undefined .nullDeref) t := by
  obtain ⟨input, stdin, hword⟩ := readWord_cases s
  obtain ⟨writeQ, hsend⟩ := sendResponse_cases lib .configRes [(ascii "val", input)]
    { s with stdin }
  have hrun : (RequestHandler.configureGame.handle lib).run s
      = (sendResponse lib .configRes [(ascii "val", input)]).run { s with stdin } := by
    rw [RequestHandler.configureGame.handle, EStateM.run_bind, hword]
  rw [hrun]
  rcases hsend with hsend | ⟨e, hsend⟩
  · rw [hsend]
    refine ⟨?_, by rintro ⟨t, ⟨⟩⟩⟩
    rintro t ⟨⟩
    rfl
  · rw [hsend]
    refine ⟨?_, by rintro ⟨t, ⟨⟩⟩⟩
    rintro t ⟨⟩
    rfl

/-- The requests that ask for an id are those of two endpoints. -/
theorem asksForId_iff (request : Request) : request.AsksForId ↔ request.method = .get ∧
    (requestHandlers.lookup request.target = some .createGame ∨
      requestHandlers.lookup request.target = some .joinGame) := by
  rw [Request.AsksForId, lookup_requestHandlers_iff, lookup_requestHandlers_iff]
  simp [requestHandlers]

/-- A request is a move of the tables. -/
theorem requested_move {s : GameServer σ} {request : Request}
    {session : HTTPSession (List Connection) σ}
    (h : Prog.after? ((handleRequest lib).run { server := s, request }) = some session) :
    TablesMove s.tables (.requested request) session.server.tables := by
  rcases handleRequest_cases lib { server := s, request } with
    ⟨endpoint, hmethod, hlookup, hrun⟩ | ⟨hendpoint, sent, hrun⟩
  · rw [hrun, onServer, Prog.after?_run_zoom, Option.map_eq_some_iff] at h
    obtain ⟨t, ht, rfl⟩ := h
    cases endpoint with
    | createGame =>
      obtain ⟨c, hactive, htables⟩ := (createGame_tables lib s).1 t ht
      exact TablesMove.give ((asksForId_iff request).mpr ⟨hmethod, Or.inl hlookup⟩) hactive
        (Or.inl htables)
    | joinGame =>
      obtain ⟨c, hactive, htables⟩ := (joinGame_tables lib s).1 t ht
      exact TablesMove.give ((asksForId_iff request).mpr ⟨hmethod, Or.inr hlookup⟩) hactive
        (Or.inr htables)
    | configureGame =>
      refine TablesMove.stay ?_ ((configureGame_tables lib s).1 t ht)
      intro hasks
      obtain ⟨-, hother | hother⟩ := (asksForId_iff request).mp hasks
      · rw [hlookup] at hother
        cases hother
      · rw [hlookup] at hother
        cases hother
  · rw [hrun, Prog.after?_ok, Option.some_inj] at h
    subst h
    refine TablesMove.stay ?_ rfl
    intro hasks
    obtain ⟨hmethod, hlookup | hlookup⟩ := (asksForId_iff request).mp hasks
    · rw [hendpoint hmethod] at hlookup
      cases hlookup
    · rw [hendpoint hmethod] at hlookup
      cases hlookup

/-! ### Steps -/

variable {lib}

/-- Giving up a connection is a move of the tables. -/
theorem disconnect_move {T : Tables} {s : GameServer σ} (hs : s.tables = T) (e : ServerEvent)
    (hasks : ¬ e.AsksForId) (c : Connection) :
    TablesMove T e (s.disconnect gameHandler c).tables := by
  by_cases hin : c ∈ s.impl.channels
  · exact TablesMove.disconnect hasks (hs ▸ hin) (hs ▸ tables_disconnect hin)
  · exact TablesMove.stay hasks (by rw [disconnect_of_not_mem hin, hs])

/-- **Every step is a move of the tables.** -/
theorem ServerStep.move {s s' : GameServer σ} {e : ServerEvent} (h : ServerStep lib s e s') :
    TablesMove s.tables e s'.tables := by
  cases h with
  | accepted errorCode c hnew =>
    cases errorCode with
    | false => exact TablesMove.connect id hnew (tables_registerChannel s { connection := c })
    | true => exact disconnect_move rfl (.accepted true c) id c
  | arrived message => exact TablesMove.stay id rfl
  | disconnected c => exact disconnect_move rfl (.disconnected c) id c
  | requested request h => exact requested_move lib h
  | processed =>
    rcases processMessages_loop_cases s.receive.2 [] s.receive.1 with
      ⟨-, heq⟩ | ⟨before, message, after, action, -, -, -, heq⟩
    · rw [processMessages, heq]
      exact TablesMove.stay id rfl
    · rw [processMessages, heq]
      cases action with
      | quit =>
        have hreceive : s.receive.2.tables = s.tables := rfl
        exact disconnect_move hreceive .processed id message.connection
      | shutDown => exact TablesMove.stay id rfl
  | sent messages => exact TablesMove.stay id (tables_send s messages)

end SocialGaming
