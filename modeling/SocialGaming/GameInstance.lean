import SocialGaming.Visibility

/-!
# Game instances

A `GameInstance` owns an environment and puts a record for each player who joins at the end of the
list that is bound to `player`, which it makes when the name is not bound. The messages for the
players are collected by its `PlayerHandler`.

## Design

The limit on the players is checked against `currPlayerCount`. No function writes this, and none
writes `playerVars`; both are fields of the model, with the values the class gives them.

## Main definitions

* `PlayerHandler`, `GameInstance`
* `addPlayerToGame` — a player joins
* `Env.HoldsPlayers` — `player` is bound to a list of the records of these players

## Main results

* `addPlayerToGame_full`, `addPlayerToGame_null`, `addPlayerToGame_throws`, `addPlayerToGame_joins`
  — what a call does
-/

namespace SocialGaming

open Std (ExtTreeMap)

/-! ### The messages to the players -/

/-- `GameInstance::msgType`. -/
abbrev GameMsgType : Type := ExtTreeMap String String compare

/-- `GameInstance::Msg`. -/
structure GameMsg where
  playerIds : String
  message : GameMsgType
  deriving DecidableEq

/-- `class PlayerHandler`. -/
structure PlayerHandler where
  messages : List GameMsg := []
  deriving DecidableEq

namespace PlayerHandler

/-- `PlayerHandler::queueMessage`. -/
def queueMessage (ids : String) (msg : GameMsgType) (handler : PlayerHandler) : PlayerHandler :=
  { handler with messages := handler.messages ++ [⟨ids, msg⟩] }

/-- `PlayerHandler::getAllMsgs`. -/
def getAllMsgs (handler : PlayerHandler) : List GameMsg := handler.messages

/-- `PlayerHandler::clearAllMessages`. -/
def clearAllMessages (handler : PlayerHandler) : PlayerHandler := { handler with messages := [] }

end PlayerHandler

/-! ### Joining a game -/

variable {ι : Type}

/-- `makeVarPtr` of one argument. -/
def makeVarPtr (val : VarType) : Call (Env ι) VarPtr := do
  let s ← get
  let (p, heap) := s.heap.makeVariable val
  set { s with heap }
  return some p

/-- `class GameInstance`. -/
structure GameInstance (ι : Type) where
  gameInstanceName : String
  gameInstanceId : Int32
  envMgr : Env ι := {}
  playerHandler : PlayerHandler := {}
  numMaxPlayers : ℕ := 6
  currPlayerCount : ℕ := 0
  playerVars : ExtTreeMap String VarType compare := ∅

namespace GameInstance

/-- The constructor. -/
def new (gameInstanceName : String) (gameInstanceId : Int32) : GameInstance ι :=
  { gameInstanceName, gameInstanceId }

/-- `GameInstance::getGameInstanceName`. -/
def getGameInstanceName (game : GameInstance ι) : String := game.gameInstanceName

/-- `GameInstance::getGameInstanceId`. -/
def getGameInstanceId (game : GameInstance ι) : Int32 := game.gameInstanceId

/-- The game with this environment. -/
def setEnvMgr (envMgr : Env ι) (game : GameInstance ι) : GameInstance ι := { game with envMgr }

@[simp] theorem envMgr_setEnvMgr (s : Env ι) (game : GameInstance ι) :
    (game.setEnvMgr s).envMgr = s := rfl

@[simp] theorem numMaxPlayers_setEnvMgr (s : Env ι) (game : GameInstance ι) :
    (game.setEnvMgr s).numMaxPlayers = game.numMaxPlayers := rfl

/-- The part of `addPlayerToGame` that makes the list if needed. -/
def initList : Call (Env ι) VarPtr := do
  let playerList := (← get).getVariable "player"
  if playerList.isNone then
    setVariable "player" (.value (.list []))
    return (← get).getVariable "player"
  else return playerList

/-- The part of `addPlayerToGame` that makes the new player. -/
def initNewPlayer (playerVars : ExtTreeMap String VarType compare) (playerId : Int32)
    (username : String) : Call (Env ι) (ExtTreeMap String VarPtr compare) := do
  let newPlayer := ExtTreeMap.insert ∅ "id" (← makeVarPtr (.int playerId))
  let newPlayer := newPlayer.insert "name" (← makeVarPtr (.string username))
  playerVars.toList.foldlM
    (fun newPlayer pair => do return newPlayer.insert pair.1 (← makeVarPtr pair.2)) newPlayer

/-- `GameInstance::addPlayerToGame`. -/
def addPlayerToGame (playerId : Int32) (username : String) : Call (GameInstance ι) Unit := do
  let game ← get
  if game.currPlayerCount ≥ game.numMaxPlayers then return
  Prog.zoom envMgr setEnvMgr do
    let playerList ← initList
    let newPlayer ← initNewPlayer game.playerVars playerId username
    let some playerList := playerList | throw (.undefined .nullDeref)
    let heap ← Prog.ofExcept (Variable.pushBack playerList (.varMap newPlayer) (← get).heap)
    modify fun s => { s with heap }

/-- `GameInstance::removePlayerFromGame`. -/
def removePlayerFromGame (_playerId : Int32) : Call (GameInstance ι) Unit := return

end GameInstance

/-! ### The records of the players -/

/-- What `addPlayerToGame` stores for a player. -/
def playerRecord (id name : VarAddr) : ExtTreeMap String VarPtr compare :=
  (ExtTreeMap.insert ∅ "id" (some id)).insert "name" (some name)

/-- The pointer is to the record of this player: `id` and `name`, and nothing else. -/
def Heap.IsRecord (h : Heap) (record : VarPtr) (player : Int32 × String) : Prop :=
  ∃ p id name, record = some p ∧ h.Holds p (.varMap (playerRecord id name)) ∧
    h.Holds id (.int player.1) ∧ h.Holds name (.string player.2)

/-- The records of these players, in this order. -/
def Heap.AreRecords (h : Heap) (records : List VarPtr) (players : List (Int32 × String)) : Prop :=
  List.Forall₂ h.IsRecord records players

/-- `player` is bound to this list. -/
def Env.PlayerList (s : Env ι) (l : List VarPtr) : Prop :=
  ∃ p, s.getVariable "player" = some p ∧ s.heap.Holds p (.list l)

/-- `player` is bound to the list of these players. -/
def Env.HoldsPlayers (s : Env ι) (players : List (Int32 × String)) : Prop :=
  ∃ l, s.PlayerList l ∧ s.heap.AreRecords l players

theorem Heap.IsRecord.of_keepsRecords {h h' : Heap} {record : VarPtr} {player : Int32 × String}
    (hr : h.IsRecord record player) (hkeep : h.KeepsRecords h') : h'.IsRecord record player := by
  obtain ⟨p, id, name, hp, hrecord, hid, hname⟩ := hr
  exact ⟨p, id, name, hp, hrecord.of_keepsRecords hkeep fun _ => by simp,
    hid.of_keepsRecords hkeep fun _ => by simp, hname.of_keepsRecords hkeep fun _ => by simp⟩

theorem Heap.AreRecords.of_keepsRecords {h h' : Heap} {records : List VarPtr}
    {players : List (Int32 × String)} (hr : h.AreRecords records players)
    (hkeep : h.KeepsRecords h') : h'.AreRecords records players :=
  List.Forall₂.imp (fun _ _ hrecord => hrecord.of_keepsRecords hkeep) hr

/-- The store with the record of a player made, but not yet in the list. -/
def Heap.makePlayer (h : Heap) (player : Int32 × String) :
    ExtTreeMap String VarPtr compare × Heap :=
  let (id, h) := h.makeVariable (.int player.1)
  let (name, h) := h.makeVariable (.string player.2)
  (playerRecord id name, h)

/-- The same with the `Variable` that goes into the list. -/
def Heap.makeRecord (h : Heap) (player : Int32 × String) : VarAddr × Heap :=
  let (newPlayer, h) := h.makePlayer player
  h.makeVariable (.varMap newPlayer)

theorem Heap.extends_makePlayer (h : Heap) (player : Int32 × String) :
    h.Extends (h.makePlayer player).2 :=
  (h.extends_makeVariable _).trans (Heap.extends_makeVariable _ _)

theorem Heap.extends_makeRecord (h : Heap) (player : Int32 × String) :
    h.Extends (h.makeRecord player).2 :=
  (h.extends_makePlayer player).trans (Heap.extends_makeVariable _ _)

theorem Heap.isRecord_makeRecord (h : Heap) (player : Int32 × String) :
    (h.makeRecord player).2.IsRecord (some (h.makeRecord player).1) player := by
  refine ⟨_, (h.makeVariable (.int player.1)).1,
    ((h.makeVariable (.int player.1)).2.makeVariable (.string player.2)).1, rfl, ?_, ?_, ?_⟩
  · exact Heap.holds_makeVariable _ _
  · have hid := h.holds_makeVariable (.int player.1)
    have hid' := hid.of_extends (Heap.extends_makeVariable _ (.string player.2))
    exact hid'.of_extends (Heap.extends_makeVariable _ _)
  · have hname := (h.makeVariable (.int player.1)).2.holds_makeVariable (.string player.2)
    exact hname.of_extends (Heap.extends_makeVariable _ _)

/-- The store with the record of a player made and put at the end of a list. -/
def Heap.addRecord (h : Heap) (p : VarAddr) (l : List VarPtr) (player : Int32 × String) : Heap :=
  let (q, h) := h.makeRecord player
  h.write (h.storage p) (.list (l ++ [some q]))

/-- **One record more.** -/
theorem Heap.holds_addRecord {h : Heap} {p : VarAddr} {l : List VarPtr} (hp : h.Holds p (.list l))
    (player : Int32 × String) : ∃ q, (h.addRecord p l player).Holds p (.list (l ++ [some q])) ∧
      (h.addRecord p l player).IsRecord (some q) player ∧
      h.KeepsRecords (h.addRecord p l player) := by
  have hp' := hp.of_extends (h.extends_makeRecord player)
  have hkeep : (h.makeRecord player).2.KeepsRecords (h.addRecord p l player) :=
    Heap.keepsRecords_write hp'.value_eq _
  exact ⟨(h.makeRecord player).1, hp'.write_self _,
    (h.isRecord_makeRecord player).of_keepsRecords hkeep,
    (h.extends_makeRecord player).keepsRecords.trans hkeep⟩

theorem Variable.pushBack_makePlayer {h : Heap} {p : VarAddr} {l : List VarPtr}
    (hp : h.Holds p (.list l)) (player : Int32 × String) :
    Variable.pushBack p (.varMap (h.makePlayer player).1) (h.makePlayer player).2
      = .ok (h.addRecord p l player) := by
  have hp' := hp.of_extends (h.extends_makePlayer player)
  have hstorage : (h.makeRecord player).2.storage p = (h.makePlayer player).2.storage p :=
    (Heap.extends_makeVariable _ _).evolves.storage_eq hp'.lt_length
  rw [Heap.addRecord, Variable.pushBack, hp'.value_eq, ← hstorage]
  rfl

/-- The environment in which the list is bound. -/
def Env.initPlayers (s : Env ι) : Env ι :=
  if (s.getVariable "player").isNone then s.assign "player" (.value (.list [])) else s

theorem Env.initPlayers_eq {s : Env ι} {p : VarAddr} (h : s.getVariable "player" = some p) :
    s.initPlayers = s := by
  rw [initPlayers, h]
  rfl

/-- A list without elements is bound if there is a scope to bind it in. -/
theorem Env.initPlayers_new {s : Env ι} (h : s.getVariable "player" = none) :
    (s.scopes ≠ [] → s.initPlayers.PlayerList []) ∧
      (s.scopes = [] → s.initPlayers.getVariable "player" = none) := by
  have hinit : s.initPlayers = s.assign "player" (.value (.list [])) := by
    rw [initPlayers, h]
    rfl
  rw [hinit]
  constructor
  · intro hs
    refine ⟨(s.heap.makeVariable (.list [])).1, getVariable_assign_self hs "player" _, ?_⟩
    rw [heap_assign hs]
    exact s.heap.holds_makeVariable _
  · intro hs
    rw [assign, hs]
    exact h

/-! ### What a call does -/

theorem makeVarPtr_run (val : VarType) (s : Env ι) :
    (makeVarPtr val).run s
      = .ok (some (s.heap.makeVariable val).1) { s with heap := (s.heap.makeVariable val).2 } := rfl

namespace GameInstance

variable {game : GameInstance ι} {playerId : Int32} {username : String}

theorem initList_run (s : Env ι) :
    initList.run s = .ok (s.initPlayers.getVariable "player") s.initPlayers := by
  rw [initList, Env.initPlayers, EStateM.run_bind, EStateM.run_get]
  by_cases h : (s.getVariable "player").isNone
  · simp [h, setVariable_run]
  · simp [h]

theorem initNewPlayer_run (s : Env ι) :
    (initNewPlayer ∅ playerId username).run s =
      .ok (s.heap.makePlayer (playerId, username)).1
        { s with heap := (s.heap.makePlayer (playerId, username)).2 } := by
  have htoList : (∅ : ExtTreeMap String VarType compare).toList = [] :=
    ExtTreeMap.toList_eq_nil_iff.mpr rfl
  simp [initNewPlayer, makeVarPtr_run, playerRecord, Heap.makePlayer, htoList]

/-- No more players are let in. -/
theorem addPlayerToGame_full (h : game.numMaxPlayers ≤ game.currPlayerCount) :
    (addPlayerToGame playerId username).run game = .ok () game := by
  simp [addPlayerToGame, h]

/-- The list is there, or is made; and then the record. -/
theorem addPlayerToGame_run (hlt : game.currPlayerCount < game.numMaxPlayers)
    (hvars : game.playerVars = ∅) :
    (addPlayerToGame playerId username).run game =
      let s := game.envMgr.initPlayers
      let (newPlayer, heap) := s.heap.makePlayer (playerId, username)
      match s.getVariable "player" with
      | none => .error (.undefined .nullDeref) (game.setEnvMgr { s with heap })
      | some p =>
        match Variable.pushBack p (.varMap newPlayer) heap with
        | .ok heap => .ok () (game.setEnvMgr { s with heap })
        | .error f => .error f (game.setEnvMgr { s with heap }) := by
  have hle : ¬ game.numMaxPlayers ≤ game.currPlayerCount := not_le.mpr hlt
  rw [addPlayerToGame, EStateM.run_bind, EStateM.run_get]
  simp only [ge_iff_le, hle, if_false, hvars, Prog.run_zoom, EStateM.run_bind, initList_run,
    initNewPlayer_run]
  rcases hp : game.envMgr.initPlayers.getVariable "player" with _ | p
  · simp
  · rcases hpush : Variable.pushBack p
        (.varMap (game.envMgr.initPlayers.heap.makePlayer (playerId, username)).1)
        (game.envMgr.initPlayers.heap.makePlayer (playerId, username)).2 with f | heap
    · simp [hpush]
    · simp [hpush]

/-- A call changes the environment and nothing else. -/
theorem addPlayerToGame_setEnvMgr {game' : GameInstance ι}
    (h : Prog.after? ((addPlayerToGame playerId username).run game) = some game') :
    ∃ s, game' = game.setEnvMgr s := by
  rw [addPlayerToGame, EStateM.run_bind, EStateM.run_get] at h
  by_cases hfull : game.currPlayerCount ≥ game.numMaxPlayers
  · simp only [hfull, if_true] at h
    exact ⟨game.envMgr, (Option.some.inj h).symm⟩
  · simp only [hfull, if_false, Prog.after?_run_zoom] at h
    obtain ⟨s, -, hs⟩ := Option.map_eq_some_iff.mp h
    exact ⟨s, hs.symm⟩

variable (playerId username)

/-- The name cannot be bound when there is no scope. -/
theorem addPlayerToGame_null (hlt : game.currPlayerCount < game.numMaxPlayers)
    (hvars : game.playerVars = ∅) (hp : game.envMgr.initPlayers.getVariable "player" = none) :
    ∃ game', (addPlayerToGame playerId username).run game
      = .error (.undefined .nullDeref) game' := by
  rw [addPlayerToGame_run hlt hvars]
  simp only [hp]
  exact ⟨_, rfl⟩

/-- The name is bound to something that is no list. -/
theorem addPlayerToGame_throws (hlt : game.currPlayerCount < game.numMaxPlayers)
    (hvars : game.playerVars = ∅) {p : VarAddr} {v : VarType}
    (hp : game.envMgr.initPlayers.getVariable "player" = some p)
    (hv : game.envMgr.initPlayers.heap.Holds p v) (hl : ∀ l, v ≠ .list l) :
    ∃ game', (addPlayerToGame playerId username).run game
      = .error (.thrown (.badVariableArg "Expected listObj as first arg")) game' := by
  have hpush : Variable.pushBack p
      (.varMap (game.envMgr.initPlayers.heap.makePlayer (playerId, username)).1)
      (game.envMgr.initPlayers.heap.makePlayer (playerId, username)).2
        = .error (.thrown (.badVariableArg "Expected listObj as first arg")) := by
    rw [Variable.pushBack, (hv.of_extends (Heap.extends_makePlayer _ _)).value_eq]
    cases v with
    | list l => exact absurd rfl (hl l)
    | _ => rfl
  rw [addPlayerToGame_run hlt hvars]
  simp only [hp, hpush]
  exact ⟨_, rfl⟩

/-- A list that is there gets the record of the player as its last element, and so does one that has
to be made. -/
theorem addPlayerToGame_joins (hlt : game.currPlayerCount < game.numMaxPlayers)
    (hvars : game.playerVars = ∅) {l : List VarPtr} (hl : game.envMgr.initPlayers.PlayerList l) :
    ∃ s q, (addPlayerToGame playerId username).run game = .ok () (game.setEnvMgr s) ∧
      s.scopes = game.envMgr.initPlayers.scopes ∧ s.PlayerList (l ++ [some q]) ∧
      s.heap.IsRecord (some q) (playerId, username) ∧
      game.envMgr.initPlayers.heap.KeepsRecords s.heap := by
  obtain ⟨p, hp, hlist⟩ := hl
  obtain ⟨q, hlist', hrecord, hkeep⟩ := Heap.holds_addRecord hlist (playerId, username)
  refine ⟨{ game.envMgr.initPlayers with
    heap := game.envMgr.initPlayers.heap.addRecord p l (playerId, username) }, q, ?_, rfl,
    ⟨p, hp, hlist'⟩, hrecord, hkeep⟩
  rw [addPlayerToGame_run hlt hvars]
  simp only [hp, Variable.pushBack_makePlayer hlist]

end GameInstance

end SocialGaming
