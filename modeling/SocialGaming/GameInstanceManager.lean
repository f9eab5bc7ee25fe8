import SocialGaming.PlayerRoster
import SocialGaming.Library.Refinement
import SocialGaming.Library.Collections

/-!
# The manager of the games

A `GameInstanceManager` has the games that wait in a map by their ids, and those that are active in
a queue. It only ever adds to the map, with `emplace`, which does not replace what is there.

## Design

A game is an object that several pointers may be to, so the manager's state has a list of all games
that were made, and a pointer is a place in it, or null. A client of the manager may make games of
its own, and hand over any pointer it has.

## Main definitions

* `GameInstanceManager`, `ManagerCall` — the manager, and the calls of its methods
* `Registry` — what the manager is for: names and players, by the ids of the games
* `Registers` — the manager's games are those of the registry

## Main results

* `ManagerCall.run_registers` — one call
* `manager_refines` — every sequence of calls
-/

namespace SocialGaming

open Std (ExtTreeMap)

variable {ι : Type}

/-- Where a game is. -/
abbrev GameAddr : Type := ℕ

/-- A `shared_ptr<GameInstance>`. -/
abbrev GamePtr : Type := Option GameAddr

/-- `class GameInstanceManager`, with all games that were made. -/
structure GameInstanceManager (ι : Type) where
  games : List (GameInstance ι) := []
  activeGameQueue : List GamePtr := []
  waitingGameMap : ExtTreeMap Int32 GameAddr compare := ∅

namespace GameInstanceManager

/-- `std::make_shared<GameInstance>`. -/
def makeGame (name : String) (gameInstanceId : Int32) : Call (GameInstanceManager ι) GamePtr := do
  let s ← get
  set { s with games := s.games ++ [GameInstance.new name gameInstanceId] }
  return some s.games.length

/-- A call on a game. Nothing but a game is pointed to. -/
def onGame {α : Type} (game : GameAddr) (x : Call (GameInstance ι) α) :
    Call (GameInstanceManager ι) α := fun s =>
  match s.games[game]? with
  | none => .error (.undefined .pastEnd) s
  | some found =>
    match x.run found with
    | .ok a found => .ok a { s with games := s.games.set game found }
    | .error f found => .error f { s with games := s.games.set game found }

/-- `GameInstanceManager::putGameInstanceInMap`. -/
def putGameInstanceInMap (game : GamePtr) : Call (GameInstanceManager ι) Unit := do
  let some game := game | throw (.undefined .nullDeref)
  let gameInstanceId ← onGame game do return (← get).getGameInstanceId
  modify fun s =>
    { s with waitingGameMap := s.waitingGameMap.insertIfNew gameInstanceId game }

/-- `GameInstanceManager::createGameInstance`. -/
def createGameInstance (name : String) (gameInstanceId : Int32) :
    Call (GameInstanceManager ι) Unit := do
  let newGame ← makeGame name gameInstanceId
  putGameInstanceInMap newGame

/-- `GameInstanceManager::getGameInstanceFromQueue`. -/
def getGameInstanceFromQueue : Call (GameInstanceManager ι) GamePtr := do
  match (← get).activeGameQueue with
  | [] => return none
  | game :: activeGameQueue =>
    modify fun s => { s with activeGameQueue }
    return game

/-- `GameInstanceManager::putGameInstanceInQueue`. -/
def putGameInstanceInQueue (game : GamePtr) : Call (GameInstanceManager ι) Unit :=
  modify fun s => { s with activeGameQueue := s.activeGameQueue ++ [game] }

/-- `GameInstanceManager::getGameInstanceFromMap`. -/
def getGameInstanceFromMap (gameInstanceId : Int32) : Call (GameInstanceManager ι) GamePtr := do
  return (← get).waitingGameMap[gameInstanceId]?

/-- `GameInstanceManager::assignPlayerToGame`. -/
def assignPlayerToGame (gameInstanceId : Int32) (playerName : String) (playerId : Int32) :
    Call (GameInstanceManager ι) Unit := do
  if let some game ← getGameInstanceFromMap gameInstanceId then
    onGame game (GameInstance.addPlayerToGame playerId playerName)

/-- `GameInstanceManager::deletePlayerFromGame`. -/
def deletePlayerFromGame (gameInstanceId : Int32) (_playerId : Int32) :
    Call (GameInstanceManager ι) Unit := do
  let _ ← getGameInstanceFromMap gameInstanceId

end GameInstanceManager

open GameInstanceManager

/-- What a client of the manager calls. -/
inductive ManagerCall where
  /-- The client makes a game itself. -/
  | makeGame (name : String) (gameInstanceId : Int32)
  | createGameInstance (name : String) (gameInstanceId : Int32)
  | getGameInstanceFromQueue
  | putGameInstanceInQueue (game : GamePtr)
  | getGameInstanceFromMap (gameInstanceId : Int32)
  | putGameInstanceInMap (game : GamePtr)
  | assignPlayerToGame (gameInstanceId : Int32) (playerName : String) (playerId : Int32)
  | deletePlayerFromGame (gameInstanceId : Int32) (playerId : Int32)

namespace ManagerCall

/-- The call, with the pointer that is returned, if there is one. -/
def run : ManagerCall → Call (GameInstanceManager ι) GamePtr
  | makeGame name gameInstanceId => GameInstanceManager.makeGame name gameInstanceId
  | createGameInstance name gameInstanceId => do
    GameInstanceManager.createGameInstance name gameInstanceId
    return none
  | getGameInstanceFromQueue => GameInstanceManager.getGameInstanceFromQueue
  | putGameInstanceInQueue game => do
    GameInstanceManager.putGameInstanceInQueue game
    return none
  | getGameInstanceFromMap gameInstanceId =>
    GameInstanceManager.getGameInstanceFromMap gameInstanceId
  | putGameInstanceInMap game => do
    GameInstanceManager.putGameInstanceInMap game
    return none
  | assignPlayerToGame gameInstanceId playerName playerId => do
    GameInstanceManager.assignPlayerToGame gameInstanceId playerName playerId
    return none
  | deletePlayerFromGame gameInstanceId playerId => do
    GameInstanceManager.deletePlayerFromGame gameInstanceId playerId
    return none

/-- The pointers that are handed over are to games, or null. -/
def Valid (s : GameInstanceManager ι) : ManagerCall → Prop
  | putGameInstanceInQueue (some game) => game < s.games.length
  | putGameInstanceInMap (some game) => game < s.games.length
  | _ => True

end ManagerCall

/-- A call that returns. -/
def ManagerStep (s : GameInstanceManager ι) (call : ManagerCall) (s' : GameInstanceManager ι) :
    Prop :=
  call.Valid s ∧ ∃ result, (call.run : Call (GameInstanceManager ι) GamePtr).run s = .ok result s'

/-! ### The registry -/

/-- The games that were made, by name and id, and for each id the name and the players of the game
that is known by it. -/
structure Registry where
  made : List (String × Int32) := []
  games : Int32 → Option (String × List (Int32 × String)) := fun _ => none

namespace Registry

/-- A game is known by its id from now on, unless another one is. -/
def register (game : String × Int32) (reg : Registry) : Registry :=
  match reg.games game.2 with
  | some _ => reg
  | none => { reg with games := Function.update reg.games game.2 (some (game.1, [])) }

/-- A player joins the game that is known by this id. -/
def join (gameInstanceId : Int32) (player : Int32 × String) (reg : Registry) : Registry :=
  match reg.games gameInstanceId with
  | none => reg
  | some (name, players) =>
    { reg with games :=
      Function.update reg.games gameInstanceId (some (name, players ++ [player])) }

/-- What a call does. -/
def next (reg : Registry) : ManagerCall → Registry
  | .makeGame name gameInstanceId => { reg with made := reg.made ++ [(name, gameInstanceId)] }
  | .createGameInstance name gameInstanceId =>
    register (name, gameInstanceId) { reg with made := reg.made ++ [(name, gameInstanceId)] }
  | .putGameInstanceInMap (some game) =>
    match reg.made[game]? with
    | some game => reg.register game
    | none => reg
  | .assignPlayerToGame gameInstanceId playerName playerId =>
    reg.join gameInstanceId (playerId, playerName)
  | _ => reg

end Registry

/-! ### Games with players -/

/-- The game has these players, and lets in more. -/
structure GameInstance.HasPlayers (game : GameInstance ι) (players : List (Int32 × String)) :
    Prop where
  room : game.currPlayerCount < game.numMaxPlayers
  playerVars : game.playerVars = ∅
  held : game.envMgr.initPlayers.HoldsPlayers players

theorem GameInstance.hasPlayers_new (name : String) (gameInstanceId : Int32) :
    (GameInstance.new name gameInstanceId : GameInstance ι).HasPlayers [] where
  room := Nat.succ_pos 5
  playerVars := rfl
  held := ⟨[], (Env.initPlayers_new rfl).1 (List.cons_ne_nil _ _), List.Forall₂.nil⟩

/-- **A player joins.** -/
theorem GameInstance.HasPlayers.join {game : GameInstance ι} {players : List (Int32 × String)}
    (h : game.HasPlayers players) (playerId : Int32) (username : String) :
    ∃ game', (GameInstance.addPlayerToGame playerId username).run game = .ok () game' ∧
      game'.HasPlayers (players ++ [(playerId, username)]) ∧
      game'.gameInstanceName = game.gameInstanceName ∧
      game'.gameInstanceId = game.gameInstanceId := by
  obtain ⟨l, hlist, hrecords⟩ := h.held
  obtain ⟨s, q, hrun, -, hlist', hrecord, hkeep⟩ :=
    GameInstance.addPlayerToGame_joins playerId username h.room h.playerVars hlist
  refine ⟨game.setEnvMgr s, hrun, ⟨h.room, h.playerVars, ?_⟩, rfl, rfl⟩
  obtain ⟨p, hp, hheld⟩ := hlist'
  show s.initPlayers.HoldsPlayers _
  rw [Env.initPlayers_eq hp]
  exact ⟨l ++ [some q], ⟨p, hp, hheld⟩, List.rel_append (hrecords.of_keepsRecords hkeep)
    (List.Forall₂.cons hrecord List.Forall₂.nil)⟩

/-! ### What the calls do -/

/-- The manager's games are those of the registry. A game that is not in the map has no players. -/
structure Registers (s : GameInstanceManager ι) (reg : Registry) : Prop where
  made : reg.made = s.games.map fun game => (game.gameInstanceName, game.gameInstanceId)
  unknown : ∀ id : Int32, s.waitingGameMap[id]? = none → reg.games id = none
  known : ∀ (id : Int32) a, s.waitingGameMap[id]? = some a → ∃ game players,
    s.games[a]? = some game ∧ game.gameInstanceId = id ∧
      reg.games id = some (game.gameInstanceName, players) ∧ game.HasPlayers players
  idle : ∀ (a : GameAddr) game, s.games[a]? = some game →
    s.waitingGameMap[game.gameInstanceId]? ≠ some a → game.HasPlayers []

namespace GameInstanceManager

variable {s : GameInstanceManager ι} {reg : Registry}

/-- A call on a game that is there. -/
theorem onGame_run {α : Type} {a : GameAddr} {game game' : GameInstance ι} {result : α}
    {x : Call (GameInstance ι) α} (hgame : s.games[a]? = some game)
    (hx : x.run game = .ok result game') :
    (onGame a x).run s = .ok result { s with games := s.games.set a game' } := by
  show onGame a x s = _
  rw [onGame, hgame]
  simp only [hx]

/-- **A game is made.** -/
theorem registers_makeGame (h : Registers s reg) (name : String) (id : Int32) :
    Registers { s with games := s.games ++ [GameInstance.new name id] }
      { reg with made := reg.made ++ [(name, id)] } where
  made := by
    show reg.made ++ [_] = (s.games ++ [_]).map _
    rw [h.made, List.map_append]
    rfl
  unknown := h.unknown
  known id' a ha := by
    obtain ⟨game, players, hgame, hid, hreg, hplayers⟩ := h.known id' a ha
    exact ⟨game, players, List.getElem?_append_left (List.getElem?_eq_some_iff.mp hgame).1 ▸ hgame,
      hid, hreg, hplayers⟩
  idle a game hgame hnot := by
    have hgame' : (s.games ++ [GameInstance.new name id])[a]? = some game := hgame
    rw [List.getElem?_append] at hgame'
    split at hgame'
    · exact h.idle a game hgame' hnot
    · obtain ⟨-, rfl⟩ : _ ∧ GameInstance.new name id = game := by
        simpa [List.getElem?_singleton] using hgame'
      exact GameInstance.hasPlayers_new name id

/-- **A game is put in the map**, unless there is one with its id. -/
theorem putGameInstanceInMap_registers (h : Registers s reg) {a : GameAddr}
    {game : GameInstance ι} (hgame : s.games[a]? = some game) :
    (putGameInstanceInMap (some a)).run s
        = .ok () { s with waitingGameMap := s.waitingGameMap.insertIfNew game.gameInstanceId a } ∧
      Registers { s with waitingGameMap := s.waitingGameMap.insertIfNew game.gameInstanceId a }
        (reg.register (game.gameInstanceName, game.gameInstanceId)) := by
  have hread : (onGame a do return (← get).getGameInstanceId : Call _ _).run s
      = .ok game.gameInstanceId s := by
    have hrun := onGame_run (x := do return (← get).getGameInstanceId) hgame rfl
    rw [hrun]
    obtain ⟨hlt, rfl⟩ := List.getElem?_eq_some_iff.mp hgame
    rw [List.set_getElem_self]
    rfl
  refine ⟨?_, ?_⟩
  · rw [putGameInstanceInMap, EStateM.run_bind, hread]
    rfl
  cases hid : s.waitingGameMap[game.gameInstanceId]? with
  | some b =>
    -- the place is taken
    have hmem : game.gameInstanceId ∈ s.waitingGameMap :=
      ExtTreeMap.mem_iff_isSome_getElem?.mpr (by rw [hid]; rfl)
    have hmap : s.waitingGameMap.insertIfNew game.gameInstanceId a = s.waitingGameMap :=
      ExtTreeMap.ext_getElem? fun id => by
        rw [ExtTreeMap.getElem?_insertIfNew, if_neg fun hand => hand.2 hmem]
    obtain ⟨other, players, -, -, hreg, -⟩ := h.known _ b hid
    rw [hmap, Registry.register, hreg]
    exact h
  | none =>
    have hnew : game.gameInstanceId ∉ s.waitingGameMap := by
      rw [ExtTreeMap.mem_iff_isSome_getElem?, hid]
      rintro ⟨⟩
    have hmap : ∀ id : Int32, (s.waitingGameMap.insertIfNew game.gameInstanceId a)[id]?
        = if game.gameInstanceId = id then some a else s.waitingGameMap[id]? := by
      intro id
      simp [ExtTreeMap.getElem?_insertIfNew, hnew, Std.LawfulEqCmp.compare_eq_iff_eq]
    have hregister : reg.register (game.gameInstanceName, game.gameInstanceId) = { reg with
        games := Function.update reg.games game.gameInstanceId
          (some (game.gameInstanceName, [])) } := by
      rw [Registry.register, h.unknown _ hid]
    rw [hregister]
    refine ⟨h.made, fun id hnone => ?_, fun id b hsome => ?_, fun b other hother hnot => ?_⟩
    · rw [hmap] at hnone
      split at hnone
      · cases hnone
      · rename_i hne
        show Function.update reg.games game.gameInstanceId _ id = none
        rw [Function.update_of_ne (Ne.symm hne)]
        exact h.unknown id hnone
    · rw [hmap] at hsome
      show ∃ game' players, s.games[b]? = some game' ∧ game'.gameInstanceId = id ∧
        Function.update reg.games game.gameInstanceId (some (game.gameInstanceName, [])) id
          = some (game'.gameInstanceName, players) ∧ game'.HasPlayers players
      split at hsome
      · rename_i heq
        obtain rfl := Option.some.inj hsome
        refine ⟨game, [], hgame, heq, ?_, h.idle a game hgame (by rw [hid]; rintro ⟨⟩)⟩
        rw [← heq, Function.update_self]
      · rename_i hne
        rw [Function.update_of_ne (Ne.symm hne)]
        exact h.known id b hsome
    · rw [hmap] at hnot
      refine h.idle b other hother fun hsome => hnot ?_
      split
      · rename_i heq
        rw [← heq, hid] at hsome
        cases hsome
      · exact hsome

/-- **A player is assigned** to the game that is known by the id, if there is one. -/
theorem assignPlayerToGame_registers (h : Registers s reg) (id : Int32) (name : String)
    (playerId : Int32) : ∃ s', (assignPlayerToGame id name playerId).run s = .ok () s' ∧
      Registers s' (reg.join id (playerId, name)) ∧ s'.waitingGameMap = s.waitingGameMap ∧
      s'.activeGameQueue = s.activeGameQueue ∧ s'.games.length = s.games.length := by
  have hget : (getGameInstanceFromMap id : Call (GameInstanceManager ι) GamePtr).run s
      = .ok s.waitingGameMap[id]? s := rfl
  rw [assignPlayerToGame, EStateM.run_bind, hget]
  cases hid : s.waitingGameMap[id]? with
  | none =>
    refine ⟨s, rfl, ?_, rfl, rfl, rfl⟩
    rw [Registry.join, h.unknown id hid]
    exact h
  | some a =>
    obtain ⟨game, players, hgame, hsame, hreg, hplayers⟩ := h.known id a hid
    obtain ⟨game', hrun, hplayers', hname', hid'⟩ := hplayers.join playerId name
    refine ⟨_, onGame_run hgame hrun, ?_, rfl, rfl, List.length_set⟩
    have hjoin : reg.join id (playerId, name) = { reg with
        games := Function.update reg.games id
          (some (game.gameInstanceName, players ++ [(playerId, name)])) } := by
      rw [Registry.join, hreg]
    have hat : ∀ b : GameAddr, (s.games.set a game')[b]?
        = if a = b then some game' else s.games[b]? := by
      intro b
      rw [List.getElem?_set]
      split
      · rename_i heq
        rw [if_pos (heq ▸ (List.getElem?_eq_some_iff.mp hgame).1)]
      · rfl
    rw [hjoin]
    refine ⟨?_, fun id' hnone => ?_, fun id' b hsome => ?_, fun b other hother hnot => ?_⟩
    · refine h.made.trans (List.ext_getElem? fun b => ?_)
      show _ = ((s.games.set a game').map _)[b]?
      rw [List.getElem?_map, List.getElem?_map, hat]
      split
      · rename_i heq
        rw [← heq, hgame, Option.map_some, Option.map_some, hname', hid']
      · rfl
    · show Function.update reg.games id _ id' = none
      have hne : id' ≠ id := by
        rintro rfl
        have hnone' : s.waitingGameMap[id']? = none := hnone
        rw [hid] at hnone'
        cases hnone'
      rw [Function.update_of_ne hne]
      exact h.unknown id' hnone
    · show ∃ found players', (s.games.set a game')[b]? = some found ∧ found.gameInstanceId = id' ∧
        Function.update reg.games id (some (game.gameInstanceName, players ++ [(playerId, name)]))
          id' = some (found.gameInstanceName, players') ∧ found.HasPlayers players'
      rw [hat]
      by_cases heq : id' = id
      · have hsome' : s.waitingGameMap[id']? = some b := hsome
        rw [heq, hid] at hsome'
        obtain rfl := Option.some.inj hsome'
        rw [if_pos rfl, heq, Function.update_self]
        exact ⟨game', _, rfl, hid'.trans hsame, by rw [hname'], hplayers'⟩
      · obtain ⟨other, players', hother, hsame', hreg', hheld⟩ := h.known id' b hsome
        have hne : a ≠ b := by
          rintro rfl
          rw [hgame] at hother
          obtain rfl := Option.some.inj hother
          exact heq (hsame'.symm.trans hsame)
        rw [if_neg hne, Function.update_of_ne heq]
        exact ⟨other, players', hother, hsame', hreg', hheld⟩
    · have hother' : (s.games.set a game')[b]? = some other := hother
      rw [hat] at hother'
      split at hother'
      · rename_i heq
        obtain rfl := Option.some.inj hother'
        refine absurd ?_ hnot
        show s.waitingGameMap[game'.gameInstanceId]? = some b
        rw [hid', hsame, hid, heq]
      · exact h.idle b other hother' hnot

/-- A game is made, and put in the map. -/
theorem createGameInstance_registers (h : Registers s reg) (name : String) (id : Int32) :
    (createGameInstance name id).run s = .ok () { s with
        games := s.games ++ [GameInstance.new name id]
        waitingGameMap := s.waitingGameMap.insertIfNew id s.games.length } ∧
      Registers { s with
        games := s.games ++ [GameInstance.new name id]
        waitingGameMap := s.waitingGameMap.insertIfNew id s.games.length }
        (reg.next (.createGameInstance name id)) := by
  have hgame : (s.games ++ [GameInstance.new name id])[s.games.length]?
      = some (GameInstance.new name id) := List.getElem?_concat_length
  have hmake : (makeGame name id : Call (GameInstanceManager ι) GamePtr).run s
      = .ok (some s.games.length) { s with games := s.games ++ [GameInstance.new name id] } := rfl
  obtain ⟨hput, hregister⟩ :=
    putGameInstanceInMap_registers (registers_makeGame h name id) hgame
  refine ⟨?_, hregister⟩
  rw [createGameInstance, EStateM.run_bind, hmake]
  exact hput

/-- The front of the queue is taken, if there is one. -/
theorem getGameInstanceFromQueue_run (s : GameInstanceManager ι) :
    getGameInstanceFromQueue.run s
      = .ok (s.activeGameQueue.head?.join)
        { s with activeGameQueue := s.activeGameQueue.tail } := by
  obtain ⟨games, queue, map⟩ := s
  cases queue with
  | nil => rfl
  | cons game queue => rfl

/-- Who is known by an id stays known by it. -/
theorem getElem?_insertIfNew_of_some {known : ExtTreeMap Int32 GameAddr compare} {id : Int32}
    {a : GameAddr} (h : known[id]? = some a) (id' : Int32) (b : GameAddr) :
    (known.insertIfNew id' b)[id]? = some a := by
  rw [ExtTreeMap.getElem?_insertIfNew, if_neg]
  · exact h
  · rintro ⟨hsame, hnew⟩
    refine hnew ?_
    rw [Std.LawfulEqCmp.compare_eq_iff_eq.mp hsame, ExtTreeMap.mem_iff_isSome_getElem?, h]
    rfl

end GameInstanceManager

/-- **One call.** It returns, unless a null pointer is put in the map; the registry does the same;
and who is known by an id stays known by it. -/
theorem ManagerCall.run_registers {s : GameInstanceManager ι} {reg : Registry}
    (h : Registers s reg) {call : ManagerCall} (hvalid : call.Valid s)
    (hnull : call ≠ .putGameInstanceInMap none) :
    ∃ result s', call.run.run s = .ok result s' ∧ Registers s' (reg.next call) ∧
      ∀ (id : Int32) a, s.waitingGameMap[id]? = some a → s'.waitingGameMap[id]? = some a := by
  cases call with
  | makeGame name id => exact ⟨_, _, rfl, registers_makeGame h name id, fun _ _ ha => ha⟩
  | createGameInstance name id =>
    obtain ⟨hrun, hnext⟩ := createGameInstance_registers h name id
    refine ⟨none, _, ?_, hnext, fun _ _ ha => getElem?_insertIfNew_of_some ha _ _⟩
    rw [ManagerCall.run, EStateM.run_bind, hrun]
    rfl
  | getGameInstanceFromQueue =>
    exact ⟨_, _, getGameInstanceFromQueue_run s, ⟨h.made, h.unknown, h.known, h.idle⟩,
      fun _ _ ha => ha⟩
  | putGameInstanceInQueue game =>
    exact ⟨_, _, rfl, ⟨h.made, h.unknown, h.known, h.idle⟩, fun _ _ ha => ha⟩
  | getGameInstanceFromMap id => exact ⟨_, _, rfl, h, fun _ _ ha => ha⟩
  | putGameInstanceInMap game =>
    cases game with
    | none => exact absurd rfl hnull
    | some a =>
      have hgame : s.games[a]? = some (s.games.get ⟨a, hvalid⟩) := List.getElem?_eq_getElem hvalid
      obtain ⟨hput, hregister⟩ := putGameInstanceInMap_registers h hgame
      have hmade : reg.made[a]? = some ((s.games.get ⟨a, hvalid⟩).gameInstanceName,
          (s.games.get ⟨a, hvalid⟩).gameInstanceId) := by
        rw [h.made, List.getElem?_map, hgame]
        rfl
      have hnext : reg.next (.putGameInstanceInMap (some a))
          = reg.register ((s.games.get ⟨a, hvalid⟩).gameInstanceName,
            (s.games.get ⟨a, hvalid⟩).gameInstanceId) := by
        rw [Registry.next, hmade]
      rw [hnext]
      refine ⟨none, _, ?_, hregister, fun _ _ ha => getElem?_insertIfNew_of_some ha _ _⟩
      rw [ManagerCall.run, EStateM.run_bind, hput]
      rfl
  | assignPlayerToGame id name playerId =>
    obtain ⟨s', hrun, hjoin, hmap, -⟩ := assignPlayerToGame_registers h id name playerId
    refine ⟨none, s', ?_, hjoin, fun _ _ ha => hmap ▸ ha⟩
    rw [ManagerCall.run, EStateM.run_bind, hrun]
    rfl
  | deletePlayerFromGame id playerId => exact ⟨_, _, rfl, h, fun _ _ ha => ha⟩

/-! ### Any sequence of calls -/

theorem registers_new : Registers ({} : GameInstanceManager ι) {} where
  made := rfl
  unknown _ _ := rfl
  known id a ha := by
    rw [show ({} : GameInstanceManager ι).waitingGameMap[id]? = none
      from ExtTreeMap.getElem?_empty] at ha
    cases ha
  idle a game hgame := by cases hgame

/-- A call that returns is one that may be made. -/
theorem ManagerStep.registers {s s' : GameInstanceManager ι} {call : ManagerCall}
    (hstep : ManagerStep s call s') {reg : Registry} (h : Registers s reg) :
    Registers s' (reg.next call) ∧
      ∀ (id : Int32) a, s.waitingGameMap[id]? = some a → s'.waitingGameMap[id]? = some a := by
  obtain ⟨hvalid, result, hrun⟩ := hstep
  have hnull : call ≠ .putGameInstanceInMap none := by
    rintro rfl
    cases hrun
  obtain ⟨result', t, hrun', hnext, hkeeps⟩ := ManagerCall.run_registers h hvalid hnull
  rw [hrun] at hrun'
  obtain ⟨-, rfl⟩ := EStateM.Result.ok.inj hrun'
  exact ⟨hnext, hkeeps⟩

/-- A call that may be made returns. -/
theorem Registers.exists_step {s : GameInstanceManager ι} {reg : Registry} (h : Registers s reg)
    (call : ManagerCall) (hvalid : call.Valid s) (hnull : call ≠ .putGameInstanceInMap none) :
    ∃ s', ManagerStep s call s' ∧ Registers s' (reg.next call) := by
  obtain ⟨result, s', hrun, hnext, -⟩ := ManagerCall.run_registers h hvalid hnull
  exact ⟨s', ⟨hvalid, result, hrun⟩, hnext⟩

/-- The registry follows the manager. -/
theorem follows_registry :
    Follows (ManagerStep (ι := ι)) Registry.next Registers :=
  fun _ _ _ _ hstep h => (hstep.registers h).1

/-- Those who are assigned to the game of an id. -/
def joins (id : Int32) (calls : List ManagerCall) : List (Int32 × String) :=
  calls.filterMap fun
    | .assignPlayerToGame id' playerName playerId =>
      if id' = id then some (playerId, playerName) else none
    | _ => none

theorem Registry.games_register {reg : Registry} {id : Int32} {known}
    (h : reg.games id = some known) (game : String × Int32) :
    (reg.register game).games id = some known := by
  rw [Registry.register]
  split
  · exact h
  · rename_i hnone
    have hne : id ≠ game.2 := by
      rintro rfl
      rw [h] at hnone
      cases hnone
    exact (Function.update_of_ne hne _ _).trans h

/-- A game that is known by an id keeps its name, and gets the players that are assigned to it. -/
theorem Registry.games_foldl_next {id : Int32} {name : String} (calls : List ManagerCall) :
    ∀ {reg : Registry} {players : List (Int32 × String)}, reg.games id = some (name, players) →
      (calls.foldl Registry.next reg).games id = some (name, players ++ joins id calls) := by
  induction calls with
  | nil =>
    intro reg players h
    rw [joins, List.filterMap_nil, List.append_nil]
    exact h
  | cons call calls ih =>
    intro reg players h
    have hstep : (reg.next call).games id = some (name, players ++ joins id [call]) := by
      cases call with
      | assignPlayerToGame id' playerName playerId =>
        by_cases heq : id' = id
        · subst heq
          simp [Registry.next, Registry.join, h, joins]
        · have hgames : (reg.join id' (playerId, playerName)).games id = reg.games id := by
            rw [Registry.join]
            split
            · rfl
            · exact Function.update_of_ne (Ne.symm heq) _ _
          simp [Registry.next, hgames, h, joins, heq]
      | createGameInstance name' id' =>
        have hmade : ({ reg with made := reg.made ++ [(name', id')] } : Registry).games id
            = some (name, players) := h
        simpa [Registry.next, joins] using Registry.games_register hmade (name', id')
      | putGameInstanceInMap game =>
        cases game with
        | none => simp [Registry.next, h, joins]
        | some a =>
          cases hmade : reg.made[a]? with
          | none => simp [Registry.next, hmade, h, joins]
          | some game => simpa [Registry.next, hmade, joins] using Registry.games_register h game
      | _ => simp [Registry.next, h, joins]
    rw [List.foldl_cons, ih hstep, List.append_assoc]
    show _ = some (name, players ++ joins id ([call] ++ calls))
    rw [joins, joins, joins, List.filterMap_append]

/-- **The manager is the registry**: every sequence of calls, by anyone who hands over pointers to
games. Each call returns, unless it puts a null pointer in the map; the manager's games are those of
the registry; and the first game that was known by an id stays the one, under its name, and has got
everyone who was assigned to that id since, in order. -/
theorem manager_refines {trace : List (GameInstanceManager ι × ManagerCall)}
    {s : GameInstanceManager ι} (h : Run ManagerStep {} trace s) :
    (∀ call : ManagerCall, call.Valid s →
      ((∃ result s', call.run.run s = .ok result s') ↔ call ≠ .putGameInstanceInMap none)) ∧
    Registers s ((eventsOf trace).foldl Registry.next {}) ∧
    ∀ (id : Int32) a, s.waitingGameMap[id]? = some a → ∃ name players,
      ((eventsOf trace).foldl Registry.next {}).games id = some (name, players) ∧
      ∀ {trace' s'}, Run ManagerStep s trace' s' → s'.waitingGameMap[id]? = some a ∧
        ∃ game, s'.games[a]? = some game ∧ game.gameInstanceName = name ∧
          game.gameInstanceId = id ∧ game.HasPlayers (players ++ joins id (eventsOf trace')) := by
  have hrep := follows_registry.run h registers_new
  refine ⟨fun call hvalid => ⟨?_, fun hnull => ?_⟩, hrep, fun id a ha => ?_⟩
  · rintro ⟨result, s', hrun⟩ rfl
    cases hrun
  · obtain ⟨result, s', hrun, -⟩ := ManagerCall.run_registers hrep hvalid hnull
    exact ⟨result, s', hrun⟩
  · obtain ⟨first, players, -, -, hreg, -⟩ := hrep.known id a ha
    refine ⟨first.gameInstanceName, players, hreg, fun {trace' s'} h' => ?_⟩
    -- whoever is known by the id stays known by it, step by step
    have hstill : s'.waitingGameMap[id]? = some a :=
      (Run.invariant (P := fun t : GameInstanceManager ι =>
        (∃ reg, Registers t reg) ∧ t.waitingGameMap[id]? = some a) h' ⟨⟨_, hrep⟩, ha⟩
        fun t call t' hstep ⟨⟨reg, hreg⟩, hknown⟩ =>
          ⟨⟨_, (hstep.registers hreg).1⟩, (hstep.registers hreg).2 id a hknown⟩).2
    have hrep' := follows_registry.run h' hrep
    obtain ⟨game, players', hgame, hid, hreg', hplayers⟩ := hrep'.known id a hstill
    rw [Registry.games_foldl_next (eventsOf trace') hreg] at hreg'
    obtain ⟨hname, rfl⟩ := Prod.mk.inj (Option.some.inj hreg')
    exact ⟨hstill, game, hgame, hname.symm, hid, hplayers⟩

/-- A second game with the id of the first is not known by it. -/
theorem manager_refines_chess : ∃ trace, ∃ s : GameInstanceManager Unit,
    ∃ (a : GameAddr) (game : GameInstance Unit), Run ManagerStep {} trace s ∧
    eventsOf trace = [.createGameInstance "chess" 7, .assignPlayerToGame 7 "ann" 1,
      .createGameInstance "go" 7, .assignPlayerToGame 7 "bob" 2] ∧
    s.games[a]? = some game ∧ game.gameInstanceName = "chess" ∧
    game.HasPlayers [(1, "ann"), (2, "bob")] := by
  obtain ⟨s₁, hstep₁, hrep₁⟩ := (registers_new (ι := Unit)).exists_step
    (.createGameInstance "chess" 7) trivial (by rintro ⟨⟩)
  obtain ⟨s₂, hstep₂, hrep₂⟩ := hrep₁.exists_step
    (.assignPlayerToGame 7 "ann" 1) trivial (by rintro ⟨⟩)
  obtain ⟨s₃, hstep₃, hrep₃⟩ := hrep₂.exists_step
    (.createGameInstance "go" 7) trivial (by rintro ⟨⟩)
  obtain ⟨s₄, hstep₄, -⟩ := hrep₃.exists_step
    (.assignPlayerToGame 7 "bob" 2) trivial (by rintro ⟨⟩)
  have hrun₁ : Run ManagerStep {} [({}, .createGameInstance "chess" 7)] s₁ := Run.nil.snoc hstep₁
  have hrun₄ : Run ManagerStep s₁ [(s₁, .assignPlayerToGame 7 "ann" 1),
      (s₂, .createGameInstance "go" 7), (s₃, .assignPlayerToGame 7 "bob" 2)] s₄ :=
    ((Run.nil.snoc hstep₂).snoc hstep₃).snoc hstep₄
  obtain ⟨-, -, hknown⟩ := manager_refines hrun₁
  cases hid : s₁.waitingGameMap[(7 : Int32)]? with
  | none =>
    have hreg := hrep₁.unknown 7 hid
    cases hreg
  | some a =>
    obtain ⟨name, players, hreg, hlater⟩ := hknown 7 a hid
    obtain ⟨rfl, rfl⟩ := Prod.mk.inj (Option.some.inj hreg)
    obtain ⟨-, game, hgame, hname, -, hplayers⟩ := hlater hrun₄
    exact ⟨_, s₄, a, game, hrun₁.trans hrun₄, rfl, hgame, hname, hplayers⟩

end SocialGaming
