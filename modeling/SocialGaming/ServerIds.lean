import SocialGaming.ServerClients
import Mathlib.Order.BooleanAlgebra.Set

/-!
# The ids of games and players

An endpoint that gives an id stores it for the connection of the active channel. That is the channel
registered last, and remains so when it is disconnected. So an id is stored for a live connection
only as long as that one is live, and before any connection there is no channel to ask.

## Main definitions

* `IdsLive` — the connections with an id have a channel
* `DerefsNull` — a request that dereferences a null pointer
* `ServedLive` — a request is not for an id, or the active channel is registered

## Main results

* `TablesMove.idsLive_iff` — one step
* `derefsNull_iff` — which requests dereference a null pointer
* `ids_live_iff` — the runs in which ids are given to live connections only
-/

namespace SocialGaming

open Std (ExtTreeMap)
open HTTPSession

/-- Every connection with an id has a channel. -/
def Tables.IdsLive (T : Tables) : Prop := T.gameIds ⊆ T.channels ∧ T.playerIds ⊆ T.channels

/-- **One step.** -/
theorem TablesMove.idsLive_iff {T T' : Tables} {e : ServerEvent} (h : TablesMove T e T')
    (hT : T.IdsLive) :
    T'.IdsLive ↔ (e.AsksForId → ∃ c ∈ T.channels, T.active = some c) := by
  cases h with
  | stay hasks h =>
    rw [h]
    exact iff_of_true hT fun h => absurd h hasks
  | connect hasks hnew h =>
    rw [h]
    exact iff_of_true ⟨hT.1.trans (Set.subset_insert _ _), hT.2.trans (Set.subset_insert _ _)⟩
      fun h => absurd h hasks
  | disconnect hasks hin h =>
    rw [h]
    exact iff_of_true ⟨Set.sdiff_subset_sdiff_left hT.1, Set.sdiff_subset_sdiff_left hT.2⟩
      fun h => absurd h hasks
  | @give c hasks hactive h =>
    have hlive : T'.IdsLive ↔ c ∈ T.channels := by
      rcases h with h | h
      · rw [h]
        exact ⟨fun hT' => hT'.1 (Set.mem_insert c _),
          fun hc => ⟨Set.insert_subset hc hT.1, hT.2⟩⟩
      · rw [h]
        exact ⟨fun hT' => hT'.2 (Set.mem_insert c _),
          fun hc => ⟨hT.1, Set.insert_subset hc hT.2⟩⟩
    rw [hlive]
    constructor
    · intro hc _
      exact ⟨c, hc, hactive⟩
    · intro hserved
      obtain ⟨c', hc', hactive'⟩ := hserved hasks
      rw [hactive, Option.some_inj] at hactive'
      exact hactive' ▸ hc'

/-- Before the first connection, no id has been given. -/
def Tables.CountsFromOne (T : Tables) : Prop :=
  T.active = none → T.nextGameId = 1 ∧ T.nextPlayerId = 1

theorem TablesMove.countsFromOne {T T' : Tables} {e : ServerEvent} (h : TablesMove T e T')
    (hT : T.CountsFromOne) : T'.CountsFromOne := by
  cases h with
  | stay _ h =>
    rw [h]
    exact hT
  | connect _ _ h =>
    rw [h]
    rintro ⟨⟩
  | disconnect _ _ h =>
    rw [h]
    exact hT
  | give _ hactive h =>
    intro hnone
    have hnone' : T.active = none := by
      rcases h with h | h
      · rw [h] at hnone
        exact hnone
      · rw [h] at hnone
        exact hnone
    rw [hactive] at hnone'
    cases hnone'

variable {σ : Type}

/-- Every key of the two maps of ids is a connection with a channel. -/
def IdsLive (s : GameServer σ) : Prop :=
  (∀ c, c ∈ s.impl.socketToGameInstanceID → c ∈ s.impl.channels) ∧
    ∀ c, c ∈ s.impl.socketToPlayerID → c ∈ s.impl.channels

/-- The event is a request whose handler dereferences a null pointer. -/
def DerefsNull (lib : ServerLib σ) (p : GameServer σ × ServerEvent) : Prop :=
  ∃ request session, p.2 = .requested request ∧
    (handleRequest lib).run { server := p.1, request } = .error (.undefined .nullDeref) session

/-- The event is no request for an id, or the active channel is registered. -/
def ServedLive (p : GameServer σ × ServerEvent) : Prop :=
  p.2.AsksForId → ∃ c ∈ p.1.impl.channels, p.1.impl.activeChannel = some c

/-! ### Null pointers -/

theorem onServer_null_iff {α : Type} (x : Server.Handles (List Connection) σ α)
    (s : GameServer σ) (request : Request) :
    (∃ session, (onServer x).run { server := s, request }
      = .error (.undefined .nullDeref) session) ↔
      ∃ t, x.run s = .error (.undefined .nullDeref) t := by
  rw [onServer, Prog.run_zoom]
  dsimp only
  cases x.run s with
  | ok a t =>
    refine iff_of_false ?_ ?_
    · rintro ⟨_, ⟨⟩⟩
    · rintro ⟨_, ⟨⟩⟩
  | error f t =>
    constructor
    · rintro ⟨_, ⟨⟩⟩
      exact ⟨t, rfl⟩
    · rintro ⟨_, ⟨⟩⟩
      exact ⟨_, rfl⟩

/-- **Which requests dereference a null pointer.** -/
theorem derefsNull_iff (lib : ServerLib σ) {s : GameServer σ} (hs : s.tables.CountsFromOne)
    (e : ServerEvent) :
    DerefsNull lib (s, e) ↔ e.AsksForId ∧ s.impl.activeChannel = none := by
  constructor
  · rintro ⟨request, session, rfl, hrun⟩
    rcases handleRequest_cases lib { server := s, request } with
      ⟨endpoint, hmethod, hlookup, hserver⟩ | ⟨-, sent, hok⟩
    · rw [hserver] at hrun
      have hnull := (onServer_null_iff (endpoint.handle lib) s request).mp ⟨session, hrun⟩
      cases endpoint with
      | createGame =>
        exact ⟨(asksForId_iff request).mpr ⟨hmethod, Or.inl hlookup⟩,
          ((createGame_tables lib s).2.mp hnull).1⟩
      | joinGame =>
        exact ⟨(asksForId_iff request).mpr ⟨hmethod, Or.inr hlookup⟩,
          ((joinGame_tables lib s).2.mp hnull).1⟩
      | configureGame => exact absurd hnull (configureGame_tables lib s).2
    · rw [hok] at hrun
      cases hrun
  · rintro ⟨hasks, hnone⟩
    obtain ⟨hgame, hplayer⟩ : s.impl.gameInstanceId = 1 ∧ s.impl.playerId = 1 := hs hnone
    cases e with
    | requested request =>
      have hserver : ∀ endpoint : RequestHandler,
          requestHandlers.lookup request.target = some endpoint →
          (∃ t, (endpoint.handle lib).run s = .error (.undefined .nullDeref) t) →
          DerefsNull lib (s, .requested request) := by
        intro endpoint hlookup hnull
        obtain ⟨session, hrun⟩ := (onServer_null_iff (endpoint.handle lib) s request).mpr hnull
        rw [← handleRequest_endpoint lib { server := s, request } hasks.1 hlookup] at hrun
        exact ⟨request, session, rfl, hrun⟩
      obtain ⟨-, hlookup | hlookup⟩ := (asksForId_iff request).mp hasks
      · exact hserver _ hlookup ((createGame_tables lib s).2.mpr ⟨hnone, by rw [hgame]; decide⟩)
      · exact hserver _ hlookup ((joinGame_tables lib s).2.mpr ⟨hnone, by rw [hplayer]; decide⟩)
    | accepted _ _ => exact hasks.elim
    | arrived _ => exact hasks.elim
    | disconnected _ => exact hasks.elim
    | processed => exact hasks.elim
    | sent _ => exact hasks.elim

/-- A step that is taken dereferences no null pointer. -/
theorem ServerStep.not_derefsNull {lib : ServerLib σ} {s s' : GameServer σ} {e : ServerEvent}
    (h : ServerStep lib s e s') : ¬ DerefsNull lib (s, e) := by
  rintro ⟨request, session, rfl, hrun⟩
  cases h with
  | requested _ h =>
    rw [hrun] at h
    cases h

/-! ### Runs -/

section

variable {lib : ServerLib σ} {httpMessage : Bytes} {writeQ : σ} {stdin : List Bytes}
  {t : List (GameServer σ × ServerEvent)} {s : GameServer σ}

theorem Run.countsFromOne
    (h : Run (ServerStep lib) (newGameServer httpMessage writeQ stdin) t s) :
    s.tables.CountsFromOne := by
  refine h.invariant (P := fun u => u.tables.CountsFromOne) ?_ fun _ _ _ hstep hu =>
    hstep.move.countsFromOne hu
  exact fun _ => ⟨rfl, rfl⟩

theorem Run.idsLive_iff
    (h : Run (ServerStep lib) (newGameServer httpMessage writeQ stdin) t s) :
    ((∀ p ∈ t, IdsLive p.1) ∧ IdsLive s) ↔ ∀ p ∈ t, ServedLive p := by
  induction h with
  | nil =>
    have hnew : (newGameServer httpMessage writeQ stdin).tables.IdsLive := by
      rw [tables_newGameServer]
      exact ⟨Set.empty_subset _, Set.empty_subset _⟩
    exact iff_of_true ⟨List.forall_mem_nil _, hnew⟩ (List.forall_mem_nil _)
  | @snoc t u s e hrun hstep ih =>
    simp only [List.forall_mem_append, List.forall_mem_singleton]
    constructor
    · rintro ⟨⟨hbefore, hu⟩, hs⟩
      exact ⟨ih.mp ⟨hbefore, hu⟩, (hstep.move.idsLive_iff hu).mp hs⟩
    · rintro ⟨hbefore, hserved⟩
      obtain ⟨hlive, hu⟩ := ih.mpr hbefore
      exact ⟨⟨hlive, hu⟩, (hstep.move.idsLive_iff hu).mpr hserved⟩

/-- **The runs in which ids are given to live connections only.** In a run of the server, and at one
more event, every connection with an id has a channel and no request dereferences a null pointer
exactly when the active channel is registered at every request for an id that is served, and the
last request is not one for an id before any connection. -/
theorem ids_live_iff (h : Run (ServerStep lib) (newGameServer httpMessage writeQ stdin) t s)
    (e : ServerEvent) :
    (∀ p ∈ t ++ [(s, e)], IdsLive p.1 ∧ ¬ DerefsNull lib p) ↔
      (∀ p ∈ t, ServedLive p) ∧ (e.AsksForId → s.impl.activeChannel ≠ none) := by
  have hsteps : ∀ p ∈ t, ¬ DerefsNull lib p := fun p hp => by
    obtain ⟨s', hstep⟩ := h.exists_step hp
    exact hstep.not_derefsNull
  rw [← h.idsLive_iff, List.forall_mem_append, List.forall_mem_singleton,
    derefsNull_iff lib h.countsFromOne, not_and, and_assoc]
  constructor
  · rintro ⟨hbefore, hs, hlast⟩
    exact ⟨fun p hp => (hbefore p hp).1, hs, hlast⟩
  · rintro ⟨hbefore, hs, hlast⟩
    exact ⟨fun p hp => ⟨hbefore p hp, hsteps p hp⟩, hs, hlast⟩

end

/-- A `GET` of `/create-game`. -/
def createGameRequest : Request := { method := .get, target := ascii "/create-game" }

/-- A connection is made and lost, and a game is created: it is stored for that connection. Before
any connection there is no channel to store it for. -/
theorem ids_given_to_lost_connection :
    (∃ t s, Run (ServerStep chessLib) chessServer t s ∧ ¬ IdsLive s) ∧
      DerefsNull chessLib (chessServer, .requested createGameRequest) := by
  have hnil : Run (ServerStep chessLib) chessServer [] chessServer := Run.nil
  have hrun := ((hnil.snoc (ServerStep.accepted false 1 (by decide))).snoc
    (ServerStep.disconnected 1)).snoc (ServerStep.requested createGameRequest rfl)
  refine ⟨⟨_, _, hrun, fun hlive => ?_⟩, createGameRequest, _, rfl, rfl⟩
  exact absurd (hlive.1 1 (by decide)) (by decide)

/-- With the connection still there, a game is created for it. -/
theorem ids_live_iff_connected :
    ∃ s : GameServer Unit, (1 : Connection) ∈ s.impl.socketToGameInstanceID ∧ IdsLive s := by
  have hnil : Run (ServerStep chessLib) chessServer [] chessServer := Run.nil
  have hrun := (hnil.snoc (ServerStep.accepted false 1 (by decide))).snoc
    (ServerStep.requested createGameRequest rfl)
  have hlive := (ids_live_iff hrun .processed).mpr ⟨?_, False.elim⟩
  · exact ⟨_, by decide, (hlive _ (List.mem_append_right _ (List.mem_singleton_self _))).1⟩
  · rw [List.forall_mem_append, List.forall_mem_append, List.forall_mem_singleton,
      List.forall_mem_singleton]
    exact ⟨⟨List.forall_mem_nil _, False.elim⟩, fun _ => ⟨1, by decide, rfl⟩⟩

end SocialGaming
