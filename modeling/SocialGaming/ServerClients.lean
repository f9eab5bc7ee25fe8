import SocialGaming.ServerTables

/-!
# The clients and the channels

The list of clients is kept by the client of the server, through its callbacks, and the channels by
the server. Both change in the same two operations, and `Server::disconnect` calls back only for a
connection it knows, so the list holds each connection that has a channel once. A log that is sent
to the list reaches every channel once.

## Main definitions

* `newGameServer` — the server when it has been started

## Main results

* `TablesMove.mirrors` — what a move keeps
* `getElem?_send_buildOutgoing` — what sending to a list of clients does to a channel
* `broadcast_once` — every channel gets the log, once
-/

namespace SocialGaming

open Std (ExtTreeMap)

variable {σ : Type}

/-- The server when it has been started, with the words to be typed. -/
def newGameServer (httpMessage : Bytes) (writeQ : σ) (stdin : List Bytes) : GameServer σ :=
  { impl := { httpMessage, writeQ }, client := [], stdin }

theorem tables_newGameServer (httpMessage : Bytes) (writeQ : σ) (stdin : List Bytes) :
    (newGameServer httpMessage writeQ stdin).tables
      = { channels := ∅, clients := [], active := none, gameIds := ∅, playerIds := ∅,
          nextGameId := 1, nextPlayerId := 1 } :=
  Tables.ext keySet_empty rfl rfl keySet_empty keySet_empty rfl rfl

/-- **What a move keeps.** -/
theorem TablesMove.mirrors {T T' : Tables} {e : ServerEvent} (h : TablesMove T e T')
    (hT : Mirrors T.clients T.channels) : Mirrors T'.clients T'.channels := by
  cases h with
  | stay _ h =>
    rw [h]
    exact hT
  | connect _ hnew h =>
    rw [h]
    exact hT.insert hnew
  | @disconnect c _ _ h =>
    rw [h]
    exact hT.erase c
  | give _ _ h =>
    rcases h with h | h
    · rw [h]
      exact hT
    · rw [h]
      exact hT

/-! ### Sending -/

theorem getElem?_sendOne (s : GameServer σ) (message : Message) (c : Connection) :
    (s.sendOne message).impl.channels[c]?
      = if message.connection = c then s.impl.channels[c]?.map (Channel.send message.text)
        else s.impl.channels[c]? := by
  rw [Server.sendOne]
  by_cases hc : message.connection = c
  · rw [if_pos hc, hc]
    cases hfound : s.impl.channels[c]? with
    | none => exact hfound
    | some found => exact ExtTreeMap.getElem?_insert_self
  · rw [if_neg hc]
    cases hfound : s.impl.channels[message.connection]? with
    | none => rfl
    | some found =>
      show (s.impl.channels.insert message.connection _)[c]? = _
      rw [getElem?_insert_of_ne _ hc]

/-- **What sending to a list of clients does to a channel.** -/
theorem getElem?_send_buildOutgoing {clients : List Connection} (h : clients.Nodup)
    (s : GameServer σ) (log : Bytes) (c : Connection) :
    (s.send (buildOutgoing clients log)).impl.channels[c]?
      = if c ∈ clients then s.impl.channels[c]?.map (Channel.send log)
        else s.impl.channels[c]? := by
  induction clients generalizing s with
  | nil => rfl
  | cons client clients ih =>
    rw [List.nodup_cons] at h
    have hsend : s.send (buildOutgoing (client :: clients) log)
        = (s.sendOne { connection := client, text := log }).send (buildOutgoing clients log) := rfl
    rw [hsend, ih h.2, getElem?_sendOne]
    by_cases hc : client = c
    · subst hc
      rw [if_neg h.1, if_pos rfl, if_pos List.mem_cons_self]
    · rw [if_neg hc]
      by_cases hmem : c ∈ clients
      · rw [if_pos hmem, if_pos (List.mem_cons_of_mem client hmem)]
      · rw [if_neg hmem, if_neg (by simpa [Ne.symm hc] using hmem)]

/-- Sending leaves the channels alone that are no longer registered. -/
theorem released_send (s : GameServer σ) (messages : List Message) :
    (s.send messages).released = s.released := by
  induction messages generalizing s with
  | nil => rfl
  | cons message messages ih =>
    refine (ih (s.sendOne message)).trans ?_
    rw [Server.sendOne]
    cases s.impl.channels[message.connection]? with
    | none => rfl
    | some found => rfl

/-- **Every channel gets the log, once.** In every run of the server the list of clients has no
duplicates and is a permutation of the connections that have a channel; so sending what
`buildOutgoing` makes of a log hands it to every channel once, and to no other. -/
theorem broadcast_once {lib : ServerLib σ} {httpMessage : Bytes} {writeQ : σ} {stdin : List Bytes}
    {t : List (GameServer σ × ServerEvent)} {s : GameServer σ}
    (h : Run (ServerStep lib) (newGameServer httpMessage writeQ stdin) t s) :
    s.client.Nodup ∧ s.client.Perm s.impl.channels.keys ∧
      ∀ log, (s.send (buildOutgoing s.client log)).released = s.released ∧
        ∀ c : Connection, (s.send (buildOutgoing s.client log)).impl.channels[c]?
          = s.impl.channels[c]?.map (Channel.send log) := by
  have hmirrors : Mirrors s.client (keySet s.impl.channels) := by
    refine h.invariant (P := fun u => Mirrors u.tables.clients u.tables.channels) ?_
      fun _ _ _ hstep hu => hstep.move.mirrors hu
    rw [tables_newGameServer]
    exact Mirrors.empty
  refine ⟨hmirrors.nodup, hmirrors.perm_keys, fun log => ⟨released_send s _, fun c => ?_⟩⟩
  rw [getElem?_send_buildOutgoing hmirrors.nodup]
  by_cases hc : c ∈ s.client
  · exact if_pos hc
  · have hnone : s.impl.channels[c]? = none :=
      ExtTreeMap.getElem?_eq_none fun hmem => hc ((hmirrors.mem_iff c).mpr hmem)
    rw [if_neg hc, hnone, Option.map_none]

/-- A server on which chess is asked for. -/
def chessServer : GameServer Unit := newGameServer (ascii "<html></html>") () [ascii "chess"]

/-- The same, when a connection has been made. -/
def chessServerWith (c : Connection) : GameServer Unit :=
  chessServer.afterAccept gameHandler false c

/-- Two connections are made, and one of them quits: the other gets the log. -/
theorem broadcast_once_quit :
    ∃ s : GameServer Unit, s.client.Perm s.impl.channels.keys ∧ s.client = [2] ∧
      (s.send (buildOutgoing s.client (ascii "hi"))).impl.channels[(2 : Connection)]?
        = some { connection := 2, writeBuffer := [ascii "hi"], handed := [ascii "hi"],
                 written := [ascii "hi"] } := by
  have hnil : Run (ServerStep chessLib) chessServer [] chessServer := Run.nil
  have hrun := (((hnil.snoc (ServerStep.accepted false 1 (by decide))).snoc
    (ServerStep.accepted false 2 (by decide))).snoc
    (ServerStep.arrived { connection := 1, text := ascii "quit" })).snoc ServerStep.processed
  obtain ⟨-, hperm, hsend⟩ := broadcast_once hrun
  refine ⟨_, hperm, by decide, ?_⟩
  rw [(hsend (ascii "hi")).2]
  decide

end SocialGaming
