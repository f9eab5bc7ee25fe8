import SocialGaming.MainLoop
import SocialGaming.ServerClients
import SocialGaming.ChatLog

/-!
# What a round does to the channels

The endpoints of the server and the messages from the event loop have nothing to do with the chat:
they change neither the channels nor the list of clients, nor what has come and is not processed
yet. So a round of the main loop does two things there: `processMessages` gives up the sender of a
first command `quit`, and everyone who is left is sent the log.

## Main definitions

* `Undisturbed` — the chat is what it was
* `chatLog` — the log of a batch

## Main results

* `handleRequest_undisturbed`, `processEventLoopMessages_undisturbed`
* `mainRound_chat` — what a round does to the channels
-/

namespace SocialGaming

open Std (ExtTreeMap)
open Server HTTPSession

variable {σ ρ : Type}

/-! ### What leaves the chat alone -/

/-- The channels, the messages that have come, the clients and the page are what they were. -/
structure Undisturbed (s s' : GameServer σ) : Prop where
  channels : s'.impl.channels = s.impl.channels
  incoming : s'.impl.incoming = s.impl.incoming
  client : s'.client = s.client
  httpMessage : s'.impl.httpMessage = s.impl.httpMessage

namespace Undisturbed

theorem refl (s : GameServer σ) : Undisturbed s s := ⟨rfl, rfl, rfl, rfl⟩

theorem trans {s t u : GameServer σ} (h : Undisturbed s t) (h' : Undisturbed t u) :
    Undisturbed s u :=
  ⟨h'.channels.trans h.channels, h'.incoming.trans h.incoming, h'.client.trans h.client,
    h'.httpMessage.trans h.httpMessage⟩

instance : Std.Refl (Undisturbed (σ := σ)) := ⟨refl⟩

instance : IsTrans (GameServer σ) Undisturbed := ⟨fun _ _ _ => trans⟩

end Undisturbed

variable (lib : ServerLib σ)

theorem readWord_undisturbed (s : GameServer σ) : Prog.Respects Undisturbed readWord s := by
  obtain ⟨input, stdin, hrun⟩ := readWord_cases s
  exact Prog.respects_ok hrun ⟨rfl, rfl, rfl, rfl⟩

theorem sendResponse_undisturbed (resType : MsgType) (attrs : List (Bytes × Bytes))
    (s : GameServer σ) : Prog.Respects Undisturbed (sendResponse lib resType attrs) s := by
  obtain ⟨writeQ, hrun | ⟨e, hrun⟩⟩ := sendResponse_cases lib resType attrs s
  · exact Prog.respects_ok hrun ⟨rfl, rfl, rfl, rfl⟩
  · intro s' hs'
    rw [hrun] at hs'
    obtain rfl := Option.some.inj hs'
    exact ⟨rfl, rfl, rfl, rfl⟩

theorem giveId_undisturbed (counter : ServerImpl σ → Int32)
    (setCounter : Int32 → ServerImpl σ → ServerImpl σ)
    (store : Connection → Int32 → ServerImpl σ → ServerImpl σ)
    (hset : ∀ i impl, (setCounter i impl).activeChannel = impl.activeChannel)
    (hkeeps : ∀ (s : GameServer σ) c i j stdin writeQ, Undisturbed s
      { s with stdin, impl := { store c i (setCounter j s.impl) with writeQ } })
    (resType : MsgType) (attrName : String) (s : GameServer σ) :
    Prog.Respects Undisturbed
      (giveId lib (increment counter setCounter) store resType attrName) s := by
  intro s' hs'
  obtain ⟨-, t, hrun⟩ | ⟨-, -, t, hrun⟩ | ⟨c, stdin, writeQ, -, t, ht, hrun | ⟨e, hrun⟩⟩ :=
    giveId_cases lib counter hset store resType attrName s
  · rw [hrun] at hs'
    cases hs'
  · rw [hrun] at hs'
    cases hs'
  · rw [hrun] at hs'
    obtain rfl := Option.some.inj hs'
    exact ht ▸ hkeeps s c _ _ stdin writeQ
  · rw [hrun] at hs'
    obtain rfl := Option.some.inj hs'
    exact ht ▸ hkeeps s c _ _ stdin writeQ

/-- The endpoints leave the chat alone. -/
theorem endpoint_undisturbed (endpoint : RequestHandler) (s : GameServer σ) :
    Prog.Respects Undisturbed (endpoint.handle lib) s := by
  cases endpoint with
  | createGame =>
    exact giveId_undisturbed lib ServerImpl.gameInstanceId ServerImpl.setGameInstanceId
      ServerImpl.storeGameInstanceID (fun _ _ => rfl) (fun _ _ _ _ _ _ => ⟨rfl, rfl, rfl, rfl⟩) _ _
      s
  | joinGame =>
    exact giveId_undisturbed lib ServerImpl.playerId ServerImpl.setPlayerId
      ServerImpl.storePlayerID (fun _ _ => rfl) (fun _ _ _ _ _ _ => ⟨rfl, rfl, rfl, rfl⟩) _ _ s
  | configureGame =>
    exact Prog.respects_bind (readWord_undisturbed s) fun _ t _ =>
      sendResponse_undisturbed lib _ _ t

/-- **A request leaves the chat alone.** -/
theorem handleRequest_undisturbed {session session' : HTTPSession (List Connection) σ}
    (h : Prog.after? ((handleRequest lib).run session) = some session') :
    Undisturbed session.server session'.server := by
  obtain ⟨endpoint, -, -, hrun⟩ | ⟨-, sent, hrun⟩ := handleRequest_cases lib session
  · rw [hrun, onServer, Prog.after?_run_zoom, Option.map_eq_some_iff] at h
    obtain ⟨s, hs, rfl⟩ := h
    exact endpoint_undisturbed lib endpoint session.server s hs
  · rw [hrun] at h
    obtain rfl := Option.some.inj h
    exact Undisturbed.refl session.server

theorem executeEventLoopMsg_undisturbed (action : ActionEventLoop) (s : GameServer σ) :
    Prog.Respects Undisturbed (action.executeEventLoopMsg lib) s := by
  cases action with
  | inputRequest =>
    exact Prog.respects_bind (readWord_undisturbed s) fun _ t _ =>
      sendResponse_undisturbed lib _ _ t
  | configRequest =>
    exact Prog.respects_bind (readWord_undisturbed s) fun _ t _ =>
      sendResponse_undisturbed lib _ _ t
  | gameMade => exact Prog.respects_ok (EStateM.run_pure _ s) (Undisturbed.refl s)
  | playerAck => exact Prog.respects_ok (EStateM.run_pure _ s) (Undisturbed.refl s)

/-- **The messages from the event loop leave the chat alone.** -/
theorem processEventLoopMessages_undisturbed (messages : List Response) (s : GameServer σ) :
    Prog.Respects Undisturbed (processEventLoopMessages lib messages) s := by
  induction messages generalizing s with
  | nil => exact Prog.respects_ok (EStateM.run_pure _ s) (Undisturbed.refl s)
  | cons message rest ih =>
    rw [processEventLoopMessages]
    cases htext : message.toString lib.json with
    | none => exact Prog.respects_error (f := .thrown .json) rfl
    | some text =>
      cases haction : message.resType.action with
      | none => exact ih s
      | some action =>
        exact Prog.respects_bind (executeEventLoopMsg_undisturbed lib action s) fun _ t _ => ih t

/-! ### Rounds -/

/-- The log of a batch: its lines, unless one of the messages is a command. -/
def chatLog (batch : List Message) : Bytes :=
  if ∀ message ∈ batch, message.action = none then (batch.map Message.line).flatten else []

/-- **What processing messages does**: the log is that of the batch, and the sender of the first
command is given up if it is `quit`. -/
theorem processMessages_eq (s : GameServer σ) (batch : List Message) :
    (processMessages s batch).1.result = chatLog batch ∧
      ((processMessages s batch).2 = s ∨
        ∃ c, (processMessages s batch).2 = s.disconnect gameHandler c) := by
  obtain ⟨hnone, heq⟩ | ⟨before, message, after, action, rfl, -, haction, heq⟩ :=
    processMessages_loop_cases s [] batch
  · rw [processMessages, heq, chatLog, if_pos hnone]
    exact ⟨rfl, Or.inl rfl⟩
  · have hcommand : ¬ ∀ m ∈ before ++ message :: after, m.action = none := by
      intro hnone
      rw [hnone message (by simp)] at haction
      cases haction
    rw [processMessages, heq, chatLog, if_neg hcommand]
    cases action with
    | quit => exact ⟨rfl, Or.inr ⟨message.connection, rfl⟩⟩
    | shutDown => exact ⟨rfl, Or.inl rfl⟩

theorem getElem?_disconnect (s : GameServer σ) (c c' : Connection) :
    (s.disconnect gameHandler c).impl.channels[c']?
      = if c = c' then none else s.impl.channels[c']? := by
  by_cases hmem : c ∈ s.impl.channels
  · rw [Server.disconnect, ExtTreeMap.getElem?_eq_some_getElem hmem]
    show (s.impl.channels.erase c)[c']? = _
    rw [ExtTreeMap.getElem?_erase]
    simp [Std.LawfulEqCmp.compare_eq_iff_eq]
  · rw [disconnect_of_not_mem hmem]
    split
    · rename_i heq
      rw [← heq]
      exact ExtTreeMap.getElem?_eq_none hmem
    · rfl

/-- The list of clients goes on mirroring the channels. -/
theorem Mirrors.disconnect {s : GameServer σ} (h : Mirrors s.client (keySet s.impl.channels))
    (c : Connection) : Mirrors (s.disconnect gameHandler c).client
      (keySet (s.disconnect gameHandler c).impl.channels) := by
  by_cases hmem : c ∈ s.impl.channels
  · have htables := tables_disconnect hmem
    have hclients : (s.disconnect gameHandler c).client = onDisconnect c s.client :=
      congrArg Tables.clients htables
    have hchannels : keySet (s.disconnect gameHandler c).impl.channels
        = keySet s.impl.channels \ {c} := congrArg Tables.channels htables
    rw [hclients, hchannels]
    exact h.erase c
  · rw [disconnect_of_not_mem hmem]
    exact h

/-- What sending a log to everyone does to the chat. -/
theorem send_buildOutgoing_chat {s : GameServer σ}
    (h : Mirrors s.client (keySet s.impl.channels)) (log : Bytes) :
    (s.send (buildOutgoing s.client log)).client = s.client ∧
      (s.send (buildOutgoing s.client log)).impl.incoming = s.impl.incoming ∧
      keySet (s.send (buildOutgoing s.client log)).impl.channels = keySet s.impl.channels ∧
      ∀ c : Connection, (s.send (buildOutgoing s.client log)).impl.channels[c]?
        = s.impl.channels[c]?.map (Channel.send log) := by
  have htables := tables_send s (buildOutgoing s.client log)
  refine ⟨congrArg Tables.clients htables, ?_, congrArg Tables.channels htables, fun c => ?_⟩
  · generalize buildOutgoing s.client log = messages
    clear htables
    clear h
    induction messages generalizing s with
    | nil => rfl
    | cons message messages ih =>
      refine (ih (s := s.sendOne message)).trans ?_
      rw [Server.sendOne]
      split
      · rfl
      · rfl
  · rw [getElem?_send_buildOutgoing h.nodup]
    by_cases hc : c ∈ s.client
    · exact if_pos hc
    · have hnone : s.impl.channels[c]? = none :=
        ExtTreeMap.getElem?_eq_none fun hmem => hc ((h.mem_iff c).mpr hmem)
      rw [if_neg hc, hnone, Option.map_none]

/-- A round that returns has processed the batch, and some messages from the event loop, and sent
the log. -/
theorem mainRound_eq_ok {lib : MainLib σ ρ} {turns : ℕ} {threw b : Bool} {m m' : GameMain σ ρ}
    (h : (mainRound lib turns threw).run m = .ok b m') :
    ∃ messages reader server, (processEventLoopMessages lib.server messages).run
        (processMessages m.server.receive.2 m.server.receive.1).2 = .ok () server ∧
      m' = { reader, server := server.send (buildOutgoing server.client
        (processMessages m.server.receive.2 m.server.receive.1).1.result) } := by
  rcases hread : (Ambassador.getAllMsg lib.server.json lib.memory lib.readQ turns).run m.reader with
    ⟨all, reader⟩ | ⟨f, reader⟩
  · rcases hfake : fakeMessages with f | messages
    · simp [mainRound, Prog.run_zoom, hread, hfake] at h
    · rcases hprocess : (processEventLoopMessages lib.server messages).run
        (processMessages m.server.receive.2 m.server.receive.1).2 with ⟨⟨⟩, server⟩ | ⟨f, server⟩
      · refine ⟨messages, reader, server, hprocess, ?_⟩
        have hround : (!threw) = b ∧ { reader, server := server.send (buildOutgoing server.client
            (processMessages m.server.receive.2 m.server.receive.1).1.result) } = m' := by
          simpa [mainRound, Prog.run_zoom, hread, hfake, hprocess] using h
        exact hround.2.symm
      · simp [mainRound, Prog.run_zoom, hread, hfake, hprocess] at h
  · simp [mainRound, Prog.run_zoom, hread] at h

/-- **What a round does to the chat.** What had come has been processed; and a channel that is
still there has been sent the log of it. -/
theorem mainRound_chat {lib : MainLib σ ρ} {turns : ℕ} {threw b : Bool} {m m' : GameMain σ ρ}
    (hmirrors : Mirrors m.server.client (keySet m.server.impl.channels))
    (h : (mainRound lib turns threw).run m = .ok b m') :
    m'.server.impl.incoming = [] ∧
      Mirrors m'.server.client (keySet m'.server.impl.channels) ∧
      ∀ c : Connection, m'.server.impl.channels[c]? = none ∨
        m'.server.impl.channels[c]?
          = m.server.impl.channels[c]?.map (Channel.send (chatLog m.server.impl.incoming)) := by
  obtain ⟨messages, reader, server, hprocess, rfl⟩ := mainRound_eq_ok h
  obtain ⟨hlog, hprocessed⟩ := processMessages_eq m.server.receive.2 m.server.receive.1
  have hquiet : Undisturbed (processMessages m.server.receive.2 m.server.receive.1).2 server :=
    processEventLoopMessages_undisturbed lib.server messages _ server (by rw [hprocess]; rfl)
  -- the batch has been taken, and one client may have been given up
  have hbatch : (processMessages m.server.receive.2 m.server.receive.1).2.impl.incoming = [] ∧
      Mirrors (processMessages m.server.receive.2 m.server.receive.1).2.client
        (keySet (processMessages m.server.receive.2 m.server.receive.1).2.impl.channels) ∧
      ∀ c : Connection,
        (processMessages m.server.receive.2 m.server.receive.1).2.impl.channels[c]? = none ∨
        (processMessages m.server.receive.2 m.server.receive.1).2.impl.channels[c]?
          = m.server.impl.channels[c]? := by
    obtain hsame | ⟨c, hquit⟩ := hprocessed
    · rw [hsame]
      exact ⟨rfl, hmirrors, fun c => Or.inr rfl⟩
    · rw [hquit]
      refine ⟨?_, Mirrors.disconnect (s := m.server.receive.2) hmirrors c, fun c' => ?_⟩
      · rw [Server.disconnect]
        split
        · rfl
        · rfl
      · rw [getElem?_disconnect]
        split
        · exact Or.inl rfl
        · exact Or.inr rfl
  obtain ⟨hincoming, hmirrors', hchannels⟩ := hbatch
  rw [← hquiet.client, ← hquiet.channels] at hmirrors'
  obtain ⟨hclient, hincoming', hkeys, hsent⟩ := send_buildOutgoing_chat hmirrors'
    (processMessages m.server.receive.2 m.server.receive.1).1.result
  refine ⟨?_, ?_, fun c => ?_⟩
  · rw [hincoming', hquiet.incoming, hincoming]
  · rw [hclient, hkeys]
    exact hmirrors'
  · rw [hsent c, hquiet.channels, hlog]
    obtain hnone | hsame := hchannels c
    · rw [hnone]
      exact Or.inl rfl
    · rw [hsame]
      exact Or.inr rfl

end SocialGaming
