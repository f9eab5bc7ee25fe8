import SocialGaming.ClientLink
import SocialGaming.ServerRounds

/-!
# The chat

The server, and everyone who talks to it. What a client writes is read by its channel, waits until
the next round, becomes a line of the log of that round, and is sent to everyone who is connected.

## Design

A `Member` is the link of a channel, with what had happened when the channel was registered. The
channel of a link is the object the server has in its table: when the server changes it, `follow`
carries the change over. After the server has given the channel up, it is left to its own
callbacks, and the client may go on reading what was written. As a connection is the address of its
channel, a new one may get the connection of one that is gone, whose link is forgotten then.

## Main definitions

* `Member`, `Chat`, `ChatStep` — the system, and one step of it
* `Chat.KeepsMember` — what holds of the link of a member
* `Chat.Kept` — what every step keeps
* `ChatEvent.InOrder`, `Chat.HearsInOrder` — the writes of a client are heard in order

## Main results

* `ChatStep.kept` — every step keeps it
* `ChatStep.hearsInOrder` — and every step in order keeps the order
-/

namespace SocialGaming

open Std (ExtTreeMap)

variable {σ ρ : Type}

/-- The link of a channel that was registered when `joined` rounds had been done and `since`
messages had come. -/
structure Member where
  link : Link
  joined : ℕ
  since : ℕ

/-- The channel of a member. -/
def Member.channel (member : Member) : Channel := member.link.server.channel

/-- The channel is changed. -/
def Member.withChannel (channel : Channel) (member : Member) : Member :=
  { member with link := { member.link with server := { member.link.server with channel } } }

/-- The server with everyone who talks to it, the batches that have been processed, and the logs
that have been sent. -/
structure Chat (σ ρ : Type) where
  main : GameMain σ ρ
  members : Connection → Option Member := fun _ => none
  batches : List (List Message) := []
  logs : List Bytes := []

namespace Chat

/-- The channels of the server. -/
def channels (t : Chat σ ρ) : ExtTreeMap Connection Channel compare := t.main.server.impl.channels

/-- The messages that have come. -/
def arrivals (t : Chat σ ρ) : List Message := t.batches.flatten ++ t.main.server.impl.incoming

/-- The server goes over to another state. -/
def withServer (server : GameServer σ) (t : Chat σ ρ) : Chat σ ρ :=
  { t with main := { t.main with server } }

/-- Someone is a member from now on, or again with another link. -/
def withMember (c : Connection) (member : Member) (t : Chat σ ρ) : Chat σ ρ :=
  { t with members := Function.update t.members c (some member) }

/-- What becomes of a channel that was there, when the server has another table. -/
def followChannel (channels channels' : ExtTreeMap Connection Channel compare) (c : Connection)
    (channel : Channel) : Channel :=
  match channels'[c]? with
  | some channel' => channel'
  | none => if c ∈ channels then channel.disconnect else channel

/-- The links follow what the server did to its channels. -/
def follow (channels : ExtTreeMap Connection Channel compare) (t : Chat σ ρ) : Chat σ ρ :=
  { t with members := fun c => (t.members c).map fun member =>
      member.withChannel (followChannel channels t.channels c member.channel) }

/-- A channel is registered. -/
def accept (c : Connection) (t : Chat σ ρ) : Chat σ ρ :=
  (t.withServer (t.main.server.afterAccept gameHandler false c)).withMember c
    { link := Link.new c, joined := t.logs.length, since := t.arrivals.length }

/-- The server after a write of a channel has completed. -/
def serverAfterWrite (errorCode : Bool) (c : Connection) (before after : Channel)
    (s : GameServer σ) : GameServer σ :=
  if errorCode then
    if !before.disconnected then s.disconnect gameHandler c else s
  else if c ∈ s.impl.channels then
    { s with impl := { s.impl with channels := s.impl.channels.insert c after } }
  else s

/-- A round has been done. -/
def afterRound (main : GameMain σ ρ) (t : Chat σ ρ) : Chat σ ρ :=
  follow t.channels { t with
    main
    batches := t.batches ++ [t.main.server.impl.incoming]
    logs := t.logs ++
      [(processMessages t.main.server.receive.2 t.main.server.receive.1).1.result] }

end Chat

/-- What happens in a chat. -/
inductive ChatEvent where
  /-- The handshake of a new channel ends. -/
  | accepted (errorCode : Bool) (c : Connection)
  /-- A write of a channel completes. -/
  | wrote (c : Connection) (errorCode : Bool)
  /-- A channel reads what a write of its client has sent. -/
  | heard (c : Connection) (write : ℕ) (message : Bytes)
  /-- A connection is given up. -/
  | lost (c : Connection)
  /-- Something happens to a client. -/
  | client (c : Connection) (e : LinkEvent)
  /-- An HTTP request comes that does not ask for a web socket. -/
  | requested (request : Request)
  /-- A round of the main loop. -/
  | round

/-- The event happens to the client of a link. -/
def LinkEvent.OfClient : LinkEvent → Prop
  | .server _ => False
  | .heard _ _ => False
  | _ => True

/-- **Assumption.** Of the writes of its client that it has not heard, a channel hears the one that
was started first. -/
def ChatEvent.InOrder (t : Chat σ ρ) : ChatEvent → Prop
  | .heard c write _ => ∀ member, t.members c = some member → write = member.link.heard.length
  | _ => True

/-- One step. -/
inductive ChatStep (lib : MainLib σ ρ) : Chat σ ρ → ChatEvent → Chat σ ρ → Prop
  | accepted {t : Chat σ ρ} (c : Connection) (hnew : c ∉ t.channels) :
      ChatStep lib t (.accepted false c) (t.accept c)
  | refused {t : Chat σ ρ} (c : Connection) (hnew : c ∉ t.channels) :
      ChatStep lib t (.accepted true c)
        (t.withServer (t.main.server.afterAccept gameHandler true c))
  | wrote {t : Chat σ ρ} {c : Connection} {member : Member} {errorCode : Bool} {channel : Channel}
      (hmember : t.members c = some member)
      (hout : member.link.server.completed.length < member.channel.written.length)
      (h : member.channel.afterWrite (decide (c ∈ t.channels)) errorCode = .ok channel) :
      ChatStep lib t (.wrote c errorCode)
        ((t.withServer (Chat.serverAfterWrite errorCode c member.channel channel t.main.server)
          ).withMember c { member with link := { member.link with
            server := { channel, completed := member.link.server.completed ++ [errorCode] } } })
  | heard {t : Chat σ ρ} {c : Connection} {member : Member} {write : ℕ} {message : Bytes}
      {link : Link} (hmember : t.members c = some member)
      (h : LinkStep member.link (.heard write message) link) :
      ChatStep lib t (.heard c write message)
        ((t.withServer (t.main.server.afterRead { connection := c, text := message })
          ).withMember c { member with link })
  | lost {t : Chat σ ρ} (c : Connection) :
      ChatStep lib t (.lost c)
        (Chat.follow t.channels (t.withServer (t.main.server.disconnect gameHandler c)))
  | client {t : Chat σ ρ} {c : Connection} {member : Member} {e : LinkEvent} {link : Link}
      (hmember : t.members c = some member) (he : e.OfClient) (h : LinkStep member.link e link) :
      ChatStep lib t (.client c e) (t.withMember c { member with link })
  | requested {t : Chat σ ρ} (request : Request) {session : HTTPSession (List Connection) σ}
      (h : Prog.after? ((HTTPSession.handleRequest lib.server).run
        { server := t.main.server, request }) = some session) :
      ChatStep lib t (.requested request) (t.withServer session.server)
  | round {t : Chat σ ρ} {turns : ℕ} {threw goesOn : Bool} {main : GameMain σ ρ}
      (h : (mainRound lib turns threw).run t.main = .ok goesOn main) :
      ChatStep lib t .round (t.afterRound main)

/-! ### What is kept -/

namespace Chat

/-- What holds of the link of a member: it has been sent the first of the logs since it joined, and
all of them while its channel is registered; and of the messages that have come since then, those
that are its own are what its channel has heard. -/
structure KeepsMember (t : Chat σ ρ) (c : Connection) (member : Member) : Prop where
  accounts : member.link.Accounts
  joined_le : member.joined ≤ t.logs.length
  handed : member.channel.handed <+: t.logs.drop member.joined
  registered : ∀ channel, t.channels[c]? = some channel →
    member.channel = channel ∧ channel.disconnected = false ∧
      channel.handed = t.logs.drop member.joined
  since_le : member.since ≤ t.arrivals.length
  heard : ((t.arrivals.drop member.since).filter fun message => message.connection = c).map
    Message.text = member.link.heard

/-- What every step keeps. -/
structure Kept (t : Chat σ ρ) : Prop where
  mirrors : Mirrors t.main.server.client (keySet t.channels)
  logs : t.logs = t.batches.map chatLog
  members : ∀ c member, t.members c = some member → t.KeepsMember c member
  registered : ∀ c ∈ t.channels, (t.members c).isSome

/-- What is said of a member is said of its link, of the logs, of what has come, and of the
server's channel. -/
theorem KeepsMember.congr {t t' : Chat σ ρ} {c : Connection} {member : Member}
    (h : t.KeepsMember c member) (hlogs : t'.logs = t.logs) (harrivals : t'.arrivals = t.arrivals)
    (hchannel : t'.channels[c]? = t.channels[c]?) : t'.KeepsMember c member where
  accounts := h.accounts
  joined_le := hlogs ▸ h.joined_le
  handed := hlogs ▸ h.handed
  registered := by
    rw [hchannel, hlogs]
    exact h.registered
  since_le := harrivals ▸ h.since_le
  heard := harrivals ▸ h.heard

/-- A link that only its client has changed. -/
theorem KeepsMember.link {t : Chat σ ρ} {c : Connection} {member : Member}
    (h : t.KeepsMember c member) {e : LinkEvent} {link : Link} (he : e.OfClient)
    (hstep : LinkStep member.link e link) : t.KeepsMember c { member with link } := by
  have hsame : link.server = member.link.server ∧ link.heard = member.link.heard := by
    cases hstep with
    | server h => exact absurd he id
    | heard hwritten => exact absurd he id
    | connected errorCode hawaits => exact ⟨rfl, rfl⟩
    | shaken errorCode hawaits => exact ⟨rfl, rfl⟩
    | read hawaits hnext => exact ⟨rfl, rfl⟩
    | readFailed hawaits => exact ⟨rfl, rfl⟩
    | received => exact ⟨rfl, rfl⟩
    | said message => exact ⟨rfl, rfl⟩
    | completed hstarted hout h => exact ⟨rfl, rfl⟩
  have hchannel : Member.channel { member with link } = member.channel :=
    congrArg Writes.channel hsame.1
  refine ⟨hstep.accounts h.accounts, h.joined_le, ?_, ?_, h.since_le, ?_⟩
  · rw [hchannel]
    exact h.handed
  · rw [hchannel]
    exact h.registered
  · show _ = link.heard
    rw [hsame.2]
    exact h.heard

/-- The links of the others are not touched. -/
theorem Kept.withMember {t t' : Chat σ ρ} {c : Connection} {member : Member}
    (h : ∀ c' member', c' ≠ c → t.members c' = some member' → t'.KeepsMember c' member')
    (hmember : t'.KeepsMember c member)
    (hmembers : t'.members = Function.update t.members c (some member)) :
    ∀ c' member', t'.members c' = some member' → t'.KeepsMember c' member' := by
  intro c' member' hc'
  rw [hmembers] at hc'
  by_cases heq : c' = c
  · rw [heq, Function.update_self] at hc'
    obtain rfl := Option.some.inj hc'
    rw [heq]
    exact hmember
  · rw [Function.update_of_ne heq] at hc'
    exact h c' member' heq hc'

/-! ### The server's part of a step -/

/-- A channel is sent several texts. -/
def sendAll (texts : List Bytes) (channel : Channel) : Channel :=
  texts.foldl (fun channel text => channel.send text) channel

theorem sendAll_handed (texts : List Bytes) (channel : Channel) :
    (sendAll texts channel).handed = channel.handed ++ texts ∧
      (sendAll texts channel).disconnected = channel.disconnected := by
  induction texts generalizing channel with
  | nil => exact ⟨(List.append_nil _).symm, rfl⟩
  | cons text texts ih =>
    obtain ⟨hhanded, hdisconnected⟩ := ih (channel.send text)
    have hsend := channel.send_eq text
    refine ⟨hhanded.trans ?_, hdisconnected.trans ?_⟩
    · rw [hsend, List.append_assoc]
      rfl
    · rw [hsend]

theorem accounts_sendAll (texts : List Bytes) {link : Link} (h : link.Accounts) :
    Link.Accounts { link with server := { link.server with
      channel := sendAll texts link.server.channel } } := by
  induction texts generalizing link with
  | nil => exact h
  | cons text texts ih => exact ih (h.server (WriteStep.send text link.server))

/-- **The link of a member follows the server.** A channel that stays registered has been sent the
logs that are new. -/
theorem KeepsMember.follow {t t' : Chat σ ρ} {c : Connection} {member : Member}
    (h : t.KeepsMember c member) (more : List Bytes) (hlogs : t'.logs = t.logs ++ more)
    (harrivals : t'.arrivals = t.arrivals)
    (hchannel : ∀ channel', t'.channels[c]? = some channel' →
      ∃ channel, t.channels[c]? = some channel ∧ channel' = sendAll more channel) :
    t'.KeepsMember c
      (member.withChannel (followChannel t.channels t'.channels c member.channel)) := by
  have hjoined : member.joined ≤ t'.logs.length := by
    rw [hlogs, List.length_append]
    exact Nat.le_add_right_of_le h.joined_le
  have hdrop : t'.logs.drop member.joined = t.logs.drop member.joined ++ more := by
    rw [hlogs, List.drop_append_of_le_length h.joined_le]
  have hheard := h.heard
  rw [← harrivals] at hheard
  rw [followChannel]
  cases hc : t'.channels[c]? with
  | none =>
    have hgone : ∀ channel, t'.channels[c]? ≠ some channel := by
      rw [hc]
      rintro channel ⟨⟩
    have hprefix : member.channel.handed <+: t'.logs.drop member.joined := by
      rw [hdrop]
      exact h.handed.trans (List.prefix_append _ _)
    show t'.KeepsMember c (member.withChannel (if c ∈ t.channels then _ else _))
    split
    · exact ⟨h.accounts.server (WriteStep.disconnect _), hjoined, hprefix,
        fun channel hsome => absurd hsome (hgone channel), harrivals ▸ h.since_le, hheard⟩
    · exact ⟨h.accounts, hjoined, hprefix, fun channel hsome => absurd hsome (hgone channel),
        harrivals ▸ h.since_le, hheard⟩
  | some channel' =>
    obtain ⟨channel, hsome, rfl⟩ := hchannel channel' hc
    obtain ⟨rfl, hopen, hhanded⟩ := h.registered channel hsome
    obtain ⟨hall, hdisconnected⟩ := sendAll_handed more member.channel
    have hlog : (sendAll more member.channel).handed = t'.logs.drop member.joined := by
      rw [hall, hhanded, hdrop]
    refine ⟨accounts_sendAll more h.accounts, hjoined, ?_, ?_, harrivals ▸ h.since_le, hheard⟩
    · exact hlog ▸ List.prefix_rfl
    · intro channel hchannel'
      rw [hc] at hchannel'
      obtain rfl := Option.some.inj hchannel'
      exact ⟨rfl, hdisconnected.trans hopen, hlog⟩

/-- **The links follow the server.** -/
theorem Kept.follow {t t' : Chat σ ρ} (h : t.Kept) (more : List Bytes)
    (hmirrors : Mirrors t'.main.server.client (keySet t'.channels))
    (hlogs : t'.logs = t.logs ++ more) (hlogs' : t'.logs = t'.batches.map chatLog)
    (harrivals : t'.arrivals = t.arrivals)
    (hchannels : ∀ (c : Connection) channel', t'.channels[c]? = some channel' →
      ∃ channel, t.channels[c]? = some channel ∧ channel' = sendAll more channel)
    (hmembers : t'.members = t.members) : (Chat.follow t.channels t').Kept where
  mirrors := hmirrors
  logs := hlogs'
  members c member' hc := by
    have hmap : (t'.members c).map (fun member =>
        member.withChannel (followChannel t.channels t'.channels c member.channel))
          = some member' := hc
    rw [hmembers, Option.map_eq_some_iff] at hmap
    obtain ⟨member, hmember, rfl⟩ := hmap
    have hkeeps := (h.members c member hmember).follow more hlogs harrivals (hchannels c)
    exact hkeeps.congr rfl rfl rfl
  registered c hc := by
    obtain ⟨channel, hsome, -⟩ := hchannels c _ (ExtTreeMap.getElem?_eq_some_getElem hc)
    have hmem : c ∈ t.channels := ExtTreeMap.mem_iff_isSome_getElem?.mpr (by rw [hsome]; rfl)
    have hmap : ((t'.members c).map fun member =>
        member.withChannel (followChannel t.channels t'.channels c member.channel)).isSome := by
      rw [hmembers, Option.isSome_map]
      exact h.registered c hmem
    exact hmap

/-- **A channel is registered.** -/
theorem Kept.accept {t : Chat σ ρ} (h : t.Kept) {c : Connection} (hnew : c ∉ t.channels) :
    (t.accept c).Kept := by
  have hchannels : (t.accept c).channels = t.channels.insert c { connection := c } := rfl
  have hself : (t.accept c).channels[c]? = some { connection := c } := by
    rw [hchannels, ExtTreeMap.getElem?_insert_self]
  refine ⟨?_, h.logs, ?_, ?_⟩
  · rw [hchannels, keySet_insert]
    exact h.mirrors.insert hnew
  · refine Kept.withMember (t := t) (fun c' member' hne hc' => ?_) ?_ rfl
    · refine (h.members c' member' hc').congr rfl rfl ?_
      rw [hchannels, getElem?_insert_of_ne _ (Ne.symm hne)]
    · refine ⟨Link.accounts_new c, Nat.le_refl _, List.nil_prefix, ?_, Nat.le_refl _, ?_⟩
      · intro channel hsome
        rw [hself] at hsome
        obtain rfl := Option.some.inj hsome
        exact ⟨rfl, rfl, List.drop_length.symm⟩
      · show (((t.arrivals.drop t.arrivals.length).filter _).map _ : List Bytes) = []
        rw [List.drop_length]
        rfl
  · intro c' hc'
    show (Function.update t.members c _ c').isSome
    by_cases heq : c' = c
    · rw [heq, Function.update_self]
      rfl
    · rw [Function.update_of_ne heq]
      have hmem : c' ∈ keySet (t.accept c).channels := hc'
      rw [hchannels, keySet_insert, Set.mem_insert_iff] at hmem
      exact h.registered c' (hmem.resolve_left heq)

/-- What a completed write leaves of a channel. -/
theorem afterWrite_keeps {registered errorCode : Bool} {channel channel' : Channel}
    (h : channel.afterWrite registered errorCode = .ok channel') :
    channel'.handed = channel.handed ∧
      (errorCode = false → channel'.disconnected = channel.disconnected) := by
  cases errorCode with
  | true =>
    rw [Channel.afterWrite, if_pos rfl] at h
    split at h
    · obtain rfl := Except.ok.inj h
      exact ⟨rfl, by rintro ⟨⟩⟩
    · obtain rfl := Except.ok.inj h
      exact ⟨rfl, by rintro ⟨⟩⟩
  | false =>
    cases hbuffer : channel.writeBuffer with
    | nil => simp [Channel.afterWrite, hbuffer] at h
    | cons front rest =>
      simp only [Channel.afterWrite, hbuffer, Bool.false_eq_true, if_false] at h
      obtain rfl := Except.ok.inj h
      exact ⟨rfl, fun _ => rfl⟩

/-- **What a completed write does to the server.** It gives the channel up after an error, and
otherwise has it in its table as it is now. -/
theorem serverAfterWrite_chat (errorCode : Bool) {c : Connection} {before : Channel}
    (after : Channel) {s : GameServer σ} (hopen : c ∈ s.impl.channels → before.disconnected = false)
    (hmirrors : Mirrors s.client (keySet s.impl.channels)) :
    (serverAfterWrite errorCode c before after s).impl.incoming = s.impl.incoming ∧
      Mirrors (serverAfterWrite errorCode c before after s).client
        (keySet (serverAfterWrite errorCode c before after s).impl.channels) ∧
      ∀ c' : Connection,
        (serverAfterWrite errorCode c before after s).impl.channels[c']?
          = if c' = c ∧ c ∈ s.impl.channels then if errorCode then none else some after
            else s.impl.channels[c']? := by
  by_cases hmem : c ∈ s.impl.channels
  · cases errorCode with
    | true =>
      have hserver : serverAfterWrite true c before after s = s.disconnect gameHandler c := by
        simp [serverAfterWrite, hopen hmem]
      rw [hserver]
      refine ⟨?_, hmirrors.disconnect c, fun c' => ?_⟩
      · rw [Server.disconnect, ExtTreeMap.getElem?_eq_some_getElem hmem]
      · rw [getElem?_disconnect]
        simp [hmem, eq_comm]
    | false =>
      have hserver : serverAfterWrite false c before after s = { s with impl := { s.impl with
          channels := s.impl.channels.insert c after } } := by
        simp [serverAfterWrite, hmem]
      rw [hserver]
      refine ⟨rfl, ?_, fun c' => ?_⟩
      · rw [keySet_insert, Set.insert_eq_of_mem (show c ∈ keySet s.impl.channels from hmem)]
        exact hmirrors
      · show (s.impl.channels.insert c after)[c']? = _
        by_cases heq : c' = c
        · rw [heq, ExtTreeMap.getElem?_insert_self]
          simp [hmem]
        · rw [getElem?_insert_of_ne _ (Ne.symm heq)]
          simp [heq]
  · have hserver : serverAfterWrite errorCode c before after s = s := by
      rw [serverAfterWrite, disconnect_of_not_mem hmem, if_neg hmem]
      simp
    rw [hserver]
    exact ⟨rfl, hmirrors, fun c' => by simp [hmem]⟩

/-- **A write completes.** -/
theorem Kept.wrote {t : Chat σ ρ} (h : t.Kept) {c : Connection} {member : Member}
    {errorCode : Bool} {channel : Channel} (hmember : t.members c = some member)
    (hout : member.link.server.completed.length < member.channel.written.length)
    (hafter : member.channel.afterWrite (decide (c ∈ t.channels)) errorCode = .ok channel) :
    ((t.withServer (serverAfterWrite errorCode c member.channel channel t.main.server)
      ).withMember c { member with link := { member.link with
        server := { channel, completed := member.link.server.completed ++ [errorCode] } } }).Kept
    := by
  have hkeeps := h.members c member hmember
  have hregistered : ∀ hmem : c ∈ t.channels, member.channel.disconnected = false ∧
      member.channel.handed = t.logs.drop member.joined := by
    intro hmem
    obtain ⟨heq, hopen, hhanded⟩ :=
      hkeeps.registered _ (ExtTreeMap.getElem?_eq_some_getElem hmem)
    rw [heq]
    exact ⟨hopen, hhanded⟩
  obtain ⟨hhanded, hdisconnected⟩ := afterWrite_keeps hafter
  obtain ⟨hincoming, hmirrors, hchannels⟩ := serverAfterWrite_chat errorCode channel
    (fun hmem => (hregistered hmem).1) h.mirrors
  have harrivals : ∀ server : GameServer σ, server.impl.incoming = t.main.server.impl.incoming →
      (t.withServer server).arrivals = t.arrivals := by
    intro server hsame
    show t.batches.flatten ++ server.impl.incoming = _
    rw [hsame]
    rfl
  refine ⟨hmirrors, h.logs, Kept.withMember (t := t) (fun c' member' hne hc' => ?_) ?_ rfl, ?_⟩
  · refine (h.members c' member' hc').congr rfl (harrivals _ hincoming) ?_
    refine (hchannels c').trans ?_
    rw [if_neg fun hand => hne hand.1]
    rfl
  · refine ⟨hkeeps.accounts.server (WriteStep.completed hout hafter), hkeeps.joined_le, ?_, ?_,
      ?_, ?_⟩
    · show channel.handed <+: _
      rw [hhanded]
      exact hkeeps.handed
    · intro found hfound
      have hself := (hchannels c).symm.trans hfound
      by_cases hmem : c ∈ t.main.server.impl.channels
      · rw [if_pos ⟨rfl, hmem⟩] at hself
        cases errorCode with
        | true => cases hself
        | false =>
          obtain rfl := Option.some.inj hself
          exact ⟨rfl, (hdisconnected rfl).trans (hregistered hmem).1,
            hhanded.trans (hregistered hmem).2⟩
      · rw [if_neg fun hand => hmem hand.2, ExtTreeMap.getElem?_eq_none hmem] at hself
        cases hself
    · exact (harrivals _ hincoming).symm ▸ hkeeps.since_le
    · exact (harrivals _ hincoming).symm ▸ hkeeps.heard
  · intro c' hc'
    show (Function.update t.members c _ c').isSome
    by_cases heq : c' = c
    · rw [heq, Function.update_self]
      rfl
    · rw [Function.update_of_ne heq]
      have hsome := ExtTreeMap.getElem?_eq_some_getElem hc'
      have hsame := (hchannels c').symm.trans hsome
      rw [if_neg fun hand => heq hand.1] at hsame
      exact h.registered c' (ExtTreeMap.mem_iff_isSome_getElem?.mpr (by
        show (t.main.server.impl.channels[c']?).isSome
        rw [hsame]
        rfl))

/-- **A channel reads.** What has come is longer by a message of this connection. -/
theorem Kept.heard {t : Chat σ ρ} (h : t.Kept) {c : Connection} {member : Member}
    {write : ℕ} {message : Bytes} {link : Link} (hmember : t.members c = some member)
    (hstep : LinkStep member.link (.heard write message) link) :
    ((t.withServer (t.main.server.afterRead { connection := c, text := message })
      ).withMember c { member with link }).Kept := by
  have harrivals : ((t.withServer (t.main.server.afterRead { connection := c, text := message })
      ).withMember c { member with link }).arrivals
      = t.arrivals ++ [{ connection := c, text := message }] :=
    (List.append_assoc _ _ _).symm
  refine ⟨h.mirrors, h.logs, Kept.withMember (t := t) (fun c' member' hne hc' => ?_) ?_ rfl, ?_⟩
  · have hkeeps := h.members c' member' hc'
    refine ⟨hkeeps.accounts, hkeeps.joined_le, hkeeps.handed, hkeeps.registered, ?_, ?_⟩
    · rw [harrivals, List.length_append]
      exact Nat.le_add_right_of_le hkeeps.since_le
    · rw [harrivals, List.drop_append_of_le_length hkeeps.since_le, List.filter_append,
        List.map_append, hkeeps.heard]
      simp [Ne.symm hne]
  · have hkeeps := h.members c member hmember
    have haccounts := hstep.accounts hkeeps.accounts
    cases hstep with
    | heard hwritten =>
      refine ⟨haccounts, hkeeps.joined_le, hkeeps.handed, hkeeps.registered, ?_, ?_⟩
      · rw [harrivals, List.length_append]
        exact Nat.le_add_right_of_le hkeeps.since_le
      · rw [harrivals, List.drop_append_of_le_length hkeeps.since_le, List.filter_append,
          List.map_append, hkeeps.heard]
        simp
  · intro c' hc'
    show (Function.update t.members c _ c').isSome
    by_cases heq : c' = c
    · rw [heq, Function.update_self]
      rfl
    · rw [Function.update_of_ne heq]
      exact h.registered c' hc'

/-- **Something happens to a client.** -/
theorem Kept.client {t : Chat σ ρ} (h : t.Kept) {c : Connection} {member : Member}
    {e : LinkEvent} {link : Link} (hmember : t.members c = some member) (he : e.OfClient)
    (hstep : LinkStep member.link e link) : (t.withMember c { member with link }).Kept := by
  refine ⟨h.mirrors, h.logs, Kept.withMember (t := t) (fun c' member' _ hc' => ?_) ?_ rfl, ?_⟩
  · exact (h.members c' member' hc').congr rfl rfl rfl
  · exact ((h.members c member hmember).link he hstep).congr rfl rfl rfl
  · intro c' hc'
    show (Function.update t.members c _ c').isSome
    by_cases heq : c' = c
    · rw [heq, Function.update_self]
      rfl
    · rw [Function.update_of_ne heq]
      exact h.registered c' hc'

/-- **A connection is given up.** -/
theorem Kept.lost {t : Chat σ ρ} (h : t.Kept) (c : Connection) :
    (Chat.follow t.channels (t.withServer (t.main.server.disconnect gameHandler c))).Kept := by
  have hincoming : (t.main.server.disconnect gameHandler c).impl.incoming
      = t.main.server.impl.incoming := by
    rw [Server.disconnect]
    split
    · rfl
    · rfl
  refine h.follow [] (h.mirrors.disconnect c) (List.append_nil _).symm h.logs ?_
    (fun c' channel' hc' => ?_) rfl
  · show t.batches.flatten ++ (t.main.server.disconnect gameHandler c).impl.incoming = _
    rw [hincoming]
    rfl
  · rw [show (t.withServer (t.main.server.disconnect gameHandler c)).channels[c']?
      = if c = c' then none else t.channels[c']? from getElem?_disconnect _ c c'] at hc'
    split at hc'
    · cases hc'
    · exact ⟨channel', hc', rfl⟩

/-- **The server does something else.** -/
theorem Kept.undisturbed {t : Chat σ ρ} (h : t.Kept) {server : GameServer σ}
    (hquiet : Undisturbed t.main.server server) : (t.withServer server).Kept := by
  have hchannels : (t.withServer server).channels = t.channels := hquiet.channels
  refine ⟨?_, h.logs, fun c member hc => ?_, fun c hc => h.registered c (hchannels ▸ hc)⟩
  · rw [hchannels]
    show Mirrors server.client _
    rw [hquiet.client]
    exact h.mirrors
  · refine (h.members c member hc).congr rfl ?_ (by rw [hchannels])
    show t.batches.flatten ++ server.impl.incoming = _
    rw [hquiet.incoming]
    rfl

/-- **A round is done.** -/
theorem Kept.round {lib : MainLib σ ρ} {t : Chat σ ρ} (h : t.Kept) {turns : ℕ}
    {threw goesOn : Bool} {main : GameMain σ ρ}
    (hround : (mainRound lib turns threw).run t.main = .ok goesOn main) :
    (t.afterRound main).Kept := by
  obtain ⟨hincoming, hmirrors, hchannels⟩ := mainRound_chat h.mirrors hround
  have hlog : (processMessages t.main.server.receive.2 t.main.server.receive.1).1.result
      = chatLog t.main.server.impl.incoming := (processMessages_eq _ _).1
  refine h.follow [chatLog t.main.server.impl.incoming] hmirrors ?_ ?_ ?_ ?_ rfl
  · show t.logs ++ [_] = _
    rw [hlog]
  · show t.logs ++ [_] = (t.batches ++ [_]).map chatLog
    rw [hlog, List.map_append, h.logs]
    rfl
  · show (t.batches ++ [t.main.server.impl.incoming]).flatten ++ main.server.impl.incoming = _
    rw [hincoming, List.flatten_append]
    simp [arrivals]
  · intro c channel' hc
    obtain hnone | hsent := hchannels c
    · have hc' : main.server.impl.channels[c]? = some channel' := hc
      rw [hnone] at hc'
      cases hc'
    · have hc' := hsent.symm.trans hc
      rw [Option.map_eq_some_iff] at hc'
      obtain ⟨channel, hsome, rfl⟩ := hc'
      exact ⟨channel, hsome, rfl⟩

end Chat

/-- **One step.** -/
theorem ChatStep.kept {lib : MainLib σ ρ} {t t' : Chat σ ρ} {e : ChatEvent}
    (h : ChatStep lib t e t') (ht : t.Kept) : t'.Kept := by
  cases h with
  | accepted c hnew => exact ht.accept hnew
  | refused c hnew =>
    have hserver : t.main.server.afterAccept gameHandler true c = t.main.server :=
      disconnect_of_not_mem hnew
    rw [hserver]
    exact ht.undisturbed (Undisturbed.refl _)
  | wrote hmember hout h => exact ht.wrote hmember hout h
  | heard hmember h => exact ht.heard hmember h
  | lost c => exact ht.lost c
  | client hmember he h => exact ht.client hmember he h
  | requested request h => exact ht.undisturbed (handleRequest_undisturbed lib.server h)
  | round h => exact ht.round h

/-! ### What is heard, in order -/

namespace Chat

/-- What the channel of a member has heard are the first messages its client has written. -/
def HearsInOrder (t : Chat σ ρ) : Prop :=
  ∀ c member, t.members c = some member → member.link.heard <+: member.link.client.written

/-- One link is another now. -/
theorem HearsInOrder.withMember {t t' : Chat σ ρ} (h : t.HearsInOrder) {c : Connection}
    {member : Member} (hmember : member.link.heard <+: member.link.client.written)
    (hmembers : t'.members = Function.update t.members c (some member)) : t'.HearsInOrder := by
  intro c' member' hc'
  rw [hmembers] at hc'
  by_cases heq : c' = c
  · rw [heq, Function.update_self] at hc'
    obtain rfl := Option.some.inj hc'
    exact hmember
  · rw [Function.update_of_ne heq] at hc'
    exact h c' member' hc'

/-- What the server does to its channels is no matter of what they have heard. -/
theorem HearsInOrder.follow {t t' : Chat σ ρ} (h : t.HearsInOrder)
    (channels : ExtTreeMap Connection Channel compare) (hmembers : t'.members = t.members) :
    (Chat.follow channels t').HearsInOrder := by
  intro c member' hc'
  obtain ⟨member, hmember, rfl⟩ := Option.map_eq_some_iff.mp hc'
  exact h c member (hmembers ▸ hmember)

end Chat

/-- **One step in order.** -/
theorem ChatStep.hearsInOrder {lib : MainLib σ ρ} {t t' : Chat σ ρ} {e : ChatEvent}
    (h : ChatStep lib t e t') (he : e.InOrder t) (ht : t.HearsInOrder) : t'.HearsInOrder := by
  cases h with
  | accepted c hnew => exact ht.withMember List.prefix_rfl rfl
  | refused c hnew => exact ht
  | wrote hmember hout h =>
    have hheard := ht _ _ hmember
    refine ht.withMember ?_ rfl
    exact hheard
  | heard hmember h =>
    refine ht.withMember (h.heard_prefix ?_ (ht _ _ hmember)) rfl
    rintro write message hheard
    obtain ⟨rfl, -⟩ := LinkEvent.heard.inj hheard
    exact he _ hmember
  | lost c => exact ht.follow t.channels rfl
  | client hmember hclient h =>
    refine ht.withMember (h.heard_prefix ?_ (ht _ _ hmember)) rfl
    rintro write message rfl
    exact absurd hclient id
  | requested request h => exact ht
  | round h => exact ht.follow t.channels rfl

end SocialGaming
