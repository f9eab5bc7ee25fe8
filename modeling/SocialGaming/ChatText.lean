import SocialGaming.Chat

/-!
# What the members of a chat read

In every run of the chat, a member reads a beginning of the lines of the messages that have been
processed since it joined, but for those of batches with a command. So everyone reads the same lines
in the same order, whatever the network does, and the lines of one speaker stand in the order in
which that speaker wrote them.

## Main definitions

* `shownMessages` — the messages that become lines
* `newChat` — the chat when the server has been started

## Main results

* `chat_text` — what a member reads
* `chat_agrees` — two members never read different things
* `chat_heard` — what comes from one connection is what its client wrote, in order
-/

namespace SocialGaming

open Std (ExtTreeMap)

variable {σ ρ : Type} {lib : MainLib σ ρ} {httpMessage : Bytes} {writeQ : σ} {stdin : List Bytes}
  {reader : Reader ρ} {trace : List (Chat σ ρ × ChatEvent)} {t : Chat σ ρ}

/-- The messages of the batches that have no command. -/
def shownMessages (batches : List (List Message)) : List Message :=
  (batches.filter fun batch => ∀ message ∈ batch, message.action = none).flatten

/-- Their lines. -/
def shownText (batches : List (List Message)) : Bytes :=
  ((shownMessages batches).map Message.line).flatten

/-- The logs are these lines. -/
theorem flatten_chatLog (batches : List (List Message)) :
    (batches.map chatLog).flatten = shownText batches := by
  induction batches with
  | nil => rfl
  | cons batch batches ih =>
    rw [List.map_cons, List.flatten_cons, ih, chatLog]
    by_cases hnone : ∀ message ∈ batch, message.action = none
    · have hshown : shownMessages (batch :: batches) = batch ++ shownMessages batches := by
        rw [shownMessages, List.filter_cons, if_pos (decide_eq_true hnone), List.flatten_cons]
        rfl
      rw [if_pos hnone, shownText, shownText, hshown, List.map_append, List.flatten_append]
    · have hshown : shownMessages (batch :: batches) = shownMessages batches := by
        simp [shownMessages, hnone]
      rw [if_neg hnone, shownText, shownText, hshown, List.nil_append]

/-- The chat when the server has been started. -/
def newChat (httpMessage : Bytes) (writeQ : σ) (stdin : List Bytes) (reader : Reader ρ) :
    Chat σ ρ :=
  { main := { server := newGameServer httpMessage writeQ stdin, reader } }

theorem kept_newChat : (newChat httpMessage writeQ stdin reader).Kept where
  mirrors := by
    have hempty : keySet (∅ : ExtTreeMap Connection Channel compare) = ∅ := keySet_empty
    exact hempty ▸ Mirrors.empty
  logs := rfl
  members c member hc := by cases hc
  registered c hc := absurd hc ExtTreeMap.not_mem_empty

/-- Every run keeps what every step keeps. -/
theorem Run.kept (h : Run (ChatStep lib) (newChat httpMessage writeQ stdin reader) trace t) :
    t.Kept :=
  h.invariant kept_newChat fun _ _ _ hstep ht => hstep.kept ht

namespace Chat

/-- A member hears what the rounds since it joined have sent. -/
theorem KeepsMember.hears {c : Connection} {member : Member} (h : t.KeepsMember c member) :
    Hears t.logs member.joined member.link.text :=
  Hears.of_prefix h.joined_le h.handed h.accounts.text_prefix

/-- What a member reads are lines of the messages since it joined. -/
theorem Kept.text_prefix (ht : t.Kept) {c : Connection} {member : Member}
    (hc : t.members c = some member) :
    member.link.text <+: shownText (t.batches.drop member.joined) := by
  have htext := (ht.members c member hc).hears.2
  rwa [ht.logs, ← List.map_drop, flatten_chatLog] at htext

end Chat

/-- **What a member reads.** In every run of the chat: a beginning of the lines of the messages that
have been processed since it joined, without the batches that have a command. The channel of a
connection that is registered belongs to a member; and when its buffer is empty and the client has
read what was written, the client has read all of those lines. -/
theorem chat_text (h : Run (ChatStep lib) (newChat httpMessage writeQ stdin reader) trace t) :
    (∀ c member, t.members c = some member →
      member.link.text <+: shownText (t.batches.drop member.joined)) ∧
    ∀ (c : Connection) channel, t.channels[c]? = some channel → ∃ member,
      t.members c = some member ∧ member.channel = channel ∧
      (channel.writeBuffer = [] → member.link.taken = channel.written.length →
        member.link.text
          = shownText (t.batches.drop member.joined)) := by
  have ht := h.kept
  refine ⟨fun c member hc => ht.text_prefix hc, fun c channel hchannel => ?_⟩
  have hmem : c ∈ t.channels := ExtTreeMap.mem_iff_isSome_getElem?.mpr (by rw [hchannel]; rfl)
  obtain ⟨member, hc⟩ := Option.isSome_iff_exists.mp (ht.registered c hmem)
  have hkeeps := ht.members c member hc
  obtain ⟨rfl, -, hhanded⟩ := hkeeps.registered channel hchannel
  refine ⟨member, hc, rfl, fun hempty htaken => ?_⟩
  rw [hkeeps.accounts.text_eq hempty htaken, ← flatten_chatLog, List.map_drop, ← ht.logs,
    ← hhanded]
  rfl

/-- **Two members never read different things.** Put the lines that the later one missed in front of
what it has read: of that and what the other one has read, one is the beginning of the other. -/
theorem chat_agrees (h : Run (ChatStep lib) (newChat httpMessage writeQ stdin reader) trace t)
    {c c' : Connection} {member member' : Member} (hc : t.members c = some member)
    (hc' : t.members c' = some member') (hle : member.joined ≤ member'.joined) :
    member.link.text
        <+: shownText ((t.batches.take member'.joined).drop member.joined) ++ member'.link.text ∨
      shownText ((t.batches.take member'.joined).drop member.joined) ++ member'.link.text
        <+: member.link.text := by
  have ht := h.kept
  have hagree := (ht.members c member hc).hears.agree (ht.members c' member' hc').hears hle
  rwa [ht.logs, ← List.map_take, ← List.map_drop, flatten_chatLog] at hagree

/-- **What comes from one connection is what its client wrote.** In every run of the chat in which
the writes of a client are heard in order, the messages that have come since a member joined and
that bear its connection are the first of those its client has written, in the order in which they
were written. -/
theorem chat_heard (h : Run (ChatStep lib) (newChat httpMessage writeQ stdin reader) trace t)
    (horder : ∀ p ∈ trace, p.2.InOrder p.1) {c : Connection} {member : Member}
    (hc : t.members c = some member) :
    ((t.arrivals.drop member.since).filter fun message => message.connection = c).map Message.text
      <+: member.link.client.written := by
  rw [(h.kept.members c member hc).heard]
  have horders : (newChat httpMessage writeQ stdin reader).HearsInOrder := by
    rintro c member ⟨⟩
  exact h.invariant_of_forall (P := Chat.HearsInOrder) horder horders
    (fun _ _ _ hstep he ht => hstep.hearsInOrder he ht) c member hc

/-! ### A greeting -/

theorem ChatEvent.inOrder_heard {c : Connection} {member : Member} {write : ℕ} {message : Bytes}
    (hmember : t.members c = some member) (hfirst : write = member.link.heard.length) :
    InOrder t (.heard c write message) := by
  intro member' hmember'
  obtain rfl := Option.some.inj (hmember.symm.trans hmember')
  exact hfirst

/-- A server on which nothing has happened. -/
def quietChat : Chat (List Bytes) (List Bytes) := newChat [] [] [] { readQ := [] }

/-- Someone greets and reads the greeting; and someone joins who has missed it. -/
theorem run_greeting : ∃ trace t member late, Run (ChatStep quietLib) quietChat trace t ∧
    (∀ p ∈ trace, p.2.InOrder p.1) ∧ t.members 1 = some member ∧ t.members 2 = some late ∧
    (member.link.text = ascii "1> hi\n" ∧ member.joined = 0) ∧
    (late.link.text = [] ∧ late.joined = 1) ∧
    t.batches = [[{ connection := 1, text := ascii "hi" }]] := by
  have hstart : Run (ChatStep quietLib) quietChat [] quietChat := Run.nil
  have hone := hstart.snoc (ChatStep.accepted 1 (by decide))
  have hsaid := hone.snoc (ChatStep.client (c := 1) (e := .said (ascii "hi")) rfl True.intro
    (LinkStep.said (ascii "hi")))
  have hheard := hsaid.snoc
    (@ChatStep.heard _ _ _ _ 1 _ 0 (ascii "hi") _ rfl (LinkStep.heard rfl))
  have hround := hheard.snoc
    (ChatStep.round (rfl : (mainRound quietLib 1 false).run _ = .ok true _))
  have hconnected := hround.snoc (ChatStep.client (c := 1) (e := .connected false) rfl True.intro
    (LinkStep.connected false rfl))
  have hshaken := hconnected.snoc (ChatStep.client (c := 1) (e := .shaken false) rfl True.intro
    (LinkStep.shaken false rfl))
  have hread := hshaken.snoc (ChatStep.client (c := 1) (e := .read (ascii "1> hi\n")) rfl
    True.intro (LinkStep.read rfl rfl))
  have htwo := hread.snoc (ChatStep.accepted 2 (by decide))
  refine ⟨_, _, _, _, htwo, ?_, rfl, rfl, by decide, by decide, by decide⟩
  simp only [List.forall_mem_append, List.forall_mem_singleton]
  exact ⟨⟨⟨⟨⟨⟨⟨⟨List.forall_mem_nil _, trivial⟩, trivial⟩, ChatEvent.inOrder_heard rfl rfl⟩,
    trivial⟩, trivial⟩, trivial⟩, trivial⟩, trivial⟩

theorem chat_text_greeting : ∃ (t : Chat (List Bytes) (List Bytes)) (member : Member),
    member.link.text = ascii "1> hi\n" ∧
      member.link.text <+: shownText (t.batches.drop member.joined) := by
  obtain ⟨trace, t, member, late, hrun, -, hmember, -, ⟨htext, -⟩, -⟩ := run_greeting
  exact ⟨t, member, htext, (chat_text hrun).1 1 member hmember⟩

theorem chat_agrees_greeting : ∃ (t : Chat (List Bytes) (List Bytes)) (member late : Member),
    member.joined < late.joined ∧
      (member.link.text
          <+: shownText ((t.batches.take late.joined).drop member.joined) ++ late.link.text ∨
        shownText ((t.batches.take late.joined).drop member.joined) ++ late.link.text
          <+: member.link.text) := by
  obtain ⟨trace, t, member, late, hrun, -, hmember, hlate, ⟨-, hfirst⟩, ⟨-, hsecond⟩, -⟩ :=
    run_greeting
  have hlt : member.joined < late.joined := by
    rw [hfirst, hsecond]
    exact Nat.zero_lt_one
  exact ⟨t, member, late, hlt, chat_agrees hrun hmember hlate (Nat.le_of_lt hlt)⟩

theorem chat_heard_greeting : ∃ (t : Chat (List Bytes) (List Bytes)) (member : Member),
    t.batches = [[{ connection := 1, text := ascii "hi" }]] ∧
      ((t.arrivals.drop member.since).filter fun message => message.connection = 1).map Message.text
        <+: member.link.client.written := by
  obtain ⟨trace, t, member, late, hrun, horder, hmember, -, -, -, hbatches⟩ := run_greeting
  exact ⟨t, member, hbatches, chat_heard hrun horder hmember⟩

end SocialGaming
