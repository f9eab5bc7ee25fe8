import SocialGaming.Client
import Mathlib.Data.Bool.Count

/-!
# What arrives over a link

Whatever happens on a link and in whatever order, the text the client has got is a beginning of what
the channel was asked to send. As nothing empty is ever written, only an error ends the reading, and
while there is none, and the channel is not closed, everything can still arrive.

The writes of a client are another matter. They are not serialised, and any number may be going on.
If the writes that overlap are carried out in order, the channel hears the client's messages in
order, and the string of each write stays in the buffer until it has completed.

## Main definitions

* `LinkEvent.Completes` — a step that the network takes by itself
* `Link.Reaches` — by such steps
* `Link.CompletesInOrder` — no write of the client overtakes another

## Main results

* `link_text` — what a client has got, in every run
* `link_catches_up` — everything can still arrive
* `client_writes_kept` — what is being written stays in the buffer
-/

namespace SocialGaming

variable {connection : Connection} {trace : List (Link × LinkEvent)} {s s' : Link}

/-- Every run keeps the accounts. -/
theorem Run.accounts (h : Run LinkStep (Link.new connection) trace s) : s.Accounts :=
  h.invariant (Link.accounts_new connection) fun _ _ _ hstep hs => hstep.accounts hs

/-- Empty strings are no text. -/
theorem Writes.flatten_sent (s : Writes) : s.sent.flatten = s.channel.handed.flatten :=
  List.flatten_filter_ne_nil

/-- What a channel has written is a beginning of what it was asked to send. -/
theorem Writes.Chained.flatten_written (h : s.server.Chained) :
    s.server.channel.written.flatten <+: s.server.channel.handed.flatten := by
  obtain ⟨done, hsent, hwritten, -⟩ := h
  rw [← Writes.flatten_sent, hsent, hwritten, List.flatten_append, List.flatten_append,
    List.prefix_append_right_inj]
  nth_rewrite 2 [← List.take_append_drop 1 s.server.channel.writeBuffer]
  rw [List.flatten_append]
  exact List.prefix_append _ _

/-- It has written everything when its buffer is empty. -/
theorem Writes.Chained.flatten_written_of_empty (h : s.server.Chained)
    (hempty : s.server.channel.writeBuffer = []) :
    s.server.channel.written.flatten = s.server.channel.handed.flatten := by
  obtain ⟨done, hsent, hwritten, -⟩ := h
  rw [← Writes.flatten_sent, hsent, hwritten, hempty]
  rfl

namespace Link.Accounts

theorem text_prefix (h : s.Accounts) : s.text <+: s.server.channel.handed.flatten := by
  refine List.IsPrefix.trans ?_ h.chained.flatten_written
  rw [h.text]
  nth_rewrite 2 [← List.take_append_drop s.taken s.server.channel.written]
  rw [List.flatten_append]
  exact List.prefix_append _ _

theorem text_eq (h : s.Accounts) (hempty : s.server.channel.writeBuffer = [])
    (htaken : s.taken = s.server.channel.written.length) :
    s.text = s.server.channel.handed.flatten := by
  rw [h.text, htaken, List.take_length, h.chained.flatten_written_of_empty hempty]

end Link.Accounts

/-! ### Reading goes on -/

/-- The client cannot connect, or not shake hands. -/
def LinkEvent.FailsToStart : LinkEvent → Prop
  | .connected errorCode => errorCode = true
  | .shaken errorCode => errorCode = true
  | _ => False

/-- **Only an error ends the reading.** -/
theorem LinkStep.reads {e : LinkEvent} (h : LinkStep s e s') (hs : s.Accounts)
    (hstart : ¬ e.FailsToStart) (hreads : s.client.awaits = .nothing → s.client.closed = true) :
    s'.client.awaits = .nothing → s'.client.closed = true := by
  cases h with
  | server h => exact hreads
  | heard hwritten => exact hreads
  | received => exact hreads
  | readFailed hawaits =>
    intro _
    rfl
  | connected errorCode hawaits =>
    rw [Bool.eq_false_iff.mpr hstart]
    rintro ⟨⟩
  | shaken errorCode hawaits =>
    rw [Bool.eq_false_iff.mpr hstart]
    rintro ⟨⟩
  | read hawaits hnext =>
    rw [Client.afterRead_of_ne_nil (hs.next_ne_nil hnext)]
    rintro ⟨⟩
  | said message =>
    rw [Client.send_eq]
    split
    · exact hreads
    · exact hreads
  | completed hstarted hout h =>
    obtain ⟨-, rfl⟩ | ⟨-, front, rest, -, rfl⟩ := Client.afterWrite_cases h
    · intro _
      rfl
    · exact hreads

/-- **What a client has got.** In every run of a new link, of calls at both ends, completions and
failures in any order: the text the client has got is a beginning of what the channel was asked to
send, and is all of it when the buffer of the channel is empty and the client has read what was
written; if the client's writes are heard in order, what the channel has heard are the first
messages the client has written; and a client that got started waits for a message until it is
closed. -/
theorem link_text (h : Run LinkStep (Link.new connection) trace s) :
    s.text <+: s.server.channel.handed.flatten ∧
    (s.server.channel.writeBuffer = [] → s.taken = s.server.channel.written.length →
      s.text = s.server.channel.handed.flatten) ∧
    ((∀ p ∈ trace, p.2.InOrder p.1) → s.heard <+: s.client.written) ∧
    ((∀ p ∈ trace, ¬ p.2.FailsToStart) → s.client.awaits = .nothing →
      s.client.closed = true) := by
  have hs := h.accounts
  refine ⟨hs.text_prefix, hs.text_eq, fun horder => ?_, fun hstart => ?_⟩
  · refine h.invariant_of_forall (P := fun t => t.heard <+: t.client.written) horder
      List.prefix_rfl fun t e t' hstep he ht => hstep.heard_prefix ?_ ht
    rintro write message rfl
    exact he
  refine (h.invariant_of_forall (P := fun t => t.Accounts ∧
    (t.client.awaits = .nothing → t.client.closed = true)) hstart
    ⟨Link.accounts_new connection, ?_⟩ ?_).2
  · rintro ⟨⟩
  · rintro t e t' hstep hstart ⟨ht, hreads⟩
    exact ⟨hstep.accounts ht, hstep.reads ht hstart hreads⟩

/-! ### Everything can still arrive -/

/-- A step that the network takes by itself, without an error. -/
def LinkEvent.Completes : LinkEvent → Prop
  | .server (.completed errorCode) => errorCode = false
  | .connected errorCode => errorCode = false
  | .shaken errorCode => errorCode = false
  | .read _ => True
  | _ => False

/-- One state leads to another by steps of the network. -/
abbrev Link.Reaches : Link → Link → Prop := SocialGaming.Reaches LinkStep LinkEvent.Completes

/-- A client that has started, on a link on which nothing has been sent. -/
theorem run_startedLink : Run LinkStep (Link.new 1)
    [(Link.new 1, .connected false),
      ({ Link.new 1 with client := { awaits := .handshake } }, .shaken false)]
    { Link.new 1 with client := { awaits := .read } } :=
  (Run.nil.snoc (LinkStep.connected false rfl)).snoc (LinkStep.shaken false rfl)

/-- A message is sent, and read. -/
theorem link_text_hi :
    ∃ s : Link, s.text = ascii "hi" ∧ s.text <+: s.server.channel.handed.flatten := by
  have hsent := run_startedLink.snoc (LinkStep.server (WriteStep.send (ascii "hi") _))
  have hread := hsent.snoc (LinkStep.read rfl (rfl : _ = some (ascii "hi")))
  exact ⟨_, by decide, (link_text hread).1⟩

/-- The elements from a position on. -/
theorem filter_zipIdx_eq_drop (l : List Bytes) (k n : ℕ) :
    ((l.zipIdx n).filter fun p => p.2 ∉ List.range (n + k)).map Prod.fst = l.drop k := by
  induction l generalizing k n with
  | nil => rw [List.drop_nil, List.zipIdx_nil, List.filter_nil, List.map_nil]
  | cons a l ih =>
    rw [List.zipIdx_cons, List.filter_cons]
    cases k with
    | zero =>
      have hstays : decide (n ∉ List.range (n + 0)) = true := by simp
      have hrest : (l.zipIdx (n + 1)).filter (fun p => p.2 ∉ List.range (n + 0))
          = (l.zipIdx (n + 1)).filter fun p => p.2 ∉ List.range (n + 1 + 0) := by
        refine List.filter_congr fun p hp => ?_
        have hle := List.le_snd_of_mem_zipIdx hp
        simp only [List.mem_range, decide_eq_decide]
        omega
      rw [if_pos hstays, List.map_cons, hrest, ih 0 (n + 1), List.drop_zero, List.drop_zero]
    | succ k =>
      have hgoes : ¬ decide (n ∉ List.range (n + (k + 1))) = true := by simp
      rw [if_neg hgoes, show n + (k + 1) = n + 1 + k by omega, ih k (n + 1), List.drop_succ_cons]

/-- One more element. -/
theorem filter_zipIdx_concat (l : List Bytes) (a : Bytes) {taken : List ℕ}
    (h : l.length ∉ taken) :
    ((l ++ [a]).zipIdx.filter fun p => p.2 ∉ taken).map Prod.fst
      = (l.zipIdx.filter fun p => p.2 ∉ taken).map Prod.fst ++ [a] := by
  have hstays : decide ((a, 0 + l.length).2 ∉ taken) = true := by simpa using h
  rw [List.zipIdx_append, List.filter_append, List.map_append, List.zipIdx_singleton,
    List.filter_cons, if_pos hstays]
  rfl

/-- The writes that have completed are the first ones. -/
def Link.CompletesInOrder (s : Link) : Prop :=
  s.completed.map Prod.fst = List.range s.completed.length

theorem LinkStep.completesInOrder {e : LinkEvent} (h : LinkStep s e s') (he : e.InOrder s)
    (hs : s.CompletesInOrder) : s'.CompletesInOrder := by
  cases h with
  | @completed write errorCode client hstarted hout h =>
    obtain rfl : write = s.completed.length := he
    show List.map Prod.fst (s.completed ++ [(s.completed.length, errorCode)])
      = List.range (s.completed ++ [(s.completed.length, errorCode)]).length
    rw [List.map_append, hs, List.length_append, List.length_singleton, List.range_succ]
    rfl
  | _ => exact hs

/-- Then those that are going on are the last ones. -/
theorem Link.CompletesInOrder.outstanding_eq (h : s.CompletesInOrder) :
    s.outstanding = s.client.written.drop s.completed.length := by
  have hdrop := filter_zipIdx_eq_drop s.client.written s.completed.length 0
  rw [Nat.zero_add] at hdrop
  rw [Link.outstanding, h, hdrop]

/-- A call of `send` starts one more write. -/
theorem Link.Accounts.outstanding_said (h : s.Accounts) {message : Bytes} (hne : message ≠ []) :
    Link.outstanding { s with client := s.client.send message } = s.outstanding ++ [message] := by
  have hnew : s.client.written.length ∉ s.completed.map Prod.fst :=
    fun hmem => (h.started _ hmem).false
  rw [Client.send_eq, if_neg hne]
  exact filter_zipIdx_concat s.client.written message hnew

/-- A call of `send`. -/
def LinkEvent.IsSaid (e : LinkEvent) : Prop := ∃ message, e = .said message

/-- Calls of `send` start as many writes as one likes. -/
theorem Link.Accounts.exists_outstanding (h : s.Accounts) (n : ℕ) :
    ∃ trace' s', Run LinkStep s trace' s' ∧ (∀ p ∈ trace', p.2.IsSaid) ∧
      s'.Accounts ∧ n ≤ s'.outstanding.length := by
  induction n with
  | zero => exact ⟨[], s, Run.nil, List.forall_mem_nil _, h, Nat.zero_le _⟩
  | succ n ih =>
    obtain ⟨trace', s', hrun, hsaid, haccounts, hle⟩ := ih
    have hne : ascii "Hello, server!" ≠ [] := by decide
    have hstep := LinkStep.said (s := s') (ascii "Hello, server!")
    refine ⟨_, _, hrun.snoc hstep, ?_, hstep.accounts haccounts, ?_⟩
    · rw [List.forall_mem_append]
      exact ⟨hsaid, by simp [LinkEvent.IsSaid]⟩
    · rw [haccounts.outstanding_said hne, List.length_append]
      exact Nat.succ_le_succ hle

/-- **What is being written stays in the buffer.** In every run of a link in which the client's
writes complete in order: the strings whose writes have not completed are the end of the client's
buffer, which holds one more for each write that failed; so no completion pops an empty buffer. The
writes are not serialised: calls of `send` and nothing else lead from every state to one in which
any number of them is going on. -/
theorem client_writes_kept (h : Run LinkStep (Link.new connection) trace s)
    (horder : ∀ p ∈ trace, p.2.InOrder p.1) :
    s.outstanding <:+ s.client.writeBuffer ∧
    s.client.writeBuffer.length
      = s.outstanding.length + (s.completed.map Prod.snd).count true ∧
    (s.outstanding ≠ [] → ∀ errorCode, ∃ client, s.client.afterWrite errorCode = .ok client) ∧
    ∀ n, ∃ trace' s', Run LinkStep s trace' s' ∧ (∀ p ∈ trace', p.2.IsSaid) ∧
      n ≤ s'.outstanding.length := by
  have hs := h.accounts
  have hout : s.outstanding = s.client.written.drop s.completed.length :=
    (h.invariant_of_forall (P := Link.CompletesInOrder) horder rfl
      fun _ _ _ hstep he ht => hstep.completesInOrder he ht).outstanding_eq
  have hcount : (s.completed.map Prod.snd).count true + s.popped = s.completed.length :=
    (List.count_true_add_count_false _).trans (List.length_map _)
  have hsuffix : s.outstanding <:+ s.client.writeBuffer := by
    have hsplit : s.completed.length = s.popped + (s.completed.map Prod.snd).count true := by omega
    rw [hs.buffer, hout, hsplit, ← List.drop_drop]
    exact List.drop_suffix _ _
  refine ⟨hsuffix, ?_, fun hne errorCode => ?_, fun n => ?_⟩
  · have hle := hs.completed_le
    rw [hs.buffer, hout, List.length_drop, List.length_drop]
    omega
  · have hpos : 0 < s.client.writeBuffer.length :=
      (List.length_pos_iff.mpr hne).trans_le hsuffix.length_le
    obtain ⟨front, rest, hbuffer⟩ := List.exists_cons_of_length_pos hpos
    cases errorCode with
    | true => exact ⟨_, rfl⟩
    | false => exact ⟨_, by rw [Client.afterWrite, hbuffer]; rfl⟩
  · obtain ⟨trace', s', hrun, hsaid, -, hle⟩ := hs.exists_outstanding n
    exact ⟨trace', s', hrun, hsaid, hle⟩

/-- Of two writes that are going on the first fails: its string stays in the buffer. -/
theorem client_writes_kept_error :
    ∃ s : Link, s.client.writeBuffer = [ascii "a", ascii "b"] ∧ s.outstanding = [ascii "b"] ∧
      s.outstanding <:+ s.client.writeBuffer ∧
      s.client.writeBuffer.length
        = s.outstanding.length + (s.completed.map Prod.snd).count true := by
  have hone := run_startedLink.snoc (LinkStep.said (ascii "a"))
  have htwo := hone.snoc (LinkStep.said (ascii "b"))
  have hfails := htwo.snoc
    (@LinkStep.completed _ 0 true _ (by decide) (by decide)
      (rfl : Client.afterWrite true _ = .ok _))
  have hkept := client_writes_kept hfails (by simp [LinkEvent.InOrder, Link.new])
  exact ⟨_, by decide, by decide, hkept.1, hkept.2.1⟩

end SocialGaming
