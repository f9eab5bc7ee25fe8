import SocialGaming.Server
import SocialGaming.Library.Runs

/-!
# The writes of a channel

A channel has one `async_write` going at a time. `send` starts one when the buffer was empty, and
`afterWrite` starts the next when the buffer is not empty yet. What is being written stays at the
front of the buffer until its write has completed; after an error it stays there for ever, so that
the buffer is never empty again and `send` starts nothing.

## Main definitions

* `Writes` — a channel, and how its writes completed
* `WriteStep` — a call of `send`, a completion, or the channel is closed
* `Writes.Chained` — what was sent, what was written and what is buffered

## Main results

* `WriteStep.chained` — every step keeps the chain
* `channel_writes_serialised` — writes are serialised and lossless
-/

namespace SocialGaming

/-- A channel, and the error codes its writes completed with so far. -/
structure Writes where
  channel : Channel
  completed : List Bool := []

namespace Writes

/-- The writes that have not completed. -/
def outstanding (s : Writes) : ℕ := s.channel.written.length - s.completed.length

/-- The strings `send` does something with. -/
def sent (s : Writes) : List Bytes := s.channel.handed.filter (· ≠ [])

end Writes

/-- What happens on a channel. -/
inductive WriteEvent where
  | send (outgoing : Bytes)
  | completed (errorCode : Bool)
  | disconnect

/-- One step. A write completes when one is outstanding; the channel is closed at any time. -/
inductive WriteStep : Writes → WriteEvent → Writes → Prop
  | send (outgoing : Bytes) (s : Writes) :
      WriteStep s (.send outgoing) { s with channel := s.channel.send outgoing }
  | completed {s : Writes} {registered errorCode : Bool} {channel : Channel}
      (hout : s.completed.length < s.channel.written.length)
      (h : s.channel.afterWrite registered errorCode = .ok channel) :
      WriteStep s (.completed errorCode) { channel, completed := s.completed ++ [errorCode] }
  | disconnect (s : Writes) :
      WriteStep s .disconnect { s with channel := s.channel.disconnect }

/-! ### The chain -/

/-- The strings that were sent are those whose write has completed, followed by the buffer; what was
written is the former and the front of the buffer; and all writes have completed without an error,
or all but the last, which is still in the buffer. -/
def Writes.Chained (s : Writes) : Prop :=
  ∃ done, s.sent = done ++ s.channel.writeBuffer ∧
    s.channel.written = done ++ s.channel.writeBuffer.take 1 ∧
    (s.completed = List.replicate done.length false ∨
      s.completed = List.replicate done.length false ++ [true] ∧ s.channel.writeBuffer ≠ [])

theorem Writes.chained_new (connection : Connection) :
    Writes.Chained { channel := { connection } } :=
  ⟨[], rfl, rfl, Or.inl rfl⟩

/-- What `send` does: nothing with an empty string, and otherwise a write is started when the buffer
was empty. -/
theorem Channel.send_eq (channel : Channel) (outgoing : Bytes) :
    channel.send outgoing = { channel with
      handed := channel.handed ++ [outgoing]
      writeBuffer :=
        if outgoing = [] then channel.writeBuffer else channel.writeBuffer ++ [outgoing]
      written := if outgoing ≠ [] ∧ channel.writeBuffer = [] then channel.written ++ [outgoing]
        else channel.written } := by
  by_cases hempty : outgoing = []
  · simp [Channel.send, hempty]
  · cases hbuffer : channel.writeBuffer with
    | nil => simp [Channel.send, hempty, hbuffer]
    | cons front rest => simp [Channel.send, hempty, hbuffer]

/-- **One call of `send`.** It starts a write when the buffer was empty. -/
theorem Writes.Chained.send {s : Writes} (h : s.Chained) (outgoing : Bytes) :
    Writes.Chained { s with channel := s.channel.send outgoing } := by
  obtain ⟨done, hsent, hwritten, hcompleted⟩ := h
  rw [Channel.send_eq]
  by_cases hempty : outgoing = []
  · refine ⟨done, ?_, by simpa [hempty] using hwritten, by simpa [hempty] using hcompleted⟩
    simpa [Writes.sent, hempty] using hsent
  refine ⟨done, ?_, ?_, ?_⟩
  · have hnew : (s.channel.handed ++ [outgoing]).filter (· ≠ []) = s.sent ++ [outgoing] := by
      simp [Writes.sent, List.filter_append, hempty]
    simp only [Writes.sent, hempty, if_false]
    rw [hnew, hsent, List.append_assoc]
  · cases hbuffer : s.channel.writeBuffer with
    | nil =>
      rw [hbuffer] at hwritten
      simp [hwritten, hempty]
    | cons front rest =>
      rw [hbuffer] at hwritten
      simp [hwritten, hempty]
  · rcases hcompleted with hcompleted | ⟨hcompleted, -⟩
    · exact Or.inl hcompleted
    · exact Or.inr ⟨hcompleted, by simp [hempty]⟩

/-- Only a run without an error has a write outstanding: that of the front of the buffer. -/
theorem Writes.Chained.outstanding {s : Writes} (h : s.Chained)
    (hout : s.completed.length < s.channel.written.length) :
    ∃ done front rest, s.sent = done ++ s.channel.writeBuffer ∧
      s.channel.writeBuffer = front :: rest ∧ s.channel.written = done ++ [front] ∧
      s.completed = List.replicate done.length false := by
  obtain ⟨done, hsent, hwritten, hcompleted⟩ := h
  rw [hwritten, List.length_append] at hout
  rcases hcompleted with hcompleted | ⟨hcompleted, -⟩
  · rw [hcompleted, List.length_replicate] at hout
    cases hfront : s.channel.writeBuffer with
    | nil =>
      rw [hfront] at hout
      exact absurd hout (by simp)
    | cons front rest =>
      refine ⟨done, front, rest, by rw [hsent, hfront], rfl, ?_, hcompleted⟩
      rw [hwritten, hfront]
      rfl
  · rw [hcompleted, List.length_append, List.length_replicate, List.length_singleton] at hout
    have hle : (s.channel.writeBuffer.take 1).length ≤ 1 := List.length_take_le _ _
    omega

/-- **One step.** -/
theorem WriteStep.chained {s s' : Writes} {e : WriteEvent} (h : WriteStep s e s')
    (hs : s.Chained) : s'.Chained := by
  cases h with
  | send outgoing => exact hs.send outgoing
  | disconnect => exact hs
  | @completed _ registered errorCode channel hout h =>
    obtain ⟨done, front, rest, hsent, hbuffer, hwritten, hcompleted⟩ := hs.outstanding hout
    cases errorCode with
    | true =>
      have hkeeps : channel.handed = s.channel.handed ∧ channel.written = s.channel.written ∧
          channel.writeBuffer = s.channel.writeBuffer := by
        simp only [Channel.afterWrite, if_true] at h
        split at h
        · obtain rfl := Except.ok.inj h
          exact ⟨rfl, rfl, rfl⟩
        · obtain rfl := Except.ok.inj h
          exact ⟨rfl, rfl, rfl⟩
      obtain ⟨hhanded, hwritten', hbuffer'⟩ := hkeeps
      refine ⟨done, ?_, ?_, Or.inr ⟨by rw [hcompleted], ?_⟩⟩
      · rw [Writes.sent, hhanded, hbuffer']
        exact hsent
      · rw [hwritten', hbuffer', hwritten, hbuffer]
        rfl
      · rw [hbuffer', hbuffer]
        exact List.cons_ne_nil _ _
    | false =>
      -- the front has been written, and the write of the next one is started
      simp only [Channel.afterWrite, hbuffer, Bool.false_eq_true, if_false] at h
      obtain rfl := Except.ok.inj h
      refine ⟨done ++ [front], ?_, ?_, Or.inl ?_⟩
      · show s.sent = done ++ [front] ++ rest
        rw [hsent, hbuffer, List.append_assoc]
        rfl
      · show s.channel.written ++ rest.take 1 = done ++ [front] ++ rest.take 1
        rw [hwritten]
      · rw [hcompleted, List.length_append, List.length_singleton, List.replicate_succ']

/-- After an error no step starts a write. -/
theorem WriteStep.written_of_error {s s' : Writes} {e : WriteEvent} (h : WriteStep s e s')
    (hs : s.Chained) (herror : true ∈ s.completed) :
    s'.channel.written = s.channel.written ∧ true ∈ s'.completed := by
  cases h with
  | send outgoing =>
    obtain ⟨done, -, -, hcompleted⟩ := hs
    have hbuffer : s.channel.writeBuffer ≠ [] := by
      rcases hcompleted with hcompleted | ⟨-, hbuffer⟩
      · rw [hcompleted] at herror
        exact absurd (List.eq_of_mem_replicate herror) (by decide)
      · exact hbuffer
    refine ⟨?_, herror⟩
    rw [Channel.send_eq]
    exact if_neg fun hand => hbuffer hand.2
  | disconnect => exact ⟨rfl, herror⟩
  | completed hout =>
    obtain ⟨done, -, -, -, -, -, hcompleted⟩ := hs.outstanding hout
    rw [hcompleted] at herror
    exact absurd (List.eq_of_mem_replicate herror) (by decide)

/-! ### Runs -/

/-- Every run keeps the chain. -/
theorem Run.chained {connection : Connection} {trace : List (Writes × WriteEvent)} {s : Writes}
    (h : Run WriteStep { channel := { connection } } trace s) : s.Chained :=
  h.invariant (Writes.chained_new connection) fun _ _ _ hstep hs => hstep.chained hs

/-- **Channel writes are serialised and lossless.** In every run of a new channel, of calls of
`send`, completions and disconnections in any order: at most one write is outstanding, and its
completion pops the buffer without fault; before an error one is outstanding exactly when the buffer
is not empty; what `async_write` was called on is a prefix of the non-empty strings that were sent;
and after a completion with an error it is never called again. -/
theorem channel_writes_serialised {connection : Connection} {trace : List (Writes × WriteEvent)}
    {s : Writes} (h : Run WriteStep { channel := { connection } } trace s) :
    s.outstanding ≤ 1 ∧
    (0 < s.outstanding → ∀ registered errorCode,
      ∃ channel, s.channel.afterWrite registered errorCode = .ok channel) ∧
    (true ∉ s.completed → (s.outstanding = 1 ↔ s.channel.writeBuffer ≠ [])) ∧
    s.channel.written <+: s.sent ∧
    (true ∈ s.completed → ∀ trace' s', Run WriteStep s trace' s' →
      s'.channel.written = s.channel.written) := by
  have hs := h.chained
  refine ⟨?_, fun hout registered errorCode => ?_, fun hnone => ?_, ?_,
    fun herror trace' s' hrun => ?_⟩
  · by_contra hmany
    have hout : s.completed.length < s.channel.written.length := by
      rw [Writes.outstanding] at hmany
      omega
    obtain ⟨done, front, rest, -, -, hwritten, hcompleted⟩ := hs.outstanding hout
    rw [Writes.outstanding, hwritten, hcompleted, List.length_append, List.length_replicate,
      List.length_singleton] at hmany
    omega
  · have hlt : s.completed.length < s.channel.written.length := by
      rw [Writes.outstanding] at hout
      omega
    obtain ⟨-, front, rest, -, hbuffer, -⟩ := hs.outstanding hlt
    rw [Channel.afterWrite, hbuffer]
    cases errorCode with
    | true =>
      rw [if_pos rfl]
      split
      · exact ⟨_, rfl⟩
      · exact ⟨_, rfl⟩
    | false => exact ⟨_, rfl⟩
  · obtain ⟨done, -, hwritten, hcompleted | ⟨hcompleted, -⟩⟩ := hs
    · rw [Writes.outstanding, hwritten, hcompleted, List.length_append, List.length_replicate,
        Nat.add_sub_cancel_left, List.length_take]
      have hpos : 0 < s.channel.writeBuffer.length ↔ s.channel.writeBuffer ≠ [] :=
        List.length_pos_iff
      rw [← hpos]
      omega
    · rw [hcompleted] at hnone
      exact absurd (List.mem_append_right _ (List.mem_singleton_self true)) hnone
  · obtain ⟨done, hsent, hwritten, -⟩ := hs
    rw [hsent, hwritten]
    exact (List.prefix_append_right_inj done).mpr (List.take_prefix 1 _)
  · refine (hrun.invariant (P := fun t => t.Chained ∧ t.channel.written = s.channel.written ∧
      true ∈ t.completed) ⟨hs, rfl, herror⟩ ?_).2.1
    rintro t e t' hstep ⟨ht, hwritten, herror'⟩
    obtain ⟨hsame, hstill⟩ := hstep.written_of_error ht herror'
    exact ⟨hstep.chained ht, hsame.trans hwritten, hstill⟩

/-- Two strings are sent, and the first write fails: the second is not written. -/
theorem channel_writes_serialised_error :
    ∃ s : Writes, s.channel.written = [ascii "a"] ∧ s.channel.writeBuffer.length = 2 ∧
      s.outstanding ≤ 1 ∧ s.channel.written <+: s.sent := by
  have hstart : Run WriteStep { channel := { connection := 1 } } []
    { channel := { connection := 1 } } := Run.nil
  have hfirst := hstart.snoc (WriteStep.send (ascii "a") _)
  have hsecond := hfirst.snoc (WriteStep.send (ascii "b") _)
  have hfails := hsecond.snoc
    (WriteStep.completed (by decide) (rfl : Channel.afterWrite true true _ = .ok _))
  obtain ⟨hone, -, -, hprefix, -⟩ := channel_writes_serialised hfails
  exact ⟨_, by decide, by decide, hone, hprefix⟩

end SocialGaming
