import SocialGaming.ServerClients

/-!
# The chat log

`processMessages` returns what the first command returns, which is an empty log, and looks at no
message after it. So no line is lost only when no message is a command, or when there is no line to
lose.

## Main definitions

* `LosesNone` — every line is in the log, and everyone who quits is disconnected

## Main results

* `mem_disconnect` — who is connected after `Server::disconnect`
* `processMessages_losesNone_iff` — when nothing is lost
-/

namespace SocialGaming

open Std (ExtTreeMap)

variable {σ : Type}

/-- The log has the lines of all messages that are neither `quit` nor `shutdown`, in their order,
and whoever sent `quit` is not connected afterwards. -/
structure LosesNone (s : GameServer σ) (incoming : List Message) : Prop where
  lines : HasInOrder ((incoming.filter fun message =>
    message.text ≠ ascii "quit" ∧ message.text ≠ ascii "shutdown").map Message.line)
    (processMessages s incoming).1.result
  quits : ∀ message ∈ incoming, message.text = ascii "quit" →
    message.connection ∉ (processMessages s incoming).2.impl.channels

/-- **Who is connected after `Server::disconnect`.** -/
theorem mem_disconnect (s : GameServer σ) (c c' : Connection) :
    c' ∈ (s.disconnect gameHandler c).impl.channels ↔ c' ≠ c ∧ c' ∈ s.impl.channels := by
  by_cases hc : c ∈ s.impl.channels
  · have hkeys := congrArg Tables.channels (tables_disconnect hc)
    show c' ∈ keySet (s.disconnect gameHandler c).impl.channels ↔ _
    rw [show keySet (s.disconnect gameHandler c).impl.channels = keySet s.impl.channels \ {c}
      from hkeys, Set.mem_sdiff, Set.mem_singleton_iff, and_comm]
    rfl
  · rw [disconnect_of_not_mem hc]
    refine ⟨fun hc' => ⟨?_, hc'⟩, And.right⟩
    rintro rfl
    exact hc hc'

/-! ### Commands -/

/-- **Which messages are commands.** -/
theorem Message.action_eq (message : Message) :
    message.action = if message.text = ascii "quit" then some .quit
      else if message.text = ascii "shutdown" then some .shutDown else none := by
  rw [Message.action]
  split_ifs with hquit hshutdown
  · rw [hquit]
    decide
  · rw [hshutdown]
    decide
  · have hquit' : (message.text == ascii "quit") = false := beq_eq_false_iff_ne.mpr hquit
    have hshutdown' : (message.text == ascii "shutdown") = false :=
      beq_eq_false_iff_ne.mpr hshutdown
    rw [actions, List.lookup_cons, hquit', List.lookup_cons, hshutdown', List.lookup_nil]

theorem Message.action_eq_none_iff (message : Message) :
    message.action = none ↔ message.text ≠ ascii "quit" ∧ message.text ≠ ascii "shutdown" := by
  rw [message.action_eq]
  split_ifs with hquit hshutdown
  · exact iff_of_false (by rintro ⟨⟩) fun h => h.1 hquit
  · exact iff_of_false (by rintro ⟨⟩) fun h => h.2 hshutdown
  · exact iff_of_true rfl ⟨hquit, hshutdown⟩

theorem Message.action_eq_quit_iff (message : Message) :
    message.action = some .quit ↔ message.text = ascii "quit" := by
  rw [message.action_eq]
  split_ifs with hquit hshutdown
  · exact iff_of_true rfl hquit
  · exact iff_of_false (by rintro ⟨⟩) hquit
  · exact iff_of_false (by rintro ⟨⟩) hquit

theorem Message.line_ne_nil (message : Message) : message.line ≠ [] := by
  intro h
  have hend := (List.append_eq_nil_iff.mp h).2
  exact absurd hend (by decide)

theorem executeClientMsg_result (action : ActionClient) (message : Message) (s : GameServer σ) :
    (action.executeClientMsg message s).1.result = [] := by
  cases action with
  | quit => rfl
  | shutDown => rfl

/-- Who is connected after a command. -/
theorem mem_executeClientMsg (action : ActionClient) (message : Message) (s : GameServer σ)
    (c : Connection) : c ∈ (action.executeClientMsg message s).2.impl.channels ↔
      c ∈ s.impl.channels ∧ ¬ (action = .quit ∧ message.connection = c) := by
  cases action with
  | quit =>
    show c ∈ (s.disconnect gameHandler message.connection).impl.channels ↔ _
    rw [mem_disconnect, and_comm, ne_comm]
    simp
  | shutDown => exact ⟨fun h => ⟨h, by rintro ⟨⟨⟩, -⟩⟩, And.left⟩

/-! ### Batches -/

theorem filter_lines (incoming : List Message) :
    (incoming.filter fun message =>
      message.text ≠ ascii "quit" ∧ message.text ≠ ascii "shutdown")
      = incoming.filter fun message => message.action = none :=
  List.filter_congr fun message _ => decide_eq_decide.mpr message.action_eq_none_iff.symm

/-- Nothing is lost from a batch that starts with a command exactly when it has no lines and
everyone who quits is that command's sender, or is not connected. -/
theorem losesNone_cons_iff {s : GameServer σ} {command : Message} {action : ActionClient}
    (haction : command.action = some action) (rest : List Message) :
    LosesNone s (command :: rest) ↔
      (∀ message ∈ command :: rest, message.action ≠ none) ∧
        ∀ message ∈ command :: rest, message.text = ascii "quit" →
          message.connection ∈ s.impl.channels →
          action = .quit ∧ command.connection = message.connection := by
  have hrun : processMessages s (command :: rest) = action.executeClientMsg command s := by
    rw [processMessages, processMessages.loop, haction]
  have hlines : HasInOrder (((command :: rest).filter fun message =>
      message.text ≠ ascii "quit" ∧ message.text ≠ ascii "shutdown").map Message.line)
      (processMessages s (command :: rest)).1.result ↔
      ∀ message ∈ command :: rest, message.action ≠ none := by
    rw [hrun, executeClientMsg_result, hasInOrder_nil_iff, filter_lines, List.forall_mem_map]
    constructor
    · intro hempty message hmem hnone
      exact message.line_ne_nil
        (hempty message (List.mem_filter.mpr ⟨hmem, decide_eq_true hnone⟩))
    · intro hcommands message hmem
      obtain ⟨hmem', hnone⟩ := List.mem_filter.mp hmem
      exact absurd (of_decide_eq_true hnone) (hcommands message hmem')
  have hquits : (∀ message ∈ command :: rest, message.text = ascii "quit" →
      message.connection ∉ (processMessages s (command :: rest)).2.impl.channels) ↔
      ∀ message ∈ command :: rest, message.text = ascii "quit" →
        message.connection ∈ s.impl.channels →
        action = .quit ∧ command.connection = message.connection := by
    refine forall₃_congr fun message _ _ => ?_
    rw [hrun, mem_executeClientMsg, not_and, not_not]
  rw [← hlines, ← hquits]
  exact ⟨fun h => ⟨h.lines, h.quits⟩, fun h => ⟨h.1, h.2⟩⟩

/-- **When nothing is lost.** Either no message of the batch is a command; or all of them are, and
whoever sent `quit` was not connected, or sent the first message of the batch and it is `quit`. -/
theorem processMessages_losesNone_iff (s : GameServer σ) (incoming : List Message) :
    LosesNone s incoming ↔
      (∀ message ∈ incoming, message.action = none) ∨
      ((∀ message ∈ incoming, message.action ≠ none) ∧
        ∀ message ∈ incoming, message.text = ascii "quit" →
          message.connection ∈ s.impl.channels → ∃ first, incoming.head? = some first ∧
            first.text = ascii "quit" ∧ first.connection = message.connection) := by
  rcases processMessages_loop_cases s [] incoming with
    ⟨hall, heq⟩ | ⟨before, command, after, action, rfl, hbefore, hcommand, heq⟩
  · refine iff_of_true ⟨?_, ?_⟩ (Or.inl hall)
    · rw [filter_lines, List.filter_eq_self.mpr fun message hmem =>
        decide_eq_true (hall message hmem), processMessages, heq]
      exact hasInOrder_flatten _
    · intro message hmem hquit
      rw [← message.action_eq_quit_iff, hall message hmem] at hquit
      cases hquit
  have hmixed : ¬ ∀ message ∈ before ++ command :: after, message.action = none := by
    intro hall
    have hnone := hall command (List.mem_append_right _ List.mem_cons_self)
    rw [hcommand] at hnone
    cases hnone
  rw [or_iff_right hmixed]
  cases before with
  | nil =>
    rw [List.nil_append, losesNone_cons_iff hcommand]
    refine and_congr_right fun _ => forall₄_congr fun message _ _ _ => ?_
    constructor
    · rintro ⟨rfl, hsame⟩
      exact ⟨command, rfl, command.action_eq_quit_iff.mp hcommand, hsame⟩
    · rintro ⟨first, hfirst, hquit, hsame⟩
      obtain rfl := Option.some.inj hfirst
      rw [← command.action_eq_quit_iff, hcommand] at hquit
      exact ⟨Option.some.inj hquit, hsame⟩
  | cons earlier before =>
    -- the line of the first message is not in the empty log
    have hearlier : earlier.action = none := hbefore earlier List.mem_cons_self
    refine iff_of_false (fun h => ?_) fun h => h.1 earlier List.mem_cons_self hearlier
    have hlines := h.lines
    rw [filter_lines, processMessages, heq, executeClientMsg_result, hasInOrder_nil_iff,
      List.forall_mem_map] at hlines
    exact earlier.line_ne_nil (hlines earlier
      (List.mem_filter.mpr ⟨List.mem_cons_self, decide_eq_true hearlier⟩))

/-- A message, and `quit` after it. -/
def lastWords : List Message :=
  [{ connection := 1, text := ascii "hello" }, { connection := 1, text := ascii "quit" }]

/-- The message is not in the log. -/
theorem processMessages_loses_line :
    (processMessages (chessServerWith 1) lastWords).1.result = [] ∧
      ¬ LosesNone (chessServerWith 1) lastWords := by
  have hresult : (processMessages (chessServerWith 1) lastWords).1.result = [] := by decide
  refine ⟨hresult, fun h => ?_⟩
  obtain ⟨before, after, hlog, -⟩ := h.lines
  rw [hresult] at hlog
  have hempty := List.append_eq_nil_iff.mp hlog.symm
  exact absurd (List.append_eq_nil_iff.mp hempty.1).2 (Message.line_ne_nil _)

end SocialGaming
