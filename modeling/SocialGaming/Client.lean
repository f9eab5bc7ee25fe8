import SocialGaming.ChannelWrites
import SocialGaming.Library.Broadcast
import Mathlib.Data.List.Nodup

/-!
# The client at the other end

A client connects, shakes hands, and then reads message after message: the callback of a read starts
the next one, unless the message was empty. What has come is kept in one text until it is asked
for. A client does not chain its writes as a channel does: every `send` starts one, whether or not
another is going on, and each completion pops the front of the buffer.

A `Link` is a channel and the client it belongs to. Between the two lies the network, which may fail
at any time. A channel has one write at a time, so what it has written comes to the client in order.
The writes of a client overlap, which the library under it does not provide for: nothing is known of
the order in which they complete and are heard, and where that matters it is a hypothesis.

## Main definitions

* `Client` — the state of a client, with its callbacks
* `Link`, `LinkStep` — a channel and its client, and one step of either
* `LinkEvent.InOrder` — the writes of the client complete and are heard in order
* `Link.Accounts` — where everything that was sent is

## Main results

* `LinkStep.accounts` — every step keeps the accounts
* `LinkStep.reads` — only an error ends the reading
-/

namespace SocialGaming

/-! ### Clients -/

/-- What a client waits for, besides its writes. -/
inductive Awaits where
  | connect
  | handshake
  | read
  | nothing
  deriving DecidableEq, Repr

/-- `class ClientImpl`. -/
structure Client where
  closed : Bool := false
  awaits : Awaits := .connect
  incomingMessage : Bytes := []
  writeBuffer : List Bytes := []
  /-- What `async_write` was called on. -/
  written : List Bytes := []
  deriving DecidableEq, Repr

namespace Client

/-- `ClientImpl::disconnect`. -/
def disconnect (client : Client) : Client := { client with closed := true }

/-- `ClientImpl::isClosed`. -/
def isClosed (client : Client) : Bool := client.closed

/-- `ClientImpl::handshake`. -/
def handshake (client : Client) : Client := { client with awaits := .handshake }

/-- `ClientImpl::readMessage`. -/
def readMessage (client : Client) : Client := { client with awaits := .read }

/-- The callback of `ClientImpl::connect`. -/
def afterConnect (errorCode : Bool) (client : Client) : Client :=
  if !errorCode then client.handshake else { client with awaits := .nothing }

/-- The callback of `ClientImpl::handshake`. -/
def afterHandshake (errorCode : Bool) (client : Client) : Client :=
  if !errorCode then client.readMessage else { client with awaits := .nothing }

/-- The callback of `ClientImpl::readMessage`, with what has been read. -/
def afterRead (errorCode : Bool) (message : Bytes) (client : Client) : Client :=
  let client := { client with awaits := .nothing }
  if !errorCode then
    if 0 < message.length then
      readMessage { client with incomingMessage := client.incomingMessage ++ message }
    else client
  else client.disconnect

/-- `Client::send`. -/
def send (message : Bytes) (client : Client) : Client :=
  if message = [] then client
  else
    { client with
      writeBuffer := client.writeBuffer ++ [message]
      written := client.written ++ [message] }

/-- The callback of `ClientImpl::send`. `pop_front` on an empty deque is undefined. -/
def afterWrite (errorCode : Bool) (client : Client) : Except (Fault AmbassadorExn) Client :=
  if !errorCode then
    match client.writeBuffer with
    | [] => .error (.undefined .pastEnd)
    | _ :: writeBuffer => .ok { client with writeBuffer }
  else .ok client.disconnect

/-- `Client::receive`. -/
def receive (client : Client) : Bytes × Client :=
  (client.incomingMessage, { client with incomingMessage := [] })

/-- A message that is not empty is kept, and the next one is waited for. -/
theorem afterRead_of_ne_nil {message : Bytes} (h : message ≠ []) (client : Client) :
    client.afterRead false message = { client with
      awaits := .read, incomingMessage := client.incomingMessage ++ message } := by
  simp [afterRead, readMessage, List.length_pos_iff.mpr h]

/-- Reading is not writing. -/
theorem written_afterRead (errorCode : Bool) (message : Bytes) (client : Client) :
    (client.afterRead errorCode message).written = client.written := by
  unfold afterRead
  dsimp only
  split
  · split
    · rfl
    · rfl
  · rfl

/-- What `send` does: nothing with an empty string, and otherwise a write is started. -/
theorem send_eq (message : Bytes) (client : Client) :
    client.send message = if message = [] then client else { client with
      writeBuffer := client.writeBuffer ++ [message], written := client.written ++ [message] } :=
  rfl

/-- **What a completed write does**: it closes the client, or pops the front of its buffer. -/
theorem afterWrite_cases {errorCode : Bool} {client client' : Client}
    (h : client.afterWrite errorCode = .ok client') :
    (errorCode = true ∧ client' = client.disconnect) ∨
      (errorCode = false ∧ ∃ front rest, client.writeBuffer = front :: rest ∧
        client' = { client with writeBuffer := rest }) := by
  cases errorCode with
  | true => exact Or.inl ⟨rfl, (Except.ok.inj h).symm⟩
  | false =>
    cases hbuffer : client.writeBuffer with
    | nil => simp [afterWrite, hbuffer] at h
    | cons front rest =>
      simp only [afterWrite, hbuffer, Bool.not_false, if_true] at h
      exact Or.inr ⟨rfl, front, rest, rfl, (Except.ok.inj h).symm⟩

end Client

/-! ### Links -/

/-- A channel and its client. -/
structure Link where
  server : Writes
  client : Client := {}
  /-- Which writes of the client have completed, and with which error codes. -/
  completed : List (ℕ × Bool) := []
  /-- How many of the messages the channel has written the client has read. -/
  taken : ℕ := 0
  /-- What `Client::receive` returned. -/
  received : List Bytes := []
  /-- What the channel has read. -/
  heard : List Bytes := []

/-- The link of a new channel. -/
def Link.new (connection : Connection) : Link := { server := { channel := { connection } } }

/-- All the text a client has got. -/
def Link.text (s : Link) : Bytes := s.received.flatten ++ s.client.incomingMessage

/-- The strings of the client whose writes have not completed. -/
def Link.outstanding (s : Link) : List Bytes :=
  (s.client.written.zipIdx.filter fun p => p.2 ∉ s.completed.map Prod.fst).map Prod.fst

/-- How many writes of the client have completed without an error. -/
def Link.popped (s : Link) : ℕ := (s.completed.map Prod.snd).count false

/-- What happens on a link. -/
inductive LinkEvent where
  /-- Something happens to the channel. -/
  | server (e : WriteEvent)
  | connected (errorCode : Bool)
  | shaken (errorCode : Bool)
  | read (message : Bytes)
  | readFailed
  /-- `Client::receive` is called. -/
  | received
  /-- `Client::send` is called. -/
  | said (message : Bytes)
  /-- A write of the client completes. -/
  | completed (write : ℕ) (errorCode : Bool)
  /-- The channel reads what a write of the client has sent. -/
  | heard (write : ℕ) (message : Bytes)

/-- An operation of either end fails, or the channel closes the web socket: nothing more has to
arrive after that. -/
def LinkEvent.Fails : LinkEvent → Prop
  | .server (.completed errorCode) => errorCode = true
  | .server .disconnect => True
  | .connected errorCode => errorCode = true
  | .shaken errorCode => errorCode = true
  | .readFailed => True
  | .completed _ errorCode => errorCode = true
  | _ => False

/-- **Assumption.** Of the writes of the client that are going on, the one that was started first
completes, and of those that have not been heard, the first is heard. -/
def LinkEvent.InOrder (s : Link) : LinkEvent → Prop
  | .completed write _ => write = s.completed.length
  | .heard write _ => write = s.heard.length
  | _ => True

/-- One step. The client reads what the channel has written, in order. -/
inductive LinkStep : Link → LinkEvent → Link → Prop
  | server {s : Link} {e : WriteEvent} {server : Writes} (h : WriteStep s.server e server) :
      LinkStep s (.server e) { s with server }
  | connected {s : Link} (errorCode : Bool) (hawaits : s.client.awaits = .connect) :
      LinkStep s (.connected errorCode) { s with client := s.client.afterConnect errorCode }
  | shaken {s : Link} (errorCode : Bool) (hawaits : s.client.awaits = .handshake) :
      LinkStep s (.shaken errorCode) { s with client := s.client.afterHandshake errorCode }
  | read {s : Link} {message : Bytes} (hawaits : s.client.awaits = .read)
      (hnext : s.server.channel.written[s.taken]? = some message) :
      LinkStep s (.read message)
        { s with client := s.client.afterRead false message, taken := s.taken + 1 }
  | readFailed {s : Link} (hawaits : s.client.awaits = .read) :
      LinkStep s .readFailed { s with client := s.client.afterRead true [] }
  | received {s : Link} :
      LinkStep s .received
        { s with client := s.client.receive.2, received := s.received ++ [s.client.receive.1] }
  | said {s : Link} (message : Bytes) :
      LinkStep s (.said message) { s with client := s.client.send message }
  | completed {s : Link} {write : ℕ} {errorCode : Bool} {client : Client}
      (hstarted : write < s.client.written.length) (hout : write ∉ s.completed.map Prod.fst)
      (h : s.client.afterWrite errorCode = .ok client) :
      LinkStep s (.completed write errorCode)
        { s with client, completed := s.completed ++ [(write, errorCode)] }
  | heard {s : Link} {write : ℕ} {message : Bytes}
      (hwritten : s.client.written[write]? = some message) :
      LinkStep s (.heard write message) { s with heard := s.heard ++ [message] }

/-! ### The accounts -/

/-- Where everything that was sent is: the text the client has got is what it has read, and its
buffer is what it wrote but for as many messages as were written without an error. -/
structure Link.Accounts (s : Link) : Prop where
  chained : s.server.Chained
  taken_le : s.taken ≤ s.server.channel.written.length
  text : s.text = (s.server.channel.written.take s.taken).flatten
  buffer : s.client.writeBuffer = s.client.written.drop s.popped
  started : ∀ write ∈ s.completed.map Prod.fst, write < s.client.written.length
  once : (s.completed.map Prod.fst).Nodup

theorem Link.accounts_new (connection : Connection) : (Link.new connection).Accounts where
  chained := Writes.chained_new connection
  taken_le := Nat.le_refl _
  text := rfl
  buffer := rfl
  started := List.forall_mem_nil _
  once := List.nodup_nil

/-- No more writes have completed than were started. -/
theorem Link.Accounts.completed_le {s : Link} (h : s.Accounts) :
    s.completed.length ≤ s.client.written.length := by
  have hrange : s.completed.map Prod.fst ⊆ List.range s.client.written.length :=
    fun write hwrite => List.mem_range.mpr (h.started write hwrite)
  have hlength := List.Nodup.length_le_of_subset h.once hrange
  rwa [List.length_map, List.length_range] at hlength

theorem Link.popped_le (s : Link) : s.popped ≤ s.completed.length :=
  Nat.le_trans List.count_le_length (Nat.le_of_eq (List.length_map _))

/-- A channel never writes an empty string. -/
theorem Writes.Chained.ne_nil {s : Writes} (h : s.Chained) {message : Bytes}
    (hmem : message ∈ s.channel.written) : message ≠ [] := by
  obtain ⟨done, hsent, hwritten, -⟩ := h
  have hprefix : s.channel.written <+: s.sent := by
    rw [hsent, hwritten]
    exact (List.prefix_append_right_inj done).mpr (List.take_prefix 1 _)
  have hsent' : message ∈ s.channel.handed.filter (· ≠ []) := hprefix.subset hmem
  simpa using (List.mem_filter.mp hsent').2

/-- A step of the channel only writes more. -/
theorem WriteStep.written_prefix {s s' : Writes} {e : WriteEvent} (h : WriteStep s e s') :
    s.channel.written <+: s'.channel.written := by
  cases h with
  | send outgoing =>
    rw [Channel.send_eq]
    show _ <+: if _ then _ else _
    split
    · exact List.prefix_append _ _
    · exact List.prefix_rfl
  | disconnect => exact List.prefix_rfl
  | @completed _ registered errorCode channel hout h =>
    rw [Channel.afterWrite] at h
    split at h
    · split at h
      · obtain rfl := Except.ok.inj h
        exact List.prefix_rfl
      · obtain rfl := Except.ok.inj h
        exact List.prefix_rfl
    · split at h
      · cases h
      · obtain rfl := Except.ok.inj h
        exact List.prefix_append _ _

/-- **A step of the channel.** -/
theorem Link.Accounts.server {s : Link} (h : s.Accounts) {e : WriteEvent} {server : Writes}
    (hstep : WriteStep s.server e server) : Link.Accounts { s with server } where
  chained := hstep.chained h.chained
  taken_le := Nat.le_trans h.taken_le hstep.written_prefix.length_le
  text := by
    obtain ⟨more, hmore⟩ := hstep.written_prefix
    show s.text = (server.channel.written.take s.taken).flatten
    rw [h.text, ← hmore, List.take_append_of_le_length h.taken_le]
  buffer := h.buffer
  started := h.started
  once := h.once

/-- The message that is read next is not empty. -/
theorem Link.Accounts.next_ne_nil {s : Link} (h : s.Accounts) {message : Bytes}
    (hnext : s.server.channel.written[s.taken]? = some message) : message ≠ [] :=
  h.chained.ne_nil (List.mem_of_getElem? hnext)

/-- **The client reads.** -/
theorem Link.Accounts.read {s : Link} (h : s.Accounts) {message : Bytes}
    (hnext : s.server.channel.written[s.taken]? = some message) :
    Link.Accounts
      { s with client := s.client.afterRead false message, taken := s.taken + 1 } := by
  obtain ⟨hlt, hmessage⟩ := List.getElem?_eq_some_iff.mp hnext
  rw [Client.afterRead_of_ne_nil (h.next_ne_nil hnext)]
  refine ⟨h.chained, hlt, ?_, h.buffer, h.started, h.once⟩
  show s.received.flatten ++ (s.client.incomingMessage ++ message) = _
  rw [← List.append_assoc, ← hmessage, List.take_succ_eq_append_getElem hlt, List.flatten_append,
    ← h.text]
  simp [Link.text]

/-- **The client writes.** -/
theorem Link.Accounts.said {s : Link} (h : s.Accounts) (message : Bytes) :
    Link.Accounts { s with client := s.client.send message } := by
  rw [Client.send_eq]
  split
  · exact h
  refine ⟨h.chained, h.taken_le, h.text, ?_, fun write hwrite => ?_, h.once⟩
  · show s.client.writeBuffer ++ [message] = (s.client.written ++ [message]).drop s.popped
    rw [List.drop_append_of_le_length (Nat.le_trans s.popped_le h.completed_le), h.buffer]
  · show write < (s.client.written ++ [message]).length
    exact Nat.lt_of_lt_of_le (h.started write hwrite) (by simp)

/-- **A write of the client completes.** -/
theorem Link.Accounts.completed {s : Link} (h : s.Accounts) {write : ℕ} {errorCode : Bool}
    {client : Client} (hstarted : write < s.client.written.length)
    (hout : write ∉ s.completed.map Prod.fst)
    (hclient : s.client.afterWrite errorCode = .ok client) :
    Link.Accounts { s with client, completed := s.completed ++ [(write, errorCode)] } := by
  have hall : ∀ w ∈ (s.completed ++ [(write, errorCode)]).map Prod.fst,
      w < s.client.written.length := by
    rw [List.map_append, List.forall_mem_append]
    exact ⟨h.started, by simpa using hstarted⟩
  have honce : ((s.completed ++ [(write, errorCode)]).map Prod.fst).Nodup := by
    rw [List.map_append, List.map_singleton, ← List.concat_eq_append]
    exact h.once.concat hout
  have hpopped : (List.map Prod.snd (s.completed ++ [(write, errorCode)])).count false
      = s.popped + [errorCode].count false := by
    rw [List.map_append, List.count_append]
    rfl
  obtain ⟨rfl, rfl⟩ | ⟨rfl, front, rest, hbuffer, rfl⟩ := Client.afterWrite_cases hclient
  · refine ⟨h.chained, h.taken_le, h.text, ?_, hall, honce⟩
    show s.client.writeBuffer = s.client.written.drop (List.count _ _)
    rw [hpopped, h.buffer]
    rfl
  · refine ⟨h.chained, h.taken_le, h.text, ?_, hall, honce⟩
    show rest = s.client.written.drop (List.count _ _)
    rw [hpopped, List.count_singleton_self, ← List.drop_drop, ← h.buffer, hbuffer]
    rfl

/-- **One step.** -/
theorem LinkStep.accounts {s s' : Link} {e : LinkEvent} (h : LinkStep s e s')
    (hs : s.Accounts) : s'.Accounts := by
  cases h with
  | server h => exact hs.server h
  | read _ hnext => exact hs.read hnext
  | said message => exact hs.said message
  | completed hstarted hout h => exact hs.completed hstarted hout h
  | connected errorCode hawaits =>
    cases errorCode with
    | false => exact ⟨hs.chained, hs.taken_le, hs.text, hs.buffer, hs.started, hs.once⟩
    | true => exact ⟨hs.chained, hs.taken_le, hs.text, hs.buffer, hs.started, hs.once⟩
  | shaken errorCode hawaits =>
    cases errorCode with
    | false => exact ⟨hs.chained, hs.taken_le, hs.text, hs.buffer, hs.started, hs.once⟩
    | true => exact ⟨hs.chained, hs.taken_le, hs.text, hs.buffer, hs.started, hs.once⟩
  | readFailed hawaits =>
    exact ⟨hs.chained, hs.taken_le, hs.text, hs.buffer, hs.started, hs.once⟩
  | received =>
    refine ⟨hs.chained, hs.taken_le, ?_, hs.buffer, hs.started, hs.once⟩
    show (s.received ++ [s.client.incomingMessage]).flatten ++ [] = _
    rw [← hs.text]
    simp [Link.text]
  | heard hwritten =>
    exact ⟨hs.chained, hs.taken_le, hs.text, hs.buffer, hs.started, hs.once⟩

/-- **What is heard, in order.** -/
theorem LinkStep.heard_prefix {s s' : Link} {e : LinkEvent} (h : LinkStep s e s')
    (he : ∀ write message, e = .heard write message → write = s.heard.length)
    (hs : s.heard <+: s.client.written) : s'.heard <+: s'.client.written := by
  cases h with
  | heard hwritten =>
    obtain rfl := he _ _ rfl
    exact concat_prefix_of_getElem? hs hwritten
  | said message =>
    rw [Client.send_eq]
    split
    · exact hs
    · exact hs.trans (List.prefix_append _ _)
  | completed hstarted hout h =>
    obtain ⟨-, rfl⟩ | ⟨-, front, rest, -, rfl⟩ := Client.afterWrite_cases h
    · exact hs
    · exact hs
  | read hawaits hnext =>
    rw [Client.written_afterRead]
    exact hs
  | server h => exact hs
  | connected errorCode hawaits =>
    cases errorCode with
    | false => exact hs
    | true => exact hs
  | shaken errorCode hawaits =>
    cases errorCode with
    | false => exact hs
    | true => exact hs
  | readFailed hawaits => exact hs
  | received => exact hs

end SocialGaming
