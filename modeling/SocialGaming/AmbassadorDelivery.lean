import SocialGaming.AmbassadorRuns
import Mathlib.Data.List.Forall2

/-!
# Delivery between two ambassadors

What one ambassador sends through a message queue, its peer gets, in order and each message once. On
the way a `Response` is the text of its document, then the bytes of a C string, and then a new
object.

Every step either leaves the account of what was sent alone or is a step of it: a `sendMsg` that
returned 0 accepts, a turn of the loop that reads fetches, and a `getOneMsg` that found the buffer
not empty delivers. The account balances by construction, so nothing else has to be known of the
runs.

## Main definitions

* `JsonLib.Lawful` — what the JSON library does with the document of a `Response`
* `Encodes` — the bytes that are sent for a `Response`
* `accepted`, `delivered` — what was sent and what was got, from the history of a run

## Main results

* `sendMsg_cases` — what `sendMsg` can do
* `PeerStep.account` — what a step does to the account
* `sendMsg_delivered` — what was got, what is in the buffer and what is in the queue is what was
  sent
-/

namespace SocialGaming

open Ambassador

/-! ### The libraries -/

/-- What the JSON library does with the document of a `Response`. -/
structure JsonLib.Lawful (lib : JsonLib) : Prop where
  /-- A text is read as the document it was made from. -/
  parse_dump : ∀ res text, lib.dump (Response.toJson res) = some text →
    lib.parse text = some (Response.toJson res)
  /-- A text has no NUL in it. -/
  nul_not_mem_dump : ∀ res text, lib.dump (Response.toJson res) = some text → (0 : UInt8) ∉ text
  /-- A NUL ends a text. -/
  parse_nul : ∀ text, (0 : UInt8) ∉ text → lib.parse (text ++ [0]) = lib.parse text

/-- The bytes that are sent for a `Response`: its text and the NUL of a C string. -/
def Encodes (lib : JsonLib) (res : Response) (message : Bytes) : Prop :=
  ∃ text, res.toString lib = some text ∧ message = text ++ [0]

variable {lib : JsonLib}

theorem Encodes.ne_nil {res : Response} {message : Bytes} (h : Encodes lib res message) :
    message ≠ [] := by
  obtain ⟨text, -, rfl⟩ := h
  simp

/-- **What is read is what was sent.** -/
theorem Encodes.ofString (hlib : lib.Lawful) {res : Response} {message : Bytes}
    (h : Encodes lib res message) (memory : MsgType) :
    Response.ofString lib memory (Bytes.view message) = res := by
  obtain ⟨text, htext, rfl⟩ := h
  have hparse : lib.parse (text ++ [0]) = some res.toJson := by
    rw [hlib.parse_nul text (hlib.nul_not_mem_dump res text htext)]
    exact hlib.parse_dump res text htext
  rw [Response.ofString, text_view, hparse, Option.bind_some, Response.ofJson_toJson]

section

variable {Q : Type} {mq : MessageQueue Q Bytes} {contents : Q → List Bytes}
  {stack : ℕ → UInt8} {writeBool readBool : Bool}

/-- The queue is first in, first out, within the bounds it was made with. -/
abbrev Bounded (mq : MessageQueue Q Bytes) (contents : Q → List Bytes) : Prop :=
  mq.IsFifo contents MSG_MAX_COUNT fun message => message.length ≤ MSG_MAX_SIZE

/-! ### The queue -/

/-- A C string is sent with its NUL, and nothing else. -/
theorem write_run {text : Bytes} (htext : (0 : UInt8) ∉ text) (q : Q) :
    (msgQImpl.write mq stack true (Bytes.view text)).run q =
      match mq.trySend (text ++ [0]) q with
      | (.sent, q') => .ok 0 q'
      | (.full, q') => .ok (-1) q'
      | (.tooLarge, q') => .error (.thrown .interprocess) q' := by
  have hsize : (Bytes.view text).size = text.length := rfl
  rcases hsend : mq.trySend (text ++ [0]) q with ⟨_ | _ | _, q'⟩
  · simp [msgQImpl.write, cString_view htext, hsize, hsend]
  · simp [msgQImpl.write, cString_view htext, hsize, hsend]
  · simp [msgQImpl.write, cString_view htext, hsize, hsend]

variable (stack writeBool readBool) in
/-- **What `sendMsg` can do**: it returns 0 and the bytes of the `Response` are at the end of the
queue, or the queue is as it was. -/
theorem sendMsg_cases (hlib : lib.Lawful) (hmq : Bounded mq contents) (input : Response) (q : Q) :
    (∃ q' message, (sendMsg lib (msgQImpl mq stack writeBool readBool) input).run q = .ok 0 q' ∧
      Encodes lib input message ∧ contents q' = contents q ++ [message]) ∨
    (∃ q', (sendMsg lib (msgQImpl mq stack writeBool readBool) input).run q = .ok (-1) q' ∧
      contents q' = contents q) ∨
    ∃ e q', (sendMsg lib (msgQImpl mq stack writeBool readBool) input).run q
      = .error (.thrown e) q' ∧ contents q' = contents q := by
  rcases htext : input.toString lib with _ | text
  · exact Or.inr (Or.inr ⟨.json, q, by simp [sendMsg, htext], rfl⟩)
  have hrun : (sendMsg lib (msgQImpl mq stack writeBool readBool) input).run q
      = (msgQImpl.write mq stack writeBool (Bytes.view text)).run q := by
    simp [sendMsg, htext, msgQImpl]
  rw [hrun]
  cases writeBool with
  | false => exact Or.inr (Or.inl ⟨q, by simp [msgQImpl.write], rfl⟩)
  | true =>
    rw [write_run (hlib.nul_not_mem_dump input text htext)]
    rcases hsend : mq.trySend (text ++ [0]) q with ⟨_ | _ | _, q'⟩
    · exact Or.inl ⟨q', text ++ [0], rfl, ⟨text, htext, rfl⟩, (hmq.sent _ _ _ hsend).1⟩
    · exact Or.inr (Or.inl ⟨q', rfl, (hmq.full _ _ _ hsend).1⟩)
    · exact Or.inr (Or.inr ⟨_, q', rfl, (hmq.tooLarge _ _ _ hsend).1⟩)

/-- **What a read can do**: it gives the first message of the queue, or there is none, or this
side does not read. -/
theorem read_cases (hmq : Bounded mq contents) (q : Q) :
    (∃ content q', (msgQImpl.read mq readBool).run q = .ok content q' ∧
      contents q = content :: contents q') ∨
    ∃ q', (msgQImpl.read mq readBool).run q = .ok [] q' ∧ contents q' = contents q := by
  cases readBool with
  | false => exact Or.inr ⟨q, by simp [msgQImpl.read], rfl⟩
  | true =>
    rcases hreceive : mq.tryReceive q with ⟨_ | content, q'⟩
    · obtain ⟨hq, hq'⟩ := hmq.none_received _ _ hreceive
      exact Or.inr ⟨q', by simp [msgQImpl.read, hreceive], hq'.trans hq.symm⟩
    · exact Or.inl ⟨content, q', by simp [msgQImpl.read, hreceive], hmq.received _ _ _ hreceive⟩

/-- A read does not throw. -/
theorem read_ne_error (hmq : Bounded mq contents) (q : Q) {e : Fault AmbassadorExn} {q' : Q} :
    (msgQImpl.read mq readBool).run q ≠ .error e q' := by
  rcases read_cases hmq q with ⟨_, _, hrun, -⟩ | ⟨_, hrun, -⟩
  · rw [hrun]
    exact nofun
  · rw [hrun]
    exact nofun

end

/-! ### The account of a run -/

/-- A call of `sendMsg`, and what it returned if it did not throw. -/
structure Sent where
  input : Response
  returned : Option Int32

/-- The other side of the queue: an ambassador that sends, whatever the array of `write` held. -/
def sends {Q : Type} (lib : JsonLib) (mq : MessageQueue Q Bytes) (writeBool readBool : Bool) (q : Q)
    (e : Sent) (q' : Q) : Prop :=
  ∃ stack, match e.returned with
    | some n => (sendMsg lib (msgQImpl mq stack writeBool readBool) e.input).run q = .ok n q'
    | none => ∃ x, (sendMsg lib (msgQImpl mq stack writeBool readBool) e.input).run q
        = .error (.thrown x) q'

section

variable {σ : Type}

/-- The `Response` of a `sendMsg` that returned 0. -/
def acceptedAt (p : Peer σ × PeerEvent Sent) : Option Response :=
  match p.2 with
  | .other e => if e.returned = some 0 then some e.input else none
  | _ => none

/-- The `Response` that a `getOneMsg` took from the buffer. -/
def deliveredAt (p : Peer σ × PeerEvent Sent) : Option Response :=
  match p.2 with
  | .returned (.one message) =>
    if p.1.reader.readContentQ.isEmpty then none else some message.response
  | _ => none

/-- What was sent in a run, in order. -/
def accepted (t : List (Peer σ × PeerEvent Sent)) : List Response := t.filterMap acceptedAt

/-- What was got in a run, in order. -/
def delivered (t : List (Peer σ × PeerEvent Sent)) : List Response := t.filterMap deliveredAt

theorem accepted_snoc (t : List (Peer σ × PeerEvent Sent)) (p : Peer σ × PeerEvent Sent) :
    accepted (t ++ [p]) = accepted t ++ (acceptedAt p).toList := by
  rw [accepted, List.filterMap_append]
  cases h : acceptedAt p <;> simp [accepted, h]

theorem delivered_snoc (t : List (Peer σ × PeerEvent Sent)) (p : Peer σ × PeerEvent Sent) :
    delivered (t ++ [p]) = delivered t ++ (deliveredAt p).toList := by
  rw [delivered, List.filterMap_append]
  cases h : deliveredAt p <;> simp [delivered, h]

end

section

variable {Q : Type} {mq : MessageQueue Q Bytes} {contents : Q → List Bytes}
  {stack : ℕ → UInt8} {memory : ℕ → MsgType} {writeBool readBool writeBool' readBool' : Bool}

/-- The account of a run is that of the state it is in. -/
structure Accounts (lib : JsonLib) (contents : Q → List Bytes)
    (t : List (Peer Q × PeerEvent Sent)) (p : Peer Q) (d : Delivery Response) : Prop where
  accepted_eq : d.accepted = accepted t
  delivered_eq : d.delivered = delivered t
  buffered_eq : d.buffered = p.reader.readContentQ.map Received.response
  waiting : List.Forall₂ (Encodes lib) d.waiting (contents p.reader.readQ)

/-- What the other side can do to the queue. -/
theorem sends_cases (hlib : lib.Lawful) (hmq : Bounded mq contents) {q q' : Q} {e : Sent}
    (h : sends lib mq writeBool readBool q e q') :
    (e.returned = some 0 ∧ ∃ message, Encodes lib e.input message ∧
      contents q' = contents q ++ [message]) ∨
    e.returned ≠ some 0 ∧ contents q' = contents q := by
  obtain ⟨stack, h⟩ := h
  rcases sendMsg_cases stack writeBool readBool hlib hmq e.input q with
    ⟨u, message, hrun, henc, hq⟩ | ⟨u, hrun, hq⟩ | ⟨x, u, hrun, hq⟩
  · rw [hrun] at h
    cases hret : e.returned with
    | none =>
      rw [hret] at h
      obtain ⟨_, h⟩ := h
      cases h
    | some n =>
      rw [hret] at h
      obtain ⟨rfl, rfl⟩ := EStateM.Result.ok.inj h
      exact Or.inl ⟨rfl, message, henc, hq⟩
  · rw [hrun] at h
    cases hret : e.returned with
    | none =>
      rw [hret] at h
      obtain ⟨_, h⟩ := h
      cases h
    | some n =>
      rw [hret] at h
      obtain ⟨rfl, rfl⟩ := EStateM.Result.ok.inj h
      exact Or.inr ⟨by decide, hq⟩
  · rw [hrun] at h
    cases hret : e.returned with
    | none =>
      rw [hret] at h
      obtain ⟨_, h⟩ := h
      obtain ⟨-, rfl⟩ := EStateM.Result.error.inj h
      exact Or.inr ⟨by simp, hq⟩
    | some n =>
      rw [hret] at h
      cases h

namespace Accounts

variable {t : List (Peer Q × PeerEvent Sent)} {p : Peer Q} {d : Delivery Response}
  {e : PeerEvent Sent}

/-- A step that neither accepts nor delivers, and leaves the buffer and the queue. -/
theorem of_eq (hd : Accounts lib contents t p d) (ha : acceptedAt (p, e) = none)
    (hdel : deliveredAt (p, e) = none) {p' : Peer Q}
    (hbuffer : p'.reader.readContentQ = p.reader.readContentQ)
    (hqueue : contents p'.reader.readQ = contents p.reader.readQ) :
    Accounts lib contents (t ++ [(p, e)]) p' d where
  accepted_eq := by rw [accepted_snoc, ha, hd.accepted_eq]; exact (List.append_nil _).symm
  delivered_eq := by rw [delivered_snoc, hdel, hd.delivered_eq]; exact (List.append_nil _).symm
  buffered_eq := by rw [hbuffer, hd.buffered_eq]
  waiting := by rw [hqueue]; exact hd.waiting

/-- No message in the queue is empty. -/
theorem ne_nil (hd : Accounts lib contents t p d) :
    ∀ message ∈ contents p.reader.readQ, message ≠ [] := by
  intro message hmem
  obtain ⟨i, hi, rfl⟩ := List.mem_iff_getElem.mp hmem
  have hlen := hd.waiting.length_eq
  exact (hd.waiting.get (by omega) hi).ne_nil

end Accounts

/-- A turn that reads fetches. -/
theorem Accounts.fetch (hlib : lib.Lawful) {t : List (Peer Q × PeerEvent Sent)} {p : Peer Q}
    {d : Delivery Response} (hd : Accounts lib contents t p d) {content : Bytes} {q : Q}
    (hq : contents p.reader.readQ = content :: contents q) :
    ∃ d', Accounts lib contents (t ++ [(p, .read)])
      { p with reader := p.reader.push lib memory q content } d' := by
  have hwaiting := hd.waiting
  rw [hq] at hwaiting
  cases hw : d.waiting with
  | nil =>
    rw [hw] at hwaiting
    cases hwaiting
  | cons res rest =>
    rw [hw] at hwaiting
    obtain ⟨henc, hrest⟩ := List.forall₂_cons.mp hwaiting
    refine ⟨d.fetch hw, ?_, ?_, ?_, hrest⟩
    · rw [accepted_snoc]
      exact hd.accepted_eq.trans (List.append_nil _).symm
    · rw [delivered_snoc]
      exact hd.delivered_eq.trans (List.append_nil _).symm
    · show d.buffered ++ [res] = _
      rw [hd.buffered_eq, Reader.push, List.map_append, List.map_singleton, henc.ofString hlib]

/-- The end of a call that has left the queue as it was. -/
theorem Accounts.finish {t : List (Peer Q × PeerEvent Sent)} {p : Peer Q} {d : Delivery Response}
    (hd : Accounts lib contents t p d) {q : Q} (hq : contents q = contents p.reader.readQ)
    {c : ReadCall} {result : ReadResult} {r : Reader Q}
    (h : c.finish.run { p.reader with readQ := q } = .ok result r) :
    ∃ d', Accounts lib contents (t ++ [(p, .returned result)]) { reader := r } d' := by
  cases c with
  | getAllMsg =>
    rw [finish_getAllMsg] at h
    obtain ⟨rfl, rfl⟩ := EStateM.Result.ok.inj h
    exact ⟨d, hd.of_eq rfl rfl rfl hq⟩
  | getOneMsg =>
    cases hbuffer : p.reader.readContentQ with
    | nil =>
      have hfinish := finish_getOneMsg_nil
        (show ({ p.reader with readQ := q } : Reader Q).readContentQ = [] from hbuffer)
      obtain ⟨rfl, rfl⟩ := EStateM.Result.ok.inj (hfinish.symm.trans h)
      exact ⟨d, hd.of_eq rfl (by rw [deliveredAt, hbuffer]; rfl) rfl hq⟩
    | cons message rest =>
      have hfinish := finish_getOneMsg_cons
        (show ({ p.reader with readQ := q } : Reader Q).readContentQ = message :: rest from hbuffer)
      obtain ⟨rfl, rfl⟩ := EStateM.Result.ok.inj (hfinish.symm.trans h)
      have hd' : d.buffered = message.response :: rest.map Received.response := by
        rw [hd.buffered_eq, hbuffer, List.map_cons]
      refine ⟨d.deliver hd', ?_, ?_, rfl, ?_⟩
      · rw [accepted_snoc]
        exact hd.accepted_eq.trans (List.append_nil _).symm
      · show d.delivered ++ [message.response] = _
        rw [delivered_snoc, hd.delivered_eq, deliveredAt, hbuffer]
        rfl
      · show List.Forall₂ (Encodes lib) d.waiting (contents q)
        rw [hq]
        exact hd.waiting

/-- **What a step does to the account.** -/
theorem PeerStep.account (hlib : lib.Lawful) (hmq : Bounded mq contents) {p p' : Peer Q}
    {e : PeerEvent Sent}
    (h : PeerStep lib memory (msgQImpl mq stack writeBool readBool)
      (sends lib mq writeBool' readBool') p e p')
    {t : List (Peer Q × PeerEvent Sent)} {d : Delivery Response}
    (hd : Accounts lib contents t p d) :
    ∃ d', Accounts lib contents (t ++ [(p, e)]) p' d' := by
  have hread : (msgQImpl mq stack writeBool readBool).read = msgQImpl.read mq readBool := rfl
  cases h with
  | other h =>
    rename_i e q
    rcases sends_cases hlib hmq h with ⟨hret, message, henc, hq⟩ | ⟨hret, hq⟩
    · have hsent : acceptedAt (p, .other e) = some e.input := if_pos hret
      refine ⟨d.accept e.input, ?_, ?_, hd.buffered_eq, ?_⟩
      · show d.accepted ++ [e.input] = _
        rw [accepted_snoc, hd.accepted_eq, hsent]
        rfl
      · rw [delivered_snoc]
        exact hd.delivered_eq.trans (List.append_nil _).symm
      · show List.Forall₂ (Encodes lib) (d.waiting ++ [e.input]) (contents q)
        rw [hq]
        exact List.rel_append hd.waiting (List.Forall₂.cons henc List.Forall₂.nil)
    · have hnone : acceptedAt (p, .other e) = none := if_neg hret
      exact ⟨d, hd.of_eq hnone rfl rfl hq⟩
  | call c _ => exact ⟨d, hd.of_eq rfl rfl rfl rfl⟩
  | read _ hturn =>
    obtain ⟨content, q, hrun, hnil, rfl⟩ := turn_eq_true hturn
    rw [hread] at hrun
    rcases read_cases hmq p.reader.readQ with ⟨content', q', hrun', hq⟩ | ⟨q', hrun', -⟩
    · rw [hrun'] at hrun
      obtain ⟨rfl, rfl⟩ := EStateM.Result.ok.inj hrun
      exact hd.fetch hlib hq
    · rw [hrun'] at hrun
      exact absurd (EStateM.Result.ok.inj hrun).1.symm hnil
  | returned _ hturn hfinish =>
    obtain ⟨q, hrun, rfl⟩ := turn_eq_false hturn
    rw [hread] at hrun
    rcases read_cases hmq p.reader.readQ with ⟨content', q', hrun', hq⟩ | ⟨q', hrun', hq⟩
    · rw [hrun'] at hrun
      obtain ⟨rfl, rfl⟩ := EStateM.Result.ok.inj hrun
      exact absurd rfl (hd.ne_nil [] (by rw [hq]; exact List.mem_cons_self))
    · rw [hrun'] at hrun
      obtain ⟨-, rfl⟩ := EStateM.Result.ok.inj hrun
      exact hd.finish hq hfinish
  | closed _ hturn _ =>
    obtain ⟨q, hrun, -⟩ := turn_eq_error hturn
    exact absurd hrun (read_ne_error hmq _)
  | threw _ _ hturn =>
    obtain ⟨q, hrun, -⟩ := turn_eq_error hturn
    exact absurd hrun (read_ne_error hmq _)

/-- **End-to-end delivery.** Take any interleaving of `sendMsg` calls at one ambassador with the
steps of calls of `getOneMsg`, and of `getAllMsg`, at its peer, from an empty queue. What was sent
with result 0 is, in order, what `getOneMsg` took from the buffer, then what is in the buffer, then
what the messages in the queue were made from. -/
theorem sendMsg_delivered (hlib : lib.Lawful) (hmq : Bounded mq contents) {q₀ : Q}
    (hq₀ : contents q₀ = []) {t : List (Peer Q × PeerEvent Sent)} {p : Peer Q}
    (h : Run (PeerStep lib memory (msgQImpl mq stack writeBool readBool)
      (sends lib mq writeBool' readBool')) { reader := { readQ := q₀ } } t p) :
    delivered t <+: accepted t ∧
    ∃ waiting, accepted t
        = delivered t ++ (p.reader.readContentQ.map Received.response ++ waiting) ∧
      List.Forall₂ (Encodes lib) waiting (contents p.reader.readQ) := by
  have haccount : ∃ d, Accounts lib contents t p d := by
    induction h with
    | nil => exact ⟨{}, rfl, rfl, rfl, by rw [hq₀]; exact List.Forall₂.nil⟩
    | snoc _ hstep ih =>
      obtain ⟨d, hd⟩ := ih
      exact hstep.account hlib hmq hd
  obtain ⟨d, hd⟩ := haccount
  have hbalanced := d.balanced
  have hdelivered := d.delivered_prefix
  rw [hd.accepted_eq, hd.delivered_eq] at hbalanced hdelivered
  rw [hd.buffered_eq] at hbalanced
  exact ⟨hdelivered, d.waiting, hbalanced, hd.waiting⟩

end

/-! ### A message -/

/-- The attributes of a message. -/
def testAttrs : Std.ExtTreeMap Bytes Bytes compare := .ofList [(ascii "test", ascii "success")]

/-- The message `{"attrs":{"test":"success"},"resType":1}`. -/
def testResponse : Response := { resType := .inputReq, attrs := testAttrs }

/-- Its text. -/
def testText : Bytes :=
  ascii "\x7b\"attrs\":\x7b\"test\":\"success\"\x7d,\"resType\":1\x7d"

/-- The JSON library on this message. -/
def testLib : JsonLib where
  parse text := if text = testText ∨ text = testText ++ [0] then some testResponse.toJson else none
  dump j := (Response.ofJson j).bind fun res =>
    if res.resType = .inputReq ∧ res.attrs.toList = testAttrs.toList then some testText else none

theorem testLib_dump (res : Response) : testLib.dump res.toJson =
    if res.resType = .inputReq ∧ res.attrs.toList = testAttrs.toList then some testText
    else none := by
  show (Response.ofJson res.toJson).bind _ = _
  rw [Response.ofJson_toJson, Option.bind_some]

theorem testLib_dump_eq_some {res : Response} {text : Bytes}
    (h : testLib.dump res.toJson = some text) :
    res.toJson = testResponse.toJson ∧ text = testText := by
  rw [testLib_dump] at h
  split_ifs at h with hres
  refine ⟨?_, (Option.some.inj h).symm⟩
  rw [Response.toJson, Response.toJson, hres.1, hres.2]
  rfl

theorem nul_not_mem_testText : (0 : UInt8) ∉ testText := by decide

theorem testLib_lawful : testLib.Lawful where
  parse_dump res text h := by
    obtain ⟨hjson, rfl⟩ := testLib_dump_eq_some h
    rw [hjson]
    have hparse : ∀ text, text = testText → testLib.parse text = some testResponse.toJson :=
      fun text htext => if_pos (Or.inl htext)
    exact hparse testText rfl
  nul_not_mem_dump res text h := (testLib_dump_eq_some h).2 ▸ nul_not_mem_testText
  parse_nul text h := by
    have hshort : text ++ [0] ≠ testText := by
      intro heq
      have hmem : (0 : UInt8) ∈ text ++ [0] := List.mem_append_right _ (List.mem_singleton_self _)
      exact nul_not_mem_testText (heq ▸ hmem)
    have hlong : text ≠ testText ++ [0] := by
      rintro rfl
      exact h (List.mem_append_right _ (List.mem_singleton_self _))
    simp [testLib, hshort, hlong]

/-- The queue of the program, as a list. -/
abbrev listQueue : MessageQueue (List Bytes) Bytes :=
  boundedQueue MSG_MAX_COUNT fun message => message.length ≤ MSG_MAX_SIZE

/-- The steps of two ambassadors that share it. -/
abbrev TestStep : Peer (List Bytes) → PeerEvent Sent → Peer (List Bytes) → Prop :=
  PeerStep testLib (fun _ => .empty) (msgQImpl listQueue (fun _ => 0) false true)
    (sends testLib listQueue true false)

/-- The bytes of the message. -/
def testMessage : Bytes := testText ++ [0]

/-- The object that is made when the message is read. -/
def testReceived : Received :=
  { address := 0, response := .ofString testLib .empty (Bytes.view testMessage) }

theorem testResponse_toString : testResponse.toString testLib = some testText := by
  rw [Response.toString, testLib_dump]
  exact if_pos ⟨rfl, rfl⟩

theorem testReceived_response : testReceived.response = testResponse :=
  Encodes.ofString testLib_lawful ⟨testText, testResponse_toString, rfl⟩ .empty

/-- The message is sent. -/
theorem testStep_send : TestStep { reader := { readQ := [] } }
    (.other { input := testResponse, returned := some 0 })
    { reader := { readQ := [testMessage] } } := by
  have hwrite : (sendMsg testLib (msgQImpl listQueue (fun _ => 0) true false) testResponse).run []
      = (msgQImpl.write listQueue (fun _ => 0) true (Bytes.view testText)).run [] := by
    simp [sendMsg, testResponse_toString, msgQImpl]
  rw [write_run nul_not_mem_testText] at hwrite
  exact PeerStep.other (p := { reader := { readQ := [] } }) ⟨fun _ => 0, hwrite⟩

/-- The reader's process in a call, with the message in the queue. -/
def testWaiting : Peer (List Bytes) :=
  { reader := { readQ := [testMessage] }, call := some .getOneMsg }

/-- The reader's process in a call, with the message in the buffer. -/
def testBuffered : Peer (List Bytes) :=
  { reader := { readQ := [], readContentQ := [testReceived], made := 1 }, call := some .getOneMsg }

theorem testStep_read : TestStep testWaiting .read testBuffered :=
  PeerStep.read (p := testWaiting) rfl rfl

theorem testStep_returned : TestStep testBuffered (.returned (.one testReceived))
    { reader := { readQ := [], made := 1 } } :=
  PeerStep.returned (p := testBuffered) rfl rfl rfl

/-- One message is sent, and got. -/
theorem sendMsg_delivered_test :
    ∃ t p, Run TestStep { reader := { readQ := [] } } t p ∧ delivered t = [testResponse] ∧
      delivered t <+: accepted t ∧
      ∃ waiting, accepted t
          = delivered t ++ (p.reader.readContentQ.map Received.response ++ waiting) ∧
        List.Forall₂ (Encodes testLib) waiting p.reader.readQ := by
  have hrun := (((Run.nil.snoc testStep_send).snoc (PeerStep.call .getOneMsg rfl)).snoc
    testStep_read).snoc testStep_returned
  exact ⟨_, _, hrun, congrArg (fun res => [res]) testReceived_response,
    sendMsg_delivered testLib_lawful (boundedQueue_isFifo _ _) rfl hrun⟩

end SocialGaming
