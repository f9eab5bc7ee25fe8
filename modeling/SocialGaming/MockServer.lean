import SocialGaming.AmbassadorDelivery
import SocialGaming.Responses
import SocialGaming.Library.Refinement

/-!
# The server and the answer process of the prototype

`mockServer` sends what it is told to on the console, and prints what comes back; `mockAnswer` is to
mirror back whatever it gets, until it gets a message that ends it. They talk through two queues,
each with a bound, and neither looks at whether its message could be sent.

## Design

Each of the two queues is a `Peer`: the process that reads it and whatever the other one sends. What
has happened at a queue is remembered with it, so that what was sent through it and what was got is
read off its history. What the console makes `createResponse` return is any `Response`. Printing and
sleeping are left out.

## Main definitions

* `mockAnswer.react` — what `mockAnswer` does with a message, and `mirrored` — what it is to send
* `Echo`, `EchoStep` — the two processes, and one step of either
* `Echo.Kept` — what every step keeps

## Main results

* `echo_text` — what comes back in every run
* `echo_catches_up` — `mockAnswer` never gets stuck
-/

namespace SocialGaming

open Ambassador

/-! ### Mirroring -/

/-- What is done with a message. -/
inductive Reaction where
  | stop
  | skip
  | mirror
  deriving DecidableEq, Repr

/-- What the loop of `mockAnswer` does with a message. -/
def mockAnswer.react (res : Response) : Except (Fault AmbassadorExn) Reaction := do
  if res.resType = .queueClosed then return .stop
  else if res.resType ≠ .empty then
    if (← res.getAttr (Bytes.view (ascii "val"))) = ascii "end" then return .stop
    return .mirror
  else return .skip

/-- What the destructor of an `Ambassador` sends. -/
def closingNotice : Response := Response.setType .queueClosed {}

/-- What is to be sent for messages that are got one after the other. -/
def mirrored : List Response → List Response
  | [] => []
  | res :: rest =>
    match mockAnswer.react res with
    | .ok .mirror => res :: mirrored rest
    | .ok .skip => mirrored rest
    | _ => []

/-- None of the messages ends `mockAnswer`. -/
def Endless (messages : List Response) : Prop :=
  ∀ res ∈ messages, mockAnswer.react res ≠ .ok .stop

/-- A message is looked at without a fault. -/
theorem exists_react (res : Response) : ∃ reaction, mockAnswer.react res = .ok reaction := by
  have hval : (Bytes.view (ascii "val")).cString = some (ascii "val") :=
    cString_view (by decide)
  rw [mockAnswer.react, Response.getAttr, hval]
  split
  · exact ⟨_, rfl⟩
  · split
    · by_cases hmem : ascii "val" ∈ res.attrs
      · by_cases hend : res.attrs.getD (ascii "val") [] = ascii "end"
        · exact ⟨.stop, by simp [hmem, hend]; rfl⟩
        · exact ⟨.mirror, by simp [hmem, hend]; rfl⟩
      · exact ⟨.mirror, by simp [hmem]; rfl⟩
    · exact ⟨_, rfl⟩

theorem mirrored_sublist (messages : List Response) : (mirrored messages).Sublist messages := by
  induction messages with
  | nil => exact List.Sublist.refl _
  | cons res rest ih =>
    rw [mirrored]
    split
    · exact ih.cons_cons res
    · exact ih.cons res
    · exact List.nil_sublist _

/-- As long as nothing ends it, what is mirrored is mirrored one after the other. -/
theorem mirrored_append {messages : List Response} (h : Endless messages) (rest : List Response) :
    mirrored (messages ++ rest) = mirrored messages ++ mirrored rest := by
  induction messages with
  | nil => rfl
  | cons res messages ih =>
    have hrest := ih fun r hr => h r (List.mem_cons_of_mem res hr)
    obtain ⟨reaction, hreact⟩ := exists_react res
    rw [List.cons_append, mirrored, mirrored, hreact]
    cases reaction with
    | stop => exact absurd hreact (h res List.mem_cons_self)
    | skip => exact hrest
    | mirror => exact congrArg (res :: ·) hrest

/-- What comes after the end is not looked at. -/
theorem mirrored_append_of_not_endless {messages : List Response} (h : ¬ Endless messages)
    (rest : List Response) : mirrored (messages ++ rest) = mirrored messages := by
  induction messages with
  | nil => exact absurd (fun res hres => absurd hres List.not_mem_nil) h
  | cons res messages ih =>
    obtain ⟨reaction, hreact⟩ := exists_react res
    have hrest : reaction ≠ .stop → ¬ Endless messages := by
      intro hne hendless
      refine h fun r hr => ?_
      obtain rfl | hr := List.mem_cons.mp hr
      · rw [hreact]
        exact fun heq => hne (Except.ok.inj heq)
      · exact hendless r hr
    rw [List.cons_append, mirrored, mirrored, hreact]
    cases reaction with
    | stop => rfl
    | skip => exact ih (hrest (by decide))
    | mirror => exact congrArg (res :: ·) (ih (hrest (by decide)))

/-- What is mirrored of a beginning is a beginning of what is mirrored. -/
theorem mirrored_mono {messages messages' : List Response} (h : messages <+: messages') :
    mirrored messages <+: mirrored messages' := by
  obtain ⟨rest, rfl⟩ := h
  induction messages with
  | nil => exact List.nil_prefix
  | cons res messages ih =>
    rw [List.cons_append, mirrored, mirrored]
    split
    · exact List.cons_prefix_cons.mpr ⟨rfl, ih⟩
    · exact ih
    · exact List.prefix_rfl

/-- Only what is to be mirrored is. -/
theorem react_of_mem_mirrored {messages : List Response} {res : Response}
    (h : res ∈ mirrored messages) : mockAnswer.react res = .ok .mirror := by
  induction messages with
  | nil => cases h
  | cons first messages ih =>
    rw [mirrored] at h
    split at h
    · rename_i hreact
      obtain rfl | h := List.mem_cons.mp h
      · exact hreact
      · exact ih h
    · exact ih h
    · cases h

/-! ### The two processes -/

/-- Where the `main` of `mockServer` is. -/
inductive ServerMain where
  /-- On the console, in `createResponse`. -/
  | asking
  /-- In the loop around `getOneMsg`. -/
  | draining
  | ended
  | failed

/-- Where the `main` of `mockAnswer` is. -/
inductive AnswerMain where
  /-- In `getOneMsg`, or about to call it. -/
  | reading
  | mirroring (res : Response)
  /-- After the loop. -/
  | ending
  | ended
  | failed

/-- What `mockServer` does when `getOneMsg` has returned. -/
def ServerMain.got (res : Response) : ServerMain :=
  if res.resType ≠ .empty then .draining else .asking

/-- What `mockAnswer` does when `getOneMsg` has returned. -/
def AnswerMain.got (res : Response) : AnswerMain :=
  match mockAnswer.react res with
  | .ok .stop => .ending
  | .ok .skip => .reading
  | .ok .mirror => .mirroring res
  | .error _ => .failed

/-- Where a process is after a step of its call of `getOneMsg`. -/
def afterRead {main : Type} (got : Response → main) (failed same : main) : PeerEvent Sent → main
  | .returned (.one message) => got message.response
  | .closed (.one message) => got message.response
  | .threw => failed
  | _ => same

/-- A step of a call of `getOneMsg`. -/
def PeerEvent.OfGetOneMsg : PeerEvent Sent → Prop
  | .other _ => False
  | .call c => c = .getOneMsg
  | _ => True

/-- The two processes. -/
structure Echo (Q : Type) where
  /-- `mockServer`, with the queue it reads. -/
  server : Peer Q
  /-- `mockAnswer`, with the queue it reads. -/
  answer : Peer Q
  serverMain : ServerMain := .asking
  answerMain : AnswerMain := .reading
  /-- What has happened at the queue to `mockServer`. -/
  toServer : List (Peer Q × PeerEvent Sent) := []
  /-- What has happened at the queue to `mockAnswer`. -/
  toAnswer : List (Peer Q × PeerEvent Sent) := []

/-- Who takes a step. -/
inductive Party where
  | server
  | answer
  deriving DecidableEq, Repr

section

variable {Q : Type}

/-- Both have started, and neither has done anything. -/
def Echo.new (toServer toAnswer : Q) : Echo Q :=
  { server := { reader := { readQ := toServer } }, answer := { reader := { readQ := toAnswer } } }

/-- Something happens at the queue to `mockServer`. -/
def Echo.atServer (e : PeerEvent Sent) (server : Peer Q) (t : Echo Q) : Echo Q :=
  { t with server, toServer := t.toServer ++ [(t.server, e)] }

/-- Something happens at the queue to `mockAnswer`. -/
def Echo.atAnswer (e : PeerEvent Sent) (answer : Peer Q) (t : Echo Q) : Echo Q :=
  { t with answer, toAnswer := t.toAnswer ++ [(t.answer, e)] }

variable (lib : JsonLib) (mq : MessageQueue Q Bytes) (memory : Party → ℕ → MsgType)
  (stack : ℕ → UInt8)

/-- Something can happen at the queue that `reader` reads, and the other one writes. -/
abbrev QueueStep (reader : Party) : Peer Q → PeerEvent Sent → Peer Q → Prop :=
  PeerStep lib (memory reader) (msgQImpl mq stack false true) (sends lib mq true false)

/-- One step of one of the two. What `sendMsg` returns is ignored; what it throws is not caught. -/
inductive EchoStep : Echo Q → Party → Echo Q → Prop
  /-- `mockServer` sends what `createResponse` made. -/
  | ask {t : Echo Q} {newRes : Response} {returned : Option Int32} {answer : Peer Q}
      (h : t.serverMain = .asking)
      (hsend : QueueStep lib mq memory stack .answer t.answer
        (.other { input := newRes, returned }) answer) :
      EchoStep t .server { t.atAnswer (.other { input := newRes, returned }) answer with
        serverMain := if returned = none then .failed else .draining }
  /-- `mockServer` in its call of `getOneMsg`. -/
  | serverReads {t : Echo Q} {e : PeerEvent Sent} {server : Peer Q} (h : t.serverMain = .draining)
      (hcall : e.OfGetOneMsg) (hread : QueueStep lib mq memory stack .server t.server e server) :
      EchoStep t .server { t.atServer e server with
        serverMain := afterRead ServerMain.got .failed .draining e }
  /-- The user ends `mockServer`, and its ambassador is destroyed. -/
  | serverEnds {t : Echo Q} {returned : Option Int32} {answer : Peer Q}
      (h : t.serverMain = .asking)
      (hsend : QueueStep lib mq memory stack .answer t.answer
        (.other { input := closingNotice, returned }) answer) :
      EchoStep t .server { t.atAnswer (.other { input := closingNotice, returned }) answer with
        serverMain := if returned = none then .failed else .ended }
  /-- `mockAnswer` in its call of `getOneMsg`. -/
  | answerReads {t : Echo Q} {e : PeerEvent Sent} {answer : Peer Q} (h : t.answerMain = .reading)
      (hcall : e.OfGetOneMsg) (hread : QueueStep lib mq memory stack .answer t.answer e answer) :
      EchoStep t .answer { t.atAnswer e answer with
        answerMain := afterRead AnswerMain.got .failed .reading e }
  /-- `mockAnswer` mirrors a message back. -/
  | answerMirrors {t : Echo Q} {res : Response} {returned : Option Int32} {server : Peer Q}
      (h : t.answerMain = .mirroring res)
      (hsend : QueueStep lib mq memory stack .server t.server
        (.other { input := res, returned }) server) :
      EchoStep t .answer { t.atServer (.other { input := res, returned }) server with
        answerMain := if returned = none then .failed else .reading }
  /-- The ambassador of `mockAnswer` is destroyed. -/
  | answerEnds {t : Echo Q} {returned : Option Int32} {server : Peer Q}
      (h : t.answerMain = .ending)
      (hsend : QueueStep lib mq memory stack .server t.server
        (.other { input := closingNotice, returned }) server) :
      EchoStep t .answer { t.atServer (.other { input := closingNotice, returned }) server with
        answerMain := if returned = none then .failed else .ended }

variable {lib mq memory stack} {contents : Q → List Bytes}

/-! ### What can be sent -/

/-- The message has a text, which fits into a queue. -/
def Sendable (lib : JsonLib) (res : Response) : Prop :=
  ∃ text, res.toString lib = some text ∧ (text ++ [0]).length ≤ MSG_MAX_SIZE

/-- What was sent can be sent again, and what can be sent never makes `sendMsg` throw. -/
theorem sends_sendable (hlib : lib.Lawful) (hmq : Bounded mq contents) {q q' : Q} {e : Sent}
    (h : sends lib mq true false q e q') :
    (e.returned = some 0 → Sendable lib e.input) ∧
      (Sendable lib e.input → e.returned ≠ none) := by
  obtain ⟨stack, h⟩ := h
  cases htext : e.input.toString lib with
  | none =>
    have hrun : (sendMsg lib (msgQImpl mq stack true false) e.input).run q
        = .error (.thrown .json) q := by simp [sendMsg, htext]
    refine ⟨fun hsent => ?_, ?_⟩
    · simp [hsent, hrun] at h
    · rintro ⟨text, hsome, -⟩
      rw [htext] at hsome
      cases hsome
  | some text =>
    have hrun : (sendMsg lib (msgQImpl mq stack true false) e.input).run q
        = (msgQImpl.write mq stack true (Bytes.view text)).run q := by
      simp [sendMsg, htext, msgQImpl]
    rw [hrun, write_run (hlib.nul_not_mem_dump e.input text htext)] at h
    rcases hsend : mq.trySend (text ++ [0]) q with ⟨_ | _ | _, u⟩
    · obtain ⟨-, hfits, -⟩ := hmq.sent _ _ _ hsend
      refine ⟨fun _ => ⟨text, htext, hfits⟩, fun _ hnone => ?_⟩
      simp [hsend, hnone] at h
    · refine ⟨fun hsent => ?_, fun _ hnone => ?_⟩
      · simp [hsend, hsent] at h
      · simp [hsend, hnone] at h
    · obtain ⟨-, hlarge⟩ := hmq.tooLarge _ _ _ hsend
      refine ⟨fun hsent => ?_, ?_⟩
      · simp [hsend, hsent] at h
      · rintro ⟨text', htext', hfits⟩
        rw [htext] at htext'
        obtain rfl := Option.some.inj htext'
        exact absurd hfits hlarge

/-! ### What every step keeps -/

/-- What the writer of a queue called `sendMsg` with. -/
def attempted (t : List (Peer Q × PeerEvent Sent)) : List Response :=
  t.filterMap fun p =>
    match p.2 with
    | .other e => some e.input
    | _ => none

/-- What `mockAnswer` has called `sendMsg` with, when it has got these messages. -/
def AnswerMain.Mirrors (taken attempts : List Response) : AnswerMain → Prop
  | .reading => Endless taken ∧ attempts = mirrored taken
  | .mirroring res => Endless taken ∧ attempts ++ [res] = mirrored taken
  | .ending => ¬ Endless taken ∧ attempts = mirrored taken
  | .ended => ¬ Endless taken ∧ attempts = mirrored taken ++ [closingNotice]
  | .failed => False

/-- What every step keeps. -/
structure Echo.Kept (lib : JsonLib) (contents : Q → List Bytes) (t : Echo Q) : Prop where
  toServer : ∃ d, Accounts lib contents t.toServer t.server d
  toAnswer : ∃ d, Accounts lib contents t.toAnswer t.answer d
  sendable : ∀ res ∈ accepted t.toAnswer, Sendable lib res
  call : t.answer.call ≠ some .getAllMsg
  mirrors : t.answerMain.Mirrors (delivered t.toAnswer) (attempted t.toServer)

theorem attempted_snoc (t : List (Peer Q × PeerEvent Sent)) (p : Peer Q × PeerEvent Sent) :
    attempted (t ++ [p]) = attempted t ++ attempted [p] := by
  rw [attempted, attempted, attempted, List.filterMap_append]

/-- Nothing is attempted by a call of `getOneMsg`. -/
theorem attempted_of_getOneMsg {p : Peer Q} {e : PeerEvent Sent} (h : e.OfGetOneMsg) :
    attempted [(p, e)] = [] := by
  cases e with
  | other e => exact absurd h id
  | _ => rfl

theorem acceptedAt_of_getOneMsg {p : Peer Q} {e : PeerEvent Sent} (h : e.OfGetOneMsg) :
    acceptedAt (p, e) = none := by
  cases e with
  | other e => exact absurd h id
  | _ => rfl

/-- **What a step of a call of `getOneMsg` gives `mockAnswer`**: a message that was taken from the
buffer, or nothing that it would not skip. -/
theorem afterRead_cases (hmq : Bounded mq contents) {p p' : Peer Q} {e : PeerEvent Sent}
    (h : QueueStep lib mq memory stack .answer p e p') (hcall : e.OfGetOneMsg)
    (hone : p.call ≠ some .getAllMsg) : p'.call ≠ some .getAllMsg ∧
      ((deliveredAt (p, e) = none ∧ afterRead AnswerMain.got .failed .reading e = .reading) ∨
        ∃ res, deliveredAt (p, e) = some res ∧
          afterRead AnswerMain.got .failed .reading e = .got res) := by
  have hread : (msgQImpl mq stack false true).read = msgQImpl.read mq true := rfl
  cases h with
  | other _ => exact absurd hcall id
  | call c _ =>
    obtain rfl : c = .getOneMsg := hcall
    exact ⟨by rintro ⟨⟩, Or.inl ⟨rfl, rfl⟩⟩
  | read _ _ => exact ⟨hone, Or.inl ⟨rfl, rfl⟩⟩
  | @returned c r r' result hin hturn hfinish =>
    refine ⟨by rintro ⟨⟩, ?_⟩
    obtain ⟨q, -, rfl⟩ := turn_eq_false hturn
    cases c with
    | getAllMsg => exact absurd hin hone
    | getOneMsg =>
      cases hbuffer : p.reader.readContentQ with
      | nil =>
        have hnil : ({ p.reader with readQ := q } : Reader Q).readContentQ = [] := hbuffer
        obtain ⟨rfl, rfl⟩ := EStateM.Result.ok.inj ((finish_getOneMsg_nil hnil).symm.trans hfinish)
        exact Or.inl ⟨by rw [deliveredAt, hbuffer]; rfl, rfl⟩
      | cons message rest =>
        have hcons : ({ p.reader with readQ := q } : Reader Q).readContentQ = message :: rest :=
          hbuffer
        obtain ⟨rfl, rfl⟩ :=
          EStateM.Result.ok.inj ((finish_getOneMsg_cons hcons).symm.trans hfinish)
        exact Or.inr ⟨message.response, by rw [deliveredAt, hbuffer]; rfl, rfl⟩
  | closed _ hturn _ =>
    obtain ⟨q, hrun, -⟩ := turn_eq_error hturn
    rw [hread] at hrun
    exact absurd hrun (read_ne_error hmq _)
  | threw _ _ hturn =>
    obtain ⟨q, hrun, -⟩ := turn_eq_error hturn
    rw [hread] at hrun
    exact absurd hrun (read_ne_error hmq _)

/-- `mockAnswer` gets a message. -/
theorem AnswerMain.mirrors_got {taken attempts : List Response}
    (h : AnswerMain.reading.Mirrors taken attempts) (res : Response) :
    (AnswerMain.got res).Mirrors (taken ++ [res]) attempts := by
  obtain ⟨hendless, rfl⟩ := h
  have hmirrored := mirrored_append hendless [res]
  obtain ⟨reaction, hreact⟩ := exists_react res
  have hconcat : reaction ≠ .stop → Endless (taken ++ [res]) := by
    intro hne r hr
    obtain hr | hr := List.mem_append.mp hr
    · exact hendless r hr
    · obtain rfl := List.mem_singleton.mp hr
      rw [hreact]
      exact fun heq => hne (Except.ok.inj heq)
  have hlast : mirrored [res] = if reaction = .mirror then [res] else [] := by
    rw [mirrored, hreact]
    cases reaction with
    | stop => rfl
    | skip => rfl
    | mirror => rfl
  rw [AnswerMain.got, hreact]
  cases reaction with
  | stop =>
    refine ⟨fun hall => hall res (List.mem_append_right _ (List.mem_singleton_self res)) hreact, ?_⟩
    rw [hmirrored, hlast]
    exact (List.append_nil _).symm
  | skip =>
    refine ⟨hconcat (by decide), ?_⟩
    rw [hmirrored, hlast]
    exact (List.append_nil _).symm
  | mirror =>
    refine ⟨hconcat (by decide), ?_⟩
    rw [hmirrored, hlast]
    rfl

namespace EchoStep

variable {t t' : Echo Q} {party : Party}

/-- The account of a queue is kept, whoever takes a step at it. -/
theorem exists_account (hlib : lib.Lawful) (hmq : Bounded mq contents) {reader : Party}
    {p p' : Peer Q} {e : PeerEvent Sent} {before : List (Peer Q × PeerEvent Sent)}
    (h : QueueStep lib mq memory stack reader p e p')
    (hd : ∃ d, Accounts lib contents before p d) :
    ∃ d, Accounts lib contents (before ++ [(p, e)]) p' d := by
  obtain ⟨d, hd⟩ := hd
  exact h.account hlib hmq hd

/-- What is sent leaves the reader's call as it is. -/
theorem call_of_send {reader : Party} {p p' : Peer Q} {e : Sent}
    (h : QueueStep lib mq memory stack reader p (.other e) p') :
    p'.call = p.call ∧ sends lib mq true false p.reader.readQ e p'.reader.readQ := by
  cases h with
  | other h => exact ⟨rfl, h⟩

/-- What `mockAnswer` gets can be sent. -/
theorem sendable_of_mirroring (h : t.Kept lib contents) {res : Response}
    (hmain : t.answerMain = .mirroring res) : Sendable lib res := by
  have hmirrors := h.mirrors
  rw [hmain] at hmirrors
  have hmem : res ∈ mirrored (delivered t.toAnswer) :=
    hmirrors.2 ▸ List.mem_append_right _ (List.mem_singleton_self res)
  obtain ⟨d, hd⟩ := h.toAnswer
  have hbegins := d.delivered_prefix
  rw [hd.accepted_eq, hd.delivered_eq] at hbegins
  exact h.sendable res (hbegins.subset ((mirrored_sublist _).subset hmem))

/-- `mockServer` sends. -/
theorem kept_atAnswer_send (hlib : lib.Lawful) (hmq : Bounded mq contents)
    (h : t.Kept lib contents) {e : Sent} {answer : Peer Q}
    (hsend : QueueStep lib mq memory stack .answer t.answer (.other e) answer)
    (serverMain : ServerMain) :
    Echo.Kept lib contents { t.atAnswer (.other e) answer with serverMain } where
  toServer := h.toServer
  toAnswer := exists_account hlib hmq hsend h.toAnswer
  sendable res hres := by
    have hres' : res ∈ accepted t.toAnswer ++ (acceptedAt (t.answer, .other e)).toList :=
      accepted_snoc t.toAnswer _ ▸ hres
    obtain hres' | hres' := List.mem_append.mp hres'
    · exact h.sendable res hres'
    · have hsent : (if e.returned = some 0 then some e.input else none) = some res :=
        Option.mem_toList.mp hres'
      obtain ⟨hzero, hsame⟩ := Option.ite_none_right_eq_some.mp hsent
      obtain rfl := Option.some.inj hsame
      exact (sends_sendable hlib hmq (call_of_send hsend).2).1 hzero
  call := (call_of_send hsend).1 ▸ h.call
  mirrors := by
    show t.answerMain.Mirrors (delivered (t.toAnswer ++ [_])) _
    rw [delivered_snoc]
    exact (List.append_nil (delivered t.toAnswer)).symm ▸ h.mirrors

/-- `mockAnswer` sends, and is where it is to be then. -/
theorem kept_atServer_send (hlib : lib.Lawful) (hmq : Bounded mq contents)
    (h : t.Kept lib contents) {e : Sent} {server : Peer Q}
    (hsend : QueueStep lib mq memory stack .server t.server (.other e) server)
    {answerMain : AnswerMain} (hmirrors : answerMain.Mirrors (delivered t.toAnswer)
      (attempted t.toServer ++ [e.input])) :
    Echo.Kept lib contents { t.atServer (.other e) server with answerMain } where
  toServer := exists_account hlib hmq hsend h.toServer
  toAnswer := h.toAnswer
  sendable := h.sendable
  call := h.call
  mirrors := by
    show answerMain.Mirrors _ (attempted (t.toServer ++ [_]))
    rw [attempted_snoc]
    exact hmirrors

/-- **Every step keeps it.** -/
theorem kept (hlib : lib.Lawful) (hmq : Bounded mq contents) (hclosing : Sendable lib closingNotice)
    (hstep : EchoStep lib mq memory stack t party t') (h : t.Kept lib contents) :
    t'.Kept lib contents := by
  cases hstep with
  | ask _ hsend => exact kept_atAnswer_send hlib hmq h hsend _
  | serverEnds _ hsend => exact kept_atAnswer_send hlib hmq h hsend _
  | @serverReads e server _ hcall hread =>
    refine ⟨exists_account hlib hmq hread h.toServer, h.toAnswer, h.sendable, h.call, ?_⟩
    show t.answerMain.Mirrors _ (attempted (t.toServer ++ [_]))
    rw [attempted_snoc, attempted_of_getOneMsg hcall, List.append_nil]
    exact h.mirrors
  | @answerReads e answer hmain hcall hread =>
    obtain ⟨hone, hgot⟩ := afterRead_cases hmq hread hcall h.call
    refine ⟨h.toServer, exists_account hlib hmq hread h.toAnswer, ?_, hone, ?_⟩
    · show ∀ res ∈ accepted (t.toAnswer ++ [_]), _
      rw [accepted_snoc, acceptedAt_of_getOneMsg hcall]
      exact (List.append_nil (accepted t.toAnswer)).symm ▸ h.sendable
    · have hmirrors := h.mirrors
      rw [hmain] at hmirrors
      show (afterRead AnswerMain.got .failed .reading e).Mirrors
        (delivered (t.toAnswer ++ [_])) (attempted t.toServer)
      rw [delivered_snoc]
      obtain ⟨hnone, hsame⟩ | ⟨res, hsome, hmain'⟩ := hgot
      · rw [hnone, hsame]
        exact (List.append_nil (delivered t.toAnswer)).symm ▸ hmirrors
      · rw [hsome, hmain']
        exact AnswerMain.mirrors_got hmirrors res
  | @answerMirrors res returned server hmain hsend =>
    have hne := (sends_sendable hlib hmq (call_of_send hsend).2).2 (sendable_of_mirroring h hmain)
    have hmirrors := h.mirrors
    rw [hmain] at hmirrors
    rw [if_neg hne]
    exact kept_atServer_send hlib hmq h hsend hmirrors
  | @answerEnds returned server hmain hsend =>
    have hne := (sends_sendable hlib hmq (call_of_send hsend).2).2 hclosing
    have hmirrors := h.mirrors
    rw [hmain] at hmirrors
    rw [if_neg hne]
    exact kept_atServer_send hlib hmq h hsend
      ⟨hmirrors.1, congrArg (· ++ [closingNotice]) hmirrors.2⟩

end EchoStep

/-! ### What comes back -/

/-- What was sent is among what was to be sent, and is all of it when nothing was refused. -/
theorem accepted_sublist_attempted (t : List (Peer Q × PeerEvent Sent)) :
    (accepted t).Sublist (attempted t) ∧
      ((∀ p ∈ t, ∀ e, p.2 = .other e → e.returned = some 0) → accepted t = attempted t) := by
  induction t with
  | nil => exact ⟨List.Sublist.refl _, fun _ => rfl⟩
  | cons p t ih =>
    obtain ⟨peer, e⟩ := p
    have haccepted : accepted ((peer, e) :: t) = (acceptedAt (peer, e)).toList ++ accepted t := by
      rw [accepted, List.filterMap_cons]
      cases acceptedAt (peer, e) with
      | none => rfl
      | some res => rfl
    rw [haccepted]
    cases e with
    | other e =>
      have hattempted : attempted ((peer, .other e) :: t) = e.input :: attempted t := rfl
      rw [hattempted]
      by_cases hzero : e.returned = some 0
      · have hsome : acceptedAt (peer, .other e) = some e.input := if_pos hzero
        rw [hsome]
        exact ⟨ih.1.cons_cons _, fun hall => congrArg (e.input :: ·)
          (ih.2 fun p hp => hall p (List.mem_cons_of_mem _ hp))⟩
      · have hnone : acceptedAt (peer, .other e) = none := if_neg hzero
        rw [hnone]
        exact ⟨ih.1.cons _, fun hall => absurd (hall _ List.mem_cons_self e rfl) hzero⟩
    | _ => exact ⟨ih.1, fun hall => ih.2 fun p hp => hall p (List.mem_cons_of_mem _ hp)⟩

/-- What `mockAnswer` has called `sendMsg` with is a beginning of the mirror of all that was sent
to it, and of its own notice. -/
theorem AnswerMain.Mirrors.begins {main : AnswerMain} {taken sent attempts : List Response}
    (h : main.Mirrors taken attempts) (htaken : taken <+: sent) :
    attempts <+: mirrored sent ++ [closingNotice] := by
  have hmirrored : mirrored taken <+: mirrored sent ++ [closingNotice] :=
    (mirrored_mono htaken).trans (List.prefix_append _ _)
  cases main with
  | reading => exact h.2 ▸ hmirrored
  | mirroring res => exact (List.prefix_append attempts [res]).trans (h.2 ▸ hmirrored)
  | ending => exact h.2 ▸ hmirrored
  | ended =>
    obtain ⟨rest, rfl⟩ := htaken
    have heq : attempts = mirrored (taken ++ rest) ++ [closingNotice] := by
      rw [h.2, mirrored_append_of_not_endless h.1]
    exact heq ▸ List.prefix_rfl
  | failed => exact absurd h id

/-- `mockAnswer` sends a closing notice when it has ended, and not before. -/
theorem AnswerMain.Mirrors.ended {main : AnswerMain} {taken attempts : List Response}
    (h : main.Mirrors taken attempts) {res : Response} (hres : res ∈ attempts)
    (hclosed : res.resType = .queueClosed) : main = .ended := by
  have hnot : res ∉ mirrored taken := by
    intro hmem
    have hreact := react_of_mem_mirrored hmem
    have hstop : mockAnswer.react res = .ok .stop := by
      rw [mockAnswer.react, if_pos hclosed]
      rfl
    cases hstop.symm.trans hreact
  cases main with
  | reading => exact absurd (h.2 ▸ hres) hnot
  | mirroring res' => exact absurd (h.2 ▸ List.mem_append_left _ hres) hnot
  | ending => exact absurd (h.2 ▸ hres) hnot
  | ended => rfl
  | failed => exact absurd h id

theorem Echo.kept_new {q₀ q₁ : Q} (hq₀ : contents q₀ = []) (hq₁ : contents q₁ = []) :
    (Echo.new q₀ q₁).Kept lib contents where
  toServer := by
    refine ⟨{}, rfl, rfl, rfl, ?_⟩
    show List.Forall₂ _ [] (contents q₀)
    rw [hq₀]
    exact List.Forall₂.nil
  toAnswer := by
    refine ⟨{}, rfl, rfl, rfl, ?_⟩
    show List.Forall₂ _ [] (contents q₁)
    rw [hq₁]
    exact List.Forall₂.nil
  sendable res hres := absurd hres List.not_mem_nil
  call := by rintro ⟨⟩
  mirrors := ⟨fun res hres => absurd hres List.not_mem_nil, rfl⟩

/-- **What comes back.** In every run of the two processes, whatever is asked for on the console,
`mockAnswer` does not fail, and what `mockServer` gets is among the messages it sent that are to be
mirrored, in order, up to the first that ends `mockAnswer`, and then at most a closing notice, which
it only gets when `mockAnswer` has ended. It gets them without a gap as long as no answer was
refused because the queue was full. -/
theorem echo_text (hlib : lib.Lawful) (hmq : Bounded mq contents)
    (hclosing : Sendable lib closingNotice) {q₀ q₁ : Q} (hq₀ : contents q₀ = [])
    (hq₁ : contents q₁ = []) {trace : List (Echo Q × Party)} {t : Echo Q}
    (h : Run (EchoStep lib mq memory stack) (Echo.new q₀ q₁) trace t) :
    t.answerMain ≠ .failed ∧
    (delivered t.toServer).Sublist (mirrored (accepted t.toAnswer) ++ [closingNotice]) ∧
    (∀ res ∈ delivered t.toServer, res.resType = .queueClosed → t.answerMain = .ended) ∧
    ((∀ p ∈ t.toServer, ∀ e, p.2 = .other e → e.returned = some 0) →
      delivered t.toServer <+: mirrored (accepted t.toAnswer) ++ [closingNotice]) := by
  have hkept : t.Kept lib contents := h.invariant (Echo.kept_new hq₀ hq₁)
    fun _ _ _ hstep hkept => hstep.kept hlib hmq hclosing hkept
  obtain ⟨d, hd⟩ := hkept.toServer
  have hgot := d.delivered_prefix
  rw [hd.accepted_eq, hd.delivered_eq] at hgot
  obtain ⟨d', hd'⟩ := hkept.toAnswer
  have htaken := d'.delivered_prefix
  rw [hd'.accepted_eq, hd'.delivered_eq] at htaken
  obtain ⟨hsublist, hall⟩ := accepted_sublist_attempted t.toServer
  have hbegins := hkept.mirrors.begins htaken
  refine ⟨?_, ?_, fun res hres hclosed => ?_, fun hnone => ?_⟩
  · intro hfailed
    have hmirrors := hkept.mirrors
    rw [hfailed] at hmirrors
    exact hmirrors
  · exact hgot.sublist.trans (hsublist.trans hbegins.sublist)
  · exact hkept.mirrors.ended (hsublist.subset (hgot.subset hres)) hclosed
  · exact hgot.trans (hall hnone ▸ hbegins)

/-! ### Everything is answered -/

variable (memory stack) in
/-- Something becomes of every call of `sendMsg`. -/
theorem exists_queueStep_send (hlib : lib.Lawful) (hmq : Bounded mq contents) (reader : Party)
    (p : Peer Q) (input : Response) : ∃ returned p', QueueStep lib mq memory stack reader p
      (.other { input, returned }) p' := by
  obtain ⟨q', message, hrun, -⟩ | ⟨q', hrun, -⟩ | ⟨e, q', hrun, -⟩ :=
    sendMsg_cases stack true false hlib hmq input p.reader.readQ
  · exact ⟨some 0, _, PeerStep.other ⟨stack, hrun⟩⟩
  · exact ⟨some (-1), _, PeerStep.other ⟨stack, hrun⟩⟩
  · exact ⟨none, _, PeerStep.other ⟨stack, e, hrun⟩⟩

variable (lib memory stack) in
/-- A reading turn takes a message from the queue, or there is none. -/
theorem exists_queueStep_read (hmq : Bounded mq contents) (reader : Party) {p : Peer Q}
    (hcall : p.call = some .getOneMsg) (hnil : ∀ message ∈ contents p.reader.readQ, message ≠ []) :
    (∃ p', QueueStep lib mq memory stack reader p .read p' ∧ p'.call = some .getOneMsg ∧
      (contents p.reader.readQ).length = (contents p'.reader.readQ).length + 1) ∨
    ∃ message p', QueueStep lib mq memory stack reader p (.returned (.one message)) p' ∧
      p'.call = none ∧ contents p.reader.readQ = [] ∧ contents p'.reader.readQ = [] ∧
      p'.reader.readContentQ = p.reader.readContentQ.tail := by
  have hread : (msgQImpl mq stack false true).read = msgQImpl.read mq true := rfl
  rcases hreceive : mq.tryReceive p.reader.readQ with ⟨_ | content, q⟩
  · have hrun : (msgQImpl.read mq true).run p.reader.readQ = .ok [] q := by
      simp [msgQImpl.read, hreceive]
    have hturn : (getAllMsg.turn lib (memory reader) (msgQImpl mq stack false true)).run p.reader
        = .ok false { p.reader with readQ := q } := by
      simp [turn_run, hread, hrun]
    obtain ⟨hempty, hempty'⟩ := hmq.none_received _ _ hreceive
    refine Or.inr ?_
    cases hbuffer : p.reader.readContentQ with
    | nil =>
      have hnil : ({ p.reader with readQ := q } : Reader Q).readContentQ = [] := hbuffer
      exact ⟨_, _, PeerStep.returned hcall hturn (finish_getOneMsg_nil hnil), rfl, hempty, hempty',
        hbuffer⟩
    | cons message rest =>
      have hcons : ({ p.reader with readQ := q } : Reader Q).readContentQ = message :: rest :=
        hbuffer
      exact ⟨_, _, PeerStep.returned hcall hturn (finish_getOneMsg_cons hcons), rfl, hempty,
        hempty', rfl⟩
  · have hfirst := hmq.received _ _ _ hreceive
    have hrun : (msgQImpl.read mq true).run p.reader.readQ = .ok content q := by
      simp [msgQImpl.read, hreceive]
    have hne : content ≠ [] := hnil content (hfirst ▸ List.mem_cons_self)
    have hturn : (getAllMsg.turn lib (memory reader) (msgQImpl mq stack false true)).run p.reader
        = .ok true (p.reader.push lib (memory reader) q content) := by
      simp [turn_run, hread, hrun, hne]
    exact Or.inl ⟨_, PeerStep.read hcall hturn, hcall, congrArg List.length hfirst⟩

/-- One state leads to another by steps of `mockAnswer`. -/
abbrev Echo.Answers (lib : JsonLib) (mq : MessageQueue Q Bytes) (memory : Party → ℕ → MsgType)
    (stack : ℕ → UInt8) : Echo Q → Echo Q → Prop :=
  Reaches (EchoStep lib mq memory stack) (· = .answer)

/-- How many messages have been sent and not got. -/
def Echo.left (t : Echo Q) : ℕ := (accepted t.toAnswer).length - (delivered t.toAnswer).length

namespace Echo.Kept

variable {t : Echo Q}

/-- They are in the buffer and in the queue. -/
theorem left_eq (h : t.Kept lib contents) : t.left
    = t.answer.reader.readContentQ.length + (contents t.answer.reader.readQ).length := by
  obtain ⟨d, hd⟩ := h.toAnswer
  have hbalanced := congrArg List.length d.balanced
  rw [List.length_append, List.length_append, hd.buffered_eq, List.length_map,
    hd.waiting.length_eq, hd.accepted_eq, hd.delivered_eq] at hbalanced
  rw [Echo.left]
  omega

/-- What was got is a beginning of what was sent. -/
theorem delivered_isPrefix (h : t.Kept lib contents) :
    delivered t.toAnswer <+: accepted t.toAnswer := by
  obtain ⟨d, hd⟩ := h.toAnswer
  have hbegins := d.delivered_prefix
  rwa [hd.accepted_eq, hd.delivered_eq] at hbegins

/-- No message in the queue is empty. -/
theorem ne_nil (h : t.Kept lib contents) :
    ∀ message ∈ contents t.answer.reader.readQ, message ≠ [] := by
  obtain ⟨d, hd⟩ := h.toAnswer
  exact hd.ne_nil

end Echo.Kept

/-- Nothing is sent by a step of the reader's own. -/
theorem accepted_atAnswer (t : Echo Q) {e : PeerEvent Sent} (h : e.OfGetOneMsg) (answer : Peer Q) :
    accepted (t.atAnswer e answer).toAnswer = accepted t.toAnswer := by
  show accepted (t.toAnswer ++ [_]) = _
  rw [accepted_snoc, acceptedAt_of_getOneMsg h]
  exact List.append_nil _

section

variable (hlib : lib.Lawful) (hmq : Bounded mq contents) (hclosing : Sendable lib closingNotice)

include hlib hmq hclosing

theorem Echo.Answers.kept {t t' : Echo Q} (h : Echo.Answers lib mq memory stack t t')
    (ht : t.Kept lib contents) : t'.Kept lib contents :=
  h.invariant ht fun _ _ _ hstep hkept => hstep.kept hlib hmq hclosing hkept

/-- The messages in the queue are read, and one is got. -/
theorem Echo.exists_gets_of_call {t : Echo Q} (h : t.Kept lib contents)
    (hmain : t.answerMain = .reading) (hcall : t.answer.call = some .getOneMsg)
    (hpos : 0 < t.left) : ∃ t', Echo.Answers lib mq memory stack t t' ∧
      accepted t'.toAnswer = accepted t.toAnswer ∧ t'.left < t.left := by
  induction hlength : (contents t.answer.reader.readQ).length generalizing t with
  | zero =>
    obtain ⟨answer, -, -, hlonger⟩ | ⟨message, answer, hstep, -, hempty, hempty', hbuffer⟩ :=
      exists_queueStep_read lib memory stack hmq .answer hcall h.ne_nil
    · omega
    · have hown : PeerEvent.OfGetOneMsg (.returned (.one message)) := True.intro
      have hreads := EchoStep.answerReads hmain hown hstep
      refine ⟨_, Reaches.single hreads rfl, accepted_atAnswer t hown answer, ?_⟩
      have hleft := (hreads.kept hlib hmq hclosing h).left_eq
      refine Nat.lt_of_le_of_lt (Nat.le_of_eq hleft) ?_
      show answer.reader.readContentQ.length + (contents answer.reader.readQ).length < _
      have hlength' : (contents t.answer.reader.readQ).length = 0 := congrArg List.length hempty
      rw [hempty', hbuffer, List.length_tail, List.length_nil]
      rw [h.left_eq] at hpos ⊢
      omega
  | succ n ih =>
    obtain ⟨answer, hstep, hcall', hlonger⟩ | ⟨message, answer, -, -, hempty, -⟩ :=
      exists_queueStep_read lib memory stack hmq .answer hcall h.ne_nil
    · have hown : PeerEvent.OfGetOneMsg .read := True.intro
      have hreads := EchoStep.answerReads hmain hown hstep
      have hsame : ({ t.atAnswer .read answer with answerMain := .reading } : Echo Q).left
          = t.left := by
        rw [Echo.left, Echo.left]
        show (accepted (t.atAnswer .read answer).toAnswer).length
          - (delivered (t.toAnswer ++ [_])).length = _
        rw [accepted_atAnswer t hown, delivered_snoc]
        exact congrArg (_ - List.length ·) (List.append_nil _)
      have hlength' : (contents answer.reader.readQ).length = n := by omega
      obtain ⟨t', hanswers, haccepted, hleft⟩ :=
        ih (hreads.kept hlib hmq hclosing h) rfl hcall' (hsame.symm ▸ hpos) hlength'
      have hread : Echo.Answers lib mq memory stack t _ := Reaches.single hreads rfl
      refine ⟨t', hread.trans hanswers, ?_, hsame ▸ hleft⟩
      exact haccepted.trans (accepted_atAnswer t hown answer)
    · rw [hempty] at hlength
      cases hlength

variable (memory stack) in
/-- A message that was sent can be got. -/
theorem Echo.exists_gets {t : Echo Q} (h : t.Kept lib contents) (hmain : t.answerMain = .reading)
    (hpos : 0 < t.left) : ∃ t', Echo.Answers lib mq memory stack t t' ∧
      accepted t'.toAnswer = accepted t.toAnswer ∧ t'.left < t.left := by
  cases hcall : t.answer.call with
  | some c =>
    cases c with
    | getAllMsg => exact absurd hcall h.call
    | getOneMsg => exact Echo.exists_gets_of_call hlib hmq hclosing h hmain hcall hpos
  | none =>
    have hown : PeerEvent.OfGetOneMsg (.call .getOneMsg) := rfl
    have hcalls : EchoStep lib mq memory stack t .answer _ :=
      EchoStep.answerReads hmain hown (PeerStep.call .getOneMsg hcall)
    have haccepted := accepted_atAnswer t hown { t.answer with call := some .getOneMsg }
    have hcalled : Echo.Answers lib mq memory stack t _ := Reaches.single hcalls rfl
    have hkept := hcalls.kept hlib hmq hclosing h
    have hsame := hkept.left_eq.trans h.left_eq.symm
    obtain ⟨t', hanswers, haccepted', hleft⟩ :=
      Echo.exists_gets_of_call hlib hmq hclosing hkept rfl rfl (hsame.symm ▸ hpos)
    exact ⟨t', hcalled.trans hanswers, haccepted'.trans haccepted, hsame ▸ hleft⟩

variable (memory stack) in
/-- `mockAnswer` does what it has to do with the message it has got. -/
theorem Echo.exists_settled {t : Echo Q} (h : t.Kept lib contents) :
    ∃ t', Echo.Answers lib mq memory stack t t' ∧ t'.toAnswer = t.toAnswer ∧
      (t'.answerMain = .reading ∨ t'.answerMain = .ended) := by
  cases hmain : t.answerMain with
  | reading => exact ⟨t, Reaches.refl t, rfl, Or.inl hmain⟩
  | ended => exact ⟨t, Reaches.refl t, rfl, Or.inr hmain⟩
  | failed =>
    have hmirrors := h.mirrors
    rw [hmain] at hmirrors
    exact absurd hmirrors id
  | mirroring res =>
    obtain ⟨returned, server, hsend⟩ := exists_queueStep_send memory stack hlib hmq .server
      t.server res
    have hne := (sends_sendable hlib hmq (EchoStep.call_of_send hsend).2).2
      (EchoStep.sendable_of_mirroring h hmain)
    exact ⟨_, Reaches.single (EchoStep.answerMirrors hmain hsend) rfl, rfl, Or.inl (if_neg hne)⟩
  | ending =>
    obtain ⟨returned, server, hsend⟩ := exists_queueStep_send memory stack hlib hmq .server
      t.server closingNotice
    have hne := (sends_sendable hlib hmq (EchoStep.call_of_send hsend).2).2 hclosing
    exact ⟨_, Reaches.single (EchoStep.answerEnds hmain hsend) rfl, rfl, Or.inr (if_neg hne)⟩

/-- **Everything is answered.** After every run of the two processes, steps of `mockAnswer` alone
lead to a state in which it has called `sendMsg` for all that was sent to it and is to be mirrored,
in order, and then for its notice if one of the messages ended it. -/
theorem echo_catches_up {q₀ q₁ : Q} (hq₀ : contents q₀ = []) (hq₁ : contents q₁ = [])
    {trace : List (Echo Q × Party)} {t : Echo Q}
    (h : Run (EchoStep lib mq memory stack) (Echo.new q₀ q₁) trace t) :
    ∃ t', Echo.Answers lib mq memory stack t t' ∧
      accepted t'.toAnswer = accepted t.toAnswer ∧
      ((t'.answerMain = .reading ∧ attempted t'.toServer = mirrored (accepted t.toAnswer)) ∨
        t'.answerMain = .ended ∧
          attempted t'.toServer = mirrored (accepted t.toAnswer) ++ [closingNotice]) := by
  have hkept : t.Kept lib contents := h.invariant (Echo.kept_new hq₀ hq₁)
    fun _ _ _ hstep hkept => hstep.kept hlib hmq hclosing hkept
  clear h
  induction hleft : t.left using Nat.strongRecOn generalizing t with
  | ind n ih =>
    obtain ⟨u, hsettles, hsame, hmain⟩ :=
      Echo.exists_settled memory stack hlib hmq hclosing hkept
    have hkept' : u.Kept lib contents := hsettles.kept hlib hmq hclosing hkept
    have hmirrors := hkept'.mirrors
    have hbegins := hkept'.delivered_isPrefix
    have hleft' : u.left = n := by rw [Echo.left, hsame]; exact hleft
    rw [← hsame]
    obtain hmain | hmain := hmain
    · obtain hzero | hpos := Nat.eq_zero_or_pos u.left
      · -- everything has been got
        have hall : delivered u.toAnswer = accepted u.toAnswer :=
          hbegins.eq_of_length_le (Nat.le_of_sub_eq_zero hzero)
        rw [hmain, hall] at hmirrors
        exact ⟨u, hsettles, rfl, Or.inl ⟨hmain, hmirrors.2⟩⟩
      · obtain ⟨v, hgets, haccepted, hless⟩ :=
          Echo.exists_gets memory stack hlib hmq hclosing hkept' hmain hpos
        obtain ⟨t', hanswers, haccepted', hanswered⟩ :=
          ih v.left (hleft' ▸ hless) (hgets.kept hlib hmq hclosing hkept') rfl
        rw [haccepted] at haccepted' hanswered
        exact ⟨t', (hsettles.trans hgets).trans hanswers, haccepted', hanswered⟩
    · obtain ⟨rest, hrest⟩ := hbegins
      rw [hmain] at hmirrors
      refine ⟨u, hsettles, rfl, Or.inr ⟨hmain, ?_⟩⟩
      rw [hmirrors.2, ← hrest, mirrored_append_of_not_endless hmirrors.1]

end

end

/-! ### A message that is mirrored -/

/-- The text `{"attrs":{},"resType":-1}`. -/
def closingText : Bytes := ascii "\x7b\"attrs\":\x7b\x7d,\"resType\":-1\x7d"

/-- The JSON library on the test message and the notice. -/
def echoLib : JsonLib where
  parse text :=
    if text = closingText ∨ text = closingText ++ [0] then some closingNotice.toJson
    else testLib.parse text
  dump j := if (Response.ofJson j).any fun res =>
      decide (res.resType = .queueClosed ∧ res.attrs.toList = []) then some closingText
    else testLib.dump j

theorem echoLib_dump (res : Response) : echoLib.dump res.toJson =
    if res.resType = .queueClosed ∧ res.attrs.toList = [] then some closingText
    else testLib.dump res.toJson := by
  show (if _ then _ else _) = _
  rw [Response.ofJson_toJson, Option.any_some]
  simp only [decide_eq_true_eq]

theorem echoLib_lawful : echoLib.Lawful where
  parse_dump res text h := by
    rw [echoLib_dump] at h
    split at h
    · rename_i hclosed
      obtain rfl := Option.some.inj h
      have hjson : res.toJson = closingNotice.toJson := by
        rw [Response.toJson, Response.toJson, hclosed.1, hclosed.2]
        rfl
      have hparse : ∀ text, text = closingText →
          echoLib.parse text = some closingNotice.toJson := fun text htext => if_pos (Or.inl htext)
      rw [hjson]
      exact hparse closingText rfl
    · obtain ⟨-, htext⟩ := testLib_dump_eq_some h
      have hother : ¬ (text = closingText ∨ text = closingText ++ [0]) := by
        rw [htext]
        decide
      exact (if_neg hother).trans (testLib_lawful.parse_dump res text h)
  nul_not_mem_dump res text h := by
    rw [echoLib_dump] at h
    split at h
    · obtain rfl := Option.some.inj h
      decide
    · exact testLib_lawful.nul_not_mem_dump res text h
  parse_nul text h := by
    have hshort : text ++ [0] ≠ closingText := by
      intro heq
      have hmem : (0 : UInt8) ∈ closingText := heq ▸ List.mem_append_right _ List.mem_cons_self
      exact absurd hmem (by decide)
    have hlong : text ≠ closingText ++ [0] := by
      rintro rfl
      exact h (List.mem_append_right _ List.mem_cons_self)
    by_cases hsame : text = closingText
    · simp [echoLib, hsame]
    · simp [echoLib, hshort, hlong, hsame, testLib_lawful.parse_nul text h]

theorem sendable_closingNotice : Sendable echoLib closingNotice := by
  refine ⟨closingText, ?_, by decide⟩
  rw [Response.toString, echoLib_dump]
  exact if_pos ⟨rfl, rfl⟩

/-- The steps of two processes that share such queues. -/
abbrev TestEchoStep : Echo (List Bytes) → Party → Echo (List Bytes) → Prop :=
  EchoStep echoLib listQueue (fun _ _ => .empty) fun _ => 0

/-- The test message is sent. -/
theorem run_testEcho : ∃ trace t, Run TestEchoStep (Echo.new [] []) trace t ∧
    accepted t.toAnswer = [testResponse] := by
  have htext : testResponse.toString echoLib = some testText := by
    rw [Response.toString, echoLib_dump, if_neg (by rintro ⟨⟨⟩, -⟩)]
    exact testResponse_toString
  have hwrite : (sendMsg echoLib (msgQImpl listQueue (fun _ => 0) true false) testResponse).run []
      = (msgQImpl.write listQueue (fun _ => 0) true (Bytes.view testText)).run [] := by
    simp [sendMsg, htext, msgQImpl]
  rw [write_run nul_not_mem_testText] at hwrite
  have hsends : sends echoLib listQueue true false [] { input := testResponse, returned := some 0 }
      [testMessage] := ⟨fun _ => 0, hwrite⟩
  exact ⟨_, _, Run.nil.snoc (EchoStep.ask rfl (PeerStep.other hsends)), rfl⟩

theorem mirrored_testResponse : mirrored [testResponse] = [testResponse] := by
  have hreact : mockAnswer.react testResponse = .ok .mirror := by decide
  rw [mirrored, hreact]
  rfl

/-- Nothing but the message, and a notice, can come back. -/
theorem echo_text_test : ∃ trace t, Run TestEchoStep (Echo.new [] []) trace t ∧
    accepted t.toAnswer = [testResponse] ∧
    (delivered t.toServer).Sublist [testResponse, closingNotice] := by
  obtain ⟨trace, t, hrun, hsent⟩ := run_testEcho
  have hgot := (echo_text echoLib_lawful (boundedQueue_isFifo _ _) sendable_closingNotice rfl rfl
    hrun).2.1
  rw [hsent, mirrored_testResponse] at hgot
  exact ⟨trace, t, hrun, hsent, hgot⟩

/-- It is mirrored. -/
theorem echo_catches_up_test : ∃ trace t, Run TestEchoStep (Echo.new [] []) trace t ∧
    (attempted t.toServer = [testResponse] ∨
      attempted t.toServer = [testResponse, closingNotice]) := by
  obtain ⟨trace, t, hrun, hsent⟩ := run_testEcho
  obtain ⟨t', ⟨trace', hrun', -⟩, -, hanswered⟩ := echo_catches_up echoLib_lawful
    (boundedQueue_isFifo _ _) sendable_closingNotice rfl rfl hrun
  rw [hsent, mirrored_testResponse] at hanswered
  exact ⟨_, t', hrun.trans hrun', hanswered.imp And.right And.right⟩

end SocialGaming
