import SocialGaming.Library.Outcome
import SocialGaming.Library.MessageQueue
import SocialGaming.Library.Runs
import Std.Data.ExtTreeMap

/-!
# The ambassador

The server and the event loop are two processes that talk through two message queues. Each has an
`Ambassador`, which turns a `Response` into JSON text and writes it to one queue, and reads the
other queue into a buffer of its own.

## Design

A `std::string` here is a list of bytes, since a message is. A view is what lies from its pointer
on, with the number of bytes it covers: `data()` alone does not say where the view ends.

The message queue and the JSON library are not part of the program, so they are parameters. `Json`
tells apart only what the two conversions of a `Response` tell apart.

What an uninitialised object holds is a parameter too: the bytes of the array `write` copies into,
and the type of a `Response` whose text could not be read, for which no constructor has a value.

A `shared_ptr<Response>` is the number of the `make_shared` that made the object, with what it was
made with.

## Main definitions

* `MsgType`, `Response` — what is sent, and its conversions
* `MsgQ`, `msgQImpl` — the interface of a queue, and its implementation
* `Ambassador.sendMsg`, `Ambassador.getAllMsg`, `Ambassador.getOneMsg`

## Main results

* `Response.ofJson_toJson` — a `Response` is read back from its own document
-/

namespace SocialGaming

open Std (ExtTreeMap)

/-- The bytes of a `std::string`. -/
abbrev Bytes : Type := List UInt8

/-- The bytes of an ASCII literal. -/
def ascii (s : String) : Bytes := s.toList.map fun c => UInt8.ofNat c.toNat

/-- A `std::string_view`: the bytes from `data()` on, and `size()`. -/
structure StringView where
  data : Bytes
  size : ℕ

/-- The view of a string, whose bytes are followed by a NUL. -/
def Bytes.view (s : Bytes) : StringView := { data := s ++ [0], size := s.length }

namespace StringView

/-- The bytes the view covers. -/
def text (v : StringView) : Bytes := v.data.take v.size

/-- What `data()` is as a C string, which ends before the first NUL. -/
def cString (v : StringView) : Option Bytes :=
  if (0 : UInt8) ∈ v.data then some (v.data.takeWhile (· ≠ 0)) else none

end StringView

@[simp] theorem text_view (s : Bytes) : s.view.text = s := List.take_left

theorem cString_view {s : Bytes} (h : (0 : UInt8) ∉ s) : s.view.cString = some s := by
  have hmem : (0 : UInt8) ∈ s.view.data := List.mem_append_right s (List.mem_singleton_self 0)
  have htake : s.view.data.takeWhile (· ≠ 0) = s := by
    rw [Bytes.view, List.takeWhile_append_of_pos]
    · simp
    · intro b hb
      have hb0 : b ≠ 0 := by
        rintro rfl
        exact h hb
      simpa using hb0
  rw [StringView.cString, if_pos hmem, htake]

/-- What a string is as a C string is no longer than the string. -/
theorem exists_cString_view (s : Bytes) :
    ∃ text, s.view.cString = some text ∧ text.length ≤ s.length := by
  refine ⟨_, if_pos (List.mem_append_right s (List.mem_singleton_self 0)), ?_⟩
  rw [Bytes.view, List.takeWhile_append]
  split
  · simp
  · exact (List.takeWhile_sublist _).length_le

/-! ### Responses -/

/-- What is thrown when messages are sent and read. -/
inductive AmbassadorExn where
  | queueClosed
  | json
  | interprocess
  deriving DecidableEq, Repr

/-- `enum msgType`, with the values that are not those of an enumerator. -/
inductive MsgType where
  | queueClosed
  | empty
  | inputReq
  | inputRes
  | configReq
  | configRes
  | gameInit
  | gameMade
  | gameStart
  | gameEnd
  | playerJoin
  | playerAck
  | playerNack
  | displayMsg
  | displayScores
  | other (code : Int32) (h : code < -1 ∨ 13 < code)
  deriving DecidableEq

namespace MsgType

/-- The value of an enumerator. -/
def code : MsgType → Int32
  | queueClosed => -1
  | empty => 0
  | inputReq => 1
  | inputRes => 2
  | configReq => 3
  | configRes => 4
  | gameInit => 5
  | gameMade => 6
  | gameStart => 7
  | gameEnd => 8
  | playerJoin => 9
  | playerAck => 10
  | playerNack => 11
  | displayMsg => 12
  | displayScores => 13
  | other code _ => code

/-- The enumerators in the order of their values. -/
def enumerators : List MsgType :=
  [queueClosed, empty, inputReq, inputRes, configReq, configRes, gameInit, gameMade, gameStart,
    gameEnd, playerJoin, playerAck, playerNack, displayMsg, displayScores]

/-- `static_cast<msgType>`. -/
def ofCode (code : Int32) : MsgType :=
  if h : code < -1 ∨ 13 < code then other code h
  else enumerators.getD (code.toInt + 1).toNat empty

@[simp] theorem ofCode_code (t : MsgType) : ofCode t.code = t := by
  cases t with
  | other code h => exact dif_pos h
  | _ => decide

end MsgType

/-- `class Response`. -/
structure Response where
  resType : MsgType := .empty
  attrs : ExtTreeMap Bytes Bytes compare := ∅

/-- A JSON document: an object by its members in the order of the keys, a number as the `int` it is
converted to, and every other kind of value as one. -/
inductive Json where
  | object (members : List (Bytes × Json))
  | string (text : Bytes)
  | number (n : Int32)
  | other

namespace Json

/-- `at`, which throws when there is no such member. -/
def «at» (j : Json) (key : Bytes) : Option Json :=
  match j with
  | object members => members.lookup key
  | _ => none

/-- The conversion to an enumeration. -/
def getEnum : Json → Option MsgType
  | number n => some (MsgType.ofCode n)
  | _ => none

/-- The conversion to a `std::string`. -/
def getString : Json → Option Bytes
  | string text => some text
  | _ => none

/-- The conversion to a `std::map` of strings. -/
def getMap : Json → Option (ExtTreeMap Bytes Bytes compare)
  | object members => do
    let entries ← members.mapM fun member => do return (member.1, ← member.2.getString)
    return .ofList entries compare
  | _ => none

end Json

/-- The two functions of the JSON library. They throw on a text that is no document, and on a
document that is not valid UTF-8. -/
structure JsonLib where
  parse : Bytes → Option Json
  dump : Json → Option Bytes

namespace Response

/-- `to_json`. -/
def toJson (res : Response) : Json :=
  .object [(ascii "attrs", .object (res.attrs.toList.map fun entry => (entry.1, .string entry.2))),
    (ascii "resType", .number res.resType.code)]

/-- `from_json`. -/
def ofJson (j : Json) : Option Response := do
  let resType ← (← j.at (ascii "resType")).getEnum
  let attrs ← (← j.at (ascii "attrs")).getMap
  return { resType, attrs }

variable (lib : JsonLib)

/-- `Response(string_view)`, on an object whose type holds `memory`. -/
def ofString (memory : MsgType) (src : StringView) : Response :=
  match (lib.parse src.text).bind ofJson with
  | some res => res
  | none => { resType := memory }

/-- `toString`. -/
def toString (res : Response) : Option Bytes := lib.dump res.toJson

/-- `setType`. -/
def setType (aType : MsgType) (res : Response) : Response := { res with resType := aType }

/-- `setAttr`. The two views are read as C strings. -/
def setAttr (aKey aVal : StringView) (res : Response) : Except (Fault AmbassadorExn) Response := do
  let some key := aKey.cString | throw (.undefined .pastEnd)
  let some val := aVal.cString | throw (.undefined .pastEnd)
  return { res with attrs := res.attrs.insert key val }

end Response

/-- A map is made again from its own entries. -/
theorem ofList_toList (m : ExtTreeMap Bytes Bytes compare) :
    ExtTreeMap.ofList m.toList compare = m := by
  apply ExtTreeMap.ext_getElem?
  intro k
  cases h : m[k]? with
  | none =>
    refine ExtTreeMap.getElem?_ofList_of_contains_eq_false ?_
    rw [ExtTreeMap.map_fst_toList_eq_keys, ExtTreeMap.contains_keys,
      ← ExtTreeMap.isSome_getElem?_eq_contains, h]
    rfl
  | some v =>
    exact ExtTreeMap.getElem?_ofList_of_mem Std.ReflCmp.compare_self
      ExtTreeMap.distinct_keys_toList (ExtTreeMap.mem_toList_iff_getElem?_eq_some.mpr h)

/-- The members of a map of strings are converted back. -/
theorem mapM_getString (entries : List (Bytes × Bytes)) :
    (entries.map fun entry => (entry.1, Json.string entry.2)).mapM
      (fun member => do return (member.1, ← member.2.getString)) = some entries := by
  induction entries with
  | nil => rfl
  | cons entry entries ih =>
    rw [List.map_cons, List.mapM_cons, ih]
    rfl

/-- **A `Response` is read back from its own document.** -/
theorem Response.ofJson_toJson (res : Response) : ofJson res.toJson = some res := by
  have hmap : (Json.object (res.attrs.toList.map fun entry =>
      (entry.1, .string entry.2))).getMap = some res.attrs := by
    rw [Json.getMap, mapM_getString]
    exact congrArg some (ofList_toList res.attrs)
  have htype : res.toJson.at (ascii "resType") = some (.number res.resType.code) := rfl
  have hattrs : res.toJson.at (ascii "attrs") = some (.object (res.attrs.toList.map fun entry =>
      (entry.1, .string entry.2))) := rfl
  rw [ofJson, htype, hattrs, Option.bind_eq_bind, Option.bind_some, Json.getEnum,
    MsgType.ofCode_code]
  simp [hmap]

/-! ### Queues -/

/-- `struct msgQ`. -/
structure MsgQ (σ : Type) where
  read : Prog AmbassadorExn σ Bytes
  write : StringView → Prog AmbassadorExn σ Int32

/-- `MSG_MAX_SIZE`. -/
def MSG_MAX_SIZE : ℕ := 600

/-- `MSG_MAX_COUNT`. -/
def MSG_MAX_COUNT : ℕ := 100

section

variable {Q : Type} (mq : MessageQueue Q Bytes)

/-- `msgQImpl::read`. -/
def msgQImpl.read (readBool : Bool) : Prog AmbassadorExn Q Bytes := do
  if !readBool then return []
  let (received, q) := mq.tryReceive (← get)
  set q
  match received with
  | none => return []
  | some newBuf => return newBuf

/-- `msgQImpl::write`, on an array that holds `stack`. -/
def msgQImpl.write (stack : ℕ → UInt8) (writeBool : Bool) (input : StringView) :
    Prog AmbassadorExn Q Int32 := do
  if !writeBool then return -1
  -- `strcpy` reads up to the NUL, and writes as much, wherever the view ends
  let some text := input.cString | throw (.undefined .pastEnd)
  if input.size < text.length then throw (.undefined .pastEnd)
  let newBuf := text ++ 0 :: (List.range (input.size - text.length)).map stack
  let (sending, q) := mq.trySend newBuf (← get)
  set q
  match sending with
  | .tooLarge => throw (.thrown .interprocess)
  | .full => return -1
  | .sent => return 0

/-- `struct msgQImpl`. -/
def msgQImpl (stack : ℕ → UInt8) (writeBool readBool : Bool) : MsgQ Q where
  read := msgQImpl.read mq readBool
  write := msgQImpl.write mq stack writeBool

end

/-! ### The ambassador -/

/-- A `shared_ptr` to a `Response`. -/
structure Received where
  address : ℕ
  response : Response

/-- An `Ambassador` as a reader: the queue it reads, its buffer, and how many objects it has
made. -/
structure Reader (σ : Type) where
  readQ : σ
  readContentQ : List Received := []
  made : ℕ := 0

/-- The call a reader is in. -/
inductive ReadCall where
  | getAllMsg
  | getOneMsg
  deriving DecidableEq, Repr

/-- What such a call returns. -/
inductive ReadResult where
  | all (messages : List Received)
  | one (message : Received)

namespace Ambassador

variable {σ : Type} (lib : JsonLib)

/-- `sendMsg`. -/
def sendMsg (writeQ : MsgQ σ) (input : Response) : Prog AmbassadorExn σ Int32 := do
  let some text := input.toString lib | throw (.thrown .json)
  writeQ.write (Bytes.view text)

/-- `std::make_shared`. -/
def makeShared (res : Response) : Prog AmbassadorExn (Reader σ) Received := do
  let s ← get
  set { s with made := s.made + 1 }
  return { address := s.made, response := res }

variable (memory : ℕ → MsgType) (readQ : MsgQ σ)

/-- `readQ->read()`. -/
def read : Prog AmbassadorExn (Reader σ) Bytes := fun s =>
  match readQ.read.run s.readQ with
  | .ok content q => .ok content { s with readQ := q }
  | .error e q => .error e { s with readQ := q }

/-- The loop of `getAllMsg`, once round: whether a message was read. -/
def getAllMsg.turn : Prog AmbassadorExn (Reader σ) Bool := do
  let content ← read readQ
  if content = [] then return false
  let res := Response.ofString lib (memory (← get).made) (Bytes.view content)
  let newRes ← makeShared res
  modify fun s => { s with readContentQ := s.readContentQ ++ [newRes] }
  return true

/-- The handler of `getAllMsg`. -/
def getAllMsg.handler : Prog AmbassadorExn (Reader σ) Unit := do
  let newRes ← makeShared { resType := .queueClosed }
  modify fun s => { s with readContentQ := [newRes] }

/-- The loop of `getAllMsg`, for as many rounds as there are. -/
def getAllMsg.loop : ℕ → Prog AmbassadorExn (Reader σ) Unit
  | 0 => throw .diverged
  | rounds + 1 => do
    if ← getAllMsg.turn lib memory readQ then getAllMsg.loop rounds

/-- The end of `getOneMsg`. -/
def getOneMsg.takeFront : Prog AmbassadorExn (Reader σ) Received := do
  match (← get).readContentQ with
  | [] => makeShared {}
  | res :: rest =>
    modify fun s => { s with readContentQ := rest }
    return res

/-- `getAllMsg`. -/
def getAllMsg (rounds : ℕ) : Prog AmbassadorExn (Reader σ) (List Received) := do
  try getAllMsg.loop lib memory readQ rounds
  catch
    | .thrown .queueClosed => getAllMsg.handler
    | e => throw e
  return (← get).readContentQ

/-- `getOneMsg`. -/
def getOneMsg (rounds : ℕ) : Prog AmbassadorExn (Reader σ) Received := do
  let _ ← getAllMsg lib memory readQ rounds
  getOneMsg.takeFront

end Ambassador

/-! ### Two processes -/

section

variable {σ ε : Type}

/-- The reader's process: its ambassador and the call it is in. -/
structure Peer (σ : Type) where
  reader : Reader σ
  call : Option ReadCall := none

/-- What happens. -/
inductive PeerEvent (ε : Type) where
  /-- Something happens to the queue on the other side. -/
  | other (e : ε)
  | call (c : ReadCall)
  /-- A message is read into the buffer. -/
  | read
  | returned (result : ReadResult)
  /-- The queue turned out to be closed, and the call returned. -/
  | closed (result : ReadResult)
  /-- The call threw. -/
  | threw

open Ambassador

/-- What a call does when its loop is over. -/
def ReadCall.finish : ReadCall → Prog AmbassadorExn (Reader σ) ReadResult
  | .getAllMsg => do return .all (← get).readContentQ
  | .getOneMsg => do return .one (← Ambassador.getOneMsg.takeFront)

/-- A call with nothing in between. -/
def ReadCall.run (lib : JsonLib) (memory : ℕ → MsgType) (readQ : MsgQ σ) (rounds : ℕ) :
    ReadCall → Prog AmbassadorExn (Reader σ) ReadResult
  | .getAllMsg => do return .all (← Ambassador.getAllMsg lib memory readQ rounds)
  | .getOneMsg => do return .one (← Ambassador.getOneMsg lib memory readQ rounds)

/-- One step of the reader's process or of whatever is on the other side of its queue. The two
meet at the queue only, so a turn of the loop is a step of its own. -/
inductive PeerStep (lib : JsonLib) (memory : ℕ → MsgType) (readQ : MsgQ σ)
    (other : σ → ε → σ → Prop) : Peer σ → PeerEvent ε → Peer σ → Prop
  | other {p : Peer σ} {e : ε} {q : σ} (h : other p.reader.readQ e q) :
      PeerStep lib memory readQ other p (.other e)
        { p with reader := { p.reader with readQ := q } }
  | call {p : Peer σ} (c : ReadCall) (h : p.call = none) :
      PeerStep lib memory readQ other p (.call c) { p with call := some c }
  | read {p : Peer σ} {c : ReadCall} {r : Reader σ} (h : p.call = some c)
      (hturn : (getAllMsg.turn lib memory readQ).run p.reader = .ok true r) :
      PeerStep lib memory readQ other p .read { p with reader := r }
  | returned {p : Peer σ} {c : ReadCall} {r r' : Reader σ} {result : ReadResult}
      (h : p.call = some c)
      (hturn : (getAllMsg.turn lib memory readQ).run p.reader = .ok false r)
      (hfinish : c.finish.run r = .ok result r') :
      PeerStep lib memory readQ other p (.returned result) { reader := r' }
  | closed {p : Peer σ} {c : ReadCall} {r r' : Reader σ} {result : ReadResult}
      (h : p.call = some c)
      (hturn : (getAllMsg.turn lib memory readQ).run p.reader = .error (.thrown .queueClosed) r)
      (hfinish : (getAllMsg.handler >>= fun _ => c.finish).run r = .ok result r') :
      PeerStep lib memory readQ other p (.closed result) { reader := r' }
  | threw {p : Peer σ} {c : ReadCall} {r : Reader σ} {e : AmbassadorExn} (h : p.call = some c)
      (he : e ≠ .queueClosed)
      (hturn : (getAllMsg.turn lib memory readQ).run p.reader = .error (.thrown e) r) :
      PeerStep lib memory readQ other p .threw { reader := r }

end

end SocialGaming
