import SocialGaming.AmbassadorRuns
import Mathlib.Logic.Function.Basic

/-!
# What a `Response` holds

The attributes of a `Response` are meant to be a map from byte strings to byte strings. But
`setAttr` and `getAttr` are given views and look at `data()` only, so what they store and look up
are C strings, which may end before the view does, or after it. And a `Response` that is made from a
text has a type only if the text can be read.

## Main definitions

* `Response.getAttr`, `Response.calls` — the answers to a sequence of calls
* `attrAnswers` — what they are for a map
* `Malformed` — texts that no `Response` can be read from

## Main results

* `calls_eq_attrAnswers` — on faithful views the answers are those of a map
* `behavesAsMap_iff` — when they are
* `getOneMsg_malformed` — what `getOneMsg` returns when it reads such a text first
* `becomesEmpty_iff` — when this is EMPTY
-/

namespace SocialGaming

open Ambassador

/-! ### Attributes -/

/-- `getAttr`. -/
def Response.getAttr (aKey : StringView) (res : Response) : Except (Fault AmbassadorExn) Bytes := do
  let some key := aKey.cString | throw (.undefined .pastEnd)
  if key ∈ res.attrs then return res.attrs.getD key []
  return []

/-- A call of one of the two. -/
inductive AttrCall where
  | setAttr (aKey aVal : StringView)
  | getAttr (aKey : StringView)

namespace AttrCall

/-- The keys are among these views. -/
def KeyIn (keys : Set StringView) : AttrCall → Prop
  | setAttr aKey _ => aKey ∈ keys
  | getAttr aKey => aKey ∈ keys

/-- The values are among these views. -/
def ValIn (vals : Set StringView) : AttrCall → Prop
  | setAttr _ aVal => aVal ∈ vals
  | getAttr _ => True

end AttrCall

/-- What the calls of `getAttr` return, one call after the other. -/
def Response.calls : List AttrCall → Response → Except (Fault AmbassadorExn) (List Bytes)
  | [], _ => return []
  | .setAttr aKey aVal :: rest, res => do Response.calls rest (← res.setAttr aKey aVal)
  | .getAttr aKey :: rest, res => do return (← res.getAttr aKey) :: (← Response.calls rest res)

/-- What they return when the attributes are a map, which at first has the empty string
everywhere. -/
def attrAnswers : List AttrCall → (Bytes → Bytes) → List Bytes
  | [], _ => []
  | .setAttr aKey aVal :: rest, m => attrAnswers rest (Function.update m aKey.text aVal.text)
  | .getAttr aKey :: rest, m => m aKey.text :: attrAnswers rest m

/-- Whatever calls are made with these keys and values, the answers are those of a map. -/
def BehavesAsMap (keys vals : Set StringView) : Prop :=
  ∀ calls : List AttrCall, (∀ call ∈ calls, call.KeyIn keys ∧ call.ValIn vals) →
    Response.calls calls {} = .ok (attrAnswers calls fun _ => [])

/-- The keys and values that are stored as they are: each key is a C string, and a value is the C
string at its `data()`. Unless all values are empty, two keys are the same C string exactly if they
are the same bytes. -/
structure FaithfulViews (keys vals : Set StringView) : Prop where
  key : ∀ k ∈ keys, ∃ s, k.cString = some s
  val : keys.Nonempty → ∀ v ∈ vals, v.cString = some v.text
  inj : (∃ v ∈ vals, v.text ≠ []) →
    ∀ k ∈ keys, ∀ k' ∈ keys, k.cString = k'.cString ↔ k.text = k'.text

section

variable {keys vals : Set StringView} {k v : StringView} {s t : Bytes} {res : Response}

theorem getAttr_eq (hk : k.cString = some s) : res.getAttr k = .ok (res.attrs[s]?.getD []) := by
  rw [Response.getAttr, hk]
  by_cases hmem : s ∈ res.attrs
  · simp [hmem, Std.ExtTreeMap.getD_eq_getD_getElem?]
    rfl
  · simp [hmem]
    rfl

theorem setAttr_eq (hk : k.cString = some s) (hv : v.cString = some t) :
    res.setAttr k v = .ok { res with attrs := res.attrs.insert s t } := by
  rw [Response.setAttr, hk, hv]
  rfl

theorem calls_setAttr (hk : k.cString = some s) (hv : v.cString = some t)
    (rest : List AttrCall) : Response.calls (.setAttr k v :: rest) res
      = Response.calls rest { res with attrs := res.attrs.insert s t } := by
  rw [Response.calls, setAttr_eq hk hv]
  rfl

theorem calls_getAttr (hk : k.cString = some s) {rest : List AttrCall} {answers : List Bytes}
    (hrest : Response.calls rest res = .ok answers) :
    Response.calls (.getAttr k :: rest) res = .ok (res.attrs[s]?.getD [] :: answers) := by
  rw [Response.calls, getAttr_eq hk, hrest]
  rfl

/-- The attributes have what the map has, and the map is empty if the values are. -/
structure Represents (keys vals : Set StringView) (res : Response) (m : Bytes → Bytes) : Prop where
  attr : ∀ k ∈ keys, ∀ s, k.cString = some s → res.attrs[s]?.getD [] = m k.text
  empty : (∀ v ∈ vals, v.text = []) → ∀ x, m x = []

theorem represents_empty (keys vals : Set StringView) :
    Represents keys vals {} fun _ => [] where
  attr := by
    intro k _ s _
    simp
  empty := by
    intro _ x
    rfl

/-- A `setAttr` updates both. -/
theorem Represents.setAttr {m : Bytes → Bytes} (h : Represents keys vals res m)
    (hviews : FaithfulViews keys vals) (hk : k ∈ keys) (hv : v ∈ vals) :
    ∃ res', res.setAttr k v = .ok res' ∧
      Represents keys vals res' (Function.update m k.text v.text) := by
  obtain ⟨s, hs⟩ := hviews.key k hk
  refine ⟨_, setAttr_eq hs (hviews.val ⟨k, hk⟩ v hv), ?_, ?_⟩
  · intro k' hk' s' hs'
    rw [Std.ExtTreeMap.getElem?_insert]
    by_cases hempty : ∃ v ∈ vals, v.text ≠ []
    · -- the two keys are one C string if and only if they are one key
      have hinj := hviews.inj hempty k hk k' hk'
      rw [hs, hs', Option.some_inj] at hinj
      by_cases hkey : s = s'
      · simp [hkey, hinj.mp hkey]
      · have htext : k'.text ≠ k.text := fun h => hkey (hinj.mpr h.symm)
        simpa [hkey, htext] using h.attr k' hk' s' hs'
    · -- all values are empty, so it does not matter which of the keys are one
      push Not at hempty
      have hm := h.empty hempty
      by_cases hkey : s = s'
      · simp [hkey, hempty v hv, Function.update_apply, hm]
      · simpa [hkey, hempty v hv, Function.update_apply, hm] using h.attr k' hk' s' hs'
  · intro hempty x
    simp [Function.update_apply, hempty v hv, h.empty hempty]

/-- **The answers on faithful views** are those of a map. -/
theorem calls_eq_attrAnswers (hviews : FaithfulViews keys vals) {calls : List AttrCall}
    (hcalls : ∀ call ∈ calls, call.KeyIn keys ∧ call.ValIn vals) {m : Bytes → Bytes}
    (h : Represents keys vals res m) : Response.calls calls res = .ok (attrAnswers calls m) := by
  induction calls generalizing res m with
  | nil => rfl
  | cons call rest ih =>
    have hrest : ∀ call ∈ rest, call.KeyIn keys ∧ call.ValIn vals :=
      fun call hcall => hcalls call (List.mem_cons_of_mem _ hcall)
    obtain ⟨hkey, hval⟩ := hcalls call List.mem_cons_self
    rcases call with ⟨k, v⟩ | k
    · obtain ⟨res', hset, h'⟩ := h.setAttr hviews hkey hval
      rw [Response.calls, hset, attrAnswers]
      exact ih hrest h'
    · obtain ⟨s, hs⟩ := hviews.key k hkey
      rw [calls_getAttr hs (ih hrest h), h.attr k hkey s hs, attrAnswers]

/-- What is set under one key and looked up under another. -/
theorem BehavesAsMap.set_get (h : BehavesAsMap keys vals) {k' : StringView} (hk : k ∈ keys)
    (hk' : k' ∈ keys) (hv : v ∈ vals) : Response.calls [.setAttr k v, .getAttr k'] {}
      = .ok [if k'.text = k.text then v.text else []] := by
  have hcalls : ∀ call ∈ [AttrCall.setAttr k v, .getAttr k'],
      call.KeyIn keys ∧ call.ValIn vals := by
    simp [AttrCall.KeyIn, AttrCall.ValIn, hk, hk', hv]
  rw [h _ hcalls, attrAnswers, attrAnswers, attrAnswers, Function.update_apply]

theorem calls_set_get {k' : StringView} {s' : Bytes} (hk : k.cString = some s)
    (hv : v.cString = some t) (hk' : k'.cString = some s') :
    Response.calls [.setAttr k v, .getAttr k'] {} = .ok [if s' = s then t else []] := by
  rw [calls_setAttr hk hv, calls_getAttr hk' rfl, Std.ExtTreeMap.getElem?_insert]
  by_cases hkey : s' = s
  · simp [hkey]
  · have hkey' : ¬ s = s' := fun h => hkey h.symm
    simp [hkey, hkey']

/-- A view that is not a C string is read past its end. -/
theorem BehavesAsMap.exists_cString (h : BehavesAsMap keys vals) (hk : k ∈ keys) :
    ∃ s, k.cString = some s := by
  have hget := h [.getAttr k] (by simp [AttrCall.KeyIn, AttrCall.ValIn, hk])
  rcases hs : k.cString with _ | s
  · rw [Response.calls, Response.getAttr, hs] at hget
    cases hget
  · exact ⟨s, rfl⟩

/-- A value is looked up as the C string that it was stored as. -/
theorem BehavesAsMap.cString_val (h : BehavesAsMap keys vals) (hk : k ∈ keys) (hv : v ∈ vals) :
    v.cString = some v.text := by
  have hget := h.set_get hk hk hv
  obtain ⟨s, hs⟩ := h.exists_cString hk
  rcases ht : v.cString with _ | t
  · rw [Response.calls, Response.setAttr, hs, ht] at hget
    cases hget
  · rw [calls_set_get hs ht hs, if_pos rfl, if_pos rfl] at hget
    simpa using hget

/-- A value that is not empty tells the keys apart that it is not set under. -/
theorem BehavesAsMap.cString_key_iff (h : BehavesAsMap keys vals) {k' : StringView} (hk : k ∈ keys)
    (hk' : k' ∈ keys) (hv : v ∈ vals) (hne : v.text ≠ []) :
    k.cString = k'.cString ↔ k.text = k'.text := by
  have hget := h.set_get hk hk' hv
  obtain ⟨s, hs⟩ := h.exists_cString hk
  obtain ⟨s', hs'⟩ := h.exists_cString hk'
  rw [calls_set_get hs (h.cString_val hk hv) hs'] at hget
  have hanswer : (if s' = s then v.text else []) = if k'.text = k.text then v.text else [] := by
    simpa using hget
  rw [hs, hs', Option.some_inj, eq_comm, eq_comm (a := k.text)]
  by_cases hkey : s' = s
  · by_cases htext : k'.text = k.text
    · simp [hkey, htext]
    · simp [hkey, htext, hne] at hanswer
  · by_cases htext : k'.text = k.text
    · simp [hkey, htext, Ne.symm hne] at hanswer
    · simp [hkey, htext]

/-- **When the attributes behave as a map**: when the views that are passed are stored as they
are. -/
theorem behavesAsMap_iff (keys vals : Set StringView) :
    BehavesAsMap keys vals ↔ FaithfulViews keys vals := by
  constructor
  · intro h
    refine ⟨fun k hk => h.exists_cString hk, ?_, ?_⟩
    · rintro ⟨k, hk⟩ v hv
      exact h.cString_val hk hv
    · rintro ⟨v, hv, hne⟩ k hk k' hk'
      exact h.cString_key_iff hk hk' hv hne
  · intro hviews calls hcalls
    exact calls_eq_attrAnswers hviews hcalls (represents_empty keys vals)

end

/-- Three bytes with a NUL in the middle. -/
def nulView (last : UInt8) : StringView := Bytes.view [97, 0, last]

/-- The first two bytes of `"abc"`. -/
def headView : StringView := { data := ascii "abc" ++ [0], size := 2 }

theorem cString_nulView {last : UInt8} : (nulView last).cString = some (ascii "a") := rfl

/-- Two keys that differ after a NUL overwrite each other, and what is set under the first two bytes
of a longer string is not found under these bytes. -/
theorem calls_two_keys :
    Response.calls [.setAttr (nulView 98) (Bytes.view (ascii "1")),
        .setAttr (nulView 99) (Bytes.view (ascii "2")), .getAttr (nulView 98)] {}
      = .ok [ascii "2"] ∧
    attrAnswers [.setAttr (nulView 98) (Bytes.view (ascii "1")),
        .setAttr (nulView 99) (Bytes.view (ascii "2")), .getAttr (nulView 98)] (fun _ => [])
      = [ascii "1"] ∧
    Response.calls [.setAttr headView (Bytes.view (ascii "1")),
        .getAttr (Bytes.view (ascii "ab"))] {} = .ok [[]] ∧
    headView.text = ascii "ab" ∧
    ¬ BehavesAsMap Set.univ Set.univ := by
  have hone : (Bytes.view (ascii "1")).cString = some (ascii "1") := by decide
  have htwo : (Bytes.view (ascii "2")).cString = some (ascii "2") := by decide
  refine ⟨?_, by decide, ?_, by decide, ?_⟩
  · rw [calls_setAttr cString_nulView hone, calls_setAttr cString_nulView htwo,
      calls_getAttr cString_nulView rfl, Std.ExtTreeMap.getElem?_insert_self]
    rfl
  · have hhead : headView.cString = some (ascii "abc") := by decide
    have hab : (Bytes.view (ascii "ab")).cString = some (ascii "ab") := by decide
    rw [calls_set_get hhead hone hab, if_neg (by decide)]
  · intro h
    have hval : headView.cString = some headView.text :=
      h.cString_val (k := headView) trivial trivial
    revert hval
    decide

/-! ### Malformed texts -/

/-- No `Response` can be read from the text: it is no document, or not that of a `Response`. -/
def Malformed (lib : JsonLib) (text : Bytes) : Prop :=
  (lib.parse text).bind Response.ofJson = none

/-- The constructor only prints what the library says. -/
theorem Malformed.ofString_eq {lib : JsonLib} {src : StringView} (h : Malformed lib src.text)
    (memory : MsgType) : Response.ofString lib memory src = { resType := memory } := by
  rw [Response.ofString, h]

section

variable {σ : Type} {lib : JsonLib} {memory : ℕ → MsgType} {readQ : MsgQ σ}

/-- However it ends, the loop leaves what is in the buffer. -/
theorem loop_prefix (rounds : ℕ) (r : Reader σ) : r.readContentQ <+:
    (Prog.ends ((getAllMsg.loop lib memory readQ rounds).run r)).readContentQ := by
  induction rounds generalizing r with
  | zero => exact List.prefix_rfl
  | succ rounds ih =>
    rw [getAllMsg.loop, EStateM.run_bind]
    rcases readTurn_cases lib memory readQ r with
      ⟨content, q, -, -, hturn⟩ | ⟨q, -, hturn⟩ | ⟨e, q, -, hturn⟩
    · rw [hturn]
      exact (List.prefix_append _ _).trans (ih (r.push lib memory q content))
    · rw [hturn]
      exact List.prefix_rfl
    · rw [hturn]
      exact List.prefix_rfl

/-- `getOneMsg` returns the first message that its loop has left in the buffer, or a new `Response`
if there is none or the queue is closed. -/
theorem getOneMsg_cases {rounds : ℕ} {r r' : Reader σ} {message : Received}
    (h : (getOneMsg lib memory readQ rounds).run r = .ok message r') :
    message.response = { resType := .queueClosed } ∨
    (∃ u, (getAllMsg.loop lib memory readQ rounds).run r = .ok () u ∧
      (u.readContentQ = [] ∧ message.response = {} ∨
        ∃ rest, u.readContentQ = message :: rest)) := by
  rw [getOneMsg, getAllMsg_bind_run] at h
  rcases hloop : (getAllMsg.loop lib memory readQ rounds).run r with ⟨⟨⟩, u⟩ | ⟨e, u⟩
  · rw [hloop] at h
    refine Or.inr ⟨u, rfl, ?_⟩
    rcases hbuffer : u.readContentQ with _ | ⟨first, rest⟩
    · simp [getOneMsg.takeFront, hbuffer, makeShared] at h
      obtain ⟨rfl, -⟩ := h
      exact Or.inl ⟨rfl, rfl⟩
    · simp [getOneMsg.takeFront, hbuffer] at h
      obtain ⟨rfl, -⟩ := h
      exact Or.inr ⟨rest, rfl⟩
  · rw [hloop] at h
    rcases e with (_ | _ | _) | _ | _
    · refine Or.inl ?_
      simp [getAllMsg.handler, getOneMsg.takeFront, makeShared] at h
      obtain ⟨rfl, -⟩ := h
      rfl
    · cases h
    · cases h
    · cases h
    · cases h

/-- **What `getOneMsg` returns when it reads a malformed text first**: a message of whatever type
the storage of the object holds, unless the queue turns out to be closed. -/
theorem getOneMsg_malformed {rounds : ℕ} {r r' : Reader σ} {message : Received} {q : σ}
    {text : Bytes} (hbad : Malformed lib text) (hne : text ≠ []) (hbuffer : r.readContentQ = [])
    (hread : readQ.read.run r.readQ = .ok text q)
    (h : (getOneMsg lib memory readQ rounds).run r = .ok message r') :
    message.response = { resType := .queueClosed } ∨
      message.response = { resType := memory r.made } := by
  rcases getOneMsg_cases h with hclosed | ⟨u, hloop, hfront⟩
  · exact Or.inl hclosed
  refine Or.inr ?_
  have hturn : (getAllMsg.turn lib memory readQ).run r = .ok true (r.push lib memory q text) := by
    rw [turn_run, hread]
    exact if_neg hne
  have hpushed : (r.push lib memory q text).readContentQ
      = [{ address := r.made, response := { resType := memory r.made } }] := by
    have htext : Malformed lib (Bytes.view text).text := by rwa [text_view]
    rw [Reader.push, hbuffer, htext.ofString_eq]
    rfl
  have hprefix : (r.push lib memory q text).readContentQ <+: u.readContentQ := by
    rcases rounds with _ | rounds
    · cases hloop
    · rw [getAllMsg.loop, EStateM.run_bind, hturn] at hloop
      have hloop' : (getAllMsg.loop lib memory readQ rounds).run (r.push lib memory q text)
          = .ok () u := hloop
      have hends : (r.push lib memory q text).readContentQ <+: (Prog.ends
          ((getAllMsg.loop lib memory readQ rounds).run (r.push lib memory q text))).readContentQ :=
        loop_prefix rounds _
      rwa [hloop'] at hends
  rw [hpushed] at hprefix
  obtain ⟨rest, hrest⟩ := hprefix
  rcases hfront with ⟨hnil, -⟩ | ⟨rest', hcons⟩
  · rw [hnil] at hrest
    cases hrest
  · rw [hcons] at hrest
    obtain ⟨rfl, -⟩ := List.cons.inj hrest
    rfl

end

/-- What is made of the text on an object whose type holds `held` is EMPTY, without attributes. And
so is what `getOneMsg` returns, when the text is what it reads first, if it does not report that the
queue is closed. -/
structure BecomesEmpty (lib : JsonLib) (held : MsgType) (src : StringView) : Prop where
  made : Response.ofString lib held src = {}
  received : ∀ {σ : Type} (memory : ℕ → MsgType) (readQ : MsgQ σ) (rounds : ℕ) (r r' : Reader σ)
    (q : σ) (message : Received), memory r.made = held → r.readContentQ = [] →
    readQ.read.run r.readQ = .ok src.text q →
    (getOneMsg lib memory readQ rounds).run r = .ok message r' →
    message.response = { resType := .queueClosed } ∨ message.response = {}

/-- An empty text is no message. -/
theorem getOneMsg_nothing {σ : Type} {lib : JsonLib} {memory : ℕ → MsgType} {readQ : MsgQ σ}
    {rounds : ℕ} {r r' : Reader σ} {message : Received} {q : σ} (hbuffer : r.readContentQ = [])
    (hread : readQ.read.run r.readQ = .ok [] q)
    (h : (getOneMsg lib memory readQ rounds).run r = .ok message r') :
    message.response = { resType := .queueClosed } ∨ message.response = {} := by
  rcases getOneMsg_cases h with hclosed | ⟨u, hloop, hfront⟩
  · exact Or.inl hclosed
  have hturn : (getAllMsg.turn lib memory readQ).run r = .ok false { r with readQ := q } := by
    rw [turn_run, hread]
    exact if_pos rfl
  have hu : u.readContentQ = [] := by
    rcases rounds with _ | rounds
    · cases hloop
    · rw [getAllMsg.loop, EStateM.run_bind, hturn] at hloop
      obtain ⟨-, rfl⟩ := EStateM.Result.ok.inj hloop
      exact hbuffer
  rcases hfront with ⟨-, hempty⟩ | ⟨rest, hcons⟩
  · exact Or.inr hempty
  · rw [hu] at hcons
    cases hcons

/-- **When a malformed text becomes EMPTY**: when EMPTY is what the storage of the object happens
to hold, as no constructor runs that sets the type. -/
theorem becomesEmpty_iff {lib : JsonLib} {src : StringView} (hbad : Malformed lib src.text)
    (held : MsgType) : BecomesEmpty lib held src ↔ held = .empty := by
  constructor
  · intro h
    have hmade := h.made
    rw [hbad.ofString_eq] at hmade
    exact congrArg Response.resType hmade
  · rintro rfl
    refine ⟨hbad.ofString_eq _, ?_⟩
    intro σ memory readQ rounds r r' q message hheld hbuffer hread h
    by_cases hne : src.text = []
    · rw [hne] at hread
      exact getOneMsg_nothing hbuffer hread h
    · rw [← hheld]
      exact getOneMsg_malformed hbad hne hbuffer hread h

/-- A library that can read nothing. -/
def strictLib : JsonLib where
  parse := fun _ => none
  dump := fun _ => none

/-- The half of a document. -/
def halfText : Bytes := ascii "\x7b\"resType\""

theorem malformed_halfText : Malformed strictLib (Bytes.view halfText).text := rfl

theorem becomesEmpty_iff_half :
    BecomesEmpty strictLib .empty (Bytes.view halfText) ↔ MsgType.empty = .empty :=
  becomesEmpty_iff malformed_halfText .empty

/-- A queue with the half document in it. -/
def halfQ : MsgQ (List Bytes) where
  read := do
    let content := (← get).headD []
    modify List.tail
    return content
  write := fun _ => return -1

/-- On storage that last held the type of a message to be shown, such a message is made of it and
handed out. -/
theorem getOneMsg_half : Malformed strictLib halfText ∧
    (∃ message r', (getOneMsg strictLib (fun _ => .displayMsg) halfQ 2).run
      { readQ := [halfText] } = .ok message r' ∧ message.response.resType = .displayMsg) ∧
    ¬ BecomesEmpty strictLib .displayMsg (Bytes.view halfText) := by
  refine ⟨rfl, ⟨_, _, rfl, rfl⟩, ?_⟩
  intro h
  have hmade := congrArg Response.resType h.made
  cases hmade

end SocialGaming
