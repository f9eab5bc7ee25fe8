import SocialGaming.AmbassadorDelivery
import Mathlib.Data.List.Nodup

/-!
# What a reading ambassador hands out

`getAllMsg` returns its buffer and keeps it, while `getOneMsg` takes the message it returns out of
the buffer. So a message that is in the buffer when a `getAllMsg` returns is handed out again by
whatever call returns next.

Objects are told apart by their addresses, which are given out in order. The history of a run says
which have been handed out, and the invariant relates these to the buffer: before any `getAllMsg`
has kept a message, no message in the buffer has been handed out, and afterwards the first one has.

## Main definitions

* `handed` — the objects that were handed out in a run
* `KeepsMessages` — a `getAllMsg` returns with messages in the buffer

## Main results

* `PeerStep.hands` — what a step hands out and what it does to the buffer
* `Handing.step` — the invariant
* `getAllMsg_hands_out_once_iff` — when no message is handed out twice
-/

namespace SocialGaming

open Ambassador

variable {σ ε : Type}

/-! ### Handing out -/

/-- The objects in a result. -/
def ReadResult.addresses : ReadResult → List ℕ
  | .all messages => messages.map Received.address
  | .one message => [message.address]

/-- The objects that a step hands out. -/
def handedAt (a : Peer σ × PeerEvent ε) : List ℕ :=
  match a.2 with
  | .returned result => result.addresses
  | .closed result => result.addresses
  | _ => []

/-- The objects that were handed out in a run, in order. -/
def handed (t : List (Peer σ × PeerEvent ε)) : List ℕ := t.flatMap handedAt

/-- The objects in the buffer. -/
def Peer.buffer (p : Peer σ) : List ℕ := p.reader.readContentQ.map Received.address

/-- A call returns. -/
def Returns (a : Peer σ × PeerEvent ε) : Prop := ∃ result, a.2 = .returned result

/-- The queue was found closed. -/
def Closes (a : Peer σ × PeerEvent ε) : Prop := ∃ result, a.2 = .closed result

/-- A `getAllMsg` returns with messages in the buffer. -/
def KeepsMessages (a : Peer σ × PeerEvent ε) : Prop :=
  a.1.call = some .getAllMsg ∧ a.1.reader.readContentQ ≠ [] ∧ Returns a

theorem not_keepsMessages {a : Peer σ × PeerEvent ε} (h : a.1.call = some .getOneMsg) :
    ¬ KeepsMessages a := by
  rintro ⟨hall, -, -⟩
  cases hall.symm.trans h

theorem handed_snoc (t : List (Peer σ × PeerEvent ε)) (a : Peer σ × PeerEvent ε) :
    handed (t ++ [a]) = handed t ++ handedAt a := by
  rw [handed, List.flatMap_append, List.flatMap_singleton]
  rfl

/-- What a step can hand out, and do to the buffer. -/
inductive Hands (p : Peer σ) (e : PeerEvent ε) (p' : Peer σ) : Prop
  /-- A step that does not touch the buffer. -/
  | nothing (hret : ¬ Returns (p, e)) (hand : handedAt (p, e) = []) (hbuffer : p'.buffer = p.buffer)
      (hmade : p'.reader.made = p.reader.made)
  /-- A message is read. -/
  | read (hret : ¬ Returns (p, e)) (hand : handedAt (p, e) = [])
      (hbuffer : p'.buffer = p.buffer ++ [p.reader.made])
      (hmade : p'.reader.made = p.reader.made + 1)
  /-- `getAllMsg` returns. -/
  | all (hret : Returns (p, e)) (hkeeps : KeepsMessages (p, e) ↔ p.buffer ≠ [])
      (hand : handedAt (p, e) = p.buffer) (hbuffer : p'.buffer = p.buffer)
      (hmade : p'.reader.made = p.reader.made)
  /-- `getOneMsg` returns a new object. -/
  | empty (hret : Returns (p, e)) (hcall : p.call = some .getOneMsg)
      (hand : handedAt (p, e) = [p.reader.made]) (hbuffer : p.buffer = [])
      (hbuffer' : p'.buffer = []) (hmade : p'.reader.made = p.reader.made + 1)
  /-- `getOneMsg` returns a message of the buffer. -/
  | front (x : ℕ) (hret : Returns (p, e)) (hcall : p.call = some .getOneMsg)
      (hand : handedAt (p, e) = [x]) (hbuffer : p.buffer = x :: p'.buffer)
      (hmade : p'.reader.made = p.reader.made)

variable {lib : JsonLib} {memory : ℕ → MsgType} {readQ : MsgQ σ} {other : σ → ε → σ → Prop}

/-- **What a step hands out, and does to the buffer.** -/
theorem PeerStep.hands {p p' : Peer σ} {e : PeerEvent ε}
    (h : PeerStep lib memory readQ other p e p') (hopen : ¬ Closes (p, e)) : Hands p e p' := by
  cases h with
  | other h => exact Hands.nothing (by rintro ⟨_, ⟨⟩⟩) rfl rfl rfl
  | call c h => exact Hands.nothing (by rintro ⟨_, ⟨⟩⟩) rfl rfl rfl
  | read hcall hturn =>
    obtain ⟨content, q, -, -, rfl⟩ := turn_eq_true hturn
    refine Hands.read (by rintro ⟨_, ⟨⟩⟩) rfl ?_ rfl
    rw [Peer.buffer, Reader.push, List.map_append]
    rfl
  | @returned c r r' result hcall hturn hfinish =>
    obtain ⟨q, -, rfl⟩ := turn_eq_false hturn
    have hret : Returns (ε := ε) (p, .returned result) := ⟨result, rfl⟩
    cases c with
    | getAllMsg =>
      obtain ⟨rfl, rfl⟩ := EStateM.Result.ok.inj hfinish
      refine Hands.all hret ?_ rfl rfl rfl
      constructor
      · rintro ⟨-, hne, -⟩
        exact fun hnil => hne (List.map_eq_nil_iff.mp hnil)
      · intro hne
        exact ⟨hcall, fun hnil => hne (List.map_eq_nil_iff.mpr hnil), hret⟩
    | getOneMsg =>
      cases hbuffer : p.reader.readContentQ with
      | nil =>
        have hnil : ({ p.reader with readQ := q } : Reader σ).readContentQ = [] := hbuffer
        obtain ⟨rfl, rfl⟩ := EStateM.Result.ok.inj ((finish_getOneMsg_nil hnil).symm.trans hfinish)
        have hp : p.buffer = [] := by rw [Peer.buffer, hbuffer, List.map_nil]
        exact Hands.empty hret hcall rfl hp hp rfl
      | cons message rest =>
        have hcons : ({ p.reader with readQ := q } : Reader σ).readContentQ = message :: rest :=
          hbuffer
        obtain ⟨rfl, rfl⟩ :=
          EStateM.Result.ok.inj ((finish_getOneMsg_cons hcons).symm.trans hfinish)
        refine Hands.front message.address hret hcall rfl ?_ rfl
        rw [Peer.buffer, hbuffer, List.map_cons]
        rfl
  | closed _ _ _ => exact absurd ⟨_, rfl⟩ hopen
  | threw _ _ hturn =>
    obtain ⟨q, -, rfl⟩ := turn_eq_error hturn
    exact Hands.nothing (by rintro ⟨_, ⟨⟩⟩) rfl rfl rfl

/-! ### The invariant -/

/-- After a `getAllMsg` has returned with messages in the buffer, no call has returned. -/
def OnceKept (t : List (Peer σ × PeerEvent ε)) : Prop :=
  t.Pairwise fun a b => KeepsMessages a → ¬ Returns b

theorem onceKept_snoc {t : List (Peer σ × PeerEvent ε)} {a : Peer σ × PeerEvent ε} :
    OnceKept (t ++ [a]) ↔ OnceKept t ∧ ((∃ b ∈ t, KeepsMessages b) → ¬ Returns a) := by
  rw [OnceKept, List.pairwise_append]
  simp only [List.pairwise_singleton, true_and, List.mem_singleton, forall_eq]
  constructor
  · rintro ⟨ht, hlast⟩
    refine ⟨ht, ?_⟩
    rintro ⟨b, hb, hkeeps⟩
    exact hlast b hb hkeeps
  · rintro ⟨ht, hlast⟩
    exact ⟨ht, fun b hb hkeeps => hlast ⟨b, hb, hkeeps⟩⟩

/-- What has been handed out, and the buffer. -/
structure Handing (t : List (Peer σ × PeerEvent ε)) (p : Peer σ) : Prop where
  handed_lt : ∀ x ∈ handed t, x < p.reader.made
  buffer_lt : ∀ x ∈ p.buffer, x < p.reader.made
  nodup_buffer : p.buffer.Nodup
  nodup_iff : (handed t).Nodup ↔ OnceKept t
  /-- No message has been kept yet. -/
  fresh : (¬ ∃ a ∈ t, KeepsMessages a) → ∀ x ∈ handed t, x ∉ p.buffer
  /-- The first message of the buffer has been kept. -/
  kept : OnceKept t → (∃ a ∈ t, KeepsMessages a) → ∃ x rest, p.buffer = x :: rest ∧ x ∈ handed t

namespace Handing

variable {t : List (Peer σ × PeerEvent ε)} {p p' : Peer σ} {e : PeerEvent ε}

/-- A step that does not return, and may read a message. -/
theorem of_not_returns (h : Handing t p) (hret : ¬ Returns (p, e)) (hand : handedAt (p, e) = [])
    {read : List ℕ} (hbuffer : p'.buffer = p.buffer ++ read) (hnodup : read.Nodup)
    (hread : ∀ x ∈ read, p.reader.made ≤ x ∧ x < p'.reader.made)
    (hmade : p.reader.made ≤ p'.reader.made) : Handing (t ++ [(p, e)]) p' := by
  have hhanded : handed (t ++ [(p, e)]) = handed t := by
    rw [handed_snoc, hand, List.append_nil]
  have honce : OnceKept (t ++ [(p, e)]) ↔ OnceKept t := by
    rw [onceKept_snoc]
    exact and_iff_left fun _ => hret
  have hkeeps : (∃ a ∈ t ++ [(p, e)], KeepsMessages a) ↔ ∃ a ∈ t, KeepsMessages a := by
    constructor
    · rintro ⟨a, ha, hkeeps⟩
      rw [List.mem_append, List.mem_singleton] at ha
      rcases ha with ha | rfl
      · exact ⟨a, ha, hkeeps⟩
      · exact absurd hkeeps.2.2 hret
    · rintro ⟨a, ha, hkeeps⟩
      exact ⟨a, List.mem_append_left _ ha, hkeeps⟩
  refine ⟨?_, ?_, ?_, ?_, ?_, ?_⟩
  · intro x hx
    rw [hhanded] at hx
    exact Nat.lt_of_lt_of_le (h.handed_lt x hx) hmade
  · intro x hx
    rw [hbuffer, List.mem_append] at hx
    rcases hx with hx | hx
    · exact Nat.lt_of_lt_of_le (h.buffer_lt x hx) hmade
    · exact (hread x hx).2
  · rw [hbuffer]
    refine h.nodup_buffer.append hnodup fun x hx hx' => ?_
    have hlt := h.buffer_lt x hx
    have hle := (hread x hx').1
    omega
  · rw [hhanded, honce]
    exact h.nodup_iff
  · intro hfresh x hx hx'
    rw [hhanded] at hx
    rw [hkeeps] at hfresh
    rw [hbuffer, List.mem_append] at hx'
    rcases hx' with hx' | hx'
    · exact h.fresh hfresh x hx hx'
    · have hlt := h.handed_lt x hx
      have hle := (hread x hx').1
      omega
  · intro hkept hexists
    rw [honce] at hkept
    rw [hkeeps] at hexists
    obtain ⟨x, rest, hfront, hx⟩ := h.kept hkept hexists
    exact ⟨x, rest ++ read, by rw [hbuffer, hfront, List.cons_append], by rwa [hhanded]⟩

/-- When a call returns, no object is handed out twice if and only if none has been kept. -/
theorem nodup_iff_of_returns (h : Handing t p) (hret : Returns (p, e))
    (hnodup : (handedAt (p, e)).Nodup)
    (hnew : ∀ x ∈ handedAt (p, e), x ∈ p.buffer ∨ p.reader.made ≤ x)
    (hfront : ∀ x rest, p.buffer = x :: rest → x ∈ handedAt (p, e)) :
    (handed (t ++ [(p, e)])).Nodup ↔ OnceKept (t ++ [(p, e)]) := by
  rw [handed_snoc, onceKept_snoc, List.nodup_append', h.nodup_iff]
  constructor
  · rintro ⟨hkept, -, hdisjoint⟩
    refine ⟨hkept, fun hexists _ => ?_⟩
    obtain ⟨x, rest, hbuffer, hx⟩ := h.kept hkept hexists
    exact hdisjoint hx (hfront x rest hbuffer)
  · rintro ⟨hkept, hlast⟩
    refine ⟨hkept, hnodup, fun x hx hx' => ?_⟩
    have hfresh : ¬ ∃ a ∈ t, KeepsMessages a := fun hexists => hlast hexists hret
    rcases hnew x hx' with hbuffer | hmade
    · exact h.fresh hfresh x hx hbuffer
    · have hlt := h.handed_lt x hx
      omega

/-- After a return, a message can have been kept by this return only. -/
theorem keeps_last (hret : Returns (p, e)) (hkept : OnceKept (t ++ [(p, e)]))
    (hexists : ∃ a ∈ t ++ [(p, e)], KeepsMessages a) : KeepsMessages (p, e) := by
  obtain ⟨a, ha, hkeeps⟩ := hexists
  rw [List.mem_append, List.mem_singleton] at ha
  rcases ha with ha | rfl
  · exact absurd hret ((onceKept_snoc.mp hkept).2 ⟨a, ha, hkeeps⟩)
  · exact hkeeps

theorem handed_snoc_lt (h : Handing t p) (hmade : p.reader.made ≤ p'.reader.made)
    (hnew : ∀ x ∈ handedAt (p, e), x < p'.reader.made) :
    ∀ x ∈ handed (t ++ [(p, e)]), x < p'.reader.made := by
  intro x hx
  rw [handed_snoc, List.mem_append] at hx
  exact hx.elim (fun hx => Nat.lt_of_lt_of_le (h.handed_lt x hx) hmade) (hnew x)

/-- `getAllMsg` returns. -/
theorem of_all (h : Handing t p) (hret : Returns (p, e))
    (hkeeps : KeepsMessages (p, e) ↔ p.buffer ≠ []) (hand : handedAt (p, e) = p.buffer)
    (hbuffer : p'.buffer = p.buffer) (hmade : p'.reader.made = p.reader.made) :
    Handing (t ++ [(p, e)]) p' := by
  have hhand : ∀ x ∈ p.buffer, x ∈ handedAt (p, e) := by
    intro x hx
    rwa [hand]
  refine ⟨?_, ?_, ?_, ?_, ?_, ?_⟩
  · refine h.handed_snoc_lt (Nat.le_of_eq hmade.symm) ?_
    rw [hand, hmade]
    exact h.buffer_lt
  · rw [hbuffer, hmade]
    exact h.buffer_lt
  · rw [hbuffer]
    exact h.nodup_buffer
  · refine h.nodup_iff_of_returns hret (by rw [hand]; exact h.nodup_buffer) ?_ ?_
    · intro x hx
      rw [hand] at hx
      exact Or.inl hx
    · intro x rest hfront
      exact hhand x (hfront ▸ List.mem_cons_self)
  · intro hfresh
    have hnil : p.buffer = [] := by
      by_contra hne
      exact hfresh ⟨(p, e), List.mem_append_right _ (List.mem_singleton_self _), hkeeps.mpr hne⟩
    rw [hbuffer, hnil]
    exact fun x _ => List.not_mem_nil
  · intro hkept hexists
    have hne := hkeeps.mp (keeps_last hret hkept hexists)
    obtain ⟨x, rest, hfront⟩ := List.exists_cons_of_ne_nil hne
    refine ⟨x, rest, hbuffer.trans hfront, ?_⟩
    rw [handed_snoc]
    exact List.mem_append_right _ (hhand x (hfront ▸ List.mem_cons_self))

/-- `getOneMsg` returns a new object. -/
theorem of_empty (h : Handing t p) (hret : Returns (p, e)) (hcall : p.call = some .getOneMsg)
    (hand : handedAt (p, e) = [p.reader.made]) (hbuffer : p.buffer = []) (hbuffer' : p'.buffer = [])
    (hmade : p'.reader.made = p.reader.made + 1) : Handing (t ++ [(p, e)]) p' := by
  refine ⟨?_, ?_, ?_, ?_, ?_, ?_⟩
  · refine h.handed_snoc_lt (by omega) fun x hx => ?_
    rw [hand, List.mem_singleton] at hx
    omega
  · rw [hbuffer']
    exact fun x hx => absurd hx List.not_mem_nil
  · rw [hbuffer']
    exact List.nodup_nil
  · refine h.nodup_iff_of_returns hret (by rw [hand]; exact List.nodup_singleton _) ?_ ?_
    · intro x hx
      rw [hand, List.mem_singleton] at hx
      exact Or.inr (Nat.le_of_eq hx.symm)
    · intro x rest hfront
      rw [hbuffer] at hfront
      cases hfront
  · rw [hbuffer']
    exact fun _ x _ => List.not_mem_nil
  · intro hkept hexists
    exact absurd (keeps_last hret hkept hexists) (not_keepsMessages hcall)

/-- `getOneMsg` returns a message of the buffer. -/
theorem of_front (h : Handing t p) {x : ℕ} (hret : Returns (p, e))
    (hcall : p.call = some .getOneMsg) (hand : handedAt (p, e) = [x])
    (hbuffer : p.buffer = x :: p'.buffer) (hmade : p'.reader.made = p.reader.made) :
    Handing (t ++ [(p, e)]) p' := by
  have hnodup := h.nodup_buffer
  rw [hbuffer, List.nodup_cons] at hnodup
  have hx : x ∈ p.buffer := hbuffer ▸ List.mem_cons_self
  have hrest : ∀ y ∈ p'.buffer, y ∈ p.buffer := fun y hy => hbuffer ▸ List.mem_cons_of_mem x hy
  refine ⟨?_, ?_, hnodup.2, ?_, ?_, ?_⟩
  · refine h.handed_snoc_lt (Nat.le_of_eq hmade.symm) fun y hy => ?_
    rw [hand, List.mem_singleton] at hy
    rw [hmade, hy]
    exact h.buffer_lt x hx
  · intro y hy
    rw [hmade]
    exact h.buffer_lt y (hrest y hy)
  · refine h.nodup_iff_of_returns hret (by rw [hand]; exact List.nodup_singleton _) ?_ ?_
    · intro y hy
      rw [hand, List.mem_singleton] at hy
      exact Or.inl (hy ▸ hx)
    · intro y rest hfront
      rw [hbuffer] at hfront
      rw [hand, (List.cons.inj hfront).1]
      exact List.mem_singleton_self y
  · intro hfresh y hy hy'
    have hfresh' : ¬ ∃ a ∈ t, KeepsMessages a := by
      rintro ⟨a, ha, hk⟩
      exact hfresh ⟨a, List.mem_append_left _ ha, hk⟩
    rw [handed_snoc, hand, List.mem_append, List.mem_singleton] at hy
    obtain hy | rfl := hy
    · exact h.fresh hfresh' y hy (hrest y hy')
    · exact hnodup.1 hy'
  · intro hkept hexists
    exact absurd (keeps_last hret hkept hexists) (not_keepsMessages hcall)

/-- **The invariant is kept.** -/
theorem step (h : Handing t p) (hstep : Hands p e p') : Handing (t ++ [(p, e)]) p' := by
  cases hstep with
  | nothing hret hand hbuffer hmade =>
    have hbuffer' : p'.buffer = p.buffer ++ [] := by rw [hbuffer, List.append_nil]
    exact h.of_not_returns hret hand hbuffer' List.nodup_nil
      (fun x hx => absurd hx List.not_mem_nil) (Nat.le_of_eq hmade.symm)
  | read hret hand hbuffer hmade =>
    refine h.of_not_returns hret hand hbuffer (List.nodup_singleton _) (fun x hx => ?_) (by omega)
    rw [List.mem_singleton] at hx
    omega
  | all hret hkeeps hand hbuffer hmade => exact h.of_all hret hkeeps hand hbuffer hmade
  | empty hret hcall hand hbuffer hbuffer' hmade =>
    exact h.of_empty hret hcall hand hbuffer hbuffer' hmade
  | front x hret hcall hand hbuffer hmade => exact h.of_front hret hcall hand hbuffer hmade

end Handing

/-- **When no message is handed out twice.** In a run in which the queue is not found closed, no
object is handed out twice exactly when no call returns after a `getAllMsg` that returned with
messages in the buffer. As long as no `getOneMsg` returns, the buffer holds every message that was
read. -/
theorem getAllMsg_hands_out_once_iff {q₀ : σ} {t : List (Peer σ × PeerEvent ε)} {p : Peer σ}
    (h : Run (PeerStep lib memory readQ other) { reader := { readQ := q₀ } } t p)
    (hopen : ∀ a ∈ t, ¬ Closes a) :
    ((handed t).Nodup ↔ OnceKept t) ∧
      ((∀ a ∈ t, a.1.call = some .getOneMsg → ¬ Returns a) →
        p.buffer = List.range p.reader.made) := by
  have hhanding : Handing t p := by
    induction h with
    | nil =>
      refine ⟨by simp [handed], by simp [Peer.buffer], List.nodup_nil, ?_, by simp [handed],
        by simp⟩
      exact iff_of_true List.nodup_nil List.Pairwise.nil
    | snoc _ hstep ih =>
      rw [List.forall_mem_append] at hopen
      exact (ih hopen.1).step (hstep.hands (hopen.2 _ (List.mem_singleton_self _)))
  refine ⟨hhanding.nodup_iff, fun hone => ?_⟩
  clear hhanding
  induction h with
  | nil => rfl
  | @snoc t p p' e _ hstep ih =>
    rw [List.forall_mem_append] at hopen hone
    have hbuffer := ih hopen.1 hone.1
    have hlast := hone.2 (p, e) (List.mem_singleton_self _)
    cases hstep.hands (hopen.2 _ (List.mem_singleton_self _)) with
    | nothing _ _ hbuffer' hmade => rw [hbuffer', hmade, hbuffer]
    | read _ _ hbuffer' hmade => rw [hbuffer', hmade, hbuffer, List.range_succ]
    | all _ _ _ hbuffer' hmade => rw [hbuffer', hmade, hbuffer]
    | empty hret hcall => exact absurd hret (hlast hcall)
    | front _ hret hcall => exact absurd hret (hlast hcall)

/-! ### Two calls in a row -/

/-- The reader's process between two calls, with a message in the buffer. -/
def testKept : Peer (List Bytes) :=
  { reader := { readQ := [], readContentQ := [testReceived], made := 1 } }

/-- A `getAllMsg` that is about to return. -/
def testKeeping : Peer (List Bytes) := { testKept with call := some .getAllMsg }

theorem testStep_all : TestStep testKeeping (.returned (.all [testReceived])) testKept :=
  PeerStep.returned (p := testKeeping) rfl rfl rfl

/-- One message, and two calls of `getAllMsg`. -/
theorem getAllMsg_hands_out_twice :
    ∃ t p, Run TestStep { reader := { readQ := [testMessage] } } t p ∧ (∀ a ∈ t, ¬ Closes a) ∧
      handed t = [0, 0] ∧ ¬ (handed t).Nodup := by
  let arrived : Peer (List Bytes) := { reader := { readQ := [testMessage] } }
  let reading : Peer (List Bytes) := { arrived with call := some .getAllMsg }
  have hcall : TestStep arrived (.call .getAllMsg) reading := PeerStep.call .getAllMsg rfl
  have hread : TestStep reading .read testKeeping := PeerStep.read (p := reading) rfl rfl
  have hagain : TestStep testKept (.call .getAllMsg) testKeeping := PeerStep.call .getAllMsg rfl
  have hrun := ((((Run.nil.snoc hcall).snoc hread).snoc testStep_all).snoc hagain).snoc testStep_all
  refine ⟨_, _, hrun, ?_, rfl, by decide⟩
  intro a ha
  simp only [List.nil_append, List.cons_append, List.mem_cons, List.not_mem_nil, or_false] at ha
  rcases ha with rfl | rfl | rfl | rfl | rfl <;> rintro ⟨_, ⟨⟩⟩

/-- Three messages are read in a call of `getOneMsg`, which hands out the first, and then a
`getAllMsg` hands out the other two. -/
theorem getAllMsg_hands_out_once_iff_both :
    ∃ t p, Run TestStep { reader := { readQ := [testMessage, testMessage, testMessage] } } t p ∧
      handed t = [0, 1, 2] ∧ (handed t).Nodup := by
  let received (n : ℕ) : Received := { testReceived with address := n }
  let one (queue : List Bytes) (content : List Received) (made : ℕ) : Peer (List Bytes) :=
    { reader := { readQ := queue, readContentQ := content, made }, call := some .getOneMsg }
  let left : Peer (List Bytes) :=
    { reader := { readQ := [], readContentQ := [received 1, received 2], made := 3 } }
  have hcall : TestStep { reader := { readQ := [testMessage, testMessage, testMessage] } }
      (.call .getOneMsg) (one [testMessage, testMessage, testMessage] [] 0) :=
    PeerStep.call .getOneMsg rfl
  have hread : ∀ n queue content,
      TestStep (one (testMessage :: queue) content n) .read
        (one queue (content ++ [received n]) (n + 1)) :=
    fun n queue content => PeerStep.read (p := one (testMessage :: queue) content n) rfl rfl
  have hone : TestStep (one [] [received 0, received 1, received 2] 3)
      (.returned (.one (received 0))) left :=
    PeerStep.returned (p := one [] [received 0, received 1, received 2] 3) rfl rfl rfl
  have hall : TestStep { left with call := some .getAllMsg }
      (.returned (.all [received 1, received 2])) left :=
    PeerStep.returned (p := { left with call := some .getAllMsg }) rfl rfl rfl
  have hthree := (((Run.nil.snoc hcall).snoc (hread 0 [testMessage, testMessage] [])).snoc
    (hread 1 [testMessage] [received 0])).snoc (hread 2 [] [received 0, received 1])
  have hrun := ((hthree.snoc hone).snoc (PeerStep.call .getAllMsg rfl)).snoc hall
  refine ⟨_, _, hrun, rfl, (getAllMsg_hands_out_once_iff hrun ?_).1.mpr ?_⟩
  · intro a ha
    simp only [List.nil_append, List.cons_append, List.mem_cons, List.not_mem_nil, or_false] at ha
    rcases ha with rfl | rfl | rfl | rfl | rfl | rfl | rfl <;> rintro ⟨_, ⟨⟩⟩
  · -- only the last step is one of a `getAllMsg` that returns
    refine onceKept_snoc.mpr ⟨?_, ?_⟩
    · refine List.pairwise_of_forall_mem_list fun a ha b _ hkeeps => ?_
      simp only [List.nil_append, List.cons_append, List.mem_cons, List.not_mem_nil, or_false] at ha
      rcases ha with rfl | rfl | rfl | rfl | rfl | rfl <;> cases hkeeps.1
    · rintro ⟨a, ha, hkeeps⟩
      simp only [List.nil_append, List.cons_append, List.mem_cons, List.not_mem_nil, or_false] at ha
      rcases ha with rfl | rfl | rfl | rfl | rfl | rfl <;> cases hkeeps.1

end SocialGaming
