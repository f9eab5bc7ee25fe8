import Mathlib.Data.List.Basic

/-!
# Bounded message queues, and what is delivered through them

A message queue as its clients see it: sending either puts a message at the end or has no effect,
and receiving takes the message at the front. Its contents are a view that the laws speak of and the
operations do not give.

Of what is sent through a queue into a buffer and from there to a receiver, a `Delivery` keeps
account: it cannot be built unless what was accepted is what was delivered, followed by what is
buffered, followed by what is still waiting.

## Main definitions

* `MessageQueue`, `MessageQueue.IsFifo` — the operations of a queue, and their laws
* `boundedQueue` — a list of messages with a bound on their number and their size
* `Delivery` — the account, with `accept`, `fetch` and `deliver`

## Main results

* `boundedQueue_isFifo` — such a list is a queue
* `Delivery.delivered_prefix` — what was delivered is a prefix of what was accepted
-/

namespace SocialGaming

/-! ### Queues -/

/-- What became of a message that was sent. -/
inductive Sending where
  | sent
  | full
  | tooLarge
  deriving DecidableEq, Repr

/-- The operations of a message queue, neither of which waits. -/
structure MessageQueue (Q M : Type) where
  trySend : M → Q → Sending × Q
  tryReceive : Q → Option M × Q

/-- The queue is first in, first out, for at most `maxCount` messages that fit. -/
structure MessageQueue.IsFifo {Q M : Type} (mq : MessageQueue Q M) (contents : Q → List M)
    (maxCount : ℕ) (Fits : M → Prop) : Prop where
  /-- A message that is sent goes to the end, and there was room for it. -/
  sent : ∀ m q q', mq.trySend m q = (.sent, q') →
    contents q' = contents q ++ [m] ∧ Fits m ∧ (contents q).length < maxCount
  /-- A full queue takes no message. -/
  full : ∀ m q q', mq.trySend m q = (.full, q') →
    contents q' = contents q ∧ maxCount ≤ (contents q).length
  /-- Nor does any queue take one that does not fit. -/
  tooLarge : ∀ m q q', mq.trySend m q = (.tooLarge, q') → contents q' = contents q ∧ ¬ Fits m
  /-- The first message is received. -/
  received : ∀ m q q', mq.tryReceive q = (some m, q') → contents q = m :: contents q'
  /-- When none is, there is none. -/
  none_received : ∀ q q', mq.tryReceive q = (none, q') → contents q = [] ∧ contents q' = []

/-- A list of messages as a queue. -/
def boundedQueue {M : Type} (maxCount : ℕ) (Fits : M → Prop) [DecidablePred Fits] :
    MessageQueue (List M) M where
  trySend m q :=
    if Fits m then if maxCount ≤ q.length then (.full, q) else (.sent, q ++ [m])
    else (.tooLarge, q)
  tryReceive q := (q.head?, q.tail)

theorem boundedQueue_isFifo {M : Type} (maxCount : ℕ) (Fits : M → Prop) [DecidablePred Fits] :
    (boundedQueue maxCount Fits).IsFifo id maxCount Fits where
  sent m q q' h := by
    simp only [boundedQueue] at h
    split_ifs at h with hfits hfull
    · cases (Prod.mk.inj h).1
    · obtain rfl := (Prod.mk.inj h).2
      exact ⟨rfl, hfits, Nat.lt_of_not_le hfull⟩
    · cases (Prod.mk.inj h).1
  full m q q' h := by
    simp only [boundedQueue] at h
    split_ifs at h with hfits hfull
    · obtain rfl := (Prod.mk.inj h).2
      exact ⟨rfl, hfull⟩
    · cases (Prod.mk.inj h).1
    · cases (Prod.mk.inj h).1
  tooLarge m q q' h := by
    simp only [boundedQueue] at h
    split_ifs at h with hfits hfull
    · cases (Prod.mk.inj h).1
    · cases (Prod.mk.inj h).1
    · obtain rfl := (Prod.mk.inj h).2
      exact ⟨rfl, hfits⟩
  received m q q' h := by
    cases q with
    | nil => cases (Prod.mk.inj h).1
    | cons a q =>
      obtain ⟨hm, rfl⟩ := Prod.mk.inj h
      obtain rfl := Option.some.inj hm
      rfl
  none_received q q' h := by
    cases q with
    | nil =>
      obtain ⟨-, rfl⟩ := Prod.mk.inj h
      exact ⟨rfl, rfl⟩
    | cons a q => cases (Prod.mk.inj h).1

/-! ### Deliveries -/

/-- What was sent through a queue and a buffer, and where it is. -/
structure Delivery (α : Type) where
  accepted : List α := []
  delivered : List α := []
  buffered : List α := []
  waiting : List α := []
  balanced : accepted = delivered ++ (buffered ++ waiting) := by rfl

namespace Delivery

variable {α : Type}

/-- One more is accepted, and waits. -/
def accept (d : Delivery α) (a : α) : Delivery α where
  accepted := d.accepted ++ [a]
  delivered := d.delivered
  buffered := d.buffered
  waiting := d.waiting ++ [a]
  balanced := by rw [d.balanced, List.append_assoc, List.append_assoc]

/-- The first that waits goes into the buffer. -/
def fetch (d : Delivery α) {a : α} {rest : List α} (h : d.waiting = a :: rest) : Delivery α where
  accepted := d.accepted
  delivered := d.delivered
  buffered := d.buffered ++ [a]
  waiting := rest
  balanced := by rw [d.balanced, h, List.append_assoc, List.singleton_append]

/-- The first in the buffer is delivered. -/
def deliver (d : Delivery α) {a : α} {rest : List α} (h : d.buffered = a :: rest) : Delivery α where
  accepted := d.accepted
  delivered := d.delivered ++ [a]
  buffered := rest
  waiting := d.waiting
  balanced := by rw [d.balanced, h, List.append_assoc, List.singleton_append, List.cons_append]

/-- **What was delivered is a prefix of what was accepted.** -/
theorem delivered_prefix (d : Delivery α) : d.delivered <+: d.accepted :=
  ⟨d.buffered ++ d.waiting, d.balanced.symm⟩

end Delivery

end SocialGaming
