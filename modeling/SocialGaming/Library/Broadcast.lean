import Mathlib.Data.List.Basic

/-!
# What the listeners of a broadcast hear

Pieces of text are published one after the other. Whoever has listened since a piece of them was
published hears the pieces that follow, in order and without gaps, up to some point that may lie
inside a piece. Two who listen to the same source then never disagree: what one has heard since the
other joined continues what the other has heard, or the other way round.

## Main definitions

* `Hears` — a text that someone may have heard who joined when so many pieces had been published

## Main results

* `Hears.publish` — a further piece changes nothing that was heard
* `Hears.agree` — two listeners never disagree
-/

namespace SocialGaming

variable {α : Type*} {published : List (List α)} {joined joined' : ℕ} {text text' : List α}

/-- The piece after those that were taken in order is taken next. -/
theorem concat_prefix_of_getElem? {taken pieces : List α} {piece : α} (h : taken <+: pieces)
    (hnext : pieces[taken.length]? = some piece) : taken ++ [piece] <+: pieces := by
  obtain ⟨rest, rfl⟩ := h
  rw [List.getElem?_append_right (Nat.le_refl _), Nat.sub_self] at hnext
  obtain ⟨rest, rfl⟩ := List.head?_eq_some_iff.mp (List.head?_eq_getElem?.trans hnext)
  exact ⟨rest, by simp⟩

/-- The text is a beginning of what was published after the first `joined` pieces. -/
def Hears (published : List (List α)) (joined : ℕ) (text : List α) : Prop :=
  joined ≤ published.length ∧ text <+: (published.drop joined).flatten

namespace Hears

/-- Whoever was handed the first pieces has heard a beginning of them. -/
theorem of_prefix {handed : List (List α)} (hjoined : joined ≤ published.length)
    (hhanded : handed <+: published.drop joined) (htext : text <+: handed.flatten) :
    Hears published joined text := by
  refine ⟨hjoined, htext.trans ?_⟩
  obtain ⟨rest, hrest⟩ := hhanded
  rw [← hrest, List.flatten_append]
  exact List.prefix_append _ _

/-- What was heard stays what it was. -/
theorem publish (h : Hears published joined text) (piece : List α) :
    Hears (published ++ [piece]) joined text := by
  refine ⟨by rw [List.length_append]; exact Nat.le_add_right_of_le h.1, ?_⟩
  rw [List.drop_append_of_le_length h.1, List.flatten_append]
  exact h.2.trans (List.prefix_append _ _)

/-- What was published from one point on is what was published up to another, and the rest. -/
theorem flatten_drop_eq (published : List (List α)) (hle : joined ≤ joined') :
    (published.drop joined).flatten = ((published.take joined').drop joined).flatten
      ++ (published.drop joined').flatten := by
  have hsplit : published.drop joined
      = (published.take joined').drop joined ++ published.drop joined' := by
    rw [List.drop_take]
    conv_lhs => rw [← List.take_append_drop (joined' - joined) (published.drop joined)]
    rw [List.drop_drop, Nat.add_sub_cancel' hle]
  rw [hsplit, List.flatten_append]

/-- **Two listeners never disagree.** Put what the later one missed in front of what it has heard:
of that and what the other one has heard, one is the beginning of the other. -/
theorem agree (h : Hears published joined text) (h' : Hears published joined' text')
    (hle : joined ≤ joined') :
    text <+: ((published.take joined').drop joined).flatten ++ text' ∨
      ((published.take joined').drop joined).flatten ++ text' <+: text := by
  have hlater : ((published.take joined').drop joined).flatten ++ text'
      <+: (published.drop joined).flatten := by
    rw [flatten_drop_eq published hle]
    exact (List.prefix_append_right_inj _).mpr h'.2
  exact List.prefix_or_prefix_of_prefix h.2 hlater

end Hears

end SocialGaming
