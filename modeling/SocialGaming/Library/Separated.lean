import Mathlib.Data.List.Basic

/-!
# Words with a separator before each

A list is written as one word: before each element comes a separator, and then the word of the
element. If no word has a separator in it, the end of a word can be told from the text alone.

## Main results

* `takeWhile_separated` — the first word is what stands before the next separator
* `separated_injective` — the list is determined by the text
-/

namespace SocialGaming

variable {α β : Type} [DecidableEq β] {sep : β} {word : α → List β}

/-- The first word ends where the next separator stands. -/
theorem takeWhile_separated (hsep : ∀ a, sep ∉ word a) (a : α) (l : List α) :
    (word a ++ l.flatMap fun a => sep :: word a).takeWhile (· ≠ sep) = word a := by
  have hword : ∀ c ∈ word a, decide (c ≠ sep) = true := by
    intro c hc
    rw [decide_eq_true_iff]
    rintro rfl
    exact hsep a hc
  rw [List.takeWhile_append_of_pos hword]
  cases l with
  | nil => exact List.append_nil _
  | cons b l => simp

/-- **Unique reading.** If different elements have different words, and no word has a separator in
it, different lists have different texts. -/
theorem separated_injective (hword : Function.Injective word) (hsep : ∀ a, sep ∉ word a) :
    Function.Injective fun l : List α => l.flatMap fun a => sep :: word a := by
  intro l
  induction l with
  | nil =>
    intro l' heq
    cases l' with
    | nil => rfl
    | cons b l' => cases heq
  | cons a l ih =>
    intro l' heq
    cases l' with
    | nil => cases heq
    | cons b l' =>
      have htail : (word a ++ l.flatMap fun a => sep :: word a)
          = word b ++ l'.flatMap fun a => sep :: word a := (List.cons.inj heq).2
      have hhead : word a = word b := by
        rw [← takeWhile_separated hsep a l, htail, takeWhile_separated hsep b l']
      obtain rfl := hword hhead
      rw [ih (List.append_cancel_left htail)]

end SocialGaming
