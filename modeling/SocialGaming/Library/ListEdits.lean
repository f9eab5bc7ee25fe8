import Mathlib.Data.List.Basic

/-!
# Edits at two positions

Removing a list's element at one position or at another gives the same list if and only if all
elements between the two are equal. Inserting a new element at one and something at the other never
does.

## Main results

* `eraseIdx_eq_eraseIdx_iff`
* `insertIdx_ne_insertIdx`
-/

namespace SocialGaming

variable {α : Type} {l : List α} {j k : ℕ}

/-- **Removing at two positions.** -/
theorem eraseIdx_eq_eraseIdx_iff (hjk : j ≤ k) (hk : k < l.length) :
    l.eraseIdx j = l.eraseIdx k ↔ ∀ i, j ≤ i → i ≤ k → l[i]? = l[k]? := by
  constructor
  · intro heq
    -- between the two positions, the one side is moved by one and the other is not
    have hstep : ∀ i, j ≤ i → i < k → l[i]? = l[i + 1]? := by
      intro i hji hik
      have hi := congrArg (·[i]?) heq
      simp only [List.getElem?_eraseIdx] at hi
      rw [if_neg (by omega), if_pos hik] at hi
      exact hi.symm
    intro i hji hik
    obtain ⟨d, rfl⟩ := Nat.exists_eq_add_of_le hik
    clear heq hk hik
    induction d with
    | zero => rfl
    | succ d ih =>
      rw [← Nat.add_assoc, ← hstep (i + d) (by omega) (by omega)]
      exact ih (by omega) fun i' hji' hik' => hstep i' hji' (by omega)
  · intro hsame
    refine List.ext_getElem? fun i => ?_
    rw [List.getElem?_eraseIdx, List.getElem?_eraseIdx]
    by_cases hij : i < j
    · rw [if_pos hij, if_pos (by omega)]
    · rw [if_neg hij]
      by_cases hik : i < k
      · rw [if_pos hik, hsame i (by omega) (by omega), hsame (i + 1) (by omega) (by omega)]
      · rw [if_neg hik]

/-- **Inserting at two positions.** -/
theorem insertIdx_ne_insertIdx {a b : α} (ha : a ∉ l) (hjk : j < k) (hk : k ≤ l.length) :
    l.insertIdx j a ≠ l.insertIdx k b := by
  intro heq
  have hj := congrArg (·[j]?) heq
  simp only [List.getElem?_insertIdx] at hj
  rw [if_neg (by omega), if_pos trivial, if_pos (by omega), if_pos hjk] at hj
  exact ha (List.mem_of_getElem? hj.symm)

end SocialGaming
