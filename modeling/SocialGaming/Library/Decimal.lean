import Mathlib.Data.Int.Notation
import Mathlib.Data.Nat.Notation
import Mathlib.Logic.Function.Basic

/-!
# Decimal numerals

The numerals of natural numbers, as strings: they are read back, so that different numbers have
different numerals, and they are made of digits only, so that no other word is one. The numeral of a
negative integer has a minus sign before the digits.

## Main definitions

* `readNat` — the number a numeral stands for

## Main results

* `readNat_toString`, `toString_nat_injective`
* `toString_nat_ne` — a word with a character that is no digit is not a numeral
* `toString_int_injective` — the same for integers
-/

namespace SocialGaming

/-- The number that a decimal numeral stands for. -/
def readNat (numeral : String) : ℕ := Nat.ofDigitChars 10 numeral.toList 0

theorem toList_toString_nat (n : ℕ) : (toString n).toList = Nat.toDigits 10 n := by
  rw [Nat.toString_eq_ofList_toDigits, String.toList_ofList]

@[simp] theorem readNat_toString (n : ℕ) : readNat (toString n) = n := by
  rw [readNat, toList_toString_nat, Nat.ofDigitChars_ten_toDigits]

theorem toString_nat_injective : Function.Injective (toString : ℕ → String) :=
  Function.LeftInverse.injective readNat_toString

theorem isDigit_of_mem_toString {n : ℕ} {c : Char} (h : c ∈ (toString n).toList) : c.isDigit := by
  rw [toList_toString_nat] at h
  exact Nat.isDigit_of_mem_toDigits (by decide) (by decide) h

theorem toString_nat_ne {n : ℕ} {word : String} {c : Char} (hc : c ∈ word.toList)
    (hdigit : ¬ c.isDigit) : toString n ≠ word := by
  rintro rfl
  exact hdigit (isDigit_of_mem_toString hc)

/-! ### Integers -/

theorem toList_toString_ofNat (n : ℕ) : (toString (Int.ofNat n)).toList = (toString n).toList := rfl

theorem toList_toString_negSucc (n : ℕ) :
    (toString (Int.negSucc n)).toList = '-' :: (toString (n + 1)).toList := by
  show ("-" ++ toString (n + 1)).toList = _
  rw [String.toList_append]
  rfl

/-- A numeral is made of digits, and possibly a sign. -/
theorem isDigit_of_mem_toString_int {i : ℤ} {c : Char} (h : c ∈ (toString i).toList) :
    c = '-' ∨ c.isDigit := by
  cases i with
  | ofNat n =>
    rw [toList_toString_ofNat] at h
    exact Or.inr (isDigit_of_mem_toString h)
  | negSucc n =>
    rw [toList_toString_negSucc, List.mem_cons] at h
    exact h.imp_right isDigit_of_mem_toString

/-- The sign is no digit. -/
theorem toString_ofNat_ne_negSucc (m n : ℕ) :
    toString (Int.ofNat m) ≠ toString (Int.negSucc n) := by
  refine toString_nat_ne (c := '-') ?_ (by decide)
  rw [toList_toString_negSucc]
  exact List.mem_cons_self

theorem toString_int_injective : Function.Injective (toString : ℤ → String) := by
  intro i j heq
  cases i with
  | ofNat m =>
    cases j with
    | ofNat n => exact congrArg Int.ofNat (toString_nat_injective heq)
    | negSucc n => exact absurd heq (toString_ofNat_ne_negSucc m n)
  | negSucc m =>
    cases j with
    | ofNat n => exact absurd heq.symm (toString_ofNat_ne_negSucc n m)
    | negSucc n =>
      have hdigits : (toString (m + 1)).toList = (toString (n + 1)).toList := by
        have hlists := congrArg String.toList heq
        rw [toList_toString_negSucc, toList_toString_negSucc] at hlists
        exact (List.cons.inj hlists).2
      have hsucc := toString_nat_injective (String.toList_injective hdigits)
      rw [Nat.succ.inj hsucc]

end SocialGaming
