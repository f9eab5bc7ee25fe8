import Mathlib.Algebra.Group.Int.Defs
import Mathlib.Data.Int.Notation
import Mathlib.Data.Nat.Notation

/-!
# Machine integers

A signed integer of 32 bits and the unsigned one with the same bits are the same number up to a
multiple of `2 ^ 32`, and so are a number and what is left of it in 32 bits. Together with the range
of the type this is all that is needed to follow an index through such conversions. A counter is
incremented where it is not at the end of its type.

## Main results

* `toNat_toUInt32`, `toInt_ofInt_emod` — the two conversions
* `toInt_add_one` — the increment
-/

namespace SocialGaming

/-- The unsigned integer with the same bits. -/
theorem toNat_toUInt32 (t : Int32) : (t.toUInt32.toNat : ℤ) = t.toInt % 2 ^ 32 := by
  show ((t.toBitVec.toNat : ℕ) : ℤ) = t.toBitVec.toInt % 2 ^ 32
  have hlt := t.toBitVec.isLt
  rw [BitVec.toInt_eq_toNat_cond]
  split <;> omega

/-- What is left of a number in 32 bits. -/
theorem toInt_ofInt_emod (x : ℤ) : (Int32.ofInt x).toInt % 2 ^ 32 = x % 2 ^ 32 := by
  rw [Int32.toInt_ofInt]
  exact Int.bmod_emod

/-- A counter that is not at its end is one more when it is incremented. -/
theorem toInt_add_one {i : Int32} (h : i ≠ Int32.maxValue) : (i + 1).toInt = i.toInt + 1 := by
  have hmax : Int32.maxValue.toInt = 2 ^ 31 - 1 := rfl
  have hlt : i.toInt < 2 ^ 31 - 1 := by
    have hle : i.toInt ≤ Int32.maxValue.toInt := i.toInt_le
    have hne : i.toInt ≠ Int32.maxValue.toInt := fun heq => h (Int32.toInt_inj.mp heq)
    omega
  have hge := i.le_toInt
  rw [Int32.toInt_add]
  show (i.toInt + 1).bmod (2 ^ 32) = _
  exact Int.bmod_eq_of_le (by omega) (by omega)

end SocialGaming
