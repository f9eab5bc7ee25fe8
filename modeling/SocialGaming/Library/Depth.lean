import Mathlib.Order.Filter.AtTopBot.Basic
import Mathlib.Order.Filter.Finite

/-!
# Recursion to a large enough depth

A recursive function whose depth is bounded is judged by what it does to every depth that is large
enough. What each element of a list needs is then enough for all of them at once.

## Main results

* `eventually_succ` — one call deeper
* `eventually_forall_some` — the pointers in a list that are not null
-/

namespace SocialGaming

open Filter (atTop)

/-- What holds to every large enough depth holds one call deeper. -/
theorem eventually_succ {P : ℕ → Prop} (hP : ∀ᶠ depth in atTop, P (depth + 1)) :
    ∀ᶠ depth in atTop, P depth := by
  rw [← Filter.map_add_atTop_eq_nat 1]
  exact hP

/-- A depth that is large enough for each element is large enough for all. -/
theorem eventually_forall_some {α : Type} {l : List (Option α)} {P : ℕ → α → Prop}
    (hl : ∀ a, some a ∈ l → ∀ᶠ depth in atTop, P depth a) :
    ∀ᶠ depth in atTop, ∀ a, some a ∈ l → P depth a := by
  have hfinite : {a | some a ∈ l}.Finite :=
    l.finite_toSet.preimage (Option.some_injective _).injOn
  exact (Filter.eventually_all_finite hfinite).mpr hl

end SocialGaming
