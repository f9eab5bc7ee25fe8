import Mathlib.Data.List.Nodup
import Mathlib.Data.List.Perm.Basic
import Mathlib.Data.Set.Insert
import Std.Data.ExtTreeMap

/-!
# Lists that are kept beside something

A list that is kept beside the keys of a map, by the two operations that a client is told of, holds
each key once. A text that is put together from pieces has them in it, in their order.

## Main definitions

* `keySet` — the keys of a map
* `Mirrors` — the list holds the members of the set, each once
* `HasInOrder` — the pieces lie in the text one after the other

## Main results

* `Mirrors.insert`, `Mirrors.erase`, `Mirrors.perm_keys`
* `hasInOrder_flatten`, `hasInOrder_nil_iff`
-/

namespace SocialGaming

open Std (ExtTreeMap TransCmp LawfulEqCmp)

/-! ### Mirrors -/

section

variable {α β : Type} {cmp : α → α → Ordering} [TransCmp cmp]

/-- The keys of a map. -/
def keySet (m : ExtTreeMap α β cmp) : Set α := {a | a ∈ m}

@[simp] theorem keySet_empty : keySet (∅ : ExtTreeMap α β cmp) = ∅ := by
  ext a
  simp [keySet]

variable [LawfulEqCmp cmp]

@[simp] theorem keySet_insert (m : ExtTreeMap α β cmp) (a : α) (b : β) :
    keySet (m.insert a b) = insert a (keySet m) := by
  ext a'
  rw [keySet, Set.mem_ofPred_eq, ExtTreeMap.mem_insert, LawfulEqCmp.compare_eq_iff_eq,
    Set.mem_insert_iff, eq_comm]
  rfl

@[simp] theorem keySet_erase (m : ExtTreeMap α β cmp) (a : α) :
    keySet (m.erase a) = keySet m \ {a} := by
  ext a'
  rw [keySet, Set.mem_ofPred_eq, ExtTreeMap.mem_erase, ne_eq, LawfulEqCmp.compare_eq_iff_eq,
    Set.mem_sdiff, Set.mem_singleton_iff, and_comm, eq_comm]
  rfl

/-- The entry under another key is what it was. -/
theorem getElem?_insert_of_ne (m : ExtTreeMap α β cmp) {a a' : α} (ha : a ≠ a') (b : β) :
    (m.insert a b)[a']? = m[a']? := by
  have hcmp : cmp a a' ≠ .eq := fun heq => ha (LawfulEqCmp.compare_eq_iff_eq.mp heq)
  rw [ExtTreeMap.getElem?_insert, if_neg hcmp]

/-- The list holds the members of the set, each of them once. -/
structure Mirrors (l : List α) (s : Set α) : Prop where
  nodup : l.Nodup
  mem_iff : ∀ a, a ∈ l ↔ a ∈ s

namespace Mirrors

variable {l : List α} {s : Set α}

theorem empty : Mirrors ([] : List α) ∅ where
  nodup := List.nodup_nil
  mem_iff _ := iff_of_false List.not_mem_nil (Set.notMem_empty _)

/-- A new member. -/
theorem insert (h : Mirrors l s) {a : α} (ha : a ∉ s) : Mirrors (l ++ [a]) (insert a s) where
  nodup := by
    rw [← List.concat_eq_append]
    exact h.nodup.concat fun hmem => ha ((h.mem_iff a).mp hmem)
  mem_iff a' := by
    rw [List.mem_append, List.mem_singleton, Set.mem_insert_iff, h.mem_iff, or_comm]

/-- A member is taken out, if it is one. -/
theorem erase [DecidableEq α] (h : Mirrors l s) (a : α) :
    Mirrors (l.filter (· ≠ a)) (s \ {a}) where
  nodup := h.nodup.filter _
  mem_iff a' := by
    rw [List.mem_filter, Set.mem_sdiff, Set.mem_singleton_iff, h.mem_iff, decide_eq_true_iff]

/-- **A mirror of the keys of a map is a permutation of them.** -/
theorem perm_keys {m : ExtTreeMap α β cmp} (h : Mirrors l (keySet m)) : l.Perm m.keys :=
  (List.perm_ext_iff_of_nodup h.nodup ExtTreeMap.nodup_keys).mpr fun a =>
    (h.mem_iff a).trans ExtTreeMap.mem_keys.symm

end Mirrors

end

/-! ### Pieces of a text -/

section

variable {α : Type}

/-- The pieces lie in the text, in this order and without touching each other's places. -/
def HasInOrder : List (List α) → List α → Prop
  | [], _ => True
  | piece :: pieces, text => ∃ before after, text = before ++ piece ++ after ∧
      HasInOrder pieces after

/-- They lie in the text made of them. -/
theorem hasInOrder_flatten (pieces : List (List α)) : HasInOrder pieces pieces.flatten := by
  induction pieces with
  | nil => exact True.intro
  | cons piece pieces ih => exact ⟨[], pieces.flatten, rfl, ih⟩

/-- None but empty pieces lie in the empty text. -/
theorem hasInOrder_nil_iff {pieces : List (List α)} :
    HasInOrder pieces [] ↔ ∀ piece ∈ pieces, piece = [] := by
  induction pieces with
  | nil => exact iff_of_true True.intro (List.forall_mem_nil _)
  | cons piece pieces ih =>
    rw [List.forall_mem_cons, ← ih]
    constructor
    · rintro ⟨before, after, heq, hrest⟩
      obtain ⟨hfirst, rfl⟩ := List.append_eq_nil_iff.mp heq.symm
      exact ⟨(List.append_eq_nil_iff.mp hfirst).2, hrest⟩
    · rintro ⟨rfl, hrest⟩
      exact ⟨[], [], rfl, hrest⟩

end

end SocialGaming
