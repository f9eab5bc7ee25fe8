import Mathlib.Data.List.Basic

/-!
# Where a selected element stood

`List.filterMap` keeps the elements that a function selects, and numbers them anew. An element with
a number in the result stood at one position of the list, and the number is how many elements before
that position were selected.

## Main definitions

* `SelectedAt` — number and position of a selected element

## Main results

* `exists_selectedAt_iff` — each element of the result has a position
* `SelectedAt.position_unique` — and only one
-/

namespace SocialGaming

variable {α β : Type} {select : α → Option β} {l : List α} {i j k : ℕ} {b c : β}

/-- At position `j` an element is selected, as `b`, after `i` others. -/
structure SelectedAt (select : α → Option β) (l : List α) (i j : ℕ) (b : β) : Prop where
  selected : l[j]?.bind select = some b
  number : ((l.take j).filterMap select).length = i

theorem SelectedAt.lt_length (h : SelectedAt select l i j b) : j < l.length := by
  by_contra hle
  have hnone := h.selected
  simp [List.getElem?_eq_none (Nat.not_lt.mp hle)] at hnone

/-- What is selected up to a position at which an element is selected. -/
theorem SelectedAt.filterMap_take (h : SelectedAt select l i j b) :
    (l.take (j + 1)).filterMap select = (l.take j).filterMap select ++ [b] := by
  have hb := h.selected
  rw [List.getElem?_eq_getElem h.lt_length, Option.bind_some] at hb
  rw [List.take_succ_eq_append_getElem h.lt_length, List.filterMap_append,
    List.filterMap_cons_some hb, List.filterMap_nil]

theorem SelectedAt.getElem? (h : SelectedAt select l i j b) :
    (l.filterMap select)[i]? = some b := by
  have hpre : (l.take (j + 1)).filterMap select <+: l.filterMap select :=
    (List.take_prefix _ _).filterMap _
  obtain ⟨t, ht⟩ := hpre
  rw [← ht, h.filterMap_take, List.append_assoc, ← h.number]
  simp

/-- **Position of an element of the result.** -/
theorem exists_selectedAt_iff :
    (l.filterMap select)[i]? = some b ↔ ∃ j, SelectedAt select l i j b := by
  constructor
  · intro h
    induction l generalizing i with
    | nil => simp at h
    | cons a l ih =>
      rcases ha : select a with _ | c
      · rw [List.filterMap_cons_none ha] at h
        obtain ⟨j, hj⟩ := ih h
        exact ⟨j + 1, by simpa using hj.selected, by simpa [ha] using hj.number⟩
      · rw [List.filterMap_cons_some ha] at h
        rcases i with _ | i
        · exact ⟨0, by simpa [ha] using h, rfl⟩
        · obtain ⟨j, hj⟩ := ih h
          exact ⟨j + 1, by simpa using hj.selected, by simpa [ha] using hj.number⟩
  · rintro ⟨j, hj⟩
    exact hj.getElem?

/-- Further on, more elements have been selected. -/
theorem SelectedAt.lt_number (h : SelectedAt select l i j b) (hjk : j < k) :
    i < ((l.take k).filterMap select).length := by
  have hpre : (l.take (j + 1)).filterMap select <+: (l.take k).filterMap select :=
    (List.take_prefix_take_left hjk).filterMap _
  have hlen := hpre.length_le
  rw [h.filterMap_take, List.length_append, h.number, List.length_singleton] at hlen
  omega

/-- **Uniqueness.** -/
theorem SelectedAt.position_unique (hj : SelectedAt select l i j b)
    (hk : SelectedAt select l i k c) : j = k := by
  rcases Nat.lt_trichotomy j k with hlt | heq | hgt
  · have hnum := hj.lt_number hlt
    rw [hk.number] at hnum
    omega
  · exact heq
  · have hnum := hk.lt_number hgt
    rw [hj.number] at hnum
    omega

end SocialGaming
