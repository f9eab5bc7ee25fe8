import Mathlib.Data.List.Basic
import Mathlib.Data.Option.Basic

/-!
# Trees of lists and maps

A tree whose inner nodes are lists and maps with keys in `κ`, and whose leaves are in `α`. A map is
a partial function, so two trees are equal when they have the same entries, in whatever order the
entries were made.

## Main definitions

* `Nested`, `Nested.mapLeaves` — the trees, and a change of their leaves
* `Nested.IsLeaf` — a value occurs as a leaf

## Main results

* `Nested.induct` — induction on a tree
* `Nested.mapLeaves_eq_self_iff` — a change that changes nothing
* `Nested.eq_of_mapLeaves_eq` — when the leaves of the image determine the tree
-/

namespace SocialGaming

/-- A tree of lists and maps. -/
inductive Nested (κ α : Type) where
  | leaf (a : α)
  | list (l : List (Nested κ α))
  | map (f : κ → Option (Nested κ α))

namespace Nested

variable {κ α β γ : Type}

/-- Induction on a tree: what holds of the elements and of the entries holds of the tree. -/
@[induction_eliminator]
theorem induct {motive : Nested κ α → Prop} (leaf : ∀ a, motive (.leaf a))
    (list : ∀ l, (∀ t ∈ l, motive t) → motive (.list l))
    (map : ∀ f, (∀ k t, f k = some t → motive t) → motive (.map f)) (t : Nested κ α) :
    motive t := by
  refine Nested.rec (motive_1 := motive) (motive_2 := fun l => ∀ t ∈ l, motive t)
    (motive_3 := fun o => ∀ t, o = some t → motive t) leaf list map ?_ ?_ ?_ ?_ t
  · exact fun t ht => nomatch ht
  · intro t l ht hl t' ht'
    rcases List.mem_cons.mp ht' with rfl | ht'
    · exact ht
    · exact hl t' ht'
  · exact fun t ht => nomatch ht
  · rintro t ht _ ⟨⟩
    exact ht

/-! ### The leaves -/

mutual

/-- Each leaf is changed. -/
def mapLeaves (g : α → β) : Nested κ α → Nested κ β
  | .leaf a => .leaf (g a)
  | .list l => .list (mapLeavesList g l)
  | .map f => .map fun k => mapLeavesOption g (f k)

/-- The same in a list of trees. -/
def mapLeavesList (g : α → β) : List (Nested κ α) → List (Nested κ β)
  | [] => []
  | t :: l => mapLeaves g t :: mapLeavesList g l

/-- The same in a tree that may be missing. -/
def mapLeavesOption (g : α → β) : Option (Nested κ α) → Option (Nested κ β)
  | none => none
  | some t => some (mapLeaves g t)

end

@[simp] theorem mapLeaves_leaf (g : α → β) (a : α) :
    (leaf a : Nested κ α).mapLeaves g = leaf (g a) := by
  rw [mapLeaves]

@[simp] theorem mapLeaves_list (g : α → β) (l : List (Nested κ α)) :
    (list l).mapLeaves g = list (l.map (mapLeaves g)) := by
  have hl : mapLeavesList g l = l.map (mapLeaves g) := by
    induction l with
    | nil => rfl
    | cons t l ih => rw [mapLeavesList, ih, List.map_cons]
  rw [mapLeaves, hl]

@[simp] theorem mapLeaves_map (g : α → β) (f : κ → Option (Nested κ α)) :
    (map f).mapLeaves g = map fun k => (f k).map (mapLeaves g) := by
  have hf : ∀ o : Option (Nested κ α), mapLeavesOption g o = o.map (mapLeaves g) := by
    intro o
    cases o with
    | none => rfl
    | some t => rfl
  rw [mapLeaves]
  simp only [hf]

/-- The value occurs as a leaf of the tree. -/
inductive IsLeaf (a : α) : Nested κ α → Prop
  | leaf : IsLeaf a (.leaf a)
  | list {l : List (Nested κ α)} {t : Nested κ α} (ht : t ∈ l) (h : IsLeaf a t) : IsLeaf a (.list l)
  | map {f : κ → Option (Nested κ α)} {k : κ} {t : Nested κ α} (ht : f k = some t)
      (h : IsLeaf a t) : IsLeaf a (.map f)

@[simp] theorem isLeaf_leaf {a b : α} : IsLeaf b (leaf a : Nested κ α) ↔ b = a := by
  constructor
  · rintro ⟨⟩
    rfl
  · rintro rfl
    exact .leaf

/-- A change that fixes every leaf. -/
theorem mapLeaves_eq_self_iff {g : α → α} {t : Nested κ α} :
    t.mapLeaves g = t ↔ ∀ a, IsLeaf a t → g a = a := by
  induction t with
  | leaf a => simp
  | list l ih =>
    have hself : l.map (mapLeaves g) = l ↔ ∀ t ∈ l, t.mapLeaves g = t := by
      simpa using List.map_inj_left (l := l) (f := mapLeaves g) (g := id)
    rw [mapLeaves_list, list.injEq, hself]
    constructor
    · rintro h a (_ | ⟨ht, ha⟩)
      exact (ih _ ht).mp (h _ ht) a ha
    · intro h t ht
      exact (ih t ht).mpr fun a ha => h a (.list ht ha)
  | map f ih =>
    rw [mapLeaves_map, map.injEq, funext_iff]
    constructor
    · rintro h a (_ | _ | @⟨_, k, t, ht, ha⟩)
      have hk := h k
      rw [ht, Option.map_some, Option.some.injEq] at hk
      exact (ih k t ht).mp hk a ha
    · intro h k
      rcases ht : f k with _ | t
      · rfl
      · rw [Option.map_some, (ih k t ht).mpr fun a ha => h a (.map ht ha)]

theorem mapLeaves_mapLeaves (g : β → γ) (f : α → β) (t : Nested κ α) :
    (t.mapLeaves f).mapLeaves g = t.mapLeaves fun a => g (f a) := by
  induction t with
  | leaf a => simp
  | list l ih =>
    simp only [mapLeaves_list, List.map_map]
    exact congrArg _ (List.map_congr_left ih)
  | map e ih =>
    simp only [mapLeaves_map, Option.map_map]
    refine congrArg _ (funext fun k => ?_)
    rcases ht : e k with _ | t
    · rfl
    · exact congrArg _ (ih k t ht)

/-- The image of a leaf is a leaf of the image. -/
theorem IsLeaf.mapLeaves {a : α} {t : Nested κ α} (h : IsLeaf a t) (g : α → β) :
    IsLeaf (g a) (t.mapLeaves g) := by
  induction h with
  | leaf => simp
  | @list l t ht h ih =>
    rw [mapLeaves_list]
    exact .list (List.mem_map_of_mem ht) ih
  | @map f k t ht h ih =>
    rw [mapLeaves_map]
    exact .map (k := k) (by rw [ht]; rfl) ih

/-- **The leaves of the image determine the tree** when each of them is the image of itself
only. -/
theorem eq_of_mapLeaves_eq {g : α → α} {t t' : Nested κ α} (ht : t'.mapLeaves g = t)
    (hg : ∀ a, IsLeaf a t → ∀ a', g a' = a → a' = a) : t' = t := by
  have hself : t'.mapLeaves g = t' := mapLeaves_eq_self_iff.mpr fun a ha => by
    have hga : IsLeaf (g a) t := ht ▸ ha.mapLeaves g
    exact (hg (g a) hga a rfl).symm
  rw [← ht, hself]

end Nested

end SocialGaming
