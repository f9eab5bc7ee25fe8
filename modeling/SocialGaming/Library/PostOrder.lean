import Mathlib.Data.List.Nodup
import Mathlib.Order.Basic

/-!
# Post-order

The proper descendants of a node, by the paths that lead to them, each node after all that is below
it. The order of two paths is decided by the paths alone: what is below a node comes before it, and
of two children the first comes first with all that is below it.

When the nodes lie on a line, each inside its parent and the children one behind the other, the
order is that of their right ends.

## Main definitions

* `descend` — what a path leads to
* `postOrder` — the paths to the proper descendants
* `PathBefore` — the order of two paths
* `NestedRanges` — the nodes lie on a line

## Main results

* `mem_postOrder_iff` — every proper descendant is listed, and nothing else
* `pairwise_postOrder` — the order of the list
* `NestedRanges.stop_le_stop` — the order on the line
-/

namespace SocialGaming

variable {α : Type*}

/-- What a path of child positions leads to. -/
def descend (children : α → List α) : α → List ℕ → Option α
  | a, [] => some a
  | a, i :: path => (children a)[i]?.bind fun child => descend children child path

/-- The paths to the proper descendants down to a depth, each after all that is below it. -/
def postOrder (children : α → List α) : ℕ → α → List (List ℕ)
  | 0, _ => []
  | depth + 1, a => (children a).zipIdx.flatMap fun child =>
      (postOrder children depth child.1).map (child.2 :: ·) ++ [[child.2]]

/-- The first path leads to a node that is below the one the second path leads to, or to the left
of it. -/
inductive PathBefore : List ℕ → List ℕ → Prop
  | inside {i : ℕ} {path : List ℕ} : PathBefore (i :: path) []
  | left {i j : ℕ} {path path' : List ℕ} (h : i < j) : PathBefore (i :: path) (j :: path')
  | cons {i : ℕ} {path path' : List ℕ} (h : PathBefore path path') :
      PathBefore (i :: path) (i :: path')

/-- What is listed before a node is not above it, and is not the node itself. -/
theorem PathBefore.not_prefix {path path' : List ℕ} (h : PathBefore path path') :
    ¬ path <+: path' := by
  induction h with
  | inside => simp
  | left h =>
    rw [List.cons_prefix_cons]
    omega
  | cons _ ih =>
    rw [List.cons_prefix_cons]
    exact fun h => ih h.2

theorem PathBefore.ne {path path' : List ℕ} (h : PathBefore path path') : path ≠ path' := by
  rintro rfl
  exact h.not_prefix List.prefix_rfl

section

variable {children : α → List α}

theorem descend_append (a : α) (path path' : List ℕ) :
    descend children a (path ++ path')
      = (descend children a path).bind fun b => descend children b path' := by
  induction path generalizing a with
  | nil => rfl
  | cons i path ih =>
    rw [List.cons_append, descend, descend]
    rcases (children a)[i]? with _ | child
    · rfl
    · exact ih child

/-- A node is listed with its children and what is below them. -/
theorem mem_postOrder_succ {depth : ℕ} {a : α} {path : List ℕ} :
    path ∈ postOrder children (depth + 1) a ↔ ∃ i child rest, (children a)[i]? = some child ∧
      path = i :: rest ∧ (rest = [] ∨ rest ∈ postOrder children depth child) := by
  simp only [postOrder, List.mem_flatMap, Prod.exists, List.mem_zipIdx_iff_getElem?,
    List.mem_append, List.mem_map, List.mem_singleton]
  constructor
  · rintro ⟨child, i, hchild, ⟨rest, hrest, rfl⟩ | rfl⟩
    · exact ⟨i, child, rest, hchild, rfl, Or.inr hrest⟩
    · exact ⟨i, child, [], hchild, rfl, Or.inl rfl⟩
  · rintro ⟨i, child, rest, hchild, rfl, rfl | hrest⟩
    · exact ⟨child, i, hchild, Or.inr rfl⟩
    · exact ⟨child, i, hchild, Or.inl ⟨rest, hrest, rfl⟩⟩

/-- **What is listed.** To a depth that the tree does not exceed, every proper descendant, and
nothing else. -/
theorem mem_postOrder_iff {height : α → ℕ}
    (hheight : ∀ a, ∀ child ∈ children a, height child < height a) {depth : ℕ} {a : α}
    (hdepth : height a ≤ depth) {path : List ℕ} :
    path ∈ postOrder children depth a ↔ path ≠ [] ∧ (descend children a path).isSome := by
  induction depth generalizing a path with
  | zero =>
    have hnil : children a = [] := by
      rw [List.eq_nil_iff_forall_not_mem]
      intro child hchild
      have hlt := hheight a child hchild
      omega
    rcases path with _ | ⟨i, path⟩
    · simp [postOrder]
    · simp [postOrder, descend, hnil]
  | succ depth ih =>
    rw [mem_postOrder_succ]
    constructor
    · rintro ⟨i, child, rest, hchild, rfl, hrest⟩
      refine ⟨List.cons_ne_nil _ _, ?_⟩
      rw [descend, hchild, Option.bind_some]
      rcases hrest with rfl | hrest
      · rfl
      · have hlt := hheight a child (List.mem_of_getElem? hchild)
        exact ((ih (by omega)).mp hrest).2
    · rintro ⟨hne, hsome⟩
      rcases path with _ | ⟨i, rest⟩
      · exact absurd rfl hne
      · rw [descend] at hsome
        rcases hchild : (children a)[i]? with _ | child
        · rw [hchild] at hsome
          cases hsome
        · rw [hchild, Option.bind_some] at hsome
          refine ⟨i, child, rest, hchild, rfl, ?_⟩
          have hlt := hheight a child (List.mem_of_getElem? hchild)
          by_cases hrest : rest = []
          · exact Or.inl hrest
          · exact Or.inr ((ih (by omega)).mpr ⟨hrest, hsome⟩)

/-- **The order of the list.** -/
theorem pairwise_postOrder (depth : ℕ) (a : α) :
    (postOrder children depth a).Pairwise PathBefore := by
  induction depth generalizing a with
  | zero => exact List.Pairwise.nil
  | succ depth ih =>
    rw [postOrder, List.pairwise_flatMap]
    constructor
    · rintro ⟨child, i⟩ -
      rw [List.pairwise_append]
      refine ⟨?_, List.pairwise_singleton _ _, ?_⟩
      · rw [List.pairwise_map]
        exact (ih child).imp PathBefore.cons
      · intro path hpath path' hpath'
        obtain ⟨rest, hrest, rfl⟩ := List.mem_map.mp hpath
        obtain rfl := List.mem_singleton.mp hpath'
        rcases rest with _ | ⟨j, rest⟩
        · rcases depth with _ | depth
          · cases hrest
          · obtain ⟨_, _, _, -, hcons, -⟩ := mem_postOrder_succ.mp hrest
            cases hcons
        · exact PathBefore.cons PathBefore.inside
    · have hidx : ((children a).zipIdx.map Prod.snd).Pairwise (· < ·) := by
        rw [List.zipIdx_map_snd]
        exact List.pairwise_lt_range'
      refine (List.pairwise_map.mp hidx).imp ?_
      rintro ⟨child, i⟩ ⟨child', j⟩ hij path hpath path' hpath'
      have hcons : ∀ {c : α} {i : ℕ} {path : List ℕ},
          path ∈ (postOrder children depth c).map (i :: ·) ++ [[i]] → ∃ rest, path = i :: rest := by
        intro c i path h
        rw [List.mem_append, List.mem_map, List.mem_singleton] at h
        rcases h with ⟨rest, -, rfl⟩ | rfl
        · exact ⟨rest, rfl⟩
        · exact ⟨[], rfl⟩
      obtain ⟨rest, rfl⟩ := hcons hpath
      obtain ⟨rest', rfl⟩ := hcons hpath'
      exact PathBefore.left hij

theorem nodup_postOrder (depth : ℕ) (a : α) : (postOrder children depth a).Nodup :=
  (pairwise_postOrder depth a).imp PathBefore.ne

end

/-! ### On a line -/

section

variable {β : Type*} [Preorder β] {children : α → List α} {a : α} {start stop : List ℕ → β}

/-- The descendants of a node lie on a line, from their starts to their stops: each child inside its
parent, and behind the children before it. -/
structure NestedRanges (children : α → List α) (a : α) (start stop : List ℕ → β) : Prop where
  start_le_stop : ∀ path, (descend children a path).isSome → start path ≤ stop path
  start_le : ∀ path i, (descend children a (path ++ [i])).isSome →
    start path ≤ start (path ++ [i])
  stop_le : ∀ path i, (descend children a (path ++ [i])).isSome → stop (path ++ [i]) ≤ stop path
  ordered : ∀ path i j, i < j → (descend children a (path ++ [i])).isSome →
    (descend children a (path ++ [j])).isSome → stop (path ++ [i]) ≤ start (path ++ [j])

/-- On the way to a descendant there are descendants. -/
theorem isSome_of_append {path path' : List ℕ}
    (h : (descend children a (path ++ path')).isSome) : (descend children a path).isSome := by
  rw [descend_append] at h
  rcases hpath : descend children a path with _ | b
  · rw [hpath] at h
    cases h
  · rfl

/-- What is below a node is inside it. -/
theorem NestedRanges.inside (h : NestedRanges children a start stop) (path path' : List ℕ)
    (hsome : (descend children a (path ++ path')).isSome) :
    start path ≤ start (path ++ path') ∧ stop (path ++ path') ≤ stop path := by
  induction path' generalizing path with
  | nil => simp
  | cons i path' ih =>
    rw [List.append_cons] at hsome ⊢
    have hchild := isSome_of_append hsome
    obtain ⟨hstart, hstop⟩ := ih (path ++ [i]) hsome
    exact ⟨(h.start_le path i hchild).trans hstart, hstop.trans (h.stop_le path i hchild)⟩

/-- The two paths are compared below a path that they have in common. -/
theorem NestedRanges.stop_append_le (h : NestedRanges children a start stop) {path path' : List ℕ}
    (hbefore : PathBefore path path') (common : List ℕ)
    (hsome : (descend children a (common ++ path)).isSome)
    (hsome' : (descend children a (common ++ path')).isSome) :
    stop (common ++ path) ≤ stop (common ++ path') := by
  induction hbefore generalizing common with
  | @inside i rest =>
    rw [List.append_nil]
    exact (h.inside common (i :: rest) hsome).2
  | @left i j rest rest' hij =>
    rw [List.append_cons] at hsome hsome' ⊢
    rw [List.append_cons common j]
    calc stop (common ++ [i] ++ rest)
        ≤ stop (common ++ [i]) := (h.inside _ rest hsome).2
      _ ≤ start (common ++ [j]) :=
          h.ordered common i j hij (isSome_of_append hsome) (isSome_of_append hsome')
      _ ≤ start (common ++ [j] ++ rest') := (h.inside _ rest' hsome').1
      _ ≤ stop (common ++ [j] ++ rest') := h.start_le_stop _ hsome'
  | @cons i rest rest' _ ih =>
    rw [List.append_cons] at hsome hsome' ⊢
    rw [List.append_cons common i rest']
    exact ih (common ++ [i]) hsome hsome'

/-- **The order on the line**: what comes before a node does not end behind it. -/
theorem NestedRanges.stop_le_stop (h : NestedRanges children a start stop) {path path' : List ℕ}
    (hbefore : PathBefore path path') (hpath : (descend children a path).isSome)
    (hpath' : (descend children a path').isSome) : stop path ≤ stop path' :=
  h.stop_append_le hbefore [] hpath hpath'

end

end SocialGaming
