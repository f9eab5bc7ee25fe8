import Mathlib.Data.List.DropRight
import Mathlib.Data.List.Forall2
import Mathlib.Data.Set.Lattice
import Mathlib.Logic.Function.Basic
import Mathlib.Logic.Relation
import Mathlib.Order.CompletePartialOrder

/-!
# Stacks of scopes

A stack of frames, each a partial function from names to values, with the front of the stack at
the head of the list. A name is looked up in the frames from the front; an assignment rewrites the
name where it is found first and otherwise binds it in the front frame. So an assignment never
shadows, and this is the whole reason for the laws below: in a stack built by the moves each name
has one home.

## Main definitions

* `lookup`, `assign`, `visible` — reading, writing, and the names that can be read
* `column` — what the frames bind one name to
* `UniquelyBound` — no name is bound in two frames
* `Grow`, `Shrink` — the moves that may lengthen the stack, and those that may shorten it

## Main results

* `lookup_assign` — an assignment updates the lookup function at one name
* `lookup_perm` — with unique binding the order of the search does not matter
* `Grow.uniquelyBound`, `Shrink.uniquelyBound` — the moves keep unique binding
* `rtake_doms_of_grows`, `rtake_doms_of_shrinks` — the frames below a level bind the same names as
  long as the stack stays above the level
-/

namespace SocialGaming.ScopeStack

open Relation (ReflTransGen)

variable {κ ν : Type*}

/-- A frame. -/
abbrev Frame (κ ν : Type*) : Type _ := κ → Option ν

/-- The names a frame binds. -/
def dom (f : Frame κ ν) : Set κ := {x | (f x).isSome}

/-- The names a stack binds, frame by frame. -/
def doms (st : List (Frame κ ν)) : List (Set κ) := st.map dom

/-- The names that can be read. -/
def visible (st : List (Frame κ ν)) : Set κ := {x | ∃ f ∈ st, x ∈ dom f}

/-- The value of a name: that of the first frame that binds it. -/
def lookup (st : List (Frame κ ν)) (x : κ) : Option ν := st.findSome? fun f => f x

/-- No name is bound in two frames. -/
def UniquelyBound (st : List (Frame κ ν)) : Prop := (doms st).Pairwise Disjoint

@[simp] theorem mem_dom {f : Frame κ ν} {x : κ} : x ∈ dom f ↔ (f x).isSome := Iff.rfl

@[simp] theorem doms_cons (f : Frame κ ν) (st : List (Frame κ ν)) :
    doms (f :: st) = dom f :: doms st := rfl

@[simp] theorem length_doms (st : List (Frame κ ν)) : (doms st).length = st.length :=
  List.length_map _

@[simp] theorem dom_empty : dom (fun _ => none : Frame κ ν) = ∅ := by
  ext x; simp

theorem visible_eq_sUnion (st : List (Frame κ ν)) : visible st = ⋃₀ {S | S ∈ doms st} := by
  ext x; simp [visible, doms]

/-- The names that can be read depend only on what the frames bind. -/
theorem visible_congr {st st' : List (Frame κ ν)} (h : doms st = doms st') :
    visible st = visible st' := by
  rw [visible_eq_sUnion, visible_eq_sUnion, h]

theorem visible_cons (f : Frame κ ν) (st : List (Frame κ ν)) :
    visible (f :: st) = dom f ∪ visible st := by
  ext x; simp [visible]

theorem lookup_cons (f : Frame κ ν) (st : List (Frame κ ν)) (x : κ) :
    lookup (f :: st) x = (f x).or (lookup st x) := by
  rw [lookup, List.findSome?_cons]
  cases h : f x <;> simp [lookup]

theorem isSome_lookup_iff {st : List (Frame κ ν)} {x : κ} :
    (lookup st x).isSome ↔ x ∈ visible st := by
  simp [lookup, visible, List.isSome_findSome?, dom]

/-! ### Unique binding -/

/-- What each frame binds one name to. -/
def column (x : κ) (st : List (Frame κ ν)) : List (Option ν) := st.map fun f => f x

/-- Frames above that do not bind the name do not change what it is. -/
theorem lookup_eq_of_column {x : κ} {k : ℕ} {st base : List (Frame κ ν)}
    (h : column x st = List.replicate k none ++ column x base) : lookup st x = lookup base x := by
  have hcolumn : ∀ st : List (Frame κ ν), lookup st x = (column x st).findSome? id := by
    intro st
    rw [column, List.findSome?_map]
    rfl
  rw [hcolumn, hcolumn, h, List.findSome?_append]
  simp

theorem uniquelyBound_cons {f : Frame κ ν} {st : List (Frame κ ν)} :
    UniquelyBound (f :: st) ↔ Disjoint (dom f) (visible st) ∧ UniquelyBound st := by
  rw [UniquelyBound, doms_cons, List.pairwise_cons, visible_eq_sUnion, Set.disjoint_sUnion_right]
  rfl

/-- With unique binding, any frame that binds a name has its value. -/
theorem lookup_eq_some_iff {st : List (Frame κ ν)} (h : UniquelyBound st) {x : κ} {v : ν} :
    lookup st x = some v ↔ ∃ f ∈ st, f x = some v := by
  induction st with
  | nil => simp [lookup]
  | cons f st ih =>
    obtain ⟨hf, hst⟩ := uniquelyBound_cons.mp h
    rw [lookup_cons, List.exists_mem_cons_iff, ← ih hst]
    cases hx : f x with
    | none => simp
    | some w =>
      have hnot : x ∉ visible st := Set.disjoint_left.mp hf (by simp [hx])
      have hnone : lookup st x = none := by
        rwa [← isSome_lookup_iff, Option.not_isSome_iff_eq_none] at hnot
      simp [hnone]

/-- **The order of the search does not matter.** -/
theorem lookup_perm {st st' : List (Frame κ ν)} (h : UniquelyBound st) (hp : st.Perm st') :
    lookup st = lookup st' := by
  have h' : UniquelyBound st' := (hp.map dom).pairwise h fun hd => hd.symm
  funext x
  refine Option.ext fun v => ?_
  rw [lookup_eq_some_iff h, lookup_eq_some_iff h']
  exact exists_congr fun f => and_congr_left fun _ => hp.mem_iff

/-! ### Assignment -/

variable [DecidableEq κ]

/-- Rewrite a name in the first frame that binds it. -/
def rebind (x : κ) (v : ν) : List (Frame κ ν) → List (Frame κ ν)
  | [] => []
  | f :: st => if (f x).isSome then Function.update f x (some v) :: st else f :: rebind x v st

/-- Rewrite a name where it is bound, or bind it in the front frame. -/
def assign (x : κ) (v : ν) : List (Frame κ ν) → List (Frame κ ν)
  | [] => []
  | f :: st =>
    if (lookup (f :: st) x).isSome then rebind x v (f :: st)
    else Function.update f x (some v) :: st

theorem dom_update (f : Frame κ ν) (x : κ) (v : ν) :
    dom (Function.update f x (some v)) = insert x (dom f) := by
  ext y
  rcases eq_or_ne y x with rfl | hy
  · simp
  · simp [hy]

@[simp] theorem doms_rebind (x : κ) (v : ν) (st : List (Frame κ ν)) :
    doms (rebind x v st) = doms st := by
  induction st with
  | nil => rfl
  | cons f st ih =>
    rw [rebind]
    split
    · rename_i hx
      rw [doms_cons, doms_cons, dom_update, Set.insert_eq_of_mem (mem_dom.mpr hx)]
    · rw [doms_cons, doms_cons, ih]

@[simp] theorem length_assign (x : κ) (v : ν) (st : List (Frame κ ν)) :
    (assign x v st).length = st.length := by
  cases st with
  | nil => rfl
  | cons f st =>
    rw [assign]
    split
    · rw [← length_doms, doms_rebind, length_doms]
    · rfl

/-- An assignment to a name that can be read changes no frame's names. -/
theorem doms_assign_of_mem {x : κ} {st : List (Frame κ ν)} (hx : x ∈ visible st) (v : ν) :
    doms (assign x v st) = doms st := by
  cases st with
  | nil => rfl
  | cons f st => rw [assign, if_pos (isSome_lookup_iff.mpr hx), doms_rebind]

/-- An assignment to any other name adds it to the front frame. -/
theorem doms_assign_of_not_mem {x : κ} {f : Frame κ ν} {st : List (Frame κ ν)}
    (hx : x ∉ visible (f :: st)) (v : ν) :
    doms (assign x v (f :: st)) = insert x (dom f) :: doms st := by
  rw [assign, if_neg (mt isSome_lookup_iff.mp hx), doms_cons, dom_update]

/-- Below the front frame an assignment changes no frame's names. -/
theorem tail_doms_assign (x : κ) (v : ν) (st : List (Frame κ ν)) :
    (doms (assign x v st)).tail = (doms st).tail := by
  cases st with
  | nil => rfl
  | cons f st =>
    by_cases hx : x ∈ visible (f :: st)
    · rw [doms_assign_of_mem hx]
    · rw [doms_assign_of_not_mem hx, doms_cons, List.tail_cons, List.tail_cons]

theorem lookup_rebind {x : κ} {st : List (Frame κ ν)} (hx : (lookup st x).isSome) (v : ν) :
    lookup (rebind x v st) = Function.update (lookup st) x (some v) := by
  induction st with
  | nil => simp [lookup] at hx
  | cons f st ih =>
    funext y
    rw [rebind]
    by_cases hf : (f x).isSome
    · rw [if_pos hf, lookup_cons]
      rcases eq_or_ne y x with rfl | hy
      · simp
      · rw [Function.update_of_ne hy, Function.update_of_ne hy, lookup_cons]
    · rw [Option.not_isSome_iff_eq_none] at hf
      rw [lookup_cons, hf, Option.none_or] at hx
      rw [if_neg (by simp [hf]), lookup_cons, ih hx]
      rcases eq_or_ne y x with rfl | hy
      · simp [hf]
      · rw [Function.update_of_ne hy, Function.update_of_ne hy, lookup_cons]

/-- **An assignment updates the lookup function at one name.** -/
theorem lookup_assign {st : List (Frame κ ν)} (hst : st ≠ []) (x : κ) (v : ν) :
    lookup (assign x v st) = Function.update (lookup st) x (some v) := by
  obtain ⟨f, st, rfl⟩ := List.exists_cons_of_ne_nil hst
  rw [assign]
  split
  · rename_i hx
    exact lookup_rebind hx v
  · funext y
    rcases eq_or_ne y x with rfl | hy
    · simp [lookup_cons]
    · rw [lookup_cons, Function.update_of_ne hy, Function.update_of_ne hy, lookup_cons]

/-- An assignment does not touch the other names, in any frame. -/
theorem column_assign_of_ne {x y : κ} (hy : y ≠ x) (v : ν) (st : List (Frame κ ν)) :
    column y (assign x v st) = column y st := by
  have hrebind : column y (rebind x v st) = column y st := by
    induction st with
    | nil => rfl
    | cons f st ih =>
      rw [rebind]
      split
      · simp [column, Function.update_of_ne hy]
      · rw [column, List.map_cons, ← column, ih]
        rfl
  rcases st with _ | ⟨f, st⟩
  · rfl
  · rw [assign]
    split
    · exact hrebind
    · simp [column, Function.update_of_ne hy]

/-- An assignment to a name that is not bound in the frames at the bottom leaves them alone. -/
theorem assign_append {x : κ} {top bottom : List (Frame κ ν)} (htop : top ≠ [])
    (hx : x ∉ visible bottom) (v : ν) : assign x v (top ++ bottom) = assign x v top ++ bottom := by
  have hnone : lookup bottom x = none := by
    rwa [← isSome_lookup_iff, Option.not_isSome_iff_eq_none] at hx
  have hlookup : ∀ st : List (Frame κ ν), lookup (st ++ bottom) x = lookup st x := by
    intro st
    rw [lookup, lookup, List.findSome?_append]
    exact (congrArg _ hnone).trans Option.or_none
  have hrebind : ∀ st : List (Frame κ ν), (lookup st x).isSome →
      rebind x v (st ++ bottom) = rebind x v st ++ bottom := by
    intro st hst
    induction st with
    | nil => cases hst
    | cons f st ih =>
      rw [List.cons_append, rebind, rebind]
      by_cases hf : (f x).isSome
      · rw [if_pos hf, if_pos hf, List.cons_append]
      · have hf' : f x = none := by simpa using hf
        rw [lookup_cons, hf', Option.none_or] at hst
        rw [if_neg hf, if_neg hf, ih hst, List.cons_append]
  obtain ⟨f, st, rfl⟩ := List.exists_cons_of_ne_nil htop
  rw [List.cons_append, assign, assign, ← List.cons_append, hlookup]
  split
  · rename_i hvisible
    exact hrebind (f :: st) hvisible
  · rw [List.cons_append]

theorem UniquelyBound.assign {st : List (Frame κ ν)} (h : UniquelyBound st) (x : κ) (v : ν) :
    UniquelyBound (assign x v st) := by
  cases st with
  | nil => exact h
  | cons f st =>
    by_cases hx : x ∈ visible (f :: st)
    · rwa [UniquelyBound, doms_assign_of_mem hx]
    · obtain ⟨hf, hst⟩ := uniquelyBound_cons.mp h
      have hnot : x ∉ visible st := fun hmem =>
        hx (by rw [visible_cons]; exact Set.mem_union_right _ hmem)
      rw [ScopeStack.assign, if_neg (mt isSome_lookup_iff.mp hx)]
      refine uniquelyBound_cons.mpr ⟨?_, hst⟩
      rw [dom_update, Set.disjoint_insert_left]
      exact ⟨hnot, hf⟩

/-- **Frame by frame.** With unique binding, an assignment rewrites the name in the frame that binds
it, and changes no other name of any frame. -/
theorem forall₂_assign {st : List (Frame κ ν)} (h : UniquelyBound st) (x : κ) (v : ν) :
    List.Forall₂ (fun f f' => (∀ y, y ≠ x → f' y = f y) ∧ ((f x).isSome → f' x = some v)) st
      (assign x v st) := by
  have hupdate : ∀ f : Frame κ ν, (∀ y, y ≠ x → Function.update f x (some v) y = f y) ∧
      ((f x).isSome → Function.update f x (some v) x = some v) := fun f =>
    ⟨fun y hy => Function.update_of_ne hy _ _, fun _ => Function.update_self _ _ _⟩
  have hrest : ∀ st : List (Frame κ ν), x ∉ visible st → List.Forall₂
      (fun f f' => (∀ y, y ≠ x → f' y = f y) ∧ ((f x).isSome → f' x = some v)) st st := by
    intro st hst
    refine List.forall₂_same.mpr fun f hf => ⟨fun _ _ => rfl, fun hx => ?_⟩
    exact absurd ⟨f, hf, hx⟩ hst
  have hrebind : ∀ st : List (Frame κ ν), UniquelyBound st → List.Forall₂
      (fun f f' => (∀ y, y ≠ x → f' y = f y) ∧ ((f x).isSome → f' x = some v)) st
        (rebind x v st) := by
    intro st hst
    induction st with
    | nil => exact List.Forall₂.nil
    | cons f st ih =>
      obtain ⟨hf, hst⟩ := uniquelyBound_cons.mp hst
      rw [rebind]
      split
      · rename_i hx
        exact List.Forall₂.cons (hupdate f) (hrest st (Set.disjoint_left.mp hf hx))
      · rename_i hx
        exact List.Forall₂.cons ⟨fun _ _ => rfl, fun hx' => absurd hx' hx⟩ (ih hst)
  cases st with
  | nil => exact List.Forall₂.nil
  | cons f st =>
    rw [ScopeStack.assign]
    split
    · exact hrebind (f :: st) h
    · rename_i hx
      refine List.Forall₂.cons (hupdate f) (hrest st fun hmem => hx ?_)
      rw [isSome_lookup_iff, visible_cons]
      exact Set.mem_union_right _ hmem

/-! ### Moves -/

/-- A move that does not shorten the stack. -/
inductive Grow : List (Frame κ ν) → List (Frame κ ν) → Prop
  | assign (x : κ) (v : ν) (st : List (Frame κ ν)) : Grow st (assign x v st)
  | push (st : List (Frame κ ν)) : Grow st ((fun _ => none) :: st)

/-- A move that does not lengthen the stack. -/
inductive Shrink : List (Frame κ ν) → List (Frame κ ν) → Prop
  | assign (x : κ) (v : ν) (st : List (Frame κ ν)) : Shrink st (assign x v st)
  | clear (f : Frame κ ν) (st : List (Frame κ ν)) : Shrink (f :: st) ((fun _ => none) :: st)
  | pop (f : Frame κ ν) (st : List (Frame κ ν)) : Shrink (f :: st) st

theorem Grow.uniquelyBound {st st' : List (Frame κ ν)} (h : Grow st st')
    (hu : UniquelyBound st) : UniquelyBound st' := by
  rcases h with ⟨x, v⟩ | _
  · exact hu.assign x v
  · exact uniquelyBound_cons.mpr ⟨by simp, hu⟩

theorem Shrink.uniquelyBound {st st' : List (Frame κ ν)} (h : Shrink st st')
    (hu : UniquelyBound st) : UniquelyBound st' := by
  rcases h with ⟨x, v⟩ | f | f
  · exact hu.assign x v
  · exact uniquelyBound_cons.mpr ⟨by simp, (uniquelyBound_cons.mp hu).2⟩
  · exact (uniquelyBound_cons.mp hu).2

theorem uniquelyBound_of_grows {st st' : List (Frame κ ν)} (h : ReflTransGen Grow st st')
    (hu : UniquelyBound st) : UniquelyBound st' := by
  induction h with
  | refl => exact hu
  | tail _ hm ih => exact hm.uniquelyBound ih

theorem uniquelyBound_of_shrinks {st st' : List (Frame κ ν)} (h : ReflTransGen Shrink st st')
    (hu : UniquelyBound st) : UniquelyBound st' := by
  induction h with
  | refl => exact hu
  | tail _ hm ih => exact hm.uniquelyBound ih

/-! ### The frames below a level

`rtake d` of a stack is its `d` frames furthest from the front. -/

section Rtake

variable {α β : Type*} {l : List α} {d : ℕ}

theorem rtake_cons_of_le (a : α) (h : d ≤ l.length) : (a :: l).rtake d = l.rtake d := by
  rw [List.rtake, List.rtake, List.length_cons,
    show l.length + 1 - d = l.length - d + 1 by omega, List.drop_succ_cons]

theorem rtake_append_of_le (top : List α) (h : d ≤ l.length) :
    (top ++ l).rtake d = l.rtake d := by
  induction top with
  | nil => rfl
  | cons a top ih =>
    rw [List.cons_append, rtake_cons_of_le a (by rw [List.length_append]; omega), ih]

theorem rtake_eq_self (h : l.length ≤ d) : l.rtake d = l := by
  rw [List.rtake, Nat.sub_eq_zero_of_le h, List.drop_zero]

theorem length_rtake (l : List α) (d : ℕ) : (l.rtake d).length = min d l.length := by
  rw [List.rtake, List.length_drop]
  omega

/-- Taking more than there is. -/
theorem rtake_min_length (l : List α) (d : ℕ) : l.rtake (min d l.length) = l.rtake d := by
  rw [List.rtake, List.rtake]
  congr 1
  omega

theorem rtake_map (f : α → β) (l : List α) (d : ℕ) : (l.map f).rtake d = (l.rtake d).map f := by
  rw [List.rtake, List.rtake, List.length_map, List.map_drop]

theorem rtake_rtake {e : ℕ} (h : d ≤ e) : (l.rtake e).rtake d = l.rtake d := by
  rw [List.rtake, length_rtake, List.rtake, List.rtake, List.drop_drop]
  congr 1
  omega

theorem forall₂_rtake {R : α → β → Prop} {l' : List β} (h : List.Forall₂ R l l') (d : ℕ) :
    List.Forall₂ R (l.rtake d) (l'.rtake d) := by
  rw [List.rtake, List.rtake, h.length_eq]
  exact List.forall₂_drop _ h

end Rtake

/-- Stacks that agree below their fronts agree on every proper part counted from the bottom. -/
theorem rtake_eq_of_tail_eq {α : Type*} {l l' : List α} (hlen : l.length = l'.length)
    (h : l.tail = l'.tail) {d : ℕ} (hd : d < l.length) : l.rtake d = l'.rtake d := by
  have key : ∀ m : List α, d < m.length → m.rtake d = m.tail.rtake d := by
    intro m hm
    obtain ⟨a, m, rfl⟩ := List.exists_cons_of_length_pos (Nat.zero_lt_of_lt hm)
    exact rtake_cons_of_le a (Nat.le_of_lt_succ hm)
  rw [key l hd, key l' (hlen ▸ hd), h]

/-- The same for the frames below a level. -/
theorem rtake_assign_of_not_mem {x : κ} {st : List (Frame κ ν)} {d : ℕ} (hd : d < st.length)
    (hx : x ∉ visible (st.rtake d)) (v : ν) : (assign x v st).rtake d = st.rtake d := by
  have hlen : (st.rtake d).length = d := by
    rw [length_rtake]
    omega
  have htop : st.take (st.length - d) ≠ [] := by
    rw [← List.length_pos_iff, List.length_take]
    omega
  have hsplit : assign x v st = assign x v (st.take (st.length - d)) ++ st.rtake d := by
    rw [← assign_append htop hx, List.rtake, List.take_append_drop]
  rw [hsplit, rtake_append_of_le _ hlen.ge, rtake_eq_self hlen.le]

theorem Grow.length_le {st st' : List (Frame κ ν)} (h : Grow st st') :
    st.length ≤ st'.length := by
  rcases h with ⟨x, v⟩ | _ <;> simp

theorem Shrink.length_le {st st' : List (Frame κ ν)} (h : Shrink st st') :
    st'.length ≤ st.length := by
  rcases h with ⟨x, v⟩ | f | f <;> simp

theorem Grow.rtake_doms {st st' : List (Frame κ ν)} (h : Grow st st') {d : ℕ}
    (hd : d < st.length) : (doms st').rtake d = (doms st).rtake d := by
  rcases h with ⟨x, v⟩ | _
  · exact rtake_eq_of_tail_eq (by simp) (tail_doms_assign x v st) (by simpa using hd)
  · exact rtake_cons_of_le _ (hd.le.trans_eq (length_doms st).symm)

theorem Shrink.rtake_doms {st st' : List (Frame κ ν)} (h : Shrink st st') {d : ℕ}
    (hd : d < st'.length) : (doms st').rtake d = (doms st).rtake d := by
  rcases h with ⟨x, v⟩ | f | ⟨f, st⟩
  · exact rtake_eq_of_tail_eq (by simp) (tail_doms_assign x v st) (by simpa using hd)
  · exact rtake_eq_of_tail_eq (by simp) (by simp) (by simpa using hd)
  · exact (rtake_cons_of_le _ (hd.le.trans_eq (length_doms st').symm)).symm

/-- Growing a stack that is above a level keeps it above, and the frames below bind what they
did. -/
theorem rtake_doms_of_grows {st st' : List (Frame κ ν)} (h : ReflTransGen Grow st st') {d : ℕ}
    (hd : d < st.length) : d < st'.length ∧ (doms st').rtake d = (doms st).rtake d := by
  induction h with
  | refl => exact ⟨hd, rfl⟩
  | tail _ hm ih => exact ⟨ih.1.trans_le hm.length_le, (hm.rtake_doms ih.1).trans ih.2⟩

/-- If a stack is above a level after shrinking then it was above it all the time, and the frames
below bind what they did. -/
theorem rtake_doms_of_shrinks {st st' : List (Frame κ ν)} (h : ReflTransGen Shrink st st')
    {d : ℕ} (hd : d < st'.length) :
    d < st.length ∧ (doms st').rtake d = (doms st).rtake d := by
  induction h using ReflTransGen.head_induction_on with
  | refl => exact ⟨hd, rfl⟩
  | head hm _ ih => exact ⟨ih.1.trans_le hm.length_le, ih.2.trans (hm.rtake_doms ih.1)⟩

end SocialGaming.ScopeStack
