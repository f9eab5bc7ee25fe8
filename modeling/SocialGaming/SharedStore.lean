import SocialGaming.InPlace
import SocialGaming.Library.SharedOwnership

/-!
# Who owns a `Variable`

The elements of lists and maps are `shared_ptr`s. A `shared_ptr` shares a control block, and when
the last one that shares it is gone, the control block deletes its `Variable`. As a rule a
`Variable` is made together with its one control block. But a list that is given a `Variable &`
makes a `shared_ptr` of its address, and so a second control block, which knows nothing of the
first.

## Design

A `SharedStore` is a `Heap` in which the pointers in lists and maps are control blocks. It knows the
`Variable`s that are there, and the `shared_ptr`s that the program has outside of the store. The
`Variable`s that are no more keep their places, but they are not `live`.

A storage is kept by the `Variable`s that have it. What is in it is shared by each of them, which
comes to the same.

A control block may delete its `Variable` if they were made together, or the `Variable` was made
with `new`. To delete any other, or one that is not there, is undefined.

## Main definitions

* `Block`, `SharedStore` — the control blocks, and the store
* `SharedStore.makeVariable`, `SharedStore.copyVariable`, `SharedStore.own` — how control blocks are
  made
* `SharedStore.release` — `shared_ptr`s are destroyed

## Main results

* `SharedStore.release_run` — when that is defined, and what is left
-/

namespace SocialGaming

open Std (ExtTreeMap)

/-- A control block. -/
abbrev BlockAddr : Type := ℕ

/-- The `Variable` of a control block, and whether the control block can delete it. -/
structure Block where
  object : VarAddr
  deletes : Bool
  deriving DecidableEq, Repr

/-- The pointers that are part of a value. -/
def VarType.pointers : VarType → List BlockAddr
  | .list l => l.filterMap id
  | .varMap m => m.toList.filterMap Prod.snd
  | .pointer p => p.toList
  | _ => []

theorem VarType.mem_pointers_list {l : List VarPtr} {b : BlockAddr} :
    b ∈ (VarType.list l).pointers ↔ some b ∈ l := by
  simp [pointers]

theorem VarType.mem_pointers_varMap {m : ExtTreeMap String VarPtr compare} {b : BlockAddr} :
    b ∈ (VarType.varMap m).pointers ↔ ∃ key : String, m[key]? = some (some b) := by
  simp [pointers, ExtTreeMap.mem_toList_iff_getElem?_eq_some]

/-- The store, with the control blocks that were made, those of the `shared_ptr`s outside of the
store, the `Variable`s that are there, and those that were made with `new`. -/
structure SharedStore where
  heap : Heap := {}
  blocks : List Block := []
  held : List BlockAddr := []
  live : List VarAddr := []
  newed : List VarAddr := []
  deriving DecidableEq

namespace SharedStore

variable {s : SharedStore}

/-- A control block. -/
def block (s : SharedStore) (b : BlockAddr) : Block :=
  s.blocks.getD b { object := 0, deletes := false }

/-- The `Variable` that a pointer points to. -/
def object (s : SharedStore) (b : BlockAddr) : VarAddr := (s.block b).object

/-- Who shares which control blocks. -/
def sharing (s : SharedStore) : Sharing VarAddr BlockAddr where
  target := s.object
  shares q := (s.heap.value q).pointers
  deletes b := (s.block b).deletes

/-- Somebody has a pointer with the control block. -/
def InUse (s : SharedStore) (b : BlockAddr) : Prop := s.sharing.InUse s.held [] s.live b

theorem inUse_of_held {b : BlockAddr} (h : b ∈ s.held) : s.InUse b := Or.inl h

theorem inUse_of_pointers {q : VarAddr} {b : BlockAddr} (hq : q ∈ s.live)
    (hb : b ∈ (s.heap.value q).pointers) : s.InUse b :=
  Or.inr (Or.inr ⟨q, hq, hb⟩)

/-- The control blocks that are in use are among those that are held and those of the pointers. -/
theorem mem_of_inUse {l : List BlockAddr} (hheld : ∀ b ∈ s.held, b ∈ l)
    (hshares : ∀ q ∈ s.live, ∀ b ∈ (s.heap.value q).pointers, b ∈ l) {b : BlockAddr}
    (hb : s.InUse b) : b ∈ l := by
  rcases hb with hb | hgiven | ⟨q, hq, hb⟩
  · exact hheld b hb
  · cases hgiven
  · exact hshares q hq b hb

/-! ### Control blocks are made -/

/-- A new `Variable`, with its control block. -/
def withVariable (s : SharedStore) (made : VarAddr × Heap) : BlockAddr × SharedStore :=
  (s.blocks.length, { s with
    heap := made.2
    blocks := s.blocks ++ [{ object := made.1, deletes := true }]
    live := made.1 :: s.live })

/-- `std::make_shared<Variable>(val)`. -/
def makeVariable (val : VarType) (s : SharedStore) : BlockAddr × SharedStore :=
  s.withVariable (s.heap.makeVariable val)

/-- `std::make_shared<Variable>(var)`, a copy that has the storage of `var`. -/
def copyVariable (var : VarAddr) (s : SharedStore) : BlockAddr × SharedStore :=
  s.withVariable (s.heap.copyVariable (s.heap.storage var))

/-- `std::shared_ptr<Variable>(&var)`: a control block of its own. -/
def own (var : VarAddr) (s : SharedStore) : BlockAddr × SharedStore :=
  (s.blocks.length, { s with
    blocks := s.blocks ++ [{ object := var, deletes := decide (var ∈ s.newed) }] })

/-- Overwrite the contents of a storage. -/
def write (a : CellAddr) (v : VarType) (s : SharedStore) : SharedStore :=
  { s with heap := s.heap.write a v }

/-- A control block that was there is what it was. -/
theorem block_append {blocks more : List Block} {b : BlockAddr} (hb : b < blocks.length) :
    (blocks ++ more).getD b { object := 0, deletes := false }
      = blocks.getD b { object := 0, deletes := false } :=
  List.getD_append _ _ _ _ hb

theorem block_eq_of_blocks {t : SharedStore} (h : s.blocks <+: t.blocks) {b : BlockAddr}
    (hb : b < s.blocks.length) : t.block b = s.block b := by
  obtain ⟨more, hmore⟩ := h
  rw [block, block, ← hmore, block_append hb]

theorem object_eq_of_blocks {t : SharedStore} (h : s.blocks <+: t.blocks) {b : BlockAddr}
    (hb : b < s.blocks.length) : t.object b = s.object b := by
  rw [object, object, block_eq_of_blocks h hb]

/-- The new control block. -/
theorem block_concat {blocks : List Block} (block : Block) :
    (blocks ++ [block]).getD blocks.length { object := 0, deletes := false } = block := by
  simp

/-! ### `shared_ptr`s are destroyed -/

/-- `shared_ptr`s are destroyed, and with the last ones of a control block its `Variable`. -/
def release (given : List BlockAddr) : Prog Exn SharedStore Unit := fun s =>
  match s.sharing.drain s.held (s.sharing.total given s.live) given s.live with
  | some live => .ok () { s with live }
  | none => .error (.undefined .badDelete) s

/-- An exception is thrown past `shared_ptr`s, which are destroyed. -/
def unwind (given : List BlockAddr) (e : Exn) : Prog Exn SharedStore Unit := do
  release given
  throw (.thrown e)

@[simp] theorem release_nil (s : SharedStore) : release [] s = .ok () s := by
  rw [release, Sharing.drain_nil]

/-- It returns what is left of the `Variable`s. -/
theorem release_eq_ok {given : List BlockAddr} {s' : SharedStore} :
    (release given).run s = .ok () s' ↔ ∃ live,
      s.sharing.drain s.held (s.sharing.total given s.live) given s.live = some live ∧
        { s with live } = s' := by
  rw [EStateM.run, release]
  cases s.sharing.drain s.held (s.sharing.total given s.live) given s.live with
  | none => exact iff_of_false nofun (by simp)
  | some live => simp [EStateM.Result.ok.injEq]

/-- **What is left** when `shared_ptr`s are destroyed: the `Variable`s that do not go with them. It
is undefined if and only if one of these cannot be deleted. -/
theorem release_run (hnodup : s.live.Nodup) (given : List BlockAddr) :
    (∃ live, (release given).run s = .ok () { s with live } ∧
      s.sharing.Clean s.held s.live given ∧ live.Nodup ∧
      ∀ q, q ∈ live ↔ q ∈ s.live ∧ ¬ s.sharing.Dies s.held s.live given q) ∨
    ((release given).run s = .error (.undefined .badDelete) s ∧
      ¬ s.sharing.Clean s.held s.live given) := by
  obtain ⟨live, hdrain, hclean, hnodup', hlive⟩ | ⟨hdrain, hclean⟩ :=
    s.sharing.drain_spec s.held given hnodup
  · exact Or.inl ⟨live, by rw [EStateM.run, release, hdrain], hclean, hnodup', hlive⟩
  · exact Or.inr ⟨by rw [EStateM.run, release, hdrain], hclean⟩

/-- An exception is thrown past what can be destroyed. -/
theorem unwind_of_release {given : List BlockAddr} {s' : SharedStore}
    (h : (release given).run s = .ok () s') (e : Exn) :
    (unwind given e).run s = .error (.thrown e) s' := by
  rw [unwind, EStateM.run_bind, h]
  rfl

theorem unwind_of_undefined {given : List BlockAddr}
    (h : (release given).run s = .error (.undefined .badDelete) s) (e : Exn) :
    (unwind given e).run s = .error (.undefined .badDelete) s := by
  rw [unwind, EStateM.run_bind, h]

end SharedStore

/-! ### A list of two elements -/

/-- The program has a pointer to a list, which owns its two elements. -/
def twoElementStore : SharedStore where
  heap := { cells := [.list [some 1, some 2], .int 1, .int 2], vars := [0, 1, 2] }
  blocks := [⟨0, true⟩, ⟨1, true⟩, ⟨2, true⟩]
  held := [0]
  live := [0, 1, 2]

end SocialGaming
