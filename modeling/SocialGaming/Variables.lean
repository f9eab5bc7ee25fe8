import SocialGaming.Library.Outcome
import Mathlib.Data.List.GetD
import Mathlib.Data.List.Infix
import Std.Data.ExtTreeMap

/-!
# Variables

The `var` library: a `Variable` is a handle on a `varType`, a variant of ints, strings, bools,
containers and pointers. The handle is a `shared_ptr`, and so is every element of a list or a map,
so two names, or a name and a list element, can stand for one storage. The store is therefore
explicit.

## Design

`Heap` is append-only: storages, `Variable` objects and strings are numbered in the order they are
made, and a pointer is a number or `none` for null. It is the store with the owners forgotten: what
has lost its last owner keeps its place, and reading through a non-null pointer is total. A list
that is given a `Variable &` makes a second owner of it, and then it matters what is destroyed. That
is the subject of `SharedStore`; its calls do what the operations here do (`SetCall.erase_run`).

An `int` is an `Int32`. A `std::map` is an `ExtTreeMap`: its keys are ordered, and two maps with the
same entries are equal.

## Main definitions

* `VarType`, `Heap` — the variant and the store
* `VariableUtils.size`, `VariableUtils.setValue`, `ListObjUtils.getAt`, `ListObjUtils.removeAt`,
  `ListObjUtils.pushBack`, `Variable.set` — the operations the environment and its clients use
* `Heap.Extends` — nothing that was there has changed
* `Heap.Evolves` — no `Variable` has changed its storage and no storage its type
* `Heap.Holds` — a `Variable` is in the store and has a value
* `Heap.KeepsRecords` — only the contents of lists have changed

## Main results

* `Variable.set_evolves`, `Variable.setKeyed_evolves`, `Variable.setKeyedVariable_evolves`,
  `ListObjUtils.pushBack_evolves`, `ListObjUtils.removeAt_evolves` — what is done through this
  library keeps every type
-/

namespace SocialGaming

open Std (ExtTreeMap)

/-- The exceptions of the modelled code. -/
inductive Exn where
  /-- `std::out_of_range` -/
  | outOfRange
  /-- `BadVariableArgException`, with its message -/
  | badVariableArg (msg : String)
  /-- `std::bad_variant_access` -/
  | badVariantAccess
  /-- `GameOverException` -/
  | gameOver
  deriving DecidableEq, Repr

/-- The `BadVariableArgException` built without an argument. -/
def Exn.badVariableArgDefault : Exn := .badVariableArg "Unsupported arguments"

/-- A storage for a `varType`: what a `std::shared_ptr<varType>` points to. -/
abbrev CellAddr : Type := ℕ

/-- A `Variable` object. -/
abbrev VarAddr : Type := ℕ

/-- A `std::shared_ptr<Variable>`. -/
abbrev VarPtr : Type := Option VarAddr

/-- A `std::string` held by a `mapType`. -/
abbrev StrAddr : Type := ℕ

/-- `varType`, the alternatives in the order of the variant. -/
inductive VarType where
  | int (n : Int32)
  | string (s : String)
  | bool (b : Bool)
  | map (m : ExtTreeMap String (Option StrAddr) compare)
  | list (l : List VarPtr)
  | varMap (m : ExtTreeMap String VarPtr compare)
  | pointer (p : Option ℕ)
  | none
  deriving DecidableEq

/-- `std::variant::index`. -/
def VarType.index : VarType → ℕ
  | .int _ => 0
  | .string _ => 1
  | .bool _ => 2
  | .map _ => 3
  | .list _ => 4
  | .varMap _ => 5
  | .pointer _ => 6
  | .none => 7

/-- The store: `cells a` is the contents of storage `a`, and `vars p` is the storage of the
`Variable` object `p`. -/
structure Heap where
  cells : List VarType := []
  vars : List CellAddr := []
  strings : List String := []
  deriving DecidableEq

namespace Heap

/-- The contents of a storage. -/
def cell (h : Heap) (a : CellAddr) : VarType := h.cells.getD a .none

/-- The storage of a `Variable`: `Variable::getPtr`. -/
def storage (h : Heap) (p : VarAddr) : CellAddr := h.vars.getD p 0

/-- The value of a `Variable`: `Variable::get`. -/
def value (h : Heap) (p : VarAddr) : VarType := h.cell (h.storage p)

/-- Overwrite the contents of a storage. -/
def write (h : Heap) (a : CellAddr) (v : VarType) : Heap := { h with cells := h.cells.set a v }

/-- `std::make_shared<Variable>` of a `varType`: a new object with a storage of its own. -/
def makeVariable (h : Heap) (v : VarType) : VarAddr × Heap :=
  (h.vars.length, { h with cells := h.cells ++ [v], vars := h.vars ++ [h.cells.length] })

/-- `std::make_shared<Variable>` of a `Variable`: a new object with the storage of the old. -/
def copyVariable (h : Heap) (a : CellAddr) : VarAddr × Heap :=
  (h.vars.length, { h with vars := h.vars ++ [a] })

/-- `std::make_shared<std::string>`. -/
def makeString (h : Heap) (s : String) : StrAddr × Heap :=
  (h.strings.length, { h with strings := h.strings ++ [s] })

theorem cell_eq_of_length_le {h : Heap} {a : CellAddr} (ha : h.cells.length ≤ a) :
    h.cell a = .none :=
  List.getD_eq_default _ _ ha

theorem lt_length_of_cell_eq_list {h : Heap} {a : CellAddr} {l : List VarPtr}
    (ha : h.cell a = .list l) : a < h.cells.length := by
  by_contra hlt
  rw [cell_eq_of_length_le (not_lt.mp hlt)] at ha
  cases ha

theorem cell_write_self {h : Heap} {a : CellAddr} (ha : a < h.cells.length) (v : VarType) :
    (h.write a v).cell a = v := by
  simp [cell, write, ha]

theorem cell_write_of_ne {h : Heap} {a b : CellAddr} (hab : b ≠ a) (v : VarType) :
    (h.write a v).cell b = h.cell b := by
  simp [cell, write, List.getElem?_set_ne hab.symm]

@[simp] theorem storage_write (h : Heap) (a : CellAddr) (v : VarType) (p : VarAddr) :
    (h.write a v).storage p = h.storage p := rfl

@[simp] theorem length_cells_write (h : Heap) (a : CellAddr) (v : VarType) :
    (h.write a v).cells.length = h.cells.length := by
  simp [write]

/-- A new `Variable` holds the value it was made from. -/
@[simp] theorem value_makeVariable (h : Heap) (v : VarType) :
    (h.makeVariable v).2.value (h.makeVariable v).1 = v := by
  simp [makeVariable, value, storage, cell]

/-- And its storage is new. -/
@[simp] theorem storage_makeVariable (h : Heap) (v : VarType) :
    (h.makeVariable v).2.storage (h.makeVariable v).1 = h.cells.length := by
  simp [makeVariable, storage]

@[simp] theorem storage_copyVariable (h : Heap) (a : CellAddr) :
    (h.copyVariable a).2.storage (h.copyVariable a).1 = a := by
  simp [copyVariable, storage]

/-! ### How a store changes -/

/-- Everything in `h` is in `h'`, unchanged. -/
structure Extends (h h' : Heap) : Prop where
  cells : h.cells <+: h'.cells
  vars : h.vars <+: h'.vars

/-- Every `Variable` in `h` has kept its storage and every storage the type of its contents. -/
structure Evolves (h h' : Heap) : Prop where
  vars : h.vars <+: h'.vars
  cells : h.cells.length ≤ h'.cells.length
  index : ∀ a < h.cells.length, (h'.cell a).index = (h.cell a).index

theorem Extends.refl (h : Heap) : h.Extends h := ⟨List.prefix_rfl, List.prefix_rfl⟩

theorem Extends.trans {h₁ h₂ h₃ : Heap} (h₁₂ : h₁.Extends h₂) (h₂₃ : h₂.Extends h₃) :
    h₁.Extends h₃ :=
  ⟨h₁₂.cells.trans h₂₃.cells, h₁₂.vars.trans h₂₃.vars⟩

theorem Extends.cell_eq {h h' : Heap} (hh : h.Extends h') {a : CellAddr}
    (ha : a < h.cells.length) : h'.cell a = h.cell a := by
  obtain ⟨t, ht⟩ := hh.cells
  simp only [cell, ← ht]
  exact List.getD_append _ _ _ _ ha

theorem Evolves.storage_eq {h h' : Heap} (hh : h.Evolves h') {p : VarAddr}
    (hp : p < h.vars.length) : h'.storage p = h.storage p := by
  obtain ⟨t, ht⟩ := hh.vars
  simp only [storage, ← ht]
  exact List.getD_append _ _ _ _ hp

/-- A list is where it was in an extension. -/
theorem Extends.cell_eq_list {h h' : Heap} (hh : h.Extends h') {a : CellAddr} {l : List VarPtr}
    (ha : h.cell a = .list l) : h'.cell a = .list l := by
  rw [hh.cell_eq (lt_length_of_cell_eq_list ha), ha]

theorem Extends.evolves {h h' : Heap} (hh : h.Extends h') : h.Evolves h' :=
  ⟨hh.vars, hh.cells.length_le, fun _ ha => by rw [hh.cell_eq ha]⟩

theorem Evolves.refl (h : Heap) : h.Evolves h := (Extends.refl h).evolves

theorem Evolves.trans {h₁ h₂ h₃ : Heap} (h₁₂ : h₁.Evolves h₂) (h₂₃ : h₂.Evolves h₃) :
    h₁.Evolves h₃ :=
  ⟨h₁₂.vars.trans h₂₃.vars, h₁₂.cells.trans h₂₃.cells, fun a ha => by
    rw [h₂₃.index a (ha.trans_le h₁₂.cells), h₁₂.index a ha]⟩

/-- A list stays one. -/
theorem Evolves.cell_list {h h' : Heap} (hh : h.Evolves h') {a : CellAddr}
    (ha : ∃ l, h.cell a = .list l) : ∃ l, h'.cell a = .list l := by
  obtain ⟨l, hl⟩ := ha
  have hindex := hh.index a (lt_length_of_cell_eq_list hl)
  rw [hl] at hindex
  rcases hcell : h'.cell a with _ | _ | _ | _ | l' | _ | _ | _
  case list => exact ⟨l', rfl⟩
  all_goals
    rw [hcell] at hindex
    cases hindex

theorem extends_makeVariable (h : Heap) (v : VarType) : h.Extends (h.makeVariable v).2 :=
  ⟨List.prefix_append _ _, List.prefix_append _ _⟩

theorem extends_copyVariable (h : Heap) (a : CellAddr) : h.Extends (h.copyVariable a).2 :=
  ⟨List.prefix_rfl, List.prefix_append _ _⟩

theorem extends_makeString (h : Heap) (s : String) : h.Extends (h.makeString s).2 :=
  ⟨List.prefix_rfl, List.prefix_rfl⟩

/-- Making new objects and then overwriting a storage with a value of the type it had. -/
theorem Extends.evolves_write {h h' : Heap} (hh : h.Extends h') {a : CellAddr} {v : VarType}
    (hv : v.index = (h.cell a).index) : h.Evolves (h'.write a v) := by
  have hlen := hh.cells.length_le
  refine ⟨hh.vars, by simpa using hlen, fun b hb => ?_⟩
  rcases eq_or_ne b a with rfl | hba
  · rw [cell_write_self (hb.trans_le hlen), hv]
  · rw [cell_write_of_ne hba, hh.cell_eq hb]

/-! ### What a `Variable` in the store holds -/

/-- The `Variable` is in the store and has this value. -/
def Holds (h : Heap) (p : VarAddr) (v : VarType) : Prop :=
  ∃ a, h.vars[p]? = some a ∧ h.cells[a]? = some v

/-- New objects may have been made, and only what lists contain has changed. -/
structure KeepsRecords (h h' : Heap) : Prop where
  vars : h.vars <+: h'.vars
  cells : ∀ (a : CellAddr) (v : VarType), h.cells[a]? = some v → (∀ l, v ≠ .list l) →
    h'.cells[a]? = some v

theorem storage_of_getElem? {h : Heap} {p : VarAddr} {a : CellAddr} (ha : h.vars[p]? = some a) :
    h.storage p = a := by
  rw [storage, List.getD_eq_getElem?_getD, ha, Option.getD_some]

theorem Holds.value_eq {h : Heap} {p : VarAddr} {v : VarType} (hp : h.Holds p v) :
    h.value p = v := by
  obtain ⟨a, ha, hv⟩ := hp
  rw [value, storage_of_getElem? ha, cell, List.getD_eq_getElem?_getD, hv, Option.getD_some]

theorem getElem?_of_prefix {α : Type} {l l' : List α} (h : l <+: l') {i : ℕ} {a : α}
    (ha : l[i]? = some a) : l'[i]? = some a := by
  obtain ⟨hi, rfl⟩ := List.getElem?_eq_some_iff.mp ha
  exact List.prefix_iff_getElem?.mp h i hi

theorem Holds.lt_length {h : Heap} {p : VarAddr} {v : VarType} (hp : h.Holds p v) :
    p < h.vars.length := by
  obtain ⟨a, ha, -⟩ := hp
  exact (List.getElem?_eq_some_iff.mp ha).1

theorem Holds.of_extends {h h' : Heap} {p : VarAddr} {v : VarType} (hp : h.Holds p v)
    (hext : h.Extends h') : h'.Holds p v := by
  obtain ⟨a, ha, hv⟩ := hp
  exact ⟨a, getElem?_of_prefix hext.vars ha, getElem?_of_prefix hext.cells hv⟩

theorem Holds.of_keepsRecords {h h' : Heap} {p : VarAddr} {v : VarType} (hp : h.Holds p v)
    (hkeep : h.KeepsRecords h') (hv : ∀ l, v ≠ .list l) : h'.Holds p v := by
  obtain ⟨a, ha, hcell⟩ := hp
  exact ⟨a, getElem?_of_prefix hkeep.vars ha, hkeep.cells a v hcell hv⟩

theorem holds_makeVariable (h : Heap) (v : VarType) :
    (h.makeVariable v).2.Holds (h.makeVariable v).1 v :=
  ⟨h.cells.length, by simp [makeVariable], by simp [makeVariable]⟩

theorem Holds.copyVariable {h : Heap} {p : VarAddr} {v : VarType} (hp : h.Holds p v) :
    (h.copyVariable (h.storage p)).2.Holds (h.copyVariable (h.storage p)).1 v := by
  obtain ⟨a, ha, hv⟩ := hp
  rw [storage_of_getElem? ha]
  exact ⟨a, by simp [Heap.copyVariable], hv⟩

/-- Overwriting a storage changes the `Variable`s that have it. -/
theorem Holds.write_self {h : Heap} {p : VarAddr} {v : VarType} (hp : h.Holds p v) (w : VarType) :
    (h.write (h.storage p) w).Holds p w := by
  obtain ⟨a, ha, hv⟩ := hp
  obtain ⟨hlt, -⟩ := List.getElem?_eq_some_iff.mp hv
  rw [storage_of_getElem? ha]
  exact ⟨a, ha, by simp [write, hlt]⟩

/-- And no others. -/
theorem Holds.write_of_ne {h : Heap} {p : VarAddr} {v : VarType} (hp : h.Holds p v) {b : CellAddr}
    (hb : h.storage p ≠ b) (w : VarType) : (h.write b w).Holds p v := by
  obtain ⟨a, ha, hv⟩ := hp
  rw [storage_of_getElem? ha] at hb
  exact ⟨a, ha, by rw [write, List.getElem?_set_ne hb.symm, hv]⟩

theorem Extends.keepsRecords {h h' : Heap} (hext : h.Extends h') : h.KeepsRecords h' :=
  ⟨hext.vars, fun _ _ hv _ => getElem?_of_prefix hext.cells hv⟩

theorem KeepsRecords.trans {h₁ h₂ h₃ : Heap} (h₁₂ : h₁.KeepsRecords h₂)
    (h₂₃ : h₂.KeepsRecords h₃) : h₁.KeepsRecords h₃ :=
  ⟨h₁₂.vars.trans h₂₃.vars, fun a v hv hl => h₂₃.cells a v (h₁₂.cells a v hv hl) hl⟩

/-- A list is overwritten. -/
theorem keepsRecords_write {h : Heap} {a : CellAddr} {l : List VarPtr} (ha : h.cell a = .list l)
    (w : VarType) : h.KeepsRecords (h.write a w) := by
  refine ⟨List.prefix_rfl, fun b v hv hl => ?_⟩
  have hba : a ≠ b := by
    rintro rfl
    rw [cell, List.getD_eq_getElem?_getD, hv] at ha
    exact hl l ha
  rw [write, List.getElem?_set_ne hba, hv]

end Heap

/-! ### `VariableUtils` -/

/-- `std::vector::at` with a converted `int`: the position, or none when it is out of range. -/
def vectorAt? (l : List VarPtr) (i : Int32) : Option ℕ :=
  if 0 ≤ i.toInt ∧ i.toInt.toNat < l.length then some i.toInt.toNat else none

namespace VariableUtils

/-- `sizeof(varType)`. The number is that of one implementation; no result depends on more than its
not being zero. -/
def sizeofVarType : ℕ := 56

/-- `VariableUtils::size`. -/
def size : VarType → ℕ
  | .list l => l.length
  | .map m => m.size
  | .varMap m => m.size
  | _ => sizeofVarType

@[simp] theorem size_list (l : List VarPtr) : size (.list l) = l.length := rfl

/-- `VariableUtils::setValue(var, val)`: the new contents of `var`. -/
def setValue (var val : VarType) : Except (Fault Exn) VarType :=
  if var.index ≠ val.index then .error (.thrown .badVariableArgDefault) else .ok val

/-- `VariableUtils::setValue(var, val, Variable &val2)`. A map entry becomes a new `Variable` on the
storage of `val2`; a list entry becomes the object `val2` itself. The second owner that `val2` gets
in a list is forgotten here, as all owners are. -/
def setValueVariable (var val : VarType) (val2 : VarAddr) (h : Heap) :
    Except (Fault Exn) (VarType × Heap) :=
  match var, val with
  | .varMap map, .string key =>
    let (p, h) := h.copyVariable (h.storage val2)
    .ok (.varMap (map.insert key (some p)), h)
  | .list list, .int index =>
    match vectorAt? list index with
    | some i => .ok (.list (list.set i (some val2)), h)
    | none => .error (.thrown .outOfRange)
  | _, _ => .error (.thrown (.badVariableArg "Expected mapType, string, string"))

/-- `VariableUtils::setValue(var, val, val2)`. -/
def setValueKeyed (var val val2 : VarType) (h : Heap) : Except (Fault Exn) (VarType × Heap) :=
  match var, val, val2 with
  | .map orig, .string key, .string value =>
    let (p, h) := h.makeString value
    .ok (.map (orig.insert key (some p)), h)
  | .list list, .int index, val2 =>
    match vectorAt? list index with
    | some i =>
      let (p, h) := h.makeVariable val2
      .ok (.list (list.set i (some p)), h)
    | none => .error (.thrown .outOfRange)
  | _, _, _ => .error (.thrown (.badVariableArg "Expected mapType, string, string"))

theorem index_of_setValue_eq_ok {var val v : VarType} (h : setValue var val = .ok v) :
    v.index = var.index := by
  unfold setValue at h
  split at h <;> simp_all

theorem setValueVariable_eq_ok {var val v : VarType} {val2 : VarAddr} {h h' : Heap}
    (hv : setValueVariable var val val2 h = .ok (v, h')) :
    v.index = var.index ∧ h.Extends h' := by
  unfold setValueVariable at hv
  split at hv
  · obtain ⟨rfl, rfl⟩ := Prod.mk.inj (Except.ok.inj hv)
    exact ⟨rfl, h.extends_copyVariable _⟩
  · split at hv
    · obtain ⟨rfl, rfl⟩ := Prod.mk.inj (Except.ok.inj hv)
      exact ⟨rfl, Heap.Extends.refl h⟩
    · cases hv
  · cases hv

theorem setValueKeyed_eq_ok {var val val2 v : VarType} {h h' : Heap}
    (hv : setValueKeyed var val val2 h = .ok (v, h')) : v.index = var.index ∧ h.Extends h' := by
  unfold setValueKeyed at hv
  split at hv
  · obtain ⟨rfl, rfl⟩ := Prod.mk.inj (Except.ok.inj hv)
    exact ⟨rfl, h.extends_makeString _⟩
  · split at hv
    · obtain ⟨rfl, rfl⟩ := Prod.mk.inj (Except.ok.inj hv)
      exact ⟨rfl, h.extends_makeVariable _⟩
    · cases hv
  · cases hv

end VariableUtils

/-! ### `ListObjUtils` -/

namespace ListObjUtils

/-- The index `get_at` and `remove_at` work with: none when the absolute value of the index is
greater than the size, and otherwise the index counted from the front. `abs(INT_MIN)` overflows. -/
def tempIndex (vec : List VarPtr) (index : Int32) : Except (Fault Exn) (Option Int32) :=
  if index = Int32.minValue then .error (.undefined .signedOverflow)
  else if index.toInt.natAbs > vec.length then .ok none
  else if index < 0 then .ok (some (Int32.ofInt (vec.length + index.toInt)))
  else .ok (some index)

/-- `ListObjUtils::get_at`. -/
def getAt (var1 key : VarType) : Except (Fault Exn) VarPtr :=
  match var1, key with
  | .list vec, .int index => do
    match ← tempIndex vec index with
    | none => return none
    | some i =>
      match vectorAt? vec i with
      | some i => return (vec[i]?).getD none
      | none => throw (.thrown .outOfRange)
  | _, _ => throw (.thrown (.badVariableArg "Expected listObj, int"))

/-- `ListObjUtils::remove_at`: the new contents of `var`. -/
def removeAt (var val : VarType) : Except (Fault Exn) VarType :=
  match var, val with
  | .list vec, .int index => do
    match ← tempIndex vec index with
    | none => return .list vec
    | some i =>
      -- `erase(end())` is undefined
      if i.toUInt32.toNat < vec.length then return .list (vec.eraseIdx i.toUInt32.toNat)
      else throw (.undefined .pastEnd)
  | var, _ => return var

/-- `ListObjUtils::push_back`. -/
def pushBack (var val : VarType) (h : Heap) : Except (Fault Exn) (VarType × Heap) :=
  match var with
  | .list list =>
    let (p, h) := h.makeVariable val
    .ok (.list (list ++ [some p]), h)
  | _ => .error (.thrown (.badVariableArg "Expected listObj as first arg"))

/-- The front of a non-empty list. -/
@[simp] theorem getAt_zero_cons (p : VarPtr) (l : List VarPtr) :
    getAt (.list (p :: l)) (.int 0) = .ok p := by
  simp [getAt, tempIndex, vectorAt?, show (0 : Int32) ≠ Int32.minValue by decide,
    show ¬ (0 : Int32) < 0 by decide, bind, Except.bind, pure, Except.pure]

/-- Removing the front of a non-empty list. -/
@[simp] theorem removeAt_zero_cons (p : VarPtr) (l : List VarPtr) :
    removeAt (.list (p :: l)) (.int 0) = .ok (.list l) := by
  simp [removeAt, tempIndex, show (0 : Int32) ≠ Int32.minValue by decide,
    show ¬ (0 : Int32) < 0 by decide, bind, Except.bind, pure, Except.pure,
    show (0 : Int32).toUInt32.toNat = 0 by decide]

theorem getAt_of_not_list {v : VarType} (hv : ∀ l, v ≠ .list l) (key : VarType) :
    getAt v key = .error (.thrown (.badVariableArg "Expected listObj, int")) := by
  cases v <;> first | rfl | exact absurd rfl (hv _)

theorem index_of_removeAt_eq_ok {var val v : VarType} (h : removeAt var val = .ok v) :
    v.index = var.index := by
  unfold removeAt at h
  split at h
  · rename_i vec index
    cases ht : tempIndex vec index with
    | error f => rw [ht] at h; cases h
    | ok o =>
      rw [ht] at h
      cases o with
      | none => cases h; rfl
      | some i =>
        simp only [bind, Except.bind] at h
        split at h <;> cases h
        rfl
  · cases h; rfl

theorem pushBack_eq_ok {var val v : VarType} {h h' : Heap} (hv : pushBack var val h = .ok (v, h')) :
    v.index = var.index ∧ h.Extends h' := by
  unfold pushBack at hv
  split at hv
  · obtain ⟨rfl, rfl⟩ := Prod.mk.inj (Except.ok.inj hv)
    exact ⟨rfl, h.extends_makeVariable _⟩
  · cases hv

end ListObjUtils

/-! ### The operations through a `Variable` -/

namespace Variable

/-- A value of the same type is stored. -/
theorem evolves_of_store {p : VarAddr} {r : Except (Fault Exn) VarType} {h h' : Heap}
    (hr : ∀ {v}, r = .ok v → v.index = (h.value p).index)
    (hs : (do return h.write (h.storage p) (← r)) = Except.ok h') : h.Evolves h' := by
  cases hv : r with
  | error f => rw [hv] at hs; cases hs
  | ok v =>
    rw [hv] at hs
    cases hs
    exact (Heap.Extends.refl h).evolves_write (hr hv)

/-- A value of the same type is stored, after something has been allocated. -/
theorem evolves_of_allocate {p : VarAddr} {r : Except (Fault Exn) (VarType × Heap)} {h h' : Heap}
    (hr : ∀ {v u}, r = .ok (v, u) → v.index = (h.value p).index ∧ h.Extends u)
    (hs : (do let (v, u) ← r; return u.write (h.storage p) v) = Except.ok h') : h.Evolves h' := by
  cases hv : r with
  | error f => rw [hv] at hs; cases hs
  | ok result =>
    rw [hv] at hs
    cases hs
    obtain ⟨hi, hext⟩ := hr hv
    exact hext.evolves_write hi

/-- `Variable::set(val)`. -/
def set (p : VarAddr) (val : VarType) (h : Heap) : Except (Fault Exn) Heap := do
  return h.write (h.storage p) (← VariableUtils.setValue (h.value p) val)

/-- `Variable::set(val, val2)`. -/
def setKeyed (p : VarAddr) (val val2 : VarType) (h : Heap) : Except (Fault Exn) Heap := do
  let (v, h') ← VariableUtils.setValueKeyed (h.value p) val val2 h
  return h'.write (h.storage p) v

/-- `Variable::set(val, Variable &val2)`. -/
def setKeyedVariable (p : VarAddr) (val : VarType) (val2 : VarAddr) (h : Heap) :
    Except (Fault Exn) Heap := do
  let (v, h') ← VariableUtils.setValueVariable (h.value p) val val2 h
  return h'.write (h.storage p) v

theorem set_evolves {p : VarAddr} {val : VarType} {h h' : Heap} (hs : set p val h = .ok h') :
    h.Evolves h' :=
  evolves_of_store VariableUtils.index_of_setValue_eq_ok hs

theorem setKeyed_evolves {p : VarAddr} {val val2 : VarType} {h h' : Heap}
    (hs : setKeyed p val val2 h = .ok h') : h.Evolves h' :=
  evolves_of_allocate VariableUtils.setValueKeyed_eq_ok hs

theorem setKeyedVariable_evolves {p : VarAddr} {val : VarType} {val2 : VarAddr} {h h' : Heap}
    (hs : setKeyedVariable p val val2 h = .ok h') : h.Evolves h' :=
  evolves_of_allocate VariableUtils.setValueVariable_eq_ok hs

/-- `ListObjUtils::push_back` on `getRef()`. -/
def pushBack (p : VarAddr) (val : VarType) (h : Heap) : Except (Fault Exn) Heap := do
  let (v, h') ← ListObjUtils.pushBack (h.value p) val h
  return h'.write (h.storage p) v

/-- `ListObjUtils::remove_at` on `getRef()`. -/
def removeAt (p : VarAddr) (val : VarType) (h : Heap) : Except (Fault Exn) Heap := do
  return h.write (h.storage p) (← ListObjUtils.removeAt (h.value p) val)

theorem pushBack_evolves {p : VarAddr} {val : VarType} {h h' : Heap}
    (hs : pushBack p val h = .ok h') : h.Evolves h' :=
  evolves_of_allocate ListObjUtils.pushBack_eq_ok hs

theorem removeAt_evolves {p : VarAddr} {val : VarType} {h h' : Heap}
    (hs : removeAt p val h = .ok h') : h.Evolves h' :=
  evolves_of_store ListObjUtils.index_of_removeAt_eq_ok hs

end Variable

end SocialGaming
