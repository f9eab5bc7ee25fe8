import SocialGaming.Library.ListEdits
import SocialGaming.Library.MachineInt
import SocialGaming.Variables

/-!
# Positions in a list

`get_at`, `remove_at` and `insert_at` take an index that is counted from the end if it is negative,
and `remove` a number of elements to remove from the front. The indices are signed and the size of a
list is not, and the range is checked in different ways.

## Design

`remove` and `insert_at` are calls on what they change, the contents of the variable and, for the
second, the store, so that it can be said what is left after a throw. That of `insert_at` makes a
`Variable` of a value before it looks at the index.

## Main definitions

* `ListObjUtils.remove`, `ListObjUtils.insertAt`, `ListObjUtils.insertAtVariable`
* `position` — the position an index stands for
* `RemovesFront`, `InsertsExactly`, `AtAgree` — what the operations should do

## Main results

* `ListObjUtils.removesFront_iff`, `ListObjUtils.insertsExactly_iff`, `ListObjUtils.atAgree_iff` —
  when they do it
-/

namespace SocialGaming

namespace ListObjUtils

/-! ### The operations -/

/-- `ListObjUtils::remove`. -/
def remove (val : VarType) : Prog Exn VarType Unit := do
  match ← get, val with
  | .list vec, .int numToDelete =>
    if numToDelete < 0 then return
    let uNumToDelete := numToDelete.toUInt32.toNat
    if uNumToDelete ≤ vec.length then
      set (VarType.list (vec.drop numToDelete.toInt.toNat))
    throw (.thrown (.badVariableArg "expected listObj, int"))
  | _, _ => throw (.thrown (.badVariableArg "expected listObj, int"))

/-- `insert_helper`, with the storage of the `Variable` to insert. `abs(INT_MIN)` overflows, and an
iterator behind the end is not formed. -/
def insertHelper (vec : List VarPtr) (var : CellAddr) (index : Int32) (h : Heap) :
    Except (Fault Exn) (List VarPtr × Heap) :=
  let tempIndex := if index < 0 then Int32.ofInt (vec.length + index.toInt) else index
  if tempIndex = Int32.minValue then .error (.undefined .signedOverflow)
  else if tempIndex.toInt.natAbs > vec.length then .error (.thrown .outOfRange)
  else
    let uIndex := tempIndex.toUInt32.toNat
    if uIndex > vec.length then .error (.undefined .pastEnd)
    else
      let (p, h) := h.copyVariable var
      .ok (vec.insertIdx uIndex (some p), h)

/-- `ListObjUtils::insert_at` with a value, of which a `Variable` is made. -/
def insertAt (val indx : VarType) : Prog Exn (VarType × Heap) Unit := do
  let (var, h) ← get
  match var, indx with
  | .list vec, .int index =>
    let (tmp, h) := h.makeVariable val
    set (VarType.list vec, h)
    let (vec, h) ← Prog.ofExcept (insertHelper vec (h.storage tmp) index h)
    set (VarType.list vec, h)
  | _, _ => return

/-- `ListObjUtils::insert_at` with a `Variable`. -/
def insertAtVariable (val : VarAddr) (indx : VarType) : Prog Exn (VarType × Heap) Unit := do
  let (var, h) ← get
  match var, indx with
  | .list vec, .int index =>
    let (vec, h) ← Prog.ofExcept (insertHelper vec (h.storage val) index h)
    set (VarType.list vec, h)
  | _, _ => return

/-! ### Removing from the front -/

theorem remove_run_list (vec : List VarPtr) (k : Int32) :
    (remove (.int k)).run (.list vec) = if k.toInt < 0 then .ok () (.list vec)
      else .error (.thrown (.badVariableArg "expected listObj, int"))
        (.list (if k.toInt ≤ vec.length then vec.drop k.toInt.toNat else vec)) := by
  have hneg : k < 0 ↔ k.toInt < 0 := Int32.lt_iff_toInt_lt
  by_cases hk : k.toInt < 0
  · rw [if_pos hk]
    simp [remove, hneg.mpr hk]
  · have hu : k.toUInt32.toNat ≤ vec.length ↔ k.toInt ≤ vec.length := by
      have hbits := toNat_toUInt32 k
      have hlt := k.toInt_lt
      omega
    rw [if_neg hk]
    by_cases hlen : k.toInt ≤ vec.length
    · simp [remove, hneg, hk, hu.mpr hlen, hlen]
    · simp [remove, hneg, hk, mt hu.mp hlen, hlen]

theorem remove_run_other {var val : VarType}
    (hother : ∀ vec k, var = .list vec → val ≠ .int k) :
    (remove val).run var = .error (.thrown (.badVariableArg "expected listObj, int")) var := by
  rw [remove]
  cases var with
  | list vec =>
    cases val with
    | int k => exact absurd rfl (hother vec k rfl)
    | _ => rfl
  | _ => rfl

/-- As many elements as there are, or fewer, are removed and nothing is thrown, and a throw leaves
the value as it was. -/
structure RemovesFront (var val : VarType) : Prop where
  removes : ∀ (vec : List VarPtr) (k : Int32), var = .list vec → val = .int k → 0 ≤ k.toInt →
    k.toInt ≤ vec.length → (remove val).run var = .ok () (.list (vec.drop k.toInt.toNat))
  unchanged : ∀ (msg : String) (after : VarType),
    (remove val).run var = .error (.thrown (.badVariableArg msg)) after → after = var

/-- **Removing from the front.** What should be removed is, but then the function throws: it does
what it should only where there is nothing that it should remove. -/
theorem removesFront_iff {var val : VarType} : RemovesFront var val ↔
    ¬ ∃ vec k, var = .list vec ∧ val = .int k ∧ 0 ≤ k.toInt ∧ k.toInt ≤ vec.length := by
  constructor
  · rintro hfront ⟨vec, k, rfl, rfl, hk, hlen⟩
    have hrun := hfront.removes vec k rfl rfl hk hlen
    rw [remove_run_list, if_neg (Int.not_lt.mpr hk)] at hrun
    cases hrun
  · intro hnone
    refine ⟨fun vec k hvar hval hk hlen => absurd ⟨vec, k, hvar, hval, hk, hlen⟩ hnone, ?_⟩
    intro msg after hrun
    by_cases hlist : ∃ vec k, var = .list vec ∧ val = .int k
    · obtain ⟨vec, k, rfl, rfl⟩ := hlist
      rw [remove_run_list] at hrun
      by_cases hk : k.toInt < 0
      · rw [if_pos hk] at hrun
        cases hrun
      · have hlen : ¬ k.toInt ≤ vec.length := fun hlen =>
          hnone ⟨vec, k, rfl, rfl, Int.not_lt.mp hk, hlen⟩
        rw [if_neg hk, if_neg hlen] at hrun
        exact (EStateM.Result.error.inj hrun).2.symm
    · rw [remove_run_other fun vec k hvar hval => hlist ⟨vec, k, hvar, hval⟩] at hrun
      exact (EStateM.Result.error.inj hrun).2.symm

/-- One element is removed from the front of two, and the call throws. -/
theorem remove_throws :
    (remove (.int 1)).run (.list [some 0, some 1])
        = .error (.thrown (.badVariableArg "expected listObj, int")) (.list [some 1]) ∧
      ¬ RemovesFront (.list [some 0, some 1]) (.int 1) := by
  have hrun : (remove (.int 1)).run (.list [some 0, some 1])
      = .error (.thrown (.badVariableArg "expected listObj, int")) (.list [some 1]) := rfl
  refine ⟨hrun, fun hfront => ?_⟩
  have hafter := hfront.unchanged _ _ hrun
  simp at hafter

/-! ### Inserting -/

/-- The position that an index stands for: a negative index counts from the end. -/
def position (n : ℕ) (i : Int32) : ℤ := if i.toInt < 0 then n + i.toInt else i.toInt

theorem position_of_nonneg {n : ℕ} {i : Int32} (hi : 0 ≤ i.toInt) : position n i = i.toInt :=
  if_neg (Int.not_lt.mpr hi)

/-- What `insert_helper` makes of an index. -/
def insertIndex (n : ℕ) (i : Int32) : Int32 := if i < 0 then Int32.ofInt (n + i.toInt) else i

theorem insertIndex_of_nonneg (n : ℕ) {i : Int32} (hi : 0 ≤ i.toInt) : insertIndex n i = i := by
  rw [insertIndex, if_neg]
  rw [Int32.lt_iff_toInt_lt]
  exact Int.not_lt.mpr hi

/-- It is the position, in 32 bits. -/
theorem insertIndex_emod (n : ℕ) (i : Int32) :
    (insertIndex n i).toInt % 2 ^ 32 = position n i % 2 ^ 32 := by
  by_cases hi : i.toInt < 0
  · rw [insertIndex, if_pos (Int32.lt_iff_toInt_lt.mpr hi), position, if_pos hi, toInt_ofInt_emod]
  · rw [insertIndex_of_nonneg n (Int.not_lt.mp hi), position_of_nonneg (Int.not_lt.mp hi)]

/-- So it is the position, if that is an `int`. -/
theorem insertIndex_spec (n : ℕ) (i : Int32) :
    (insertIndex n i).toInt % 2 ^ 32 = position n i % 2 ^ 32 ∧
      -2 ^ 31 ≤ (insertIndex n i).toInt ∧ (insertIndex n i).toInt < 2 ^ 31 :=
  ⟨insertIndex_emod n i, Int32.le_toInt _, Int32.toInt_lt _⟩

theorem insertHelper_eq (vec : List VarPtr) (var : CellAddr) (i : Int32) (h : Heap) :
    insertHelper vec var i h =
      if (insertIndex vec.length i).toInt = -2 ^ 31 then .error (.undefined .signedOverflow)
      else if (insertIndex vec.length i).toInt.natAbs > vec.length then
        .error (.thrown .outOfRange)
      else if position vec.length i % 2 ^ 32 > vec.length then .error (.undefined .pastEnd)
      else .ok (vec.insertIdx (position vec.length i % 2 ^ 32).toNat (some h.vars.length),
        (h.copyVariable var).2) := by
  have hmin : insertIndex vec.length i = Int32.minValue ↔
      (insertIndex vec.length i).toInt = -2 ^ 31 := by
    rw [← Int32.toInt_inj, Int32.toInt_minValue]
  have hbits := toNat_toUInt32 (insertIndex vec.length i)
  rw [insertIndex_emod] at hbits
  rw [← hbits, Int.toNat_natCast]
  simp only [← hmin, gt_iff_lt, Int.ofNat_lt]
  rfl

/-- At the position that the index stands for a new `Variable` is inserted, of which this is true.
If the index stands for no position in the list and not for its end, `std::out_of_range` is thrown,
and the list is as it was. -/
def InsertsExactly (vec : List VarPtr) (h : Heap) (i : Int32) (new : VarAddr → Heap → Prop)
    (r : EStateM.Result (Fault Exn) (VarType × Heap) Unit) : Prop :=
  if 0 ≤ position vec.length i ∧ position vec.length i ≤ vec.length then
    ∃ p h', r = .ok () (.list (vec.insertIdx (position vec.length i).toNat (some p)), h') ∧
      h.vars.length ≤ p ∧ h.Extends h' ∧ new p h'
  else ∃ h', r = .error (.thrown .outOfRange) (.list vec, h')

/-- The index is not negative; or it counts from the end to a position in the list that, as an
unsigned integer of 32 bits, is itself and not `2 ^ 31`; or it lies before twice the size of the
list, and is not the least `int` on an empty list. -/
def InsertFits (n : ℕ) (i : Int32) : Prop :=
  0 ≤ i.toInt ∨ (-n ≤ i.toInt ∧ n + i.toInt < 2 ^ 32 ∧ n + i.toInt ≠ 2 ^ 31) ∨
    (i.toInt < -(2 * n) ∧ ¬ (n = 0 ∧ i.toInt = -2 ^ 31))

section

variable {vec : List VarPtr} {h h₁ : Heap} {var : CellAddr} {i : Int32}
  {new : VarAddr → Heap → Prop}

/-- What follows the making of a temporary `Variable`, if there is one. -/
def insertRun (vec : List VarPtr) (h : Heap) (var : CellAddr) (i : Int32) :
    EStateM.Result (Fault Exn) (VarType × Heap) Unit :=
  EStateM.run (do
    let (vec, h) ← Prog.ofExcept (insertHelper vec var i h)
    set (VarType.list vec, h)) (.list vec, h)

theorem insertRun_ok {vec' : List VarPtr} {h' : Heap}
    (hok : insertHelper vec var i h = .ok (vec', h')) :
    insertRun vec h var i = .ok () (.list vec', h') := by
  rw [insertRun, hok]
  rfl

theorem insertRun_error {f : Fault Exn} (herr : insertHelper vec var i h = .error f) :
    insertRun vec h var i = .error f (.list vec, h) := by
  rw [insertRun, herr]
  rfl

theorem not_insertsExactly_undefined {u : Undefined} {s : VarType × Heap} :
    ¬ InsertsExactly vec h i new (.error (.undefined u) s) := by
  rw [InsertsExactly]
  split
  · rintro ⟨p, h', heq, -⟩
    cases heq
  · rintro ⟨h', heq⟩
    cases heq

/-- The absolute value overflows. -/
theorem insertsExactly_overflow (hover : (insertIndex vec.length i).toInt = -2 ^ 31) :
    InsertsExactly vec h i new (insertRun vec h₁ var i) ↔ InsertFits vec.length i := by
  have herr : insertHelper vec var i h₁ = .error (.undefined .signedOverflow) := by
    rw [insertHelper_eq, if_pos hover]
  rw [insertRun_error herr]
  refine iff_of_false not_insertsExactly_undefined ?_
  have hmod := insertIndex_emod vec.length i
  have hi := Int32.toInt_lt i
  have hi' := Int32.le_toInt i
  have hpos : position vec.length i = if i.toInt < 0 then vec.length + i.toInt else i.toInt := rfl
  rw [InsertFits]
  split at hpos <;> omega

/-- An index that is a position in the list or its end. -/
theorem insertsExactly_inside (hext : h.Extends h₁)
    (hvec : ∀ p, some p ∈ vec → p < h₁.vars.length)
    (hnew : new h₁.vars.length (h₁.copyVariable var).2)
    (hover : (insertIndex vec.length i).toInt ≠ -2 ^ 31) (hlo : 0 ≤ position vec.length i)
    (hhi : position vec.length i ≤ vec.length) :
    InsertsExactly vec h i new (insertRun vec h₁ var i) ↔ InsertFits vec.length i := by
  obtain ⟨hmod, hge, hlt⟩ := insertIndex_spec vec.length i
  have hi := Int32.toInt_lt i
  have hpos : position vec.length i = if i.toInt < 0 then vec.length + i.toInt else i.toInt := rfl
  have hok : insertHelper vec var i h₁
      = .ok (vec.insertIdx (position vec.length i % 2 ^ 32).toNat (some h₁.vars.length),
        (h₁.copyVariable var).2) := by
    rw [insertHelper_eq, if_neg hover, if_neg (by omega), if_neg (by omega)]
  rw [insertRun_ok hok, InsertsExactly, if_pos ⟨hlo, hhi⟩]
  by_cases hsmall : position vec.length i < 2 ^ 32
  · refine iff_of_true ?_ ?_
    · rw [Int.emod_eq_of_lt hlo hsmall]
      exact ⟨_, _, rfl, hext.vars.length_le, hext.trans (h₁.extends_copyVariable var), hnew⟩
    · rw [InsertFits]
      split at hpos <;> omega
  · -- the new element stands before the position that it should have
    refine iff_of_false ?_ ?_
    · rintro ⟨p, h', heq, -, -, -⟩
      have hlists : vec.insertIdx (position vec.length i % 2 ^ 32).toNat (some h₁.vars.length)
          = vec.insertIdx (position vec.length i).toNat (some p) :=
        VarType.list.inj (Prod.mk.inj (EStateM.Result.ok.inj heq).2).1
      have hfresh : some h₁.vars.length ∉ vec := fun hmem => (hvec _ hmem).false
      exact insertIdx_ne_insertIdx hfresh (by omega) (by omega) hlists
    · rw [InsertFits]
      split at hpos <;> omega

/-- Any other index. -/
theorem insertsExactly_outside (hover : (insertIndex vec.length i).toInt ≠ -2 ^ 31)
    (hout : ¬ (0 ≤ position vec.length i ∧ position vec.length i ≤ vec.length)) :
    InsertsExactly vec h i new (insertRun vec h₁ var i) ↔ InsertFits vec.length i := by
  obtain ⟨hmod, hge, hlt⟩ := insertIndex_spec vec.length i
  have hi := Int32.toInt_lt i
  have hi' := Int32.le_toInt i
  have hpos : position vec.length i = if i.toInt < 0 then vec.length + i.toInt else i.toInt := rfl
  by_cases hfar : (insertIndex vec.length i).toInt.natAbs > vec.length
  · have herr : insertHelper vec var i h₁ = .error (.thrown .outOfRange) := by
      rw [insertHelper_eq, if_neg hover, if_pos hfar]
    rw [insertRun_error herr, InsertsExactly, if_neg hout]
    refine iff_of_true ⟨h₁, rfl⟩ ?_
    rw [InsertFits]
    split at hpos <;> omega
  · have herr : insertHelper vec var i h₁ = .error (.undefined .pastEnd) := by
      rw [insertHelper_eq, if_neg hover, if_neg hfar, if_pos]
      split at hpos <;> omega
    rw [insertRun_error herr]
    refine iff_of_false not_insertsExactly_undefined ?_
    rw [InsertFits]
    split at hpos <;> omega

/-- What is common to the two overloads. -/
theorem insertsExactly_insertRun (hext : h.Extends h₁)
    (hvec : ∀ p, some p ∈ vec → p < h₁.vars.length)
    (hnew : new h₁.vars.length (h₁.copyVariable var).2) :
    InsertsExactly vec h i new (insertRun vec h₁ var i) ↔ InsertFits vec.length i := by
  by_cases hover : (insertIndex vec.length i).toInt = -2 ^ 31
  · exact insertsExactly_overflow hover
  by_cases hin : 0 ≤ position vec.length i ∧ position vec.length i ≤ vec.length
  · exact insertsExactly_inside hext hvec hnew hover hin.1 hin.2
  · exact insertsExactly_outside hover hin

end

/-- **Inserting.** Take a list and a store that its elements are in. A value, or a `Variable`, is
inserted at the position that the index stands for, or the call throws and the list is as it was, if
and only if the index fits the size of the list. -/
theorem insertsExactly_iff {vec : List VarPtr} {h : Heap}
    (hvec : ∀ p, some p ∈ vec → p < h.vars.length) (i : Int32) :
    (∀ val, InsertsExactly vec h i (fun p h' => h'.Holds p val)
      ((insertAt val (.int i)).run (.list vec, h)) ↔ InsertFits vec.length i) ∧
    ∀ var, InsertsExactly vec h i (fun p h' => h'.storage p = h.storage var)
      ((insertAtVariable var (.int i)).run (.list vec, h)) ↔ InsertFits vec.length i := by
  refine ⟨fun val => ?_, fun var => ?_⟩
  · have hext := h.extends_makeVariable val
    have hvec' : ∀ p, some p ∈ vec → p < (h.makeVariable val).2.vars.length :=
      fun p hp => (hvec p hp).trans_le hext.vars.length_le
    obtain ⟨a, ha, hcell⟩ := h.holds_makeVariable val
    have hnew : ((h.makeVariable val).2.copyVariable ((h.makeVariable val).2.storage
        (h.makeVariable val).1)).2.Holds (h.makeVariable val).2.vars.length val := by
      rw [Heap.storage_of_getElem? ha]
      exact ⟨a, by simp [Heap.copyVariable], hcell⟩
    exact insertsExactly_insertRun hext hvec' hnew
  · exact insertsExactly_insertRun (Heap.Extends.refl h) hvec (h.storage_copyVariable _)

/-- A store with two ints. -/
def twoIntsHeap : Heap := { cells := [.int 1, .int 2], vars := [0, 1] }

/-- Before the last element, and behind it. -/
theorem insertsExactly_iff_last :
    InsertsExactly [some 0, some 1] twoIntsHeap (-1) (fun p h' => h'.Holds p (.int 5))
      ((insertAt (.int 5) (.int (-1))).run (.list [some 0, some 1], twoIntsHeap)) ∧
    InsertsExactly [some 0, some 1] twoIntsHeap 2 (fun p h' => h'.storage p = 0)
      ((insertAtVariable 0 (.int 2)).run (.list [some 0, some 1], twoIntsHeap)) := by
  have hvec : ∀ p, some p ∈ [some 0, some 1] → p < twoIntsHeap.vars.length := by
    simp [twoIntsHeap]
  have hlast : InsertFits [some 0, some 1].length (-1) := by
    rw [InsertFits]
    decide
  have hend : InsertFits [some 0, some 1].length 2 := by
    rw [InsertFits]
    decide
  exact ⟨((insertsExactly_iff hvec (-1)).1 _).mpr hlast, ((insertsExactly_iff hvec 2).2 0).mpr hend⟩

/-- One position before the front of two elements, an iterator is formed far behind the end. -/
theorem insertAt_before_front :
    (∃ s, (insertAt (.int 5) (.int (-3))).run (.list [some 0, some 1], twoIntsHeap)
      = .error (.undefined .pastEnd) s) ∧
    ¬ InsertsExactly [some 0, some 1] twoIntsHeap (-3) (fun p h' => h'.Holds p (.int 5))
      ((insertAt (.int 5) (.int (-3))).run (.list [some 0, some 1], twoIntsHeap)) := by
  obtain ⟨s, hrun⟩ : ∃ s, (insertAt (.int 5) (.int (-3))).run (.list [some 0, some 1], twoIntsHeap)
      = .error (.undefined .pastEnd) s := ⟨_, rfl⟩
  refine ⟨⟨s, hrun⟩, ?_⟩
  rw [hrun]
  exact not_insertsExactly_undefined

/-! ### Reading and removing one element -/

/-- If the index stands for a position in the list, its element is read, and it is removed. If not,
null is read, and the list stays as it is. -/
def AtAgree (vec : List VarPtr) (i : Int32) : Prop :=
  if 0 ≤ position vec.length i ∧ position vec.length i < vec.length then
    (∃ item, vec[(position vec.length i).toNat]? = some item ∧
      getAt (.list vec) (.int i) = .ok item) ∧
    removeAt (.list vec) (.int i) = .ok (.list (vec.eraseIdx (position vec.length i).toNat))
  else getAt (.list vec) (.int i) = .ok none ∧ removeAt (.list vec) (.int i) = .ok (.list vec)

theorem tempIndex_eq (vec : List VarPtr) {i : Int32} (hi : i.toInt ≠ -2 ^ 31) :
    tempIndex vec i = if i.toInt.natAbs > vec.length then .ok none
      else .ok (some (insertIndex vec.length i)) := by
  have hmin : i ≠ Int32.minValue := by
    rintro rfl
    exact hi Int32.toInt_minValue
  rw [tempIndex, if_neg hmin, insertIndex]
  split
  · rfl
  · split <;> rfl

/-- Reading and removing, with an index that is not too far from the front. -/
theorem getAt_near {vec : List VarPtr} {i : Int32} (hi : i.toInt ≠ -2 ^ 31)
    (hnear : ¬ i.toInt.natAbs > vec.length) :
    getAt (.list vec) (.int i) = match vectorAt? vec (insertIndex vec.length i) with
      | some j => .ok ((vec[j]?).getD none)
      | none => .error (.thrown .outOfRange) := by
  rw [getAt, tempIndex_eq vec hi, if_neg hnear]
  rfl

theorem removeAt_near {vec : List VarPtr} {i : Int32} (hi : i.toInt ≠ -2 ^ 31)
    (hnear : ¬ i.toInt.natAbs > vec.length) :
    removeAt (.list vec) (.int i) =
      if position vec.length i % 2 ^ 32 < vec.length then
        .ok (.list (vec.eraseIdx (position vec.length i % 2 ^ 32).toNat))
      else .error (.undefined .pastEnd) := by
  have hbits := toNat_toUInt32 (insertIndex vec.length i)
  rw [insertIndex_emod] at hbits
  rw [removeAt, tempIndex_eq vec hi, if_neg hnear, ← hbits, Int.toNat_natCast]
  simp only [Int.ofNat_lt]
  rfl

theorem getAt_far {vec : List VarPtr} {i : Int32} (hi : i.toInt ≠ -2 ^ 31)
    (hfar : i.toInt.natAbs > vec.length) : getAt (.list vec) (.int i) = .ok none := by
  rw [getAt, tempIndex_eq vec hi, if_pos hfar]
  rfl

theorem removeAt_far {vec : List VarPtr} {i : Int32} (hi : i.toInt ≠ -2 ^ 31)
    (hfar : i.toInt.natAbs > vec.length) : removeAt (.list vec) (.int i) = .ok (.list vec) := by
  rw [removeAt, tempIndex_eq vec hi, if_pos hfar]
  rfl

/-- The index is not the size. If it stands for a position in the list, the position is below
`2 ^ 31` in 32 bits, and the elements from there to the position itself are one: there are no others
if the position is below `2 ^ 31`. -/
def AtFits (vec : List VarPtr) (i : Int32) : Prop :=
  i.toInt ≠ vec.length ∧ (0 ≤ position vec.length i → position vec.length i < vec.length →
    position vec.length i % 2 ^ 32 < 2 ^ 31 ∧
      ∀ j : ℕ, position vec.length i % 2 ^ 32 ≤ j → j ≤ position vec.length i →
        vec[j]? = vec[(position vec.length i).toNat]?)

/-- An index that stands for a position in the list. -/
theorem atAgree_inside {vec : List VarPtr} {i : Int32} (hi : i.toInt ≠ -2 ^ 31)
    (hlo : 0 ≤ position vec.length i) (hhi : position vec.length i < vec.length) :
    AtAgree vec i ↔ AtFits vec i := by
  obtain ⟨hmod, hge, hlt⟩ := insertIndex_spec vec.length i
  have hpos : position vec.length i = if i.toInt < 0 then vec.length + i.toInt else i.toInt := rfl
  have hnear : ¬ i.toInt.natAbs > vec.length := by
    split at hpos <;> omega
  have hne : i.toInt ≠ vec.length := by
    split at hpos <;> omega
  rw [AtAgree, if_pos ⟨hlo, hhi⟩, AtFits, and_iff_right hne, forall_prop_of_true hlo,
    forall_prop_of_true hhi]
  by_cases hneg : (insertIndex vec.length i).toInt < 0
  · -- the position does not fit, and is refused
    have herr : getAt (.list vec) (.int i) = .error (.thrown .outOfRange) := by
      rw [getAt_near hi hnear, vectorAt?, if_neg (by omega)]
    rw [herr]
    refine iff_of_false ?_ (by omega)
    rintro ⟨⟨item, -, hitem⟩, -⟩
    cases hitem
  · have hget : getAt (.list vec) (.int i)
        = .ok ((vec[(position vec.length i % 2 ^ 32).toNat]?).getD none) := by
      have hw : (insertIndex vec.length i).toInt = position vec.length i % 2 ^ 32 := by omega
      rw [getAt_near hi hnear, vectorAt?, if_pos (by omega), hw]
    have hremove : removeAt (.list vec) (.int i)
        = .ok (.list (vec.eraseIdx (position vec.length i % 2 ^ 32).toNat)) := by
      rw [removeAt_near hi hnear, if_pos (by omega)]
    have herase : vec.eraseIdx (position vec.length i % 2 ^ 32).toNat
        = vec.eraseIdx (position vec.length i).toNat ↔
        ∀ j : ℕ, position vec.length i % 2 ^ 32 ≤ j → j ≤ position vec.length i →
          vec[j]? = vec[(position vec.length i).toNat]? := by
      rw [eraseIdx_eq_eraseIdx_iff (by omega) (by omega)]
      exact forall_congr' fun j => by rw [Int.toNat_le, Int.le_toNat hlo]
    rw [hget, hremove, Except.ok.injEq, VarType.list.injEq, herase]
    constructor
    · rintro ⟨-, hsame⟩
      exact ⟨by omega, hsame⟩
    · rintro ⟨-, hsame⟩
      have hitem := List.getElem?_eq_getElem (l := vec) (i := (position vec.length i).toNat)
        (by omega)
      refine ⟨⟨_, hitem, ?_⟩, hsame⟩
      rw [hsame _ (by omega) (by omega), hitem, Option.getD_some]

/-- **Reading and removing.** For every list and every index but the least `int`, `get_at` and
`remove_at` mean the same element, the one that the index stands for, or neither finds one, if and
only if the index fits. -/
theorem atAgree_iff {vec : List VarPtr} {i : Int32} (hi : i ≠ Int32.minValue) :
    AtAgree vec i ↔ AtFits vec i := by
  have hmin : i.toInt ≠ -2 ^ 31 := by
    rw [← Int32.toInt_minValue]
    exact mt Int32.toInt_inj.mp hi
  have hpos : position vec.length i = if i.toInt < 0 then vec.length + i.toInt else i.toInt := rfl
  by_cases hin : 0 ≤ position vec.length i ∧ position vec.length i < vec.length
  · exact atAgree_inside hmin hin.1 hin.2
  rw [AtAgree, if_neg hin]
  by_cases hfar : i.toInt.natAbs > vec.length
  · refine iff_of_true ⟨getAt_far hmin hfar, removeAt_far hmin hfar⟩ ?_
    refine ⟨by omega, fun hlo hhi => absurd ⟨hlo, hhi⟩ hin⟩
  · -- the index is the size of the list
    have hsize : i.toInt = vec.length := by
      split at hpos <;> omega
    have herr : getAt (.list vec) (.int i) = .error (.thrown .outOfRange) := by
      rw [getAt_near hmin hfar, insertIndex_of_nonneg _ (by omega), vectorAt?, if_neg (by omega)]
    rw [herr]
    refine iff_of_false ?_ fun hfits => hfits.1 hsize
    rintro ⟨hget, -⟩
    cases hget

/-- The last of two elements. -/
theorem atAgree_iff_last : AtAgree [some 0, some 1] (-1) := by
  have hmin : (-1 : Int32) ≠ Int32.minValue := by decide
  have hpos : position [some 0, some 1].length (-1) = 1 := rfl
  refine (atAgree_iff hmin).mpr ⟨by decide, fun _ _ => ?_⟩
  rw [hpos]
  refine ⟨by decide, fun j hlo hhi => ?_⟩
  obtain rfl : j = 1 := by omega
  rfl

/-- With the size of the list as the index, here that of an empty list, the one throws, and the
other erases at the end. -/
theorem at_size_disagree :
    getAt (.list []) (.int 0) = .error (.thrown .outOfRange) ∧
      removeAt (.list []) (.int 0) = .error (.undefined .pastEnd) ∧ ¬ AtAgree [] 0 := by
  have hget : getAt (.list []) (.int 0) = .error (.thrown .outOfRange) := rfl
  refine ⟨hget, rfl, fun hagree => ?_⟩
  have hnull : getAt (.list []) (.int 0) = .ok none := hagree.1
  rw [hget] at hnull
  cases hnull

end ListObjUtils

end SocialGaming
