import SocialGaming.Library.Collections
import SocialGaming.SharedStore

/-!
# Calls of `Variable::set`

The three overloads of `Variable::set` write through a reference to what a `Variable` holds, in the
order in which C++ evaluates them: the right side of an assignment before the left. So the new
element of a list is made before `std::vector::at` can throw, and is destroyed again if it does. The
pointer that was in its place is destroyed at the end.

With the owners forgotten, the calls are the operations on the store without owners.

## Main definitions

* `SharedStore.setValue`, `SharedStore.setValueKeyed`, `SharedStore.setValueVariable` — the
  overloads of `setValue`
* `SetCall`, `SetCall.run` — a call of one of the overloads of `Variable::set`
* `SetCall.Passed` — what the caller has to give
* `VarType.ChangedAt` — of a container, only the entry under a key has changed
* `SharedStore.erase` — the store without owners

## Main results

* `SetCall.erase_run` — the calls do what `Variable.set`, `Variable.setKeyed` and
  `Variable.setKeyedVariable` do
-/

namespace SocialGaming

open Std (ExtTreeMap)

/-! ### The overloads of `setValue` -/

namespace SharedStore

/-- `VariableUtils::setValue(var, val)`, where `var` is what a storage contains. -/
def setValue (a : CellAddr) (val : VarType) : Prog Exn SharedStore Unit := fun s =>
  let var := s.heap.cell a
  if var.index ≠ val.index then .error (.thrown .badVariableArgDefault) s
  else release var.pointers (s.write a val)

/-- `list->at(index) = ptr`. The pointer that was there is destroyed, or `ptr` is. -/
def assignAt (a : CellAddr) (list : List VarPtr) (index : Int32) (ptr : BlockAddr) :
    Prog Exn SharedStore Unit := fun s =>
  match vectorAt? list index with
  | some i => release (list[i]?).join.toList (s.write a (.list (list.set i (some ptr))))
  | none => unwind [ptr] .outOfRange s

/-- `VariableUtils::setValue(var, val, val2)`. -/
def setValueKeyed (a : CellAddr) (val val2 : VarType) : Prog Exn SharedStore Unit := fun s =>
  match s.heap.cell a, val, val2 with
  | .map orig, .string key, .string value =>
    let (p, heap) := s.heap.makeString value
    .ok () (write a (.map (orig.insert key (some p))) { s with heap })
  | .list list, .int index, val2 =>
    let (ptr, s) := s.makeVariable val2
    assignAt a list index ptr s
  | _, _, _ => .error (.thrown (.badVariableArg "Expected mapType, string, string")) s

/-- `VariableUtils::setValue(var, val, Variable &val2)`. An entry of a map becomes a copy of `val2`,
which the map owns; an element of a list becomes `val2` itself, which gets one more owner. -/
def setValueVariable (a : CellAddr) (val : VarType) (val2 : VarAddr) :
    Prog Exn SharedStore Unit := fun s =>
  match s.heap.cell a, val with
  | .varMap map, .string key =>
    let (ptr, s) := s.copyVariable val2
    release (map[key]?).join.toList (s.write a (.varMap (map.insert key (some ptr))))
  | .list list, .int index =>
    let (ptr, s) := s.own val2
    assignAt a list index ptr s
  | _, _ => .error (.thrown (.badVariableArg "Expected mapType, string, string")) s

end SharedStore

/-! ### Calls -/

/-- A call of one of the overloads of `Variable::set`, with its arguments. -/
inductive SetCall where
  /-- `set(val)` -/
  | value (val : VarType)
  /-- `set(val, val2)` -/
  | keyed (val val2 : VarType)
  /-- `set(val, Variable &val2)` -/
  | keyedVariable (val : VarType) (val2 : VarAddr)

namespace SetCall

/-- The call on the `Variable` `p`. -/
def run (p : VarAddr) (call : SetCall) : Prog Exn SharedStore Unit := fun s =>
  match call with
  | value val => SharedStore.setValue (s.heap.storage p) val s
  | keyed val val2 => SharedStore.setValueKeyed (s.heap.storage p) val val2 s
  | keyedVariable val val2 => SharedStore.setValueVariable (s.heap.storage p) val val2 s

/-- The key of a call that has one. -/
def key? : SetCall → Option VarType
  | value _ => Option.none
  | keyed val _ => some val
  | keyedVariable val _ => some val

/-- The arguments that are values. -/
def values : SetCall → List VarType
  | value val => [val]
  | keyed val val2 => [val, val2]
  | keyedVariable val _ => [val]

/-- The argument that is a `Variable`. -/
def var2? : SetCall → Option VarAddr
  | keyedVariable _ val2 => some val2
  | _ => Option.none

/-- What the caller has to give: the `Variable`s are there, and what a value points to is kept by
the value. -/
structure Passed (call : SetCall) (p : VarAddr) (s : SharedStore) : Prop where
  live : p ∈ s.live
  values : ∀ v ∈ call.values, ∀ b ∈ v.pointers, b ∈ s.held
  var2 : ∀ q, call.var2? = some q → q ∈ s.live

end SetCall

/-! ### The entries of a container -/

/-- The entry of a list at a position, or of a map under a string. -/
def VarType.entryUnder : VarType → ℕ ⊕ String → Option (VarPtr ⊕ Option StrAddr)
  | .list l, .inl j => l[j]?.map .inl
  | .varMap m, .inr s => m[s]?.map .inl
  | .map m, .inr s => m[s]?.map .inr
  | _, _ => Option.none

/-- The position, or the string, that is meant by a key. -/
def VarType.place? : VarType → Option (ℕ ⊕ String)
  | .int i => some (.inl i.toInt.toNat)
  | .string s => some (.inr s)
  | _ => Option.none

/-- The contents `v` of a `Variable` have become `w`, and only the entry under `key` is another. -/
structure VarType.ChangedAt (key v w : VarType) : Prop where
  entries : ∃ place, key.place? = some place ∧
    ∀ other ≠ place, w.entryUnder other = v.entryUnder other
  length : ∀ l, v = .list l → ∃ l', w = .list l' ∧ l'.length = l.length

/-! ### One entry is written -/

section

variable {v w : VarType} {list : List VarPtr} {index : Int32}

theorem VarType.changedAt_list {i : ℕ} (hat : vectorAt? list index = some i) (ptr : VarPtr) :
    ChangedAt (.int index) (.list list) (.list (list.set i ptr)) := by
  rw [vectorAt?] at hat
  obtain rfl := Option.some.inj (Option.ite_none_right_eq_some.mp hat).2
  refine ⟨⟨.inl index.toInt.toNat, rfl, ?_⟩, ?_⟩
  · intro other hother
    rcases other with j | s
    · have hne : index.toInt.toNat ≠ j := fun heq => hother (by rw [heq])
      show ((list.set _ ptr)[j]?).map _ = (list[j]?).map _
      rw [List.getElem?_set_ne hne]
    · rfl
  · intro l hl
    obtain rfl := VarType.list.inj hl
    exact ⟨_, rfl, List.length_set⟩

/-- A map is written under a string. -/
theorem VarType.changedAt_string {s : String} (hv : ∀ l, v ≠ .list l)
    (hstring : ∀ s', s ≠ s' → w.entryUnder (.inr s') = v.entryUnder (.inr s'))
    (hposition : ∀ j, w.entryUnder (.inl j) = v.entryUnder (.inl j)) :
    ChangedAt (.string s) v w := by
  refine ⟨⟨.inr s, rfl, ?_⟩, fun l hl => absurd hl (hv l)⟩
  intro other hother
  rcases other with j | s'
  · exact hposition j
  · exact hstring s' fun heq => hother (by rw [heq])

theorem VarType.changedAt_map (m : ExtTreeMap String (Option StrAddr) compare) (s : String)
    (ptr : Option StrAddr) : ChangedAt (.string s) (.map m) (.map (m.insert s ptr)) := by
  refine changedAt_string nofun (fun s' hne => ?_) fun j => rfl
  show ((m.insert s ptr)[s']?).map _ = (m[s']?).map _
  rw [getElem?_insert_of_ne m hne]

theorem VarType.changedAt_varMap (m : ExtTreeMap String VarPtr compare) (s : String)
    (ptr : VarPtr) : ChangedAt (.string s) (.varMap m) (.varMap (m.insert s ptr)) := by
  refine changedAt_string nofun (fun s' hne => ?_) fun j => rfl
  show ((m.insert s ptr)[s']?).map _ = (m[s']?).map _
  rw [getElem?_insert_of_ne m hne]

end

/-! ### The owners forgotten -/

/-- Each pointer of a value is replaced by another. -/
def VarType.mapPointers (f : ℕ → ℕ) : VarType → VarType
  | .list l => .list (l.map (Option.map f))
  | .varMap m => .varMap (m.map fun _ p => p.map f)
  | .pointer p => .pointer (p.map f)
  | v => v

@[simp] theorem VarType.index_mapPointers (f : ℕ → ℕ) (v : VarType) :
    (v.mapPointers f).index = v.index := by
  cases v <;> rfl

/-- Only the pointers that are there matter. -/
theorem VarType.mapPointers_congr {f g : ℕ → ℕ} {v : VarType} (h : ∀ b ∈ v.pointers, f b = g b) :
    v.mapPointers f = v.mapPointers g := by
  have hptr : ∀ p : VarPtr, (∀ b, p = some b → f b = g b) → p.map f = p.map g := by
    rintro (_ | b) hb
    · rfl
    · exact congrArg some (hb b rfl)
  cases v with
  | list l =>
    refine congrArg VarType.list (List.map_congr_left fun p hp => hptr p ?_)
    rintro b rfl
    exact h b (mem_pointers_list.mpr hp)
  | varMap m =>
    refine congrArg VarType.varMap (ExtTreeMap.ext_getElem? fun {key} => ?_)
    rw [ExtTreeMap.getElem?_map, ExtTreeMap.getElem?_map]
    cases hkey : m[key]? with
    | none => rfl
    | some p =>
      refine congrArg some (hptr p ?_)
      rintro b rfl
      exact h b (mem_pointers_varMap.mpr ⟨key, hkey⟩)
  | pointer p =>
    refine congrArg VarType.pointer (hptr p ?_)
    rintro b rfl
    exact h b (List.mem_singleton_self b)
  | _ => rfl

theorem VarType.mapPointers_insert (f : ℕ → ℕ) (m : ExtTreeMap String VarPtr compare) (key : String)
    (b : BlockAddr) : (VarType.varMap (m.insert key (some b))).mapPointers f
      = .varMap ((m.map fun _ p => p.map f).insert key (some (f b))) := by
  refine congrArg VarType.varMap (ExtTreeMap.ext_getElem? fun {other} => ?_)
  rw [ExtTreeMap.getElem?_map, ExtTreeMap.getElem?_insert, ExtTreeMap.getElem?_insert]
  split
  · rfl
  · rw [ExtTreeMap.getElem?_map]

namespace SharedStore

variable {s t : SharedStore}

/-- The store without owners: a pointer is the `Variable` it points to. -/
def erase (s : SharedStore) : Heap :=
  { s.heap with cells := s.heap.cells.map (VarType.mapPointers s.object) }

/-- The pointers in the storages have control blocks. -/
def Bounded (s : SharedStore) : Prop :=
  ∀ v ∈ s.heap.cells, ∀ b ∈ v.pointers, b < s.blocks.length

theorem cell_erase (s : SharedStore) (a : CellAddr) :
    s.erase.cell a = (s.heap.cell a).mapPointers s.object := by
  show (s.heap.cells.map _).getD a (VarType.mapPointers s.object .none) = _
  rw [List.getD_map]
  rfl

theorem value_erase (s : SharedStore) (p : VarAddr) :
    s.erase.value p = (s.heap.value p).mapPointers s.object :=
  s.cell_erase _

theorem erase_write (s : SharedStore) (a : CellAddr) (v : VarType) :
    (s.write a v).erase = s.erase.write a (v.mapPointers s.object) := by
  show ({ s.heap with cells := (s.heap.cells.set a v).map _ } : Heap) = _
  rw [List.map_set]
  rfl

/-- A value in a storage of a store with control blocks for its pointers. -/
theorem Bounded.of_cell (h : s.Bounded) (a : CellAddr) :
    ∀ b ∈ (s.heap.cell a).pointers, b < s.blocks.length := by
  intro b hb
  by_cases ha : a < s.heap.cells.length
  · rw [Heap.cell, List.getD_eq_getElem _ _ ha] at hb
    exact h _ (List.getElem_mem ha) b hb
  · rw [Heap.cell_eq_of_length_le (not_lt.mp ha)] at hb
    cases hb

/-- More control blocks change nothing. -/
theorem Bounded.map_cells (h : s.Bounded) (hblocks : s.blocks <+: t.blocks) :
    s.heap.cells.map (VarType.mapPointers t.object)
      = s.heap.cells.map (VarType.mapPointers s.object) :=
  List.map_congr_left fun v hv => VarType.mapPointers_congr fun b hb =>
    object_eq_of_blocks hblocks (h v hv b hb)

theorem Bounded.erase_makeVariable (h : s.Bounded) {val : VarType}
    (hval : ∀ b ∈ val.pointers, b < s.blocks.length) :
    (s.makeVariable val).2.erase = (s.erase.makeVariable (val.mapPointers s.object)).2 := by
  have hblocks : s.blocks <+: (s.makeVariable val).2.blocks := List.prefix_append _ _
  have hcells : (s.heap.cells ++ [val]).map (VarType.mapPointers (s.makeVariable val).2.object)
      = s.erase.cells ++ [val.mapPointers s.object] := by
    rw [List.map_append, h.map_cells hblocks, List.map_singleton,
      VarType.mapPointers_congr fun b hb => object_eq_of_blocks hblocks (hval b hb)]
    rfl
  show ({ s.heap with
    cells := (s.heap.cells ++ [val]).map (VarType.mapPointers (s.makeVariable val).2.object)
    vars := s.heap.vars ++ [s.heap.cells.length] } : Heap) = _
  rw [hcells, Heap.makeVariable, show s.erase.cells.length = s.heap.cells.length from
    List.length_map _]
  rfl

theorem Bounded.erase_copyVariable (h : s.Bounded) (var : VarAddr) :
    (s.copyVariable var).2.erase = (s.erase.copyVariable (s.heap.storage var)).2 := by
  have hblocks : s.blocks <+: (s.copyVariable var).2.blocks := List.prefix_append _ _
  show ({ s.heap with
    cells := s.heap.cells.map (VarType.mapPointers (s.copyVariable var).2.object)
    vars := s.heap.vars ++ [s.heap.storage var] } : Heap) = _
  rw [h.map_cells hblocks]
  rfl

theorem Bounded.erase_own (h : s.Bounded) (var : VarAddr) : (s.own var).2.erase = s.erase := by
  have hblocks : s.blocks <+: (s.own var).2.blocks := List.prefix_append _ _
  show ({ s.heap with
    cells := s.heap.cells.map (VarType.mapPointers (s.own var).2.object) } : Heap) = _
  rw [h.map_cells hblocks]
  rfl

/-- What a new pointer points to. -/
theorem object_withVariable (s : SharedStore) (made : VarAddr × Heap) :
    (s.withVariable made).2.object (s.withVariable made).1 = made.1 :=
  congrArg Block.object (block_concat _)

theorem object_own (s : SharedStore) (var : VarAddr) :
    (s.own var).2.object (s.own var).1 = var :=
  congrArg Block.object (block_concat _)

theorem Bounded.map_list (h : s.Bounded) (hblocks : s.blocks <+: t.blocks) {a : CellAddr}
    {list : List VarPtr} (hcell : s.heap.cell a = .list list) :
    list.map (Option.map t.object) = list.map (Option.map s.object) := by
  refine VarType.list.inj (VarType.mapPointers_congr (v := .list list) fun b hb => ?_)
  rw [← hcell] at hb
  exact object_eq_of_blocks hblocks (h.of_cell a b hb)

theorem Bounded.map_varMap (h : s.Bounded) (hblocks : s.blocks <+: t.blocks) {a : CellAddr}
    {map : ExtTreeMap String VarPtr compare} (hcell : s.heap.cell a = .varMap map) :
    (map.map fun _ p => p.map t.object) = map.map fun _ p => p.map s.object := by
  refine VarType.varMap.inj (VarType.mapPointers_congr (v := .varMap map) fun b hb => ?_)
  rw [← hcell] at hb
  exact object_eq_of_blocks hblocks (h.of_cell a b hb)

/-- What is destroyed is not seen without the owners. -/
theorem release_cases (given : List BlockAddr) (s : SharedStore) :
    (∃ live, release given s = .ok () { s with live }) ∨
      release given s = .error (.undefined .badDelete) s := by
  rw [release]
  cases s.sharing.drain s.held (s.sharing.total given s.live) given s.live with
  | some live => exact Or.inl ⟨live, rfl⟩
  | none => exact Or.inr rfl

end SharedStore

/-- A call ends as the operation on the store without owners does, or it destroys what cannot be
destroyed. -/
inductive EndsAlike : EStateM.Result (Fault Exn) SharedStore Unit → Except (Fault Exn) Heap → Prop
  | returned (s : SharedStore) : EndsAlike (.ok () s) (.ok s.erase)
  | thrown (e : Exn) (s : SharedStore) : EndsAlike (.error (.thrown e) s) (.error (.thrown e))
  | undefined (s : SharedStore) (r : Except (Fault Exn) Heap) :
      EndsAlike (.error (.undefined .badDelete) s) r

theorem EndsAlike.congr {r : EStateM.Result (Fault Exn) SharedStore Unit}
    {x y : Except (Fault Exn) Heap} (h : EndsAlike r x) (hxy : x = y) : EndsAlike r y :=
  hxy ▸ h

namespace SharedStore

variable {s t : SharedStore}

theorem release_endsAlike (given : List BlockAddr) (s : SharedStore) :
    EndsAlike (release given s) (.ok s.erase) := by
  obtain ⟨live, hrelease⟩ | hrelease := release_cases given s
  · rw [hrelease]
    exact .returned { s with live }
  · rw [hrelease]
    exact .undefined s _

theorem unwind_endsAlike (given : List BlockAddr) (e : Exn) (s : SharedStore) :
    EndsAlike (unwind given e s) (.error (.thrown e)) := by
  obtain ⟨live, hrelease⟩ | hrelease := release_cases given s
  · have hrun := unwind_of_release hrelease e
    rw [EStateM.run] at hrun
    rw [hrun]
    exact .thrown e _
  · have hrun := unwind_of_undefined hrelease e
    rw [EStateM.run] at hrun
    rw [hrun]
    exact .undefined s _

/-- A list is written, or not, as the one without owners is. -/
theorem assignAt_endsAlike (a : CellAddr) {list list' : List VarPtr} (index : Int32)
    {ptr : BlockAddr} {q : VarAddr} {h : Heap} (hlist : list.map (Option.map s.object) = list')
    (hptr : s.object ptr = q) (hheap : s.erase = h) :
    EndsAlike (assignAt a list index ptr s) (match vectorAt? list' index with
      | some i => .ok (h.write a (.list (list'.set i (some q))))
      | none => .error (.thrown .outOfRange)) := by
  subst hlist hptr hheap
  have hat : vectorAt? (list.map (Option.map s.object)) index = vectorAt? list index := by
    rw [vectorAt?, List.length_map]
    rfl
  rw [assignAt, hat]
  cases vectorAt? list index with
  | none => exact unwind_endsAlike [ptr] .outOfRange s
  | some i =>
    have hwrite := s.erase_write a (.list (list.set i (some ptr)))
    rw [VarType.mapPointers, List.map_set] at hwrite
    exact (release_endsAlike _ _).congr (congrArg Except.ok hwrite)

end SharedStore

namespace SetCall

variable {s : SharedStore}

/-- The arguments without owners. -/
def mapPointers (f : ℕ → ℕ) : SetCall → SetCall
  | value val => value (val.mapPointers f)
  | keyed val val2 => keyed (val.mapPointers f) (val2.mapPointers f)
  | keyedVariable val val2 => keyedVariable (val.mapPointers f) val2

/-- What the call is, of the operations on the store without owners. -/
def returned (p : VarAddr) : SetCall → Heap → Except (Fault Exn) Heap
  | value val => Variable.set p val
  | keyed val val2 => Variable.setKeyed p val val2
  | keyedVariable val val2 => Variable.setKeyedVariable p val val2

theorem erase_value (p : VarAddr) (val : VarType) (s : SharedStore) :
    EndsAlike ((value val).run p s) (Variable.set p (val.mapPointers s.object) s.erase) := by
  show EndsAlike (SharedStore.setValue _ val s) _
  rw [SharedStore.setValue, Variable.set, VariableUtils.setValue, s.value_erase,
    VarType.index_mapPointers, VarType.index_mapPointers]
  by_cases hindex : (s.heap.cell (s.heap.storage p)).index = val.index
  · rw [if_neg (not_not.mpr hindex), Heap.value, if_neg (not_not.mpr hindex)]
    exact (SharedStore.release_endsAlike _ _).congr (congrArg Except.ok (s.erase_write _ val))
  · rw [if_pos hindex, Heap.value, if_pos hindex]
    exact .thrown _ _

theorem erase_keyed (hs : s.Bounded) (p : VarAddr) (val : VarType) {val2 : VarType}
    (hval2 : ∀ b ∈ val2.pointers, b < s.blocks.length) :
    EndsAlike ((keyed val val2).run p s)
      (Variable.setKeyed p (val.mapPointers s.object) (val2.mapPointers s.object) s.erase) := by
  show EndsAlike (SharedStore.setValueKeyed _ val val2 s) _
  rw [SharedStore.setValueKeyed.eq_def, Variable.setKeyed, s.value_erase, Heap.value]
  rcases hcell : s.heap.cell (s.heap.storage p) with _ | _ | _ | orig | list | _ | _ | _
  case map =>
    rcases val with _ | key | _ | _ | _ | _ | _ | _
    case string =>
      rcases val2 with _ | value | _ | _ | _ | _ | _ | _
      case string =>
        exact (EndsAlike.returned _).congr (congrArg Except.ok
          (SharedStore.erase_write { s with heap := (s.heap.makeString value).2 } _ _))
      all_goals exact .thrown _ _
    all_goals exact .thrown _ _
  case list =>
    rcases val with index | _ | _ | _ | _ | _ | _ | _
    case int =>
      have hblocks : s.blocks <+: (s.makeVariable val2).2.blocks := List.prefix_append _ _
      refine (SharedStore.assignAt_endsAlike (s := (s.makeVariable val2).2) (s.heap.storage p) index
        (hs.map_list hblocks hcell) (s.object_withVariable _)
        (hs.erase_makeVariable hval2)).congr ?_
      show _ = (VariableUtils.setValueKeyed (.list (list.map (Option.map s.object))) (.int index)
        (val2.mapPointers s.object) s.erase >>= fun r => .ok (r.2.write (s.heap.storage p) r.1))
      rw [VariableUtils.setValueKeyed]
      cases vectorAt? (list.map (Option.map s.object)) index with
      | none => rfl
      | some i => rfl
    all_goals exact .thrown _ _
  all_goals exact .thrown _ _

theorem erase_keyedVariable (hs : s.Bounded) (p : VarAddr) (val : VarType) (val2 : VarAddr) :
    EndsAlike ((keyedVariable val val2).run p s)
      (Variable.setKeyedVariable p (val.mapPointers s.object) val2 s.erase) := by
  show EndsAlike (SharedStore.setValueVariable _ val val2 s) _
  rw [SharedStore.setValueVariable.eq_def, Variable.setKeyedVariable, s.value_erase, Heap.value]
  rcases hcell : s.heap.cell (s.heap.storage p) with _ | _ | _ | _ | list | map | _ | _
  case varMap =>
    rcases val with _ | key | _ | _ | _ | _ | _ | _
    case string =>
      have hblocks : s.blocks <+: (s.copyVariable val2).2.blocks := List.prefix_append _ _
      have hwrite := (s.copyVariable val2).2.erase_write (s.heap.storage p)
        (.varMap (map.insert key (some (s.copyVariable val2).1)))
      rw [hs.erase_copyVariable, VarType.mapPointers_insert, hs.map_varMap hblocks hcell,
        show (s.copyVariable val2).2.object (s.copyVariable val2).1 = s.heap.vars.length from
          s.object_withVariable _] at hwrite
      exact (SharedStore.release_endsAlike _ _).congr (congrArg Except.ok hwrite)
    all_goals exact .thrown _ _
  case list =>
    rcases val with index | _ | _ | _ | _ | _ | _ | _
    case int =>
      have hblocks : s.blocks <+: (s.own val2).2.blocks := List.prefix_append _ _
      refine (SharedStore.assignAt_endsAlike (s := (s.own val2).2) (s.heap.storage p) index
        (hs.map_list hblocks hcell) (s.object_own val2) (hs.erase_own val2)).congr ?_
      show _ = (VariableUtils.setValueVariable (.list (list.map (Option.map s.object))) (.int index)
        val2 s.erase >>= fun r => .ok (r.2.write (s.heap.storage p) r.1))
      rw [VariableUtils.setValueVariable]
      cases vectorAt? (list.map (Option.map s.object)) index with
      | none => rfl
      | some i => rfl
    all_goals exact .thrown _ _
  all_goals exact .thrown _ _

/-- **Refinement.** With the owners forgotten, a call does what the operation does and throws what
it throws, unless it destroys what cannot be destroyed. -/
theorem erase_run (hs : s.Bounded) (p : VarAddr) (call : SetCall)
    (hcall : ∀ v ∈ call.values, ∀ b ∈ v.pointers, b < s.blocks.length) :
    EndsAlike (call.run p s) ((call.mapPointers s.object).returned p s.erase) := by
  cases call with
  | value val => exact erase_value p val s
  | keyed val val2 => exact erase_keyed hs p val (hcall val2 (by simp [values]))
  | keyedVariable val val2 => exact erase_keyedVariable hs p val val2

end SetCall

end SocialGaming
