import Mathlib.Tactic.Tauto
import SocialGaming.Library.NewShare
import SocialGaming.ListAccess
import SocialGaming.VariableSets

/-!
# Reading and writing by key

An element of a list or of a `varMapType` is read with `getVarWithKey` and written with one of the
overloads of `Variable::set` that take a key. A list is read with `get_at`, where a negative index
counts from the end, but written with `std::vector::at`, which knows no negative index.

What was under the key is given up, and so are the `shared_ptr`s that are temporary in the
statement. If the `Variable`s have second owners, that may take along the container, the new
element, or another one.

## Main definitions

* `VariableUtils.getVarWithKey`
* `VarType.element?`, `VarType.slot?` — the elements of a container, and the one a key stands for
* `SetCall.statement` — a call, and the end of the statement it stands in
* `SetCall.Writes` — what can be read has been written
* `SetCall.Spares` — what is given up takes nothing along

## Main results

* `Variable.writable_iff` — when what can be read can be written
-/

namespace SocialGaming

open Std (ExtTreeMap)

/-- `VariableUtils::getVarWithKey`. -/
def VariableUtils.getVarWithKey (var1 key : VarType) : Except (Fault Exn) VarPtr :=
  match var1, key with
  | .varMap map, .string mapKey =>
    match map[mapKey]? with
    | some second => .ok second
    | none => .ok none
  | .list _, .int _ => ListObjUtils.getAt var1 key
  | _, _ => .error (.thrown (.badVariableArg "Expected mapType, string or listObj, int"))

@[simp] theorem getVarWithKey_list (l : List VarPtr) (i : Int32) :
    VariableUtils.getVarWithKey (.list l) (.int i) = ListObjUtils.getAt (.list l) (.int i) := rfl

@[simp] theorem getVarWithKey_varMap (m : ExtTreeMap String VarPtr compare) (s : String) :
    VariableUtils.getVarWithKey (.varMap m) (.string s) = .ok (m[s]?.getD none) := by
  rw [VariableUtils.getVarWithKey]
  cases m[s]? with
  | none => rfl
  | some second => rfl

/-! ### The elements of a container -/

/-- The element at a position of a list, or under a key of a map. -/
def VarType.element? : VarType → ℕ ⊕ String → Option VarPtr
  | .list l, .inl j => l[j]?
  | .varMap m, .inr s => m[s]?
  | _, _ => Option.none

/-- The position, or the key, that a key stands for. -/
def VarType.slot? : VarType → VarType → Option (ℕ ⊕ String)
  | .list l, .int i => some (.inl (ListObjUtils.position l.length i).toNat)
  | .varMap _, .string s => some (.inr s)
  | _, _ => Option.none

/-- The pointer under a key is taken out of a container. -/
def VarType.vacated : VarType → VarType → VarType
  | .list l, .int i => .list (l.set i.toInt.toNat Option.none)
  | .varMap m, .string s => .varMap (m.insert s Option.none)
  | v, _ => v

/-! ### A statement -/

namespace SharedStore

/-- The store while there are more `shared_ptr`s outside of it. -/
def holding (temps : List BlockAddr) (s : SharedStore) : SharedStore :=
  { s with held := temps ++ s.held }

/-- The store in which the pointer under the key is taken out of the container. -/
def vacated (p : VarAddr) (key : VarType) (s : SharedStore) : SharedStore :=
  s.write (s.heap.storage p) ((s.heap.value p).vacated key)

/-- The addresses are those of what has been made. -/
structure WellFormed (s : SharedStore) : Prop where
  nodup : s.live.Nodup
  holds : ∀ q ∈ s.live, ∃ v, s.heap.Holds q v
  bound : ∀ b, s.InUse b → b < s.blocks.length
  objects : ∀ block ∈ s.blocks, block.object < s.heap.vars.length

end SharedStore

namespace SetCall

/-- A call on the `Variable` `p`. The `shared_ptr`s that are temporary in its statement are
destroyed at the end of it. -/
def statement (temps : List BlockAddr) (p : VarAddr) (call : SetCall) :
    Prog Exn SharedStore Unit := fun s =>
  match call.run p (s.holding temps) with
  | .ok () t => SharedStore.release temps { t with held := s.held }
  | .error (.thrown e) t => SharedStore.unwind temps e { t with held := s.held }
  | .error f t => .error f t

/-- What is read after the call is what was given to it: a `Variable` with the storage of the
argument, or one that holds it. -/
def IsWritten (call : SetCall) (s s' : SharedStore) (q : VarAddr) : Prop :=
  match call with
  | value _ => False
  | keyed _ val2 => s'.heap.Holds q val2
  | keyedVariable _ val2 => s'.heap.storage q = s.heap.storage val2

/-- Under the key the element is read that was given to the call, all other elements are those that
were there, and what a `Variable` with another storage than that of the container holds is as it
was. -/
structure Stored (call : SetCall) (p : VarAddr) (key : VarType) (s s' : SharedStore) : Prop where
  /-- The key can be read, and what is read has been written. -/
  read : ∃ b, VariableUtils.getVarWithKey (s'.heap.value p) key = .ok (some b) ∧
    call.IsWritten s s' (s'.object b)
  /-- The other elements are the same pointers. -/
  entries : ∀ slot, (s.heap.value p).slot? key ≠ some slot →
    (s'.heap.value p).element? slot = (s.heap.value p).element? slot
  /-- They point to what they pointed to. -/
  blocks : s.blocks <+: s'.blocks
  /-- Nothing else has been changed. -/
  others : ∀ (r : VarAddr) (v : VarType), s.heap.Holds r v → s.heap.storage r ≠ s.heap.storage p →
    s'.heap.Holds r v

/-- **What can be read has been written**, and everything is still there that the container leads
to. -/
def Writes (temps : List BlockAddr) (p : VarAddr) (key : VarType) (call : SetCall)
    (s : SharedStore) : Prop :=
  ∃ s', (call.statement temps p).run s = .ok () s' ∧ call.Stored p key s s' ∧
    ∀ q, s'.sharing.LeadsTo p q → q ∈ s'.live

/-- The `Variable` that becomes the element: in a list the argument itself, or else a new one. -/
def element (call : SetCall) (p : VarAddr) (s : SharedStore) : VarAddr :=
  match s.heap.value p, call with
  | .list _, keyedVariable _ val2 => val2
  | _, _ => s.heap.vars.length

/-- The pointers of a new element. -/
def kept (call : SetCall) (p : VarAddr) (key : VarType) (s : SharedStore) : List BlockAddr :=
  match s.heap.value p, call with
  | .list _, keyed _ val2 => val2.pointers
  | .varMap _, keyedVariable _ val2 => ((s.vacated p key).heap.value val2).pointers
  | _, _ => []

/-- The container leads to the `Variable`, with the key taken out, or the new element does. -/
def Found (call : SetCall) (p : VarAddr) (key : VarType) (s : SharedStore) : VarAddr → Prop :=
  NewShare.Found (s.vacated p key).sharing (call.kept p key s) s.live p (call.element p s)

/-- **What is given up takes nothing along.** The pointer under the key and the temporary ones are
given up, and the pointers of a new element are kept. Then nothing dies that the container or the
element leads to, and what dies can be deleted. -/
structure Spares (temps : List BlockAddr) (p : VarAddr) (key : VarType) (e : BlockAddr)
    (call : SetCall) (s : SharedStore) : Prop where
  clean : (s.vacated p key).sharing.Clean (s.held ++ call.kept p key s) s.live (e :: temps)
  found : ∀ q, call.Found p key s q →
    ¬ (s.vacated p key).sharing.Dies (s.held ++ call.kept p key s) s.live (e :: temps) q

end SetCall

/-! ### A call, and the end of its statement -/

section

variable {s t s' : SharedStore} {call : SetCall} {p : VarAddr} {temps given : List BlockAddr}

/-- What is temporary is given up after the rest. -/
theorem SharedStore.release_append : (release (given ++ temps)).run s = .ok () s' ↔
    ∃ t, (release given).run (s.holding temps) = .ok () t ∧
      (release temps).run { t with held := s.held } = .ok () s' := by
  have hdrain := s.sharing.drain_append s.held temps _ given s.live le_rfl
  simp only [release_eq_ok, hdrain, Option.bind_eq_some_iff]
  constructor
  · rintro ⟨live, ⟨left, hfirst, hlast⟩, rfl⟩
    exact ⟨_, ⟨left, hfirst, rfl⟩, live, hlast, rfl⟩
  · rintro ⟨t, ⟨left, hfirst, rfl⟩, live, hlast, rfl⟩
    exact ⟨live, ⟨left, hfirst, hlast⟩, rfl⟩

/-- An exception does not return. -/
theorem SharedStore.unwind_ne_ok {e : Exn} : (unwind given e).run s ≠ .ok () s' := by
  obtain ⟨live, hrelease⟩ | hrelease := release_cases given s
  · rw [unwind_of_release hrelease]
    simp
  · rw [unwind_of_undefined hrelease]
    simp

/-- A call returns, and then its statement ends. -/
theorem SetCall.statement_eq_ok : (call.statement temps p).run s = .ok () s' ↔
    ∃ t, (call.run p).run (s.holding temps) = .ok () t ∧
      (SharedStore.release temps).run { t with held := s.held } = .ok () s' := by
  rw [EStateM.run, statement]
  cases hrun : (call.run p).run (s.holding temps) with
  | ok u t =>
    rw [EStateM.run] at hrun
    rw [hrun]
    refine ⟨fun h => ⟨t, rfl, h⟩, ?_⟩
    rintro ⟨t', h, hlast⟩
    obtain ⟨-, rfl⟩ := EStateM.Result.ok.inj h
    exact hlast
  | error f t =>
    rw [EStateM.run] at hrun
    rw [hrun]
    refine iff_of_false ?_ (by simp)
    cases f with
    | thrown e => exact SharedStore.unwind_ne_ok
    | _ => simp

/-- A call that puts something in place and gives up what was there. -/
theorem SetCall.statement_eq_ok_iff (h : (call.run p).run (s.holding temps)
      = (SharedStore.release given).run (t.holding temps)) (hheld : t.held = s.held) :
    (call.statement temps p).run s = .ok () s' ↔
      (SharedStore.release (given ++ temps)).run t = .ok () s' := by
  rw [statement_eq_ok, SharedStore.release_append, h, hheld]

end

/-! ### Taken out, and put in -/

/-- What is taken out of a container leaves its other pointers. -/
theorem VarType.mem_pointers_of_vacated {v key : VarType} {b : BlockAddr}
    (hb : b ∈ (v.vacated key).pointers) : b ∈ v.pointers := by
  cases v with
  | list l =>
    cases key with
    | int i =>
      rw [vacated, mem_pointers_list] at hb
      exact mem_pointers_list.mpr ((List.mem_or_eq_of_mem_set hb).resolve_right nofun)
    | _ => exact hb
  | varMap m =>
    cases key with
    | string s =>
      obtain ⟨k, hk⟩ := mem_pointers_varMap.mp hb
      rw [ExtTreeMap.getElem?_insert] at hk
      split at hk
      · cases hk
      · exact mem_pointers_varMap.mpr ⟨k, hk⟩
    | _ => exact hb
  | _ => exact hb

/-- A pointer is put at a position of a list. -/
theorem VarType.mem_pointers_set {l : List VarPtr} {i : Int32} (hlt : i.toInt.toNat < l.length)
    (new b : BlockAddr) : b ∈ (VarType.list (l.set i.toInt.toNat (some new))).pointers ↔
      b = new ∨ b ∈ ((VarType.list l).vacated (.int i)).pointers := by
  rw [vacated, mem_pointers_list, mem_pointers_list, List.set_eq_take_append_cons_drop,
    List.set_eq_take_append_cons_drop, if_pos hlt, if_pos hlt]
  simp only [List.mem_append, List.mem_cons, Option.some.injEq, reduceCtorEq, false_or]
  tauto

/-- A pointer is put under a key of a map. -/
theorem VarType.mem_pointers_insert (m : ExtTreeMap String VarPtr compare) (s : String)
    (new b : BlockAddr) : b ∈ (VarType.varMap (m.insert s (some new))).pointers ↔
      b = new ∨ b ∈ ((VarType.varMap m).vacated (.string s)).pointers := by
  rw [vacated, mem_pointers_varMap, mem_pointers_varMap]
  simp only [ExtTreeMap.getElem?_insert]
  constructor
  · rintro ⟨k, hk⟩
    split at hk
    · exact Or.inl (Option.some.inj (Option.some.inj hk)).symm
    · next hne => exact Or.inr ⟨k, by rw [if_neg hne]; exact hk⟩
  · rintro (rfl | ⟨k, hk⟩)
    · exact ⟨s, by simp⟩
    · split at hk
      · cases hk
      · next hne => exact ⟨k, by rw [if_neg hne]; exact hk⟩

namespace SharedStore

variable {s u : SharedStore} {p n : VarAddr} {key v w : VarType} {temps : List BlockAddr}

/-- What the `Variable`s hold when the pointer under the key has been taken out. -/
theorem value_vacated (hp : s.heap.Holds p v) {x : VarType} (hn : s.heap.Holds n x) :
    (s.vacated p key).heap.value n
      = if s.heap.storage n = s.heap.storage p then v.vacated key else x := by
  rw [vacated, hp.value_eq]
  split
  · next heq => exact heq ▸ (hn.write_self _).value_eq
  · next hne => exact (hn.write_of_ne hne _).value_eq

/-- A pointer that is there when one has been taken out was there before. -/
theorem mem_pointers_vacated (hp : s.heap.Holds p v) {x : VarType} (hn : s.heap.Holds n x)
    {b : BlockAddr} (hb : b ∈ ((s.vacated p key).heap.value n).pointers) :
    b ∈ (s.heap.value n).pointers := by
  rw [value_vacated hp hn] at hb
  split at hb
  · next heq =>
    have hsame : s.heap.value n = v := by
      rw [Heap.value, heq]
      exact hp.value_eq
    rw [hsame]
    exact VarType.mem_pointers_of_vacated hb
  · rw [hn.value_eq]
    exact hb

/-- Other control blocks are what they were. -/
theorem block_of_ne {block : Block} (hblocks : u.blocks = s.blocks ++ [block]) {b : BlockAddr}
    (hb : b ≠ s.blocks.length) : u.block b = s.block b := by
  rw [SharedStore.block, SharedStore.block, hblocks]
  rcases Nat.lt_or_gt_of_ne hb with hlt | hgt
  · exact block_append hlt
  · rw [List.getD_eq_default _ _ (by simpa using Nat.succ_le_of_lt hgt),
      List.getD_eq_default _ _ hgt.le]

/-- **The pointer of a new control block is put under the key.** -/
theorem newShare {block : Block} {kept : List BlockAddr} (hs : (s.holding temps).WellFormed)
    (hp : p ∈ s.live) (hv : s.heap.Holds p v) (hext : s.heap.Extends u.heap)
    (hblocks : u.blocks = s.blocks ++ [block])
    (hlive : ∀ n, n ∈ u.live ↔ n ∈ s.live ∨ n = block.object)
    (hw : ∀ b, b ∈ w.pointers ↔ b = s.blocks.length ∨ b ∈ (v.vacated key).pointers)
    (hmade : block.object ∉ s.live → block.object = s.heap.vars.length ∧ ∀ b ≠ s.blocks.length,
      (b ∈ ((u.write (s.heap.storage p) w).heap.value block.object).pointers ↔ b ∈ kept))
    (hkept : block.object ∈ s.live → kept = []) (hbound : ∀ b ∈ kept, b < s.blocks.length) :
    NewShare (s.vacated p key).sharing (u.write (s.heap.storage p) w).sharing kept s.live u.live
      s.blocks.length p block.object := by
  have hafter : ∀ n x, s.heap.Holds n x → (u.write (s.heap.storage p) w).heap.value n
      = if s.heap.storage n = s.heap.storage p then w else x := by
    intro n x hn
    have hn' := hn.of_extends hext
    have hstorage : u.heap.storage n = s.heap.storage n := hn.storage_eq hext.vars
    split
    · next heq =>
      rw [← heq, ← hstorage]
      exact (hn'.write_self w).value_eq
    · next hne => exact (hn'.write_of_ne (hstorage.symm ▸ hne) w).value_eq
  refine ⟨fun b hb => ?_, fun b hb => ?_, ?_, fun n hn b hb => ?_, fun n hn hb => ?_, hp, ?_, hlive,
    fun hnew => (hmade hnew).2, fun hnew b hb => ?_, hkept, fun hb => (hbound _ hb).false⟩
  · exact congrArg Block.object (block_of_ne hblocks hb)
  · exact congrArg Block.deletes (block_of_ne hblocks hb)
  · show (u.block s.blocks.length).object = block.object
    rw [SharedStore.block, hblocks, block_concat]
  · obtain ⟨x, hx⟩ := hs.holds n hn
    show b ∈ ((u.write (s.heap.storage p) w).heap.value n).pointers ↔
      b ∈ ((s.vacated p key).heap.value n).pointers
    rw [hafter n x hx, value_vacated hv hx]
    split
    · exact (hw b).trans (or_iff_right hb)
    · rfl
  · obtain ⟨x, hx⟩ := hs.holds n hn
    have hbefore := mem_pointers_vacated hv hx hb
    exact (hs.bound _ (Or.inr (Or.inr ⟨n, hn, hbefore⟩))).false
  · show s.blocks.length ∈ ((u.write (s.heap.storage p) w).heap.value p).pointers
    rw [hafter p v hv, if_pos rfl]
    exact (hw _).mpr (Or.inl rfl)
  · rw [(hmade hnew).1]
    show s.object b ≠ _
    rw [object, SharedStore.block]
    by_cases hb' : b < s.blocks.length
    · rw [List.getD_eq_getElem _ _ hb']
      exact (hs.objects _ (List.getElem_mem hb')).ne
    · rw [List.getD_eq_default _ _ (Nat.not_lt.mp hb')]
      exact (hv.lt_length.trans_le' (Nat.zero_le p)).ne

end SharedStore

/-! ### Positions from the front -/

/-- An index of a position in the list, from the front. -/
theorem ListObjUtils.getAt_of_lt {l : List VarPtr} {i : Int32} (hi : 0 ≤ i.toInt)
    (hlt : i.toInt < l.length) :
    getAt (.list l) (.int i) = .ok ((l[i.toInt.toNat]?).getD none) := by
  rw [getAt_near (by omega) (by omega), insertIndex_of_nonneg _ hi, vectorAt?,
    if_pos ⟨hi, by omega⟩]

/-- An index from the front under which there is an element. -/
theorem ListObjUtils.lt_of_getAt {l : List VarPtr} {i : Int32} {e : VarAddr} (hi : 0 ≤ i.toInt)
    (hget : getAt (.list l) (.int i) = .ok (some e)) : i.toInt < l.length := by
  by_contra hge
  by_cases hfar : i.toInt.natAbs > l.length
  · rw [getAt_far (by omega) hfar] at hget
    simp at hget
  · rw [getAt_near (by omega) hfar, insertIndex_of_nonneg _ hi, vectorAt?,
      if_neg (by omega)] at hget
    cases hget

/-! ### What is written can be read -/

section

variable {s t u s' : SharedStore} {call : SetCall} {p : VarAddr} {key v w : VarType}
  {temps : List BlockAddr} {e : BlockAddr}

/-- New objects are made, and then the storage of the container is overwritten. -/
theorem SetCall.stored_write (hv : s.heap.Holds p v) (hext : s.heap.Extends u.heap)
    (hblocks : s.blocks <+: u.blocks)
    (hread : ∃ b, VariableUtils.getVarWithKey w key = .ok (some b) ∧
      call.IsWritten s (u.write (s.heap.storage p) w) (u.object b))
    (hentries : ∀ slot, v.slot? key ≠ some slot → w.element? slot = v.element? slot) :
    call.Stored p key s (u.write (s.heap.storage p) w) := by
  have hvalue : (u.write (s.heap.storage p) w).heap.value p = w := by
    have hsame := hv.storage_eq hext.vars
    rw [← hsame]
    exact ((hv.of_extends hext).write_self w).value_eq
  refine ⟨?_, ?_, hblocks, fun r x hr => hr.of_changesOnly (hext.changesOnly_write _ w)⟩
  · rw [hvalue]
    exact hread
  · rw [hvalue, hv.value_eq]
    exact hentries

/-- **When everything is still there** after what was under the key has been given up. -/
theorem SetCall.writes_iff (hnodup : t.live.Nodup) (hheld : t.held = s.held)
    (hrun : ∀ s', (call.statement temps p).run s = .ok () s' ↔
      (SharedStore.release (e :: temps)).run t = .ok () s')
    (hstored : call.Stored p key s t)
    (hnew : NewShare (s.vacated p key).sharing t.sharing (call.kept p key s) s.live t.live
      s.blocks.length p (call.element p s))
    (hdropped : s.blocks.length ∉ e :: temps) (hthere : ∀ q, call.Found p key s q → q ∈ s.live) :
    call.Writes temps p key s ↔ call.Spares temps p key e s := by
  have hkept := hnew.kept_iff s.held hdropped hthere
  refine Iff.trans ?_ (hkept.trans ⟨fun h => ⟨h.1, h.2⟩, fun h => ⟨h.clean, h.found⟩⟩)
  obtain ⟨live, hrelease, hclean, -, hlive⟩ | ⟨hrelease, hclean⟩ :=
    SharedStore.release_run hnodup (e :: temps)
  · rw [hheld] at hclean hlive
    constructor
    · rintro ⟨s', hs', -, hstays⟩
      obtain ⟨-, rfl⟩ := EStateM.Result.ok.inj (((hrun s').mp hs').symm.trans hrelease)
      exact ⟨hclean, fun q hq => (hlive q).mp (hstays q hq)⟩
    · rintro ⟨-, hstays⟩
      exact ⟨_, (hrun _).mpr hrelease,
        ⟨hstored.read, hstored.entries, hstored.blocks, hstored.others⟩,
        fun q hq => (hlive q).mpr (hstays q hq)⟩
  · rw [hheld] at hclean
    refine iff_of_false ?_ fun h => hclean h.1
    rintro ⟨s', hs', -⟩
    rw [(hrun s').mp hs'] at hrelease
    cases hrelease

/-- The pointer of the control block that was made is put under the key. -/
theorem SetCall.writes_put (u : SharedStore) (block : Block)
    (hs : (s.holding temps).WellFormed) (hp : p ∈ s.live) (hv : s.heap.Holds p v)
    (hrun : (call.run p).run (s.holding temps)
      = (SharedStore.release [e]).run ((u.write (s.heap.storage p) w).holding temps))
    (hext : s.heap.Extends u.heap) (hblocks : u.blocks = s.blocks ++ [block])
    (hheld : u.held = s.held) (hnodup : u.live.Nodup)
    (hlive : ∀ n, n ∈ u.live ↔ n ∈ s.live ∨ n = block.object)
    (hread : VariableUtils.getVarWithKey w key = .ok (some s.blocks.length))
    (hentries : ∀ slot, v.slot? key ≠ some slot → w.element? slot = v.element? slot)
    (hw : ∀ b, b ∈ w.pointers ↔ b = s.blocks.length ∨ b ∈ (v.vacated key).pointers)
    (helement : call.element p s = block.object)
    (hwritten : call.IsWritten s (u.write (s.heap.storage p) w) block.object)
    (hmade : block.object ∉ s.live → block.object = s.heap.vars.length ∧ ∀ b ≠ s.blocks.length,
      (b ∈ ((u.write (s.heap.storage p) w).heap.value block.object).pointers ↔
        b ∈ call.kept p key s))
    (hkept : block.object ∈ s.live → call.kept p key s = [])
    (hbound : ∀ b ∈ call.kept p key s, b < s.blocks.length) (he : e ∈ v.pointers)
    (hthere : ∀ q, call.Found p key s q → q ∈ s.live) :
    call.Writes temps p key s ↔ call.Spares temps p key e s := by
  have hobject : u.object s.blocks.length = block.object := by
    rw [SharedStore.object, SharedStore.block, hblocks, SharedStore.block_concat]
  refine writes_iff (t := u.write (s.heap.storage p) w) hnodup hheld
    (fun s' => statement_eq_ok_iff hrun hheld) ?_ ?_ ?_ hthere
  · exact stored_write hv hext (hblocks ▸ List.prefix_append _ _)
      ⟨s.blocks.length, hread, hobject.symm ▸ hwritten⟩ hentries
  · rw [helement]
    exact SharedStore.newShare hs hp hv hext hblocks hlive hw hmade hkept hbound
  · -- the pointers that are given up are older
    intro hnew
    rcases List.mem_cons.mp hnew with rfl | hnew
    · exact (hs.bound _ (SharedStore.inUse_of_pointers hp (hv.value_eq.symm ▸ he))).false
    · exact (hs.bound _ (SharedStore.inUse_of_held (List.mem_append_left _ hnew))).false

/-- A new `Variable` is made for the call. -/
theorem SetCall.writes_withVariable (heap : Heap) (hs : (s.holding temps).WellFormed)
    (hp : p ∈ s.live) (hv : s.heap.Holds p v)
    (hrun : (call.run p).run (s.holding temps) = (SharedStore.release [e]).run
      (((s.withVariable (s.heap.vars.length, heap)).2.write (s.heap.storage p) w).holding temps))
    (hext : s.heap.Extends heap)
    (hread : VariableUtils.getVarWithKey w key = .ok (some s.blocks.length))
    (hentries : ∀ slot, v.slot? key ≠ some slot → w.element? slot = v.element? slot)
    (hw : ∀ b, b ∈ w.pointers ↔ b = s.blocks.length ∨ b ∈ (v.vacated key).pointers)
    (helement : call.element p s = s.heap.vars.length)
    (hwritten : call.IsWritten s ((s.withVariable (s.heap.vars.length, heap)).2.write
      (s.heap.storage p) w) s.heap.vars.length)
    (hmade : ∀ b ≠ s.blocks.length,
      (b ∈ ((heap.write (s.heap.storage p) w).value s.heap.vars.length).pointers ↔
        b ∈ call.kept p key s))
    (hbound : ∀ b ∈ call.kept p key s, b < s.blocks.length) (he : e ∈ v.pointers)
    (hthere : ∀ q, call.Found p key s q → q ∈ s.live) :
    call.Writes temps p key s ↔ call.Spares temps p key e s := by
  have hnew : s.heap.vars.length ∉ s.live := by
    intro hmem
    obtain ⟨x, hx⟩ := hs.holds _ hmem
    exact hx.lt_length.false
  exact writes_put _ ⟨s.heap.vars.length, true⟩ hs hp hv hrun hext rfl rfl
    (List.nodup_cons.mpr ⟨hnew, hs.nodup⟩) (fun n => List.mem_cons.trans or_comm) hread hentries hw
    helement hwritten (fun _ => ⟨rfl, hmade⟩) (fun hmem => absurd hmem hnew) hbound he hthere

/-! ### Lists -/

/-- What is read and what is not, after a pointer has been put at a position of a list. -/
theorem VarType.getVarWithKey_set {l : List VarPtr} {i : Int32} (hi : 0 ≤ i.toInt)
    (hlt : i.toInt < l.length) (q : BlockAddr) :
    VariableUtils.getVarWithKey (.list (l.set i.toInt.toNat (some q))) (.int i) = .ok (some q) := by
  have hset : i.toInt < (l.set i.toInt.toNat (some q)).length := by
    rwa [List.length_set]
  rw [getVarWithKey_list, ListObjUtils.getAt_of_lt hi hset, List.getElem?_set_self (by omega),
    Option.getD_some]

theorem VarType.element?_set {l : List VarPtr} {i : Int32} (hi : 0 ≤ i.toInt) (q : VarPtr)
    {slot : ℕ ⊕ String} (hslot : (VarType.list l).slot? (.int i) ≠ some slot) :
    (VarType.list (l.set i.toInt.toNat q)).element? slot = (VarType.list l).element? slot := by
  rcases slot with j | s
  · have hne : i.toInt.toNat ≠ j := by
      rintro rfl
      rw [VarType.slot?, ListObjUtils.position_of_nonneg hi] at hslot
      exact hslot rfl
    exact List.getElem?_set_ne hne
  · rfl

theorem join_of_getD {o : Option VarPtr} (h : o.getD none = some e) : o.join = some e := by
  cases o <;> exact h

theorem VarType.join_of_getVarWithKey {l : List VarPtr} {i : Int32} (hi : 0 ≤ i.toInt)
    (hread : VariableUtils.getVarWithKey (.list l) (.int i) = .ok (some e)) :
    (l[i.toInt.toNat]?).join = some e := by
  rw [getVarWithKey_list, ListObjUtils.getAt_of_lt hi (ListObjUtils.lt_of_getAt hi hread)] at hread
  exact join_of_getD (Except.ok.inj hread)

/-- The pointer that is read is given up when another takes its place. -/
theorem SharedStore.assignAt_of_getAt {l : List VarPtr} {i : Int32} (hi : 0 ≤ i.toInt)
    (hread : VariableUtils.getVarWithKey (.list l) (.int i) = .ok (some e)) (a : CellAddr)
    (new : BlockAddr) (s : SharedStore) : assignAt a l i new s
      = release [e] (s.write a (.list (l.set i.toInt.toNat (some new)))) := by
  have hlt := ListObjUtils.lt_of_getAt hi hread
  have hat : vectorAt? l i = some i.toInt.toNat := if_pos ⟨hi, by omega⟩
  rw [assignAt, hat]
  exact congrArg (fun given => release given _)
    (congrArg Option.toList (VarType.join_of_getVarWithKey hi hread))

/-- A negative index is not accepted. -/
theorem SharedStore.assignAt_of_neg {l : List VarPtr} {i : Int32} (hi : i.toInt < 0) (a : CellAddr)
    (new : BlockAddr) : assignAt a l i new s ≠ .ok () s' := by
  have hat : vectorAt? l i = none := if_neg fun hin => by omega
  rw [assignAt, hat]
  exact unwind_ne_ok

/-- A value becomes an element of a list. -/
theorem SetCall.writes_listValue {l : List VarPtr} {i : Int32} {val2 : VarType}
    (hs : (s.holding temps).WellFormed) (hcall : (keyed (.int i) val2).Passed p (s.holding temps))
    (hv : s.heap.Holds p (.list l))
    (hread : VariableUtils.getVarWithKey (.list l) (.int i) = .ok (some e)) (hi : 0 ≤ i.toInt)
    (hthere : ∀ q, (keyed (.int i) val2).Found p (.int i) s q → q ∈ s.live) :
    (keyed (.int i) val2).Writes temps p (.int i) s ↔
      (keyed (.int i) val2).Spares temps p (.int i) e s := by
  have hlt := ListObjUtils.lt_of_getAt hi hread
  have hkept : (keyed (.int i) val2).kept p (.int i) s = val2.pointers := by
    rw [kept.eq_def, hv.value_eq]
  have hnew : ∀ w, ((s.heap.makeVariable val2).2.write (s.heap.storage p) w).Holds
      s.heap.vars.length val2 := by
    refine fun w => (s.heap.holds_makeVariable val2).write_of_ne ?_ w
    rw [Heap.storage_makeVariable]
    exact hv.storage_lt.ne'
  refine writes_withVariable (s.heap.makeVariable val2).2 hs hcall.live hv ?_
    (s.heap.extends_makeVariable val2) (VarType.getVarWithKey_set hi hlt _)
    (fun slot => VarType.element?_set hi _) (VarType.mem_pointers_set (by omega) _) ?_ (hnew _)
    (fun b _ => ?_) (fun b hb => ?_) (VarType.mem_pointers_list.mpr (List.mem_of_getElem?
    (Option.join_eq_some_iff.mp (VarType.join_of_getVarWithKey hi hread)))) hthere
  · have hset := SharedStore.setValueKeyed.eq_def (s.heap.storage p) (.int i) val2
      (s.holding temps)
    rw [show (s.holding temps).heap.cell (s.heap.storage p) = .list l from hv.value_eq] at hset
    exact hset.trans (SharedStore.assignAt_of_getAt hi hread _ _ _)
  · rw [element.eq_def, hv.value_eq]
  · rw [(hnew _).value_eq, hkept]
  · rw [hkept] at hb
    exact hs.bound b (SharedStore.inUse_of_held (hcall.values val2 (by simp [values]) b hb))

/-- A `Variable` becomes an element of a list. -/
theorem SetCall.writes_listVariable {l : List VarPtr} {i : Int32} {val2 : VarAddr}
    (hs : (s.holding temps).WellFormed)
    (hcall : (keyedVariable (.int i) val2).Passed p (s.holding temps))
    (hv : s.heap.Holds p (.list l))
    (hread : VariableUtils.getVarWithKey (.list l) (.int i) = .ok (some e)) (hi : 0 ≤ i.toInt)
    (hthere : ∀ q, (keyedVariable (.int i) val2).Found p (.int i) s q → q ∈ s.live) :
    (keyedVariable (.int i) val2).Writes temps p (.int i) s ↔
      (keyedVariable (.int i) val2).Spares temps p (.int i) e s := by
  have hlt := ListObjUtils.lt_of_getAt hi hread
  have hval2 : val2 ∈ s.live := hcall.var2 val2 rfl
  have hkept : (keyedVariable (.int i) val2).kept p (.int i) s = [] := by
    rw [kept.eq_def, hv.value_eq]
  refine writes_put (s.own val2).2 ⟨val2, decide (val2 ∈ s.newed)⟩ hs hcall.live hv ?_
    (Heap.Extends.refl _) rfl rfl hs.nodup (fun n => ?_) (VarType.getVarWithKey_set hi hlt _)
    (fun slot => VarType.element?_set hi _) (VarType.mem_pointers_set (by omega) _) ?_ rfl
    (fun hnew => absurd hval2 hnew) (fun _ => hkept) ?_
    (VarType.mem_pointers_list.mpr (List.mem_of_getElem?
      (Option.join_eq_some_iff.mp (VarType.join_of_getVarWithKey hi hread)))) hthere
  · have hset := SharedStore.setValueVariable.eq_def (s.heap.storage p) (.int i) val2
      (s.holding temps)
    rw [show (s.holding temps).heap.cell (s.heap.storage p) = .list l from hv.value_eq] at hset
    exact hset.trans (SharedStore.assignAt_of_getAt hi hread _ _ _)
  · refine ⟨Or.inl, ?_⟩
    rintro (hn | rfl)
    · exact hn
    · exact hval2
  · rw [element.eq_def, hv.value_eq]
  · rw [hkept]
    exact List.forall_mem_nil _

/-! ### Maps -/

/-- A copy of a `Variable` becomes an entry of a map. -/
theorem SetCall.writes_varMap {m : ExtTreeMap String VarPtr compare} {k : String} {val2 : VarAddr}
    (hs : (s.holding temps).WellFormed)
    (hcall : (keyedVariable (.string k) val2).Passed p (s.holding temps))
    (hv : s.heap.Holds p (.varMap m))
    (hread : VariableUtils.getVarWithKey (.varMap m) (.string k) = .ok (some e))
    (hthere : ∀ q, (keyedVariable (.string k) val2).Found p (.string k) s q → q ∈ s.live) :
    (keyedVariable (.string k) val2).Writes temps p (.string k) s ↔
      (keyedVariable (.string k) val2).Spares temps p (.string k) e s := by
  have hval2 : val2 ∈ s.live := hcall.var2 val2 rfl
  obtain ⟨x, hx⟩ : ∃ x, s.heap.Holds val2 x := hs.holds val2 hval2
  have hkept : (keyedVariable (.string k) val2).kept p (.string k) s
      = ((s.vacated p (.string k)).heap.value val2).pointers := by
    rw [kept.eq_def, hv.value_eq]
  have he : (m[k]?).join = some e := by
    rw [getVarWithKey_varMap] at hread
    exact join_of_getD (Except.ok.inj hread)
  have hext := s.heap.extends_copyVariable (s.heap.storage val2)
  refine writes_withVariable (s.heap.copyVariable (s.heap.storage val2)).2 hs hcall.live hv ?_
    hext ?_ (fun slot hslot => ?_)
    (VarType.mem_pointers_insert m k s.blocks.length) ?_ ?_ (fun b hb => ?_) (fun b hb => ?_) ?_
    hthere
  · have hset := SharedStore.setValueVariable.eq_def (s.heap.storage p) (.string k) val2
      (s.holding temps)
    rw [show (s.holding temps).heap.cell (s.heap.storage p) = .varMap m from hv.value_eq] at hset
    exact hset.trans (congrArg (fun given => SharedStore.release given _)
      (congrArg Option.toList he))
  · rw [getVarWithKey_varMap, ExtTreeMap.getElem?_insert_self, Option.getD_some]
  · rcases slot with j | s'
    · rfl
    · have hne : k ≠ s' := by
        rintro rfl
        exact hslot rfl
      exact getElem?_insert_of_ne m hne _
  · rw [element.eq_def, hv.value_eq]
  · exact s.heap.storage_copyVariable (s.heap.storage val2)
  · -- the copy has the storage of the argument, which may be that of the container
    have hcopy : (s.heap.copyVariable (s.heap.storage val2)).2.Holds s.heap.vars.length x :=
      hx.copyVariable
    have hstorage := s.heap.storage_copyVariable (s.heap.storage val2)
    rw [hkept, SharedStore.value_vacated hv hx]
    split
    · next heq =>
      have hself := hcopy.write_self (.varMap (m.insert k (some s.blocks.length)))
      rw [show (s.heap.copyVariable (s.heap.storage val2)).2.storage s.heap.vars.length
        = s.heap.storage p from hstorage.trans heq] at hself
      rw [hself.value_eq]
      exact (VarType.mem_pointers_insert m k _ b).trans (or_iff_right hb)
    · next hne => rw [(hcopy.write_of_ne (fun heq => hne (hstorage.symm.trans heq)) _).value_eq]
  · rw [hkept] at hb
    have hbefore := SharedStore.mem_pointers_vacated hv hx hb
    exact hs.bound b (SharedStore.inUse_of_pointers hval2 hbefore)
  · exact VarType.mem_pointers_varMap.mpr ⟨k, Option.join_eq_some_iff.mp he⟩

/-! ### When it can be written -/

/-- A negative index is not accepted. -/
theorem SetCall.not_writes_of_neg {l : List VarPtr} {i : Int32} (hv : s.heap.Holds p (.list l))
    (hkey : call.key? = some (.int i)) (hi : i.toInt < 0) : ¬ call.Writes temps p (.int i) s := by
  rintro ⟨s', hrun, -⟩
  obtain ⟨t, hcall, -⟩ := statement_eq_ok.mp hrun
  have hcell : (s.holding temps).heap.cell (s.heap.storage p) = .list l := hv.value_eq
  cases call with
  | value val => cases hkey
  | keyed val val2 =>
    obtain rfl := Option.some.inj hkey
    have hset := SharedStore.setValueKeyed.eq_def (s.heap.storage p) (.int i) val2 (s.holding temps)
    rw [hcell] at hset
    exact SharedStore.assignAt_of_neg hi _ _ (hset.symm.trans hcall)
  | keyedVariable val val2 =>
    obtain rfl := Option.some.inj hkey
    have hset := SharedStore.setValueVariable.eq_def (s.heap.storage p) (.int i) val2
      (s.holding temps)
    rw [hcell] at hset
    exact SharedStore.assignAt_of_neg hi _ _ (hset.symm.trans hcall)

/-- **Reading and writing by key.** For every container and every key under which an element can be
read, the element can be written if and only if the key is not a negative index, and what is given
up takes nothing along. -/
theorem Variable.writable_iff (hs : (s.holding temps).WellFormed) (hv : s.heap.Holds p v)
    (hread : VariableUtils.getVarWithKey v key = .ok (some e)) (hkey : call.key? = some key)
    (hcall : call.Passed p (s.holding temps)) (hmap : ∀ m, v = .varMap m → call.var2?.isSome)
    (hthere : ∀ q, call.Found p key s q → q ∈ s.live) :
    call.Writes temps p key s ↔
      (∀ i, key = .int i → 0 ≤ i.toInt) ∧ call.Spares temps p key e s := by
  cases v with
  | list l =>
    cases key with
    | int i =>
      by_cases hi : 0 ≤ i.toInt
      · have hfront : ∀ j, VarType.int i = .int j → 0 ≤ j.toInt := by
          rintro _ ⟨⟩
          exact hi
        refine Iff.trans ?_ (and_iff_right hfront).symm
        cases call with
        | value val => cases hkey
        | keyed val val2 =>
          obtain rfl := Option.some.inj hkey
          exact SetCall.writes_listValue hs hcall hv hread hi hthere
        | keyedVariable val val2 =>
          obtain rfl := Option.some.inj hkey
          exact SetCall.writes_listVariable hs hcall hv hread hi hthere
      · exact iff_of_false (SetCall.not_writes_of_neg hv hkey (Int.not_le.mp hi))
          fun h => hi (h.1 i rfl)
    | _ => cases hread
  | varMap m =>
    cases key with
    | string k =>
      have hfront : ∀ j, VarType.string k = .int j → 0 ≤ j.toInt := by
        rintro _ ⟨⟩
      refine Iff.trans ?_ (and_iff_right hfront).symm
      cases call with
      | value val => cases hkey
      | keyed val val2 => cases hmap m rfl
      | keyedVariable val val2 =>
        obtain rfl := Option.some.inj hkey
        exact SetCall.writes_varMap hs hcall hv hread hthere
    | _ => cases hread
  | _ => cases hread

variable (s call p key temps e) in
/-- **Without second owners** nothing is taken along, unless the argument goes with what was under
the key. -/
theorem SetCall.spares_of_sole
    (h : (s.vacated p key).sharing.Sole (s.held ++ call.kept p key s) (e :: temps) s.live)
    (hp : p ∈ s.live)
    (hstays : ∀ q, q = p ∨ q = call.element p s ∧ q ∈ s.live →
      ¬ (s.vacated p key).sharing.Dies (s.held ++ call.kept p key s) s.live (e :: temps) q) :
    call.Spares temps p key e s ∧ ∀ q, call.Found p key s q → q ∈ s.live := by
  have hfound := fun q (hq : call.Found p key s q) => NewShare.found_of_sole h hp
    (hstays p (Or.inl rfl)) (fun hlive => hstays _ (Or.inr ⟨rfl, hlive⟩)) hq
  exact ⟨⟨h.clean, fun q hq => (hfound q hq).2⟩, fun q hq => (hfound q hq).1⟩

end

/-- The first element becomes the second one: `l.set(0, *l.getVarWithKey(1))`, where the pointer
that is read is temporary. -/
theorem Variable.writable_iff_first :
    (SetCall.keyedVariable (.int 0) 2).Writes [2] 0 (.int 0) twoElementStore := by
  have hused : ∀ b, (twoElementStore.holding [2]).InUse b → b ∈ [0, 1, 2] :=
    fun b => SharedStore.mem_of_inUse (by decide) (by decide)
  have hs : (twoElementStore.holding [2]).WellFormed := by
    have hholds : ∀ q ∈ twoElementStore.live, twoElementStore.heap.vars[q]? = some q ∧
        twoElementStore.heap.cells[q]? = some (twoElementStore.heap.value q) := by decide
    have hbound : ∀ b ∈ [0, 1, 2], b < twoElementStore.blocks.length := by decide
    exact ⟨by decide, fun q hq => ⟨_, q, hholds q hq⟩, fun b hb => hbound b (hused b hb),
      by decide⟩
  have hsole : (twoElementStore.vacated 0 (.int 0)).sharing.Sole [0] [1, 2]
      twoElementStore.live := by
    have hin : ∀ b, (twoElementStore.vacated 0 (.int 0)).sharing.InUse [0] [1, 2]
        twoElementStore.live b → b ∈ [0, 1, 2] := by
      rintro b (hheld | hgiven | ⟨q, hq, hb⟩)
      · exact List.mem_cons.mpr (Or.inl (List.mem_singleton.mp hheld))
      · exact List.mem_cons_of_mem 0 hgiven
      · have hall : ∀ q ∈ twoElementStore.live,
            ∀ b ∈ ((twoElementStore.vacated 0 (.int 0)).heap.value q).pointers, b ∈ [0, 1, 2] := by
          decide
        exact hall q hq b hb
    have hthere : ∀ b ∈ [0, 1, 2], twoElementStore.object b ∈ twoElementStore.live ∧
        (twoElementStore.block b).deletes := by decide
    have honce : ∀ b ∈ [0, 1, 2], ∀ b' ∈ [0, 1, 2],
        twoElementStore.object b = twoElementStore.object b' → b = b' := by decide
    exact ⟨fun b hb => (hthere b (hin b hb)).1, fun b hb => (hthere b (hin b hb)).2,
      fun b b' hb hb' => honce b (hin b hb) b' (hin b' hb')⟩
  have hlist := hsole.not_dies (b := 0) (Or.inl (by decide))
  have hsecond := hsole.not_dies (b := 2) (Or.inr ⟨0, by decide, hlist, by decide⟩)
  have hspares := SetCall.spares_of_sole twoElementStore (.keyedVariable (.int 0) 2) 0 (.int 0) [2]
    1 hsole (by decide) (by
      rintro q (rfl | ⟨rfl, -⟩)
      · exact hlist
      · exact hsecond)
  refine (Variable.writable_iff hs (v := .list [some 1, some 2]) ⟨0, rfl, rfl⟩ rfl rfl
    ⟨by decide, by decide, ?_⟩ ?_ hspares.2).mpr ⟨?_, hspares.1⟩
  · rintro _ ⟨⟩
    decide
  · rintro _ ⟨⟩
  · rintro _ ⟨⟩
    decide

/-- The last element of two is read with the index `-1`, and writing with it throws, or destroys the
argument. The first element is read with the index `0`, and when it is set to itself, it is gone. -/
theorem Variable.last_not_writable :
    VariableUtils.getVarWithKey (twoElementStore.heap.value 0) (.int (-1)) = .ok (some 2) ∧
      ((SetCall.keyed (.int (-1)) (.int 7)).run 0).run twoElementStore
        = .error (.thrown .outOfRange) { twoElementStore with
            heap := (twoElementStore.heap.makeVariable (.int 7)).2
            blocks := twoElementStore.blocks ++ [⟨3, true⟩] } ∧
      ((SetCall.keyedVariable (.int (-1)) 1).run 0).run twoElementStore
        = .error (.undefined .badDelete) (twoElementStore.own 1).2 ∧
      ¬ (SetCall.keyed (.int (-1)) (.int 7)).Writes [] 0 (.int (-1)) twoElementStore ∧
      VariableUtils.getVarWithKey (twoElementStore.heap.value 0) (.int 0) = .ok (some 1) ∧
      ¬ (SetCall.keyedVariable (.int 0) 1).Writes [1] 0 (.int 0) twoElementStore := by
  refine ⟨rfl, rfl, rfl, ?_, rfl, ?_⟩
  · exact SetCall.not_writes_of_neg (l := [some 1, some 2]) ⟨0, rfl, rfl⟩ rfl (by decide)
  · rintro ⟨s', hrun, -, hstays⟩
    have hend : ((SetCall.keyedVariable (.int 0) 1).statement [1] 0).run twoElementStore
        = .ok () { heap := { cells := [.list [some 3, some 2], .int 1, .int 2], vars := [0, 1, 2] }
                   blocks := [⟨0, true⟩, ⟨1, true⟩, ⟨2, true⟩, ⟨1, false⟩]
                   held := [0]
                   live := [0, 2] } := rfl
    obtain ⟨-, rfl⟩ := EStateM.Result.ok.inj (hrun.symm.trans hend)
    exact absurd (hstays 1 (.single ⟨3, by decide, rfl⟩)) (by decide)

end SocialGaming
