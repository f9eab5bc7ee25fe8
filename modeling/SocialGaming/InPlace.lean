import SocialGaming.Variables

/-!
# Operations in place

An operation through a `Variable` may make new objects, and of the storages that were there it
changes only the one of the `Variable`. What is held by a `Variable` with another storage stays as
it was, whatever is done.

## Main definitions

* `Heap.ChangesOnly` — no storage but one has changed
* `Variable.SetTo` — a call of one of the overloads of `Variable::set`
* `Heap.Apart` — sets through one `Variable` never change what another holds

## Main results

* `Heap.Holds.of_changesOnly` — the frame
* `Variable.SetTo.changesOnly`, `Heap.Holds.apart`
-/

namespace SocialGaming

namespace Heap

variable {a : CellAddr} {h h' : Heap} {p q : VarAddr}

/-- New objects may have been made, and no storage that was there but this one has changed. -/
structure ChangesOnly (a : CellAddr) (h h' : Heap) : Prop where
  vars : h.vars <+: h'.vars
  length : h.cells.length ≤ h'.cells.length
  cells : ∀ (b : CellAddr) (v : VarType), h.cells[b]? = some v → b ≠ a → h'.cells[b]? = some v

theorem ChangesOnly.trans {h₁ h₂ h₃ : Heap} (h₁₂ : ChangesOnly a h₁ h₂)
    (h₂₃ : ChangesOnly a h₂ h₃) : ChangesOnly a h₁ h₃ :=
  ⟨h₁₂.vars.trans h₂₃.vars, h₁₂.length.trans h₂₃.length,
    fun b v hb hba => h₂₃.cells b v (h₁₂.cells b v hb hba) hba⟩

/-- New objects are made, and then the storage is overwritten. -/
theorem Extends.changesOnly_write (hext : h.Extends h') (a : CellAddr) (v : VarType) :
    ChangesOnly a h (h'.write a v) := by
  refine ⟨hext.vars, ?_, fun b w hb hba => ?_⟩
  · rw [length_cells_write]
    exact hext.cells.length_le
  · rw [write, List.getElem?_set_ne hba.symm]
    exact getElem?_of_prefix hext.cells hb

/-- Only new objects are made. -/
theorem Extends.changesOnly (hext : h.Extends h') (a : CellAddr) : ChangesOnly a h h' :=
  ⟨hext.vars, hext.cells.length_le, fun _ _ hb _ => getElem?_of_prefix hext.cells hb⟩

theorem changesOnly_refl (a : CellAddr) (h : Heap) : ChangesOnly a h h :=
  (Extends.refl h).changesOnly a

theorem Holds.storage_eq {v : VarType} (hp : h.Holds p v) (hvars : h.vars <+: h'.vars) :
    h'.storage p = h.storage p := by
  obtain ⟨a, ha, -⟩ := hp
  have ha' : h'.vars[p]? = some a := getElem?_of_prefix hvars ha
  rw [storage_of_getElem? ha, storage_of_getElem? ha']

theorem Holds.storage_lt {v : VarType} (hp : h.Holds p v) : h.storage p < h.cells.length := by
  obtain ⟨a, ha, hv⟩ := hp
  rw [storage_of_getElem? ha]
  exact (List.getElem?_eq_some_iff.mp hv).1

/-- **Frame.** A `Variable` with another storage holds what it held. -/
theorem Holds.of_changesOnly {v : VarType} (hp : h.Holds p v) (hchange : ChangesOnly a h h')
    (hpa : h.storage p ≠ a) : h'.Holds p v := by
  obtain ⟨b, hb, hv⟩ := hp
  rw [storage_of_getElem? hb] at hpa
  exact ⟨b, getElem?_of_prefix hchange.vars hb, hchange.cells b v hv hpa⟩

/-- A `Variable` in the store stays there. -/
theorem Holds.stays {v : VarType} (hp : h.Holds p v) (hvars : h.vars <+: h'.vars)
    (hlength : h.cells.length ≤ h'.cells.length) : ∃ w, h'.Holds p w := by
  obtain ⟨b, hb, hv⟩ := hp
  have hlt : b < h'.cells.length := (List.getElem?_eq_some_iff.mp hv).1.trans_le hlength
  exact ⟨h'.cells[b], b, getElem?_of_prefix hvars hb, List.getElem?_eq_getElem hlt⟩

end Heap

namespace Variable

variable {p : VarAddr} {h h' : Heap}

/-- A value is computed, and stored. -/
theorem changesOnly_of_store {r : Except (Fault Exn) VarType}
    (hs : (do return h.write (h.storage p) (← r)) = Except.ok h') :
    Heap.ChangesOnly (h.storage p) h h' := by
  obtain ⟨v, -, hs⟩ := Prog.bind_eq_ok.mp hs
  rw [← Except.ok.inj hs]
  exact (Heap.Extends.refl h).changesOnly_write _ _

/-- A value is stored, after something has been allocated. -/
theorem changesOnly_of_allocate {r : Except (Fault Exn) (VarType × Heap)}
    (hr : ∀ {v u}, r = .ok (v, u) → h.Extends u)
    (hs : (do let (v, u) ← r; return u.write (h.storage p) v) = Except.ok h') :
    Heap.ChangesOnly (h.storage p) h h' := by
  obtain ⟨⟨v, u⟩, hv, hs⟩ := Prog.bind_eq_ok.mp hs
  rw [← Except.ok.inj hs]
  exact (hr hv).changesOnly_write _ _

/-- A call of one of the overloads of `Variable::set` has returned. -/
inductive SetTo (p : VarAddr) (h h' : Heap) : Prop
  | value {val : VarType} (hs : set p val h = .ok h')
  | keyed {val val2 : VarType} (hs : setKeyed p val val2 h = .ok h')
  | keyedVariable {val : VarType} {val2 : VarAddr} (hs : setKeyedVariable p val val2 h = .ok h')

theorem SetTo.changesOnly (hs : SetTo p h h') : Heap.ChangesOnly (h.storage p) h h' := by
  rcases hs with hs | hs | hs
  · exact changesOnly_of_store hs
  · exact changesOnly_of_allocate (fun hv => (VariableUtils.setValueKeyed_eq_ok hv).2) hs
  · exact changesOnly_of_allocate (fun hv => (VariableUtils.setValueVariable_eq_ok hv).2) hs

theorem pushBack_changesOnly {val : VarType} (hs : pushBack p val h = .ok h') :
    Heap.ChangesOnly (h.storage p) h h' :=
  changesOnly_of_allocate (fun hv => (ListObjUtils.pushBack_eq_ok hv).2) hs

theorem removeAt_changesOnly {val : VarType} (hs : removeAt p val h = .ok h') :
    Heap.ChangesOnly (h.storage p) h h' :=
  changesOnly_of_store hs

end Variable

namespace Heap

variable {h : Heap} {p q : VarAddr}

/-- From now on, no set through `p` changes what `q` holds. -/
def Apart (h : Heap) (p q : VarAddr) : Prop :=
  ∀ later after, h.Evolves later → Variable.SetTo p later after → after.value q = later.value q

/-- Two `Variable`s with different storages. -/
theorem Holds.apart {v w : VarType} (hp : h.Holds p v) (hq : h.Holds q w)
    (hpq : h.storage p ≠ h.storage q) : h.Apart p q := by
  intro later after hevolves hset
  obtain ⟨w', hq'⟩ := hq.stays hevolves.vars hevolves.cells
  have hne : later.storage q ≠ later.storage p := by
    rw [hq.storage_eq hevolves.vars, hp.storage_eq hevolves.vars]
    exact hpq.symm
  rw [(hq'.of_changesOnly hset.changesOnly hne).value_eq, hq'.value_eq]

end Heap

end SocialGaming
