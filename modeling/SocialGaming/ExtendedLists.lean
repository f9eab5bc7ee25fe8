import SocialGaming.InPlace
import SocialGaming.TaskFactoryChecks

/-!
# Extending a list

An `ExtendTask` is made from two lists. It keeps a pointer to the storage of the first and a copy of
the pointers in the second, so that nothing goes wrong when both are the same list. What it puts at
the end of the first list are new `Variable`s that hold what the elements of the second list hold.

## Design

Two `Variable`s can have one storage. Then the second list grows with the first, and an element on
the storage of the first list is copied as far as that list has grown.

## Main definitions

* `Heap.Appends` — what is in the store after copies have been put at the end of a list
* `Heap.Extended` — the same, as it is seen through the two `Variable`s

## Main results

* `ExtendTask.run_appends` — a run of the task
* `ExtendFactory.extends` — making the task and running it
-/

namespace SocialGaming

variable {ι : Type}

namespace Heap

/-- The list at the storage is followed by new `Variable`s, which hold what the elements held. An
element on that storage held the list as far as it had grown. -/
structure Appends (a : CellAddr) (l : List VarPtr) (elems fresh : List VarAddr) (h h' : Heap) :
    Prop where
  changes : ChangesOnly a h h'
  target : h'.cells[a]? = some (.list (l ++ fresh.map some))
  length : fresh.length = elems.length
  made : ∀ r ∈ fresh, h.vars.length ≤ r ∧ h.cells.length ≤ h'.storage r
  apart : fresh.Pairwise fun r r' => h'.storage r ≠ h'.storage r'
  copy : ∀ (i : ℕ) (r e : VarAddr), fresh[i]? = some r → elems[i]? = some e →
    h'.Holds r (if h.storage e = a then .list (l ++ (fresh.take i).map some) else h.value e)

/-- A list is followed by a new `Variable`. -/
def pushed (h : Heap) (a : CellAddr) (l : List VarPtr) (v : VarType) : Heap :=
  (h.makeVariable v).2.write a (.list (l ++ [some h.vars.length]))

section

variable {h : Heap} {a : CellAddr} {l : List VarPtr}

theorem getElem?_cells_pushed (hl : h.cells[a]? = some (.list l)) (v : VarType) :
    (h.pushed a l v).cells[a]? = some (.list (l ++ [some h.vars.length])) := by
  have hlt := (List.getElem?_eq_some_iff.mp hl).1
  rw [pushed, write, List.getElem?_set_self]
  exact hlt.trans_le (h.extends_makeVariable v).cells.length_le

theorem changesOnly_pushed (v : VarType) : ChangesOnly a h (h.pushed a l v) :=
  (h.extends_makeVariable v).changesOnly_write a _

/-- The new `Variable` has a storage of its own. -/
theorem holds_pushed (hl : h.cells[a]? = some (.list l)) (v : VarType) :
    (h.pushed a l v).Holds h.vars.length v ∧
      (h.pushed a l v).storage h.vars.length = h.cells.length := by
  have hnew := h.holds_makeVariable v
  have hstorage : (h.makeVariable v).2.storage h.vars.length = h.cells.length :=
    h.storage_makeVariable v
  have hne : (h.makeVariable v).2.storage h.vars.length ≠ a := by
    rw [hstorage]
    exact (List.getElem?_eq_some_iff.mp hl).1.ne'
  exact ⟨hnew.write_of_ne hne _, hstorage⟩

theorem length_pushed (v : VarType) : h.vars.length < (h.pushed a l v).vars.length ∧
    h.cells.length < (h.pushed a l v).cells.length := by
  simp [pushed, makeVariable, write]

/-- One more element is copied, before the others. -/
theorem Appends.cons {e : VarAddr} {elems fresh : List VarAddr} {h' : Heap}
    (hl : h.cells[a]? = some (.list l)) (helems : ∀ e ∈ elems, ∃ v, h.Holds e v)
    (happ : Appends a (l ++ [some h.vars.length]) elems fresh (h.pushed a l (h.value e)) h') :
    Appends a l (e :: elems) (h.vars.length :: fresh) h h' := by
  obtain ⟨hnew, hstorage⟩ := holds_pushed hl (h.value e)
  have hpush : ChangesOnly a h (h.pushed a l (h.value e)) := changesOnly_pushed _
  have hne : (h.pushed a l (h.value e)).storage h.vars.length ≠ a := by
    rw [hstorage]
    exact (List.getElem?_eq_some_iff.mp hl).1.ne'
  have hfirst : h'.storage h.vars.length = h.cells.length := by
    rw [hnew.storage_eq happ.changes.vars, hstorage]
  obtain ⟨hvars, hcells⟩ := length_pushed (h := h) (a := a) (l := l) (h.value e)
  refine ⟨hpush.trans happ.changes, ?_, ?_, ?_, ?_, ?_⟩
  · rw [happ.target, List.map_cons, List.append_assoc, List.singleton_append]
  · rw [List.length_cons, List.length_cons, happ.length]
  · intro r hr
    rcases List.mem_cons.mp hr with rfl | hr
    · exact ⟨le_rfl, hfirst.ge⟩
    · obtain ⟨hr, hrs⟩ := happ.made r hr
      exact ⟨hvars.le.trans hr, hcells.le.trans hrs⟩
  · refine List.pairwise_cons.mpr ⟨fun r hr => ?_, happ.apart⟩
    rw [hfirst]
    exact (hcells.trans_le (happ.made r hr).2).ne
  · intro i r e' hr he'
    rcases i with _ | i
    · obtain rfl : h.vars.length = r := by simpa using hr
      obtain rfl : e = e' := by simpa using he'
      have hvalue : h.value e = if h.storage e = a then .list (l ++ ([] : List VarPtr))
          else h.value e := by
        split
        · rename_i hea
          rw [value, hea, cell, List.getD_eq_getElem?_getD, hl, Option.getD_some, List.append_nil]
        · rfl
      have hkeep := hnew.of_changesOnly happ.changes hne
      rw [hvalue] at hkeep
      exact hkeep
    · have hcopy := happ.copy i r e' (by simpa using hr) (by simpa using he')
      obtain ⟨v, hv⟩ := helems e' (List.mem_of_getElem? (by simpa using he'))
      rw [hv.storage_eq hpush.vars] at hcopy
      by_cases hea : h.storage e' = a
      · simpa [hea] using hcopy
      · rw [if_neg hea] at hcopy ⊢
        rwa [(hv.of_changesOnly hpush hea).value_eq, ← hv.value_eq] at hcopy

theorem appends_nil (hl : h.cells[a]? = some (.list l)) : Appends a l [] [] h h where
  changes := changesOnly_refl a h
  target := by rw [List.map_nil, List.append_nil, hl]
  length := rfl
  made := by simp
  apart := List.Pairwise.nil
  copy := by simp

end

end Heap

/-! ### The task -/

section

variable {game : GameInstance ι} {a : CellAddr} {l : List VarPtr}

/-- **Extending.** Without a null element, the run returns, and the elements have been copied. -/
theorem ExtendTask.run_appends (elems : List VarAddr)
    (hl : game.envMgr.heap.cells[a]? = some (.list l))
    (helems : ∀ e ∈ elems, ∃ v, game.envMgr.heap.Holds e v) :
    ∃ h' fresh, (ExtendTask.run ⟨some a, elems.map some⟩).run game
        = .ok () (game.setEnvMgr { game.envMgr with heap := h' }) ∧
      Heap.Appends a l elems fresh game.envMgr.heap h' := by
  induction elems generalizing game l with
  | nil => exact ⟨game.envMgr.heap, [], rfl, Heap.appends_nil hl⟩
  | cons e elems ih =>
    rw [List.forall_mem_cons] at helems
    replace helems := helems.2
    set pushed := game.setEnvMgr { game.envMgr with
      heap := game.envMgr.heap.pushed a l (game.envMgr.heap.value e) }
    have hpush : Heap.ChangesOnly a game.envMgr.heap pushed.envMgr.heap :=
      Heap.changesOnly_pushed _
    have hl' : pushed.envMgr.heap.cells[a]? = some (.list (l ++ [some _])) :=
      Heap.getElem?_cells_pushed hl _
    have helems' : ∀ e ∈ elems, ∃ v, pushed.envMgr.heap.Holds e v := by
      intro e' he'
      obtain ⟨v, hv⟩ := helems e' he'
      exact hv.stays hpush.vars hpush.length
    obtain ⟨h', fresh, hrun, happ⟩ := ih hl' helems'
    refine ⟨h', _, ?_, happ.cons hl helems⟩
    have hcell : game.envMgr.heap.cell a = .list l := by
      rw [Heap.cell, List.getD_eq_getElem?_getD, hl, Option.getD_some]
    rw [List.map_cons, ExtendTask.run_cons, EStateM.run_bind, ExtendTask.run_push hcell]
    exact hrun

end

/-- What is known of the store when the elements of the list of `q` have been put at the end of the
list of `p`. -/
structure Heap.Extended (p q : VarAddr) (xs : List VarPtr) (elems fresh : List VarAddr)
    (h h' : Heap) : Prop where
  /-- The list of `p` goes on with as many new `Variable`s as there were elements. -/
  target : h'.Holds p (.list (xs ++ fresh.map some))
  length : fresh.length = elems.length
  made : ∀ r ∈ fresh, h.vars.length ≤ r
  /-- Each of them holds what the element held. If the element has the storage of `p`, that is the
  list as far as it had grown. -/
  copy : ∀ (i : ℕ) (r e : VarAddr), fresh[i]? = some r → elems[i]? = some e → h'.Holds r
    (if h.storage e = h.storage p then .list (xs ++ (fresh.take i).map some) else h.value e)
  /-- A list with another storage is as it was, and so is what every other `Variable` holds. -/
  source : h.storage q ≠ h.storage p → h'.Holds q (.list (elems.map some))
  others : ∀ (r : VarAddr) (v : VarType), h.Holds r v → h.storage r ≠ h.storage p → h'.Holds r v
  /-- No later set through a new `Variable` changes an element, nor the reverse. -/
  apart : ∀ r ∈ fresh, ∀ e ∈ elems, h'.Apart r e ∧ h'.Apart e r

theorem Heap.Appends.extended {p q : VarAddr} {xs : List VarPtr} {elems fresh : List VarAddr}
    {h h' : Heap} (hp : h.Holds p (.list xs)) (hq : h.Holds q (.list (elems.map some)))
    (helems : ∀ e ∈ elems, ∃ v, h.Holds e v)
    (happ : Heap.Appends (h.storage p) xs elems fresh h h') :
    Heap.Extended p q xs elems fresh h h' where
  target := by
    obtain ⟨a, ha, -⟩ := hp
    have htarget := happ.target
    rw [storage_of_getElem? ha] at htarget
    exact ⟨a, getElem?_of_prefix happ.changes.vars ha, htarget⟩
  length := happ.length
  made := fun r hr => (happ.made r hr).1
  copy := happ.copy
  source := hq.of_changesOnly happ.changes
  others := fun r v hr => hr.of_changesOnly happ.changes
  apart := by
    intro r hr e he
    obtain ⟨i, hi, hri⟩ := List.mem_iff_getElem.mp hr
    have hlt : i < elems.length := happ.length ▸ hi
    have hnew := happ.copy i r elems[i] (by rw [← hri, List.getElem?_eq_getElem hi])
      (List.getElem?_eq_getElem hlt)
    obtain ⟨v, hv⟩ := helems e he
    obtain ⟨w, hw⟩ := hv.stays happ.changes.vars happ.changes.length
    have hne : h'.storage e ≠ h'.storage r := by
      rw [hv.storage_eq happ.changes.vars]
      exact (hv.storage_lt.trans_le (happ.made r hr).2).ne
    exact ⟨hnew.apart hw hne.symm, hw.apart hnew hne⟩

/-- **Extending a list.** Take two `Variable`s, the same or not, that hold lists, the second of them
without null elements. The task is made, a run of it returns, and the list of the first goes on with
copies of the elements of the second. -/
theorem ExtendFactory.extends {game : GameInstance ι} {p q : VarAddr} {xs : List VarPtr}
    {elems : List VarAddr} (hp : game.envMgr.heap.Holds p (.list xs))
    (hq : game.envMgr.heap.Holds q (.list (elems.map some)))
    (helems : ∀ e ∈ elems, ∃ v, game.envMgr.heap.Holds e v) :
    ∃ task, ExtendFactory.create [some p, some q] game.envMgr.heap = .ok task ∧ ∀ lib,
      ∃ h' fresh, (task.run lib).run game
          = .ok () (game.setEnvMgr { game.envMgr with heap := h' }) ∧
        Heap.Extended p q xs elems fresh game.envMgr.heap h' := by
  refine ⟨.extend (.new p (elems.map some) game.envMgr.heap), ?_, fun lib => ?_⟩
  · rw [ExtendFactory.create_checked, VarType.list?_eq_some.mpr hp.value_eq,
      VarType.list?_eq_some.mpr hq.value_eq]
  · have hl : game.envMgr.heap.cells[game.envMgr.heap.storage p]? = some (.list xs) := by
      obtain ⟨a, ha, hv⟩ := hp
      rw [Heap.storage_of_getElem? ha, hv]
    obtain ⟨h', fresh, hrun, happ⟩ := ExtendTask.run_appends elems hl helems
    exact ⟨h', fresh, hrun, happ.extended hp hq helems⟩

/-- The first `Variable` is a list of the last two, which are ints, and the second one is a copy of
the first, on its storage. -/
def sharedListHeap : Heap :=
  { cells := [.list [some 2, some 3], .int 7, .int 8], vars := [0, 0, 1, 2] }

/-- A game with these variables. -/
def sharedListGame : GameInstance Unit :=
  (GameInstance.new "g" 0).setEnvMgr { heap := sharedListHeap }

/-- A list that is extended with itself. -/
theorem ExtendFactory.extends_self :
    ∃ task, ExtendFactory.create [some 0, some 0] sharedListHeap = .ok task ∧ ∀ lib,
      ∃ h' fresh, (task.run lib).run sharedListGame
          = .ok () (sharedListGame.setEnvMgr { sharedListGame.envMgr with heap := h' }) ∧
        Heap.Extended 0 0 [some 2, some 3] [2, 3] fresh sharedListHeap h' := by
  have hlist : sharedListGame.envMgr.heap.Holds 0 (.list [some 2, some 3]) := ⟨0, rfl, rfl⟩
  refine ExtendFactory.extends hlist hlist ?_
  exact List.forall_mem_cons.mpr ⟨⟨.int 7, 1, rfl, rfl⟩,
    List.forall_mem_singleton.mpr ⟨.int 8, 2, rfl, rfl⟩⟩

/-- A list that is extended with its copy: the copy grows too. -/
theorem ExtendFactory.extends_copy :
    ∃ task, ExtendFactory.create [some 0, some 1] sharedListHeap = .ok task ∧
      sharedListHeap.value 1 = .list [some 2, some 3] ∧ ∀ lib, ∃ game',
        (task.run lib).run sharedListGame = .ok () game' ∧
          game'.envMgr.heap.value 1 = .list [some 2, some 3, some 4, some 5] :=
  ⟨_, rfl, rfl, fun _ => ⟨_, rfl, rfl⟩⟩

end SocialGaming
