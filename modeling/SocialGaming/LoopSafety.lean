import SocialGaming.EnvironmentRuns
import SocialGaming.LoopEntry

/-!
# What can go wrong when a loop is entered

The `ControlFlow` constructor has checks for data with too few rows and for a variable that is no
list, and none for a name that is not bound. `updateLoop` has none at all: it dereferences the range
whether the constructor has set it or not, and the first element whether it is null or not.

The rows are read with `at`, which throws, and that is the only thing that does: a range once set
stays a list. So a call that throws has not changed anything.

## Main definitions

* `loopRows` — the names in the data of a loop
* `Env.RangesAreLists` — the invariant of the ranges
* `EntersSafely`, `Env.LoopReady` — a loop node is entered without undefined behaviour, and when

## Main results

* `Reachable.rangesAreLists` — what a scope has for a range is a list
* `entersSafely_iff` — when entering a loop node is defined
* `enterScope_thrown` — a call that throws leaves the state as it was
-/

namespace SocialGaming

open Relation (ReflTransGen)

variable {ι : Type}

/-! ### What the constructor makes -/

/-- The names of the loop variable and of the list, if the data has them. -/
def loopRows (data : List (List String)) : Option (String × String) := do
  let element ← data[1]?
  let list ← data[2]?
  return (← element[0]?, ← list[1]?)

section New

variable {nodes : ι → RuleNode ι} {n : ι} {s : Env ι} {loopVarName listName : String}
  {var : VarAddr}

theorem ControlFlow.new_short (hlen : (nodes n).list.length < 2) (s : Env ι) :
    ControlFlow.new nodes (some n) s = .ok { node := some n } := by
  rw [ControlFlow.new]
  simp only [hlen, if_true]
  rfl

/-- A row or a name that is missing is looked for with `at`. -/
theorem ControlFlow.new_missing (hlen : ¬ (nodes n).list.length < 2)
    (hrows : loopRows (nodes n).list = none) (s : Env ι) :
    ControlFlow.new nodes (some n) s = .error (.thrown .outOfRange) := by
  simp only [ControlFlow.new, hlen, if_false]
  rcases helement : (nodes n).list[1]? with _ | element
  · rfl
  rcases hlist : (nodes n).list[2]? with _ | list
  · rfl
  rcases hvar : element[0]? with _ | loopVarName
  · simp only [hvar]
    rfl
  rcases hname : list[1]? with _ | listName
  · simp only [hvar, hname]
    rfl
  simp [loopRows, helement, hlist, hvar, hname] at hrows

theorem loopRows_eq_some {data : List (List String)}
    (hrows : loopRows data = some (loopVarName, listName)) :
    ∃ element list, data[1]? = some element ∧ data[2]? = some list ∧
      element[0]? = some loopVarName ∧ list[1]? = some listName := by
  simpa [loopRows, Option.bind_eq_some_iff, and_assoc] using hrows

/-- Data with these names has enough rows. -/
theorem length_of_loopRows {data : List (List String)}
    (hrows : loopRows data = some (loopVarName, listName)) : ¬ data.length < 2 := by
  obtain ⟨element, list, -, hlist, -, -⟩ := loopRows_eq_some hrows
  have hlt := (List.getElem?_eq_some_iff.mp hlist).1
  omega

theorem ControlFlow.new_unbound (hrows : loopRows (nodes n).list = some (loopVarName, listName))
    (hvar : s.getVariable listName = none) :
    ControlFlow.new nodes (some n) s = .error (.undefined .nullDeref) := by
  have hlen := length_of_loopRows hrows
  obtain ⟨element, list, helement, hlist, hx, hxs⟩ := loopRows_eq_some hrows
  simp only [ControlFlow.new, hlen, helement, hlist, hx, hxs, hvar, if_false]
  rfl

theorem ControlFlow.new_list (hrows : loopRows (nodes n).list = some (loopVarName, listName))
    (hvar : s.getVariable listName = some var) {l : List VarPtr} (hl : s.heap.value var = .list l) :
    ControlFlow.new nodes (some n) s
      = .ok { node := some n, loopVarName, range := some (s.heap.storage var) } := by
  have hlen := length_of_loopRows hrows
  obtain ⟨element, list, helement, hlist, hx, hxs⟩ := loopRows_eq_some hrows
  simp only [ControlFlow.new, hlen, helement, hlist, hx, hxs, hvar, hl, if_false]
  rfl

theorem ControlFlow.new_not_list (hrows : loopRows (nodes n).list = some (loopVarName, listName))
    (hvar : s.getVariable listName = some var) (hl : ∀ l, s.heap.value var ≠ .list l) :
    ControlFlow.new nodes (some n) s = .ok { node := some n, loopVarName } := by
  have hlen := length_of_loopRows hrows
  obtain ⟨element, list, helement, hlist, hx, hxs⟩ := loopRows_eq_some hrows
  simp only [ControlFlow.new, hlen, helement, hlist, hx, hxs, hvar, if_false]
  rcases hvalue : s.heap.value var with _ | _ | _ | _ | l | _ | _ | _
  case list => exact absurd hvalue (hl l)
  all_goals rfl

/-- **What the constructor makes.** Every control flow is the node's, and its range is a list if it
has one. -/
theorem ControlFlow.range_of_new_eq_ok {node : Option ι} {ctrl : ControlFlow ι}
    (h : ControlFlow.new nodes node s = .ok ctrl) {range : CellAddr}
    (hrange : ctrl.range = some range) : ∃ l, s.heap.cell range = .list l := by
  rcases node with _ | n
  · obtain rfl := Except.ok.inj h
    cases hrange
  by_cases hlen : (nodes n).list.length < 2
  · rw [ControlFlow.new_short hlen] at h
    obtain rfl := Except.ok.inj h
    cases hrange
  rcases hrows : loopRows (nodes n).list with _ | ⟨loopVarName, listName⟩
  · rw [ControlFlow.new_missing hlen hrows] at h
    cases h
  rcases hvar : s.getVariable listName with _ | var
  · rw [ControlFlow.new_unbound hrows hvar] at h
    cases h
  by_cases hl : ∃ l, s.heap.value var = .list l
  · obtain ⟨l, hl⟩ := hl
    rw [ControlFlow.new_list hrows hvar hl] at h
    obtain rfl := Except.ok.inj h
    obtain rfl := Option.some_inj.mp hrange
    exact ⟨l, hl⟩
  · push Not at hl
    rw [ControlFlow.new_not_list hrows hvar hl] at h
    obtain rfl := Except.ok.inj h
    cases hrange

end New

/-! ### The ranges -/

/-- The storages of the lists that the scopes' loops take their elements from. -/
def ranges (scopes : List (Scope ι)) : List CellAddr :=
  scopes.filterMap fun scope => scope.ctrlFlow.bind ControlFlow.range

/-- Each of them holds a list. -/
def Env.RangesAreLists (s : Env ι) : Prop :=
  ∀ range ∈ ranges s.scopes, ∃ l, s.heap.cell range = .list l

/-- Ranges that are lists stay lists, and a range that is new is one. -/
def Env.KeepsLists (s s' : Env ι) : Prop := s.RangesAreLists → s'.RangesAreLists

instance : Std.Refl (Env.KeepsLists (ι := ι)) := ⟨fun _ => id⟩
instance : IsTrans (Env ι) Env.KeepsLists := ⟨fun _ _ _ hst htu hs => htu (hst hs)⟩

theorem SameScopes.ranges_eq {a b : List (Scope ι)} (h : SameScopes a b) : ranges a = ranges b := by
  have hmap : ∀ l : List (Scope ι),
      ranges (l.map fun scope => { scope with vars := ∅ }) = ranges l := by
    intro l
    rw [ranges, List.filterMap_map]
    rfl
  rw [← hmap a, ← hmap b, h]

theorem ranges_modifyHead_setExiting (b : Bool) (scopes : List (Scope ι)) :
    ranges (scopes.modifyHead (Scope.setExiting b)) = ranges scopes := by
  rcases scopes with _ | ⟨scope, rest⟩
  · rfl
  · have hrange : (scope.setExiting b).ctrlFlow.bind ControlFlow.range
        = scope.ctrlFlow.bind ControlFlow.range := by
      rcases hc : scope.ctrlFlow with _ | ctrl
      · simp [Scope.setExiting, hc]
      · simp [Scope.setExiting, hc]
    rw [List.modifyHead_cons, ranges, ranges, List.filterMap_cons, List.filterMap_cons, hrange]

/-- The types are kept, and no range is new. -/
theorem Env.keepsLists_of_subset {s s' : Env ι} (hheap : s.heap.Evolves s'.heap)
    (hsub : ranges s'.scopes ⊆ ranges s.scopes) : s.KeepsLists s' := by
  intro hs range hrange
  exact hheap.cell_list (hs range (hsub hrange))

theorem Env.keepsLists_assign (s : Env ι) (name : String) (arg : SetArg) :
    s.KeepsLists (s.assign name arg) := by
  refine Env.keepsLists_of_subset (s.heapEvolves_assign name arg) ?_
  rw [(s.sameScopes_assign name arg).ranges_eq]
  exact List.Subset.refl _

variable {nodes : ι → RuleNode ι}

/-- The range of a new scope is a list. -/
theorem Env.keepsLists_push (s : Env ι) {node : Option ι} {t : Env ι} {scope : Scope ι}
    (h : Scope.new nodes node t = .ok scope) (hheap : t.heap.Evolves s.heap) (timerId : ℤ) :
    s.KeepsLists (s.push { scope with timerId }) := by
  obtain ⟨-, -, ctrl, hctrl, hc⟩ := Scope.new_eq_ok nodes h
  intro hs range hrange
  rw [Env.push, ranges, List.filterMap_cons, hc, Option.bind_some] at hrange
  rcases hrange' : ctrl.range with _ | first
  · rw [hrange'] at hrange
    exact hs range hrange
  · rw [hrange'] at hrange
    rcases List.mem_cons.mp hrange with rfl | hrest
    · exact hheap.cell_list (ControlFlow.range_of_new_eq_ok hctrl hrange')
    · exact hs range hrest

theorem updateLoop_keepsLists (ctrl : ControlFlow ι) (s : Env ι) :
    Prog.Respects Env.KeepsLists (updateLoop nodes ctrl) s := by
  refine updateLoop_respects nodes ?_
  intro range p rest _ hl
  have hext := s.extends_assign ctrl.loopVarName (.value (s.heap.value p))
  refine Env.keepsLists_of_subset (hext.evolves_write (by rw [hl]; rfl)) ?_
  rw [Env.takeElement, ranges_modifyHead_setExiting, (s.sameScopes_assign _ _).ranges_eq]
  exact List.Subset.refl _

theorem enterScopeTimed_keepsLists (node : Option ι) (timer : Timer ι) (now : ℤ) (s : Env ι) :
    Prog.Respects Env.KeepsLists (enterScopeTimed nodes node timer now) s := by
  rcases h : Scope.new nodes node s with f | scope
  · exact Prog.respects_error (enterScopeTimed_error nodes h)
  · refine Prog.respects_ok (enterScopeTimed_run nodes h) ?_
    split
    · exact IsTrans.trans _ _ _ (s.keepsLists_assign _ _)
        (Env.keepsLists_push _ h (s.heapEvolves_assign _ _) timer.id)
    · exact s.keepsLists_push h (Heap.Evolves.refl _) timer.id

theorem exitScope_keepsLists (force : Bool) (now : ℤ) (s : Env ι) :
    Prog.Respects Env.KeepsLists (exitScope nodes force now) s := by
  intro s' h
  refine Env.keepsLists_of_subset (exitScope_heapEvolves force now s s' h) ?_
  rcases after_exitScope nodes h with ⟨-, rfl⟩ | ⟨scope, rest, hs, scopes', rfl, hcase⟩
  · exact List.Subset.refl _
  rcases hcase with ⟨-, rfl⟩ | ⟨ctrl, hc, ⟨-, -, rfl⟩ | ⟨-, -, rfl⟩⟩
  · rw [hs]
    exact List.Subset.refl _
  · rw [hs]
    exact List.Subset.refl _
  · rw [hs]
    exact ((List.sublist_cons_self _ _).filterMap _).subset

variable [DecidableEq ι]

theorem Step.keepsLists {s s' : Env ι} (h : Step nodes s s') : s.KeepsLists s' := by
  refine h.respects ?_ ?_ ?_ ?_ ?_ ?_
  · exact s.keepsLists_assign
  · exact fun node timer now => enterScopeTimed_keepsLists node timer now s
  · exact fun node => enterScope_respects nodes (fun scope hscope =>
      s.keepsLists_push hscope (Heap.Evolves.refl _) scope.timerId) updateLoop_keepsLists
  · exact fun force now => exitScope_keepsLists force now s
  · exact fun now => updateTimers_respects nodes id Env.keepsLists_assign
      (exitScope_keepsLists true now)
  · exact fun heap hheap => Env.keepsLists_of_subset hheap (List.Subset.refl _)

/-- **What a scope has for a range is a list.** -/
theorem Reachable.rangesAreLists {s : Env ι} (h : Reachable nodes s) : s.RangesAreLists := by
  refine h.invariant ?_ fun _ _ => Step.keepsLists
  intro range hrange
  cases hrange

/-! ### When it is safe -/

/-- A call that enters the node returns, or throws what can be caught. -/
def EntersSafely (nodes : ι → RuleNode ι) (node : ι) (s : Env ι) : Prop :=
  (Prog.after? ((enterScope nodes (some node)).run s)).isSome

omit [DecidableEq ι] in
/-- `updateLoop` is defined if there is a range, and no null in front of it. -/
theorem updateLoop_safe_iff {ctrl : ControlFlow ι} {next : Option ι}
    (hnext : ctrl.getNext nodes = .ok next) {t : Env ι}
    (hlist : ∀ range, ctrl.range = some range → ∃ l, t.heap.cell range = .list l) :
    (Prog.after? ((updateLoop nodes ctrl).run t)).isSome ↔
      ∃ range l, ctrl.range = some range ∧ t.heap.cell range = .list l ∧ l.head? ≠ some none := by
  rcases hrange : ctrl.range with _ | range
  · rw [updateLoop_null_range nodes hrange]
    simp
  obtain ⟨l, hl⟩ := hlist range hrange
  rcases l with _ | ⟨_ | p, rest⟩
  · rw [updateLoop_nil nodes hrange hl, hnext]
    exact iff_of_true rfl ⟨range, [], rfl, hl, by simp⟩
  · rw [updateLoop_null_element nodes hrange hl]
    refine iff_of_false (by simp) ?_
    rintro ⟨range', l, ⟨⟩, hl', hhead⟩
    obtain rfl := VarType.list.inj (hl.symm.trans hl')
    exact hhead rfl
  · rw [updateLoop_cons nodes hrange hl, hnext]
    exact iff_of_true rfl ⟨range, some p :: rest, rfl, hl, by simp⟩

/-- The loop can be entered. If its scope is in front, this has a range. Otherwise the data has at
least two rows, and if they name a list, the name is bound to a list. In either case no null pointer
is in front of the list. -/
def Env.LoopReady (nodes : ι → RuleNode ι) (node : ι) (s : Env ι) : Prop :=
  if s.frontBelongsTo (some node) then
    ∃ ctrl range l, s.frontCtrlFlow = some ctrl ∧ ctrl.range = some range ∧
      s.heap.cell range = .list l ∧ l.head? ≠ some none
  else ¬ (nodes node).list.length < 2 ∧
    ∀ loopVarName listName, loopRows (nodes node).list = some (loopVarName, listName) →
      ∃ var l, s.getVariable listName = some var ∧ s.heap.value var = .list l ∧
        l.head? ≠ some none

section

variable {node : ι} {s : Env ι} {c : ChildNode ι}

/-- Entering the loop again. -/
theorem entersSafely_again (hs : s.RangesAreLists) (hloop : (nodes node).type.isLoop)
    (hchild : (nodes node).getChildWithKey ["true"] = .ok c)
    (hfront : s.frontBelongsTo (some node) = true) :
    EntersSafely nodes node s ↔ s.LoopReady nodes node := by
  rw [Env.LoopReady, if_pos hfront, EntersSafely]
  rw [Env.frontBelongsTo] at hfront
  rcases hf : s.frontCtrlFlow with _ | ctrl
  · rw [hf] at hfront
    cases hfront
  rw [hf] at hfront
  have hnode : ctrl.node = some node := by simpa using hfront
  have hlist : ∀ range, ctrl.range = some range → ∃ l, s.heap.cell range = .list l := by
    intro range hrange
    obtain ⟨front, hhead, hc⟩ := Option.bind_eq_some_iff.mp hf
    refine hs range (List.mem_filterMap.mpr ⟨front, List.mem_of_mem_head? hhead, ?_⟩)
    rw [hc, Option.bind_some, hrange]
  rw [enterScope_again nodes hf hnode, updateLoop_safe_iff (getNext_eq_ok hloop hchild hnode) hlist]
  simp

/-- A control flow that is made is that of a new scope, whose range is then looked at. -/
theorem entersSafely_made (hloop : (nodes node).type.isLoop)
    (hchild : (nodes node).getChildWithKey ["true"] = .ok c)
    (hfront : s.frontBelongsTo (some node) = false) {ctrl : ControlFlow ι}
    (hctrl : ControlFlow.new nodes (some node) s = .ok ctrl) :
    EntersSafely nodes node s ↔
      ∃ range l, ctrl.range = some range ∧ s.heap.cell range = .list l ∧ l.head? ≠ some none := by
  have hscope : Scope.new nodes (some node) s = .ok
      { isParallel := (nodes node).type = .parallel, ctrlFlow := some ctrl } := by
    rw [Scope.new, hctrl]
    rfl
  have hnext := getNext_eq_ok hloop hchild (ControlFlow.node_of_new_eq_ok nodes hctrl)
  rw [EntersSafely, enterScope_new nodes hfront, enterNew_loop nodes hscope rfl hnext hloop]
  exact updateLoop_safe_iff hnext fun range hrange => ControlFlow.range_of_new_eq_ok hctrl hrange

/-- A constructor that faults faults before the call has done anything. -/
theorem entersSafely_fault (hfront : s.frontBelongsTo (some node) = false) {f : Fault Exn}
    (hctrl : ControlFlow.new nodes (some node) s = .error f) :
    EntersSafely nodes node s ↔ ∃ e, f = .thrown e := by
  have hscope : Scope.new nodes (some node) s = .error f := by
    rw [Scope.new, hctrl]
    rfl
  rw [EntersSafely, enterScope_new nodes hfront, enterNew_error nodes hscope]
  rcases f with e | _ | _
  · exact iff_of_true rfl ⟨e, rfl⟩
  · simp
  · simp

/-- Entering the loop anew. -/
theorem entersSafely_new (hloop : (nodes node).type.isLoop)
    (hchild : (nodes node).getChildWithKey ["true"] = .ok c)
    (hfront : s.frontBelongsTo (some node) = false) :
    EntersSafely nodes node s ↔ s.LoopReady nodes node := by
  rw [Env.LoopReady, if_neg (by simp [hfront])]
  by_cases hlen : (nodes node).list.length < 2
  · rw [entersSafely_made hloop hchild hfront (ControlFlow.new_short hlen s)]
    simp [hlen]
  rcases hrows : loopRows (nodes node).list with _ | ⟨loopVarName, listName⟩
  · rw [entersSafely_fault hfront (ControlFlow.new_missing hlen hrows s)]
    simp [hlen]
  rcases hvar : s.getVariable listName with _ | var
  · rw [entersSafely_fault hfront (ControlFlow.new_unbound hrows hvar)]
    simp [hvar]
  by_cases hl : ∃ l, s.heap.value var = .list l
  · obtain ⟨l, hl⟩ := hl
    have hcell : s.heap.cell (s.heap.storage var) = .list l := hl
    rw [entersSafely_made hloop hchild hfront (ControlFlow.new_list hrows hvar hl)]
    simp [hlen, hvar, hl, hcell]
  · push Not at hl
    rw [entersSafely_made hloop hchild hfront (ControlFlow.new_not_list hrows hvar hl)]
    simp [hvar, hl]

/-- **When a loop is entered safely.** -/
theorem entersSafely_iff (h : Reachable nodes s) (hloop : (nodes node).type.isLoop)
    (hchild : (nodes node).getChildWithKey ["true"] = .ok c) :
    EntersSafely nodes node s ↔ s.LoopReady nodes node := by
  rcases hfront : s.frontBelongsTo (some node) with _ | _
  · exact entersSafely_new hloop hchild hfront
  · exact entersSafely_again h.rangesAreLists hloop hchild hfront

end

/-! ### What has changed when a call throws -/

section

variable {node : Option ι} {s s' : Env ι} {e : Exn}

omit [DecidableEq ι] in
/-- `getNext` does not throw. -/
theorem getNext_not_thrown (ctrl : ControlFlow ι) (t : Env ι) :
    (Prog.ofExcept (ctrl.getNext nodes) : Call (Env ι) _).run t ≠ .error (.thrown e) s' := by
  intro hrun
  rcases hnext : ctrl.getNext nodes with f | next
  · rw [hnext, ControlFlow.getNext_error hnext] at hrun
    cases hrun
  · rw [hnext] at hrun
    cases hrun

omit [DecidableEq ι] in
/-- `updateLoop` throws before it has changed anything. -/
theorem updateLoop_thrown {ctrl : ControlFlow ι}
    (h : (updateLoop nodes ctrl).run s = .error (.thrown e) s') : s' = s := by
  rcases updateLoop_cases nodes ctrl s with ⟨range, p, rest, -, -, hrun⟩ | hrun | ⟨f, hrun⟩
  · exact absurd (hrun.symm.trans h) (getNext_not_thrown ctrl _)
  · exact absurd (hrun.symm.trans h) (getNext_not_thrown ctrl _)
  · exact (EStateM.Result.error.inj (hrun.symm.trans h)).2.symm

omit [DecidableEq ι] in
/-- On a list it does not throw. -/
theorem updateLoop_not_thrown {ctrl : ControlFlow ι}
    (hlist : ∀ range, ctrl.range = some range → ∃ l, s.heap.cell range = .list l) :
    (updateLoop nodes ctrl).run s ≠ .error (.thrown e) s' := by
  intro h
  rcases hrange : ctrl.range with _ | range
  · cases (updateLoop_null_range nodes hrange).symm.trans h
  obtain ⟨_ | ⟨_ | p, rest⟩, hl⟩ := hlist range hrange
  · exact getNext_not_thrown ctrl _ ((updateLoop_nil nodes hrange hl).symm.trans h)
  · cases (updateLoop_null_element nodes hrange hl).symm.trans h
  · exact getNext_not_thrown ctrl _ ((updateLoop_cons nodes hrange hl).symm.trans h)

/-- **A call that throws leaves the state as it was**: the stack of scopes, every variable and the
timers. -/
theorem enterScope_thrown (h : (enterScope nodes node).run s = .error (.thrown e) s' ∨
    ∃ timer now, (enterScopeTimed nodes node timer now).run s = .error (.thrown e) s') :
    s' = s := by
  rcases h with h | ⟨timer, now, h⟩
  · rcases enterScope_cases nodes node s with ⟨ctrl, -, -, hrun⟩ | ⟨-, hrun⟩
    · exact updateLoop_thrown (hrun.symm.trans h)
    rw [hrun] at h
    rcases enterNew_cases nodes node s with
      ⟨f, hrun⟩ | ⟨scope, ctrl, next, hscope, hc, -, hrun | hrun⟩
    · exact (EStateM.Result.error.inj (hrun.symm.trans h)).2.symm
    · cases hrun.symm.trans h
    · -- the scope has been pushed, and its range is a list
      obtain ⟨-, -, ctrl', hctrl, hc'⟩ := Scope.new_eq_ok nodes hscope
      obtain rfl := Option.some_inj.mp (hc'.symm.trans hc)
      have hlist : ∀ range, ctrl'.range = some range →
          ∃ l, (s.push scope).heap.cell range = .list l :=
        fun range hrange => ControlFlow.range_of_new_eq_ok hctrl hrange
      exact absurd (hrun.symm.trans h) (updateLoop_not_thrown hlist)
  · rcases hscope : Scope.new nodes node s with f | scope
    · rw [enterScopeTimed_error nodes hscope] at h
      exact (EStateM.Result.error.inj h).2.symm
    · rw [enterScopeTimed_run nodes hscope] at h
      cases h

end

/-- The loop over `1, 2`. -/
theorem entersSafely_list : EntersSafely forNode () listEnv := by
  refine (entersSafely_iff reachable_listEnv rfl rfl).mpr ?_
  rw [Env.LoopReady, if_neg (by decide)]
  refine ⟨by decide, ?_⟩
  intro loopVarName listName hrows
  obtain ⟨-, rfl⟩ : "x" = loopVarName ∧ "xs" = listName := by simpa [loopRows, forNode] using hrows
  exact ⟨2, [some 0, some 1], rfl, rfl, by simp⟩

/-- An environment in which `xs` is a number. -/
def numberEnv : Env Unit := ({} : Env Unit).assign "xs" (.value (.int 3))

/-- The name of the list is not bound, or is bound to a number. -/
theorem enterScope_unbound :
    Reachable forNode {} ∧
      (enterScope forNode (some ())).run {} = .error (.undefined .nullDeref) {} ∧
      ¬ EntersSafely forNode () {} ∧ Reachable forNode numberEnv ∧
      ¬ EntersSafely forNode () numberEnv := by
  have hrun : (enterScope forNode (some ())).run {} = .error (.undefined .nullDeref) {} := rfl
  have hnumber : (enterScope forNode (some ())).run numberEnv = .error (.undefined .nullDeref)
      (numberEnv.push { ctrlFlow := some { node := some (), loopVarName := "x" } }) := rfl
  refine ⟨ReflTransGen.refl, hrun, ?_,
    ReflTransGen.single (Step.op (.setVariable "xs" (.value (.int 3))) 0 rfl), ?_⟩
  · rw [EntersSafely, hrun]
    simp
  · rw [EntersSafely, hnumber]
    simp

/-- The data of a loop without a row for its list. -/
def shortNode : Unit → RuleNode Unit := fun _ =>
  { list := [["for"], ["x"]], type := .forLoop, children := some [⟨["true"], none⟩] }

theorem enterScope_thrown_short : ∃ s', (enterScope shortNode (some ())).run listEnv
    = .error (.thrown .outOfRange) s' ∧ s' = listEnv := by
  have hrun : (enterScope shortNode (some ())).run listEnv
      = .error (.thrown .outOfRange) listEnv := rfl
  exact ⟨listEnv, hrun, enterScope_thrown (Or.inl hrun)⟩

end SocialGaming
