import SocialGaming.LoopConsumption

/-!
# Entering a loop node

`enterScope` on a loop node is one call of `updateLoop`, whether the loop's scope is there already
or has to be made. What it returns is the body, and it returns the body in any case: `updateLoop`
takes an element only if there is one, and then asks `getNext`, which does not know whether one was
taken.

## Main definitions

* `Env.loopCtrl?` — the control flow of a loop when its node is entered
* `Env.enclosing` — the frames of the scopes around the loop
* `BodyHasElement` — if the body is returned then the first element has been bound

## Main results

* `enterScope_loop` — entering a loop node, for the first time or again
* `bodyHasElement_iff` — the body is returned without an element when the list is empty
-/

namespace SocialGaming

open ScopeStack (Frame)

variable {ι : Type} [DecidableEq ι]

/-- The control flow `enterScope` works with when it enters the loop node: that of the front scope
if this belongs to the node, and otherwise a new one. -/
def Env.loopCtrl? (nodes : ι → RuleNode ι) (s : Env ι) (node : ι) : Option (ControlFlow ι) :=
  if s.frontBelongsTo (some node) then s.frontCtrlFlow
  else (ControlFlow.new nodes (some node) s).toOption

/-- The frames around the loop. -/
def Env.enclosing (s : Env ι) (node : ι) : List (Frame String VarPtr) :=
  if s.frontBelongsTo (some node) then s.bindings.tail else s.bindings

/-- If the call that led from `s` to `s'` and returned `next` has returned the body, then it has
made a `Variable` for the loop variable, with the value of the element that was the first of the
list. -/
def BodyHasElement (loopVar : String) (range : CellAddr) (body : ι) (s : Env ι) (next : Option ι)
    (s' : Env ι) : Prop :=
  next = some body → ∃ p rest q, s.heap.cell range = .list (some p :: rest) ∧
    s'.getVariable loopVar = some q ∧ s.heap.vars.length ≤ q ∧ s'.heap.value q = s.heap.value p

section

variable {nodes : ι → RuleNode ι} {node : ι} {s s' : Env ι}

/-! ### Entering a loop node -/

omit [DecidableEq ι] in
/-- Looking for a body has no defined behaviour when it throws. -/
theorem ControlFlow.getNext_error {ctrl : ControlFlow ι} {f : Fault Exn}
    (h : ctrl.getNext nodes = .error f) : f = .undefined .pastEnd := by
  rcases hn : ctrl.node with _ | n
  · simp [ControlFlow.getNext, hn] at h
  by_cases hloop : (nodes n).type.isLoop
  · simp only [ControlFlow.getNext, hn, hloop, if_true] at h
    rcases hchild : (nodes n).getChildWithKey ["true"] with f' | c
    · rw [hchild] at h
      obtain rfl := Except.error.inj h
      rw [RuleNode.getChildWithKey] at hchild
      split at hchild
      · cases hchild
      · split at hchild
        · cases hchild
        · exact (Except.error.inj hchild).symm
    · rw [hchild] at h
      cases h
  · simp [ControlFlow.getNext, hn, hloop] at h

/-- **Entering a loop node**, for the first time or again. Either it faults before anything has
changed, or it is `updateLoop` with the loop's own scope in front. -/
theorem enterScope_loop (hloop : (nodes node).type.isLoop) (s : Env ι) :
    (∃ f, (enterScope nodes (some node)).run s = .error f s ∧
      ∀ e, f = .thrown e → s.loopCtrl? nodes node = none) ∨
    ∃ ctrl own t, s.loopCtrl? nodes node = some ctrl ∧ ctrl.node = some node ∧
      t.bindings = own :: s.enclosing node ∧ t.heap = s.heap ∧
      (enterScope nodes (some node)).run s = (updateLoop nodes ctrl).run t := by
  rcases hfront : s.frontBelongsTo (some node) with _ | _
  · have hctrl : s.loopCtrl? nodes node = (ControlFlow.new nodes (some node) s).toOption := by
      rw [Env.loopCtrl?, hfront]
      rfl
    have henclosing : s.enclosing node = s.bindings := by
      rw [Env.enclosing, hfront]
      rfl
    rw [enterScope_new nodes hfront, hctrl, henclosing]
    rcases hnew : Scope.new nodes (some node) s with f | scope
    · refine Or.inl ⟨f, enterNew_error nodes hnew, fun e _ => ?_⟩
      rcases hc : ControlFlow.new nodes (some node) s with f' | ctrl
      · rfl
      · rw [Scope.new, hc] at hnew
        cases hnew
    obtain ⟨hvars, -, ctrl, hc, hscope⟩ := Scope.new_eq_ok nodes hnew
    rcases hnext : ctrl.getNext nodes with f | next
    · refine Or.inl ⟨f, enterNew_error_getNext nodes hnew hscope hnext, fun e he => ?_⟩
      rw [ControlFlow.getNext_error hnext] at he
      cases he
    · exact Or.inr ⟨ctrl, scope.frame, s.push scope, congrArg Except.toOption hc,
        ControlFlow.node_of_new_eq_ok nodes hc, rfl, rfl,
        enterNew_loop nodes hnew hscope hnext hloop⟩
  · have hctrl : s.loopCtrl? nodes node = s.frontCtrlFlow := by
      rw [Env.loopCtrl?, if_pos hfront]
    have henclosing : s.enclosing node = s.bindings.tail := by
      rw [Env.enclosing, if_pos hfront]
    rw [Env.frontBelongsTo] at hfront
    rcases hf : s.frontCtrlFlow with _ | ctrl
    · rw [hf] at hfront
      cases hfront
    rw [hf] at hfront
    have hnode : ctrl.node = some node := by simpa using hfront
    obtain ⟨front, hhead, -⟩ := Option.bind_eq_some_iff.mp hf
    obtain ⟨rest, hs⟩ := List.head?_eq_some_iff.mp hhead
    refine Or.inr ⟨ctrl, front.frame, s, hctrl.trans hf, hnode, ?_, rfl,
      enterScope_again nodes hf hnode⟩
    rw [henclosing, Env.bindings, hs]
    rfl

/-! ### The body and its element -/

omit [DecidableEq ι] in
/-- Taking the first element binds the loop variable to a new `Variable` with its value. -/
theorem Env.takeElement_binds {t : Env ι} (ht : t.scopes ≠ []) {range : CellAddr} {p : VarAddr}
    {rest : List VarPtr} (hlist : t.heap.cell range = .list (some p :: rest)) (loopVar : String) :
    ∃ q, (t.takeElement loopVar range (t.heap.value p) rest).getVariable loopVar = some q ∧
      t.heap.vars.length ≤ q ∧
      (t.takeElement loopVar range (t.heap.value p) rest).heap.value q = t.heap.value p := by
  obtain ⟨q, hq, hvalue⟩ := Env.getVariable_takeElement ht hlist loopVar (t.heap.value p) rest
  refine ⟨q, hq, ?_, hvalue⟩
  rw [Env.getVariable_eq_lookup, Env.bindings_takeElement, ← Env.getVariable_eq_lookup,
    Env.getVariable_assign_self ht] at hq
  exact (Option.some.inj hq).le

/-- **The body is returned without an element when the list is empty.** In every state, and for
every loop node with a body and a list, a call that returns has bound the first element to the loop
variable if it returns the body, exactly when the list is not empty. -/
theorem bodyHasElement_iff (hloop : (nodes node).type.isLoop) {c : ChildNode ι}
    {body : ι} (hchild : (nodes node).getChildWithKey ["true"] = .ok c)
    (hbody : c.child = some body) {ctrl : ControlFlow ι}
    (hctrl : s.loopCtrl? nodes node = some ctrl) {range : CellAddr}
    (hrange : ctrl.range = some range) {l : List VarPtr} (hlist : s.heap.cell range = .list l)
    {next : Option ι} (h : (enterScope nodes (some node)).run s = .ok next s') :
    BodyHasElement ctrl.loopVarName range body s next s' ↔ l ≠ [] := by
  rcases enterScope_loop hloop s with
    ⟨f, hrun, -⟩ | ⟨ctrl', own, t, hctrl', hnode, hown, hheap, hrun⟩
  · rw [hrun] at h
    cases h
  rw [hctrl, Option.some_inj] at hctrl'
  subst hctrl'
  have hnext : ctrl.getNext nodes = .ok (some body) := by
    rw [getNext_eq_ok hloop hchild hnode, hbody]
  have ht : t.scopes ≠ [] := by
    rintro hnil
    rw [Env.bindings, hnil] at hown
    cases hown
  rw [← hheap] at hlist
  rw [hrun] at h
  rcases l with _ | ⟨_ | p, rest⟩
  · -- the body, although nothing has been taken
    rw [updateLoop_nil nodes hrange hlist, hnext] at h
    obtain ⟨rfl, rfl⟩ := EStateM.Result.ok.inj h
    refine iff_of_false (fun hhas => ?_) (by simp)
    obtain ⟨p, rest, q, hcell, -⟩ := hhas rfl
    rw [← hheap, hlist] at hcell
    cases hcell
  · rw [updateLoop_null_element nodes hrange hlist] at h
    cases h
  · rw [updateLoop_cons nodes hrange hlist, hnext] at h
    obtain ⟨rfl, rfl⟩ := EStateM.Result.ok.inj h
    refine iff_of_true (fun _ => ?_) (by simp)
    obtain ⟨q, hq, hlen, hvalue⟩ := Env.takeElement_binds ht hlist ctrl.loopVarName
    rw [← hheap]
    exact ⟨p, rest, q, hlist, hq, hlen, hvalue⟩

end

/-- A loop `for x in xs` whose body is a message. -/
def bodyNodes : Bool → RuleNode Bool
  | true => { list := [["for"], ["x"], ["in", "xs"]], type := .forLoop,
              children := some [⟨["true"], some false⟩] }
  | false => { list := [], type := .message }

/-- A list with one element. -/
def oneElementEnv : Env Bool :=
  (({} : Env Bool).assign "first" (.value (.int 1))).assign "xs" (.value (.list [some 0]))

/-- Its element is bound when the body is entered. -/
theorem bodyHasElement_one : ∃ s', (enterScope bodyNodes (some true)).run oneElementEnv
      = .ok (some false) s' ∧
    BodyHasElement "x" 1 false oneElementEnv (some false) s' := by
  have hctrl : oneElementEnv.loopCtrl? bodyNodes true = some (loopFlow true "x" 1) := rfl
  have hlist : oneElementEnv.heap.cell 1 = .list [some 0] := rfl
  obtain ⟨s', hrun⟩ : ∃ s', (enterScope bodyNodes (some true)).run oneElementEnv
      = .ok (some false) s' := ⟨_, rfl⟩
  exact ⟨s', hrun, (bodyHasElement_iff rfl rfl rfl hctrl rfl hlist hrun).mpr (by simp)⟩

/-- An empty list. -/
def emptyListEnv : Env Bool := ({} : Env Bool).assign "xs" (.value (.list []))

/-- The body of a loop over it is entered, and the loop variable is not bound. -/
theorem bodyHasElement_empty_fails :
    Reachable bodyNodes emptyListEnv ∧
      (emptyListEnv.getVariable "xs").map emptyListEnv.heap.value = some (.list []) ∧
      ∃ s', (enterScope bodyNodes (some true)).run emptyListEnv = .ok (some false) s' ∧
        s'.getVariable "x" = none ∧
        ¬ BodyHasElement "x" 0 false emptyListEnv (some false) s' := by
  refine ⟨Relation.ReflTransGen.single (Step.op (.setVariable "xs" (.value (.list []))) 0 rfl), rfl,
    _, rfl, rfl, fun hhas => ?_⟩
  obtain ⟨p, rest, q, hlist, -⟩ := hhas rfl
  cases hlist

end SocialGaming
