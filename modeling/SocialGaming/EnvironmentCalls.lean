import SocialGaming.EnvironmentMgr
import SocialGaming.Library.ScopeStack

/-!
# What each call on the environment does

The equations of the four operations on the stack, one for each way a call can go, and the
abstraction of an environment to the stack of its bindings. Everything after this module cites
these and does not unfold the operations again.

## Main definitions

* `Env.bindings` — the stack of frames the scopes stand for
* `Env.assign`, `Env.takeElement` — the state after an assignment, and after a loop has taken an
  element

## Main results

* `bindings_assign`, `getVariable_eq_lookup` — assignment and lookup are those of a scope stack
* `updateLoop_cases`, `enterScope_cases`, `after_exitScope` — all that a call can do
* `enterScope_grows`, `enterScopeTimed_grows` — entering makes `Grow` moves
* `exitScope_shrinks`, `updateTimers_shrinks` — leaving makes `Shrink` moves
-/

namespace SocialGaming

open Std (ExtTreeMap)
open Relation (ReflTransGen)
open ScopeStack (Frame Grow Shrink lookup visible dom doms)

variable {ι : Type}

/-! ### The abstraction -/

/-- The partial function a scope's map is. -/
def Scope.frame (scope : Scope ι) : Frame String VarPtr := fun x => scope.vars[x]?

/-- The stack of frames. -/
def Env.bindings (s : Env ι) : List (Frame String VarPtr) := s.scopes.map Scope.frame

@[simp] theorem Env.length_bindings (s : Env ι) : s.bindings.length = s.scopes.length :=
  List.length_map _

theorem Scope.hasVar_eq (scope : Scope ι) (x : String) :
    scope.hasVar x = (scope.frame x).isSome := by
  rw [Scope.hasVar, Scope.frame, ExtTreeMap.isSome_getElem?_eq_contains]

theorem Scope.getVariable_eq (scope : Scope ι) (x : String) :
    scope.getVariable x = (scope.frame x).getD none := rfl

theorem Scope.frame_setVariable (scope : Scope ι) (x : String) (p : VarPtr) :
    (scope.setVariable x p).frame = Function.update scope.frame x (some p) := by
  funext y
  rw [Scope.frame, Scope.setVariable, ExtTreeMap.getElem?_insert]
  rcases eq_or_ne y x with rfl | hy
  · simp
  · rw [if_neg (by simpa using hy.symm), Function.update_of_ne hy, Scope.frame]

@[simp] theorem Scope.frame_empty (scope : Scope ι) :
    ({ scope with vars := ∅ } : Scope ι).frame = fun _ => none := by
  funext y
  simp [Scope.frame]

theorem assignIn_go_map_frame (x : String) (p : VarPtr) (scopes : List (Scope ι)) :
    (assignIn.go x p scopes).map Scope.frame
      = ScopeStack.rebind x p (scopes.map Scope.frame) := by
  induction scopes with
  | nil => rfl
  | cons scope rest ih =>
    rw [assignIn.go, List.map_cons, ScopeStack.rebind, Scope.hasVar_eq]
    split
    · rw [List.map_cons, Scope.frame_setVariable]
    · rw [List.map_cons, ih]

theorem any_hasVar_eq (x : String) (scopes : List (Scope ι)) :
    (scopes.any fun scope => scope.hasVar x) = (lookup (scopes.map Scope.frame) x).isSome := by
  rw [Bool.eq_iff_iff, ScopeStack.isSome_lookup_iff]
  simp [visible, Scope.hasVar_eq]

theorem assignIn_map_frame (x : String) (p : VarPtr) (scopes : List (Scope ι)) :
    (assignIn x p scopes).map Scope.frame = ScopeStack.assign x p (scopes.map Scope.frame) := by
  cases scopes with
  | nil => rfl
  | cons front rest =>
    rw [assignIn, List.map_cons, ScopeStack.assign, ← List.map_cons, ← any_hasVar_eq]
    split
    · exact assignIn_go_map_frame x p (front :: rest)
    · rw [List.map_cons, Scope.frame_setVariable]

/-- **Lookup.** -/
theorem Env.getVariable_eq_lookup (s : Env ι) (x : String) :
    s.getVariable x = (lookup s.bindings x).getD none := by
  rw [Env.getVariable, Env.hasVar, Env.bindings]
  induction s.scopes with
  | nil => rfl
  | cons scope rest ih =>
    rw [List.find?_cons, List.map_cons, ScopeStack.lookup_cons, Scope.hasVar_eq]
    cases h : scope.frame x with
    | none => simpa using ih
    | some p => simp [Scope.getVariable_eq, h]

theorem Env.isSome_hasVar_iff (s : Env ι) (x : String) :
    (s.hasVar x).isSome ↔ x ∈ visible s.bindings := by
  simp [Env.hasVar, Env.bindings, visible, Scope.hasVar_eq]

/-! ### Assignment -/

/-- The state after `setVariable`. -/
def Env.assign (s : Env ι) (name : String) (arg : SetArg) : Env ι :=
  if s.scopes.isEmpty then s
  else { s with heap := (arg.toPtr s.heap).2,
                scopes := assignIn name (arg.toPtr s.heap).1 s.scopes }

theorem setVariable_run (name : String) (arg : SetArg) (s : Env ι) :
    (setVariable name arg).run s = .ok () (s.assign name arg) := by
  rw [setVariable, Env.assign, EStateM.run_bind, EStateM.run_get]
  by_cases h : s.scopes.isEmpty
  · simp [h]
  · simp [h]

theorem SetArg.extends_toPtr (h : Heap) (arg : SetArg) : h.Extends (arg.toPtr h).2 := by
  rcases arg with v | a | p
  · exact h.extends_makeVariable v
  · exact h.extends_copyVariable a
  · exact Heap.Extends.refl h

@[simp] theorem Env.timers_assign (s : Env ι) (name : String) (arg : SetArg) :
    (s.assign name arg).timers = s.timers := by
  rw [Env.assign]
  split <;> rfl

theorem Env.extends_assign (s : Env ι) (name : String) (arg : SetArg) :
    s.heap.Extends (s.assign name arg).heap := by
  rw [Env.assign]
  split
  · exact Heap.Extends.refl _
  · exact arg.extends_toPtr _

theorem Env.bindings_assign (s : Env ι) (name : String) (arg : SetArg) :
    (s.assign name arg).bindings
      = ScopeStack.assign name (arg.toPtr s.heap).1 s.bindings := by
  rw [Env.assign]
  split
  · rename_i h
    rw [Env.bindings, List.isEmpty_iff.mp h]
    rfl
  · exact assignIn_map_frame name _ s.scopes

/-- Two stacks of the same scopes, whatever these bind. -/
def SameScopes (scopes scopes' : List (Scope ι)) : Prop :=
  scopes.map (fun scope => { scope with vars := ∅ })
    = scopes'.map fun scope => { scope with vars := ∅ }

theorem SameScopes.refl (scopes : List (Scope ι)) : SameScopes scopes scopes := rfl

theorem SameScopes.trans {a b c : List (Scope ι)} (hab : SameScopes a b) (hbc : SameScopes b c) :
    SameScopes a c := Eq.trans hab hbc

theorem SameScopes.length_eq {a b : List (Scope ι)} (h : SameScopes a b) :
    a.length = b.length := by
  simpa using congrArg List.length h

theorem sameScopes_cons {a b : Scope ι} {as bs : List (Scope ι)} :
    SameScopes (a :: as) (b :: bs) ↔
      (a.isParallel = b.isParallel ∧ a.timerId = b.timerId ∧ a.ctrlFlow = b.ctrlFlow) ∧
        SameScopes as bs := by
  simp [SameScopes]

theorem sameScopes_assignIn_go (x : String) (p : VarPtr) (scopes : List (Scope ι)) :
    SameScopes (assignIn.go x p scopes) scopes := by
  induction scopes with
  | nil => rfl
  | cons scope rest ih =>
    rw [assignIn.go]
    split
    · exact sameScopes_cons.mpr ⟨⟨rfl, rfl, rfl⟩, rfl⟩
    · exact sameScopes_cons.mpr ⟨⟨rfl, rfl, rfl⟩, ih⟩

theorem sameScopes_assignIn (x : String) (p : VarPtr) (scopes : List (Scope ι)) :
    SameScopes (assignIn x p scopes) scopes := by
  cases scopes with
  | nil => rfl
  | cons front rest =>
    rw [assignIn]
    split
    · exact sameScopes_assignIn_go x p (front :: rest)
    · exact sameScopes_cons.mpr ⟨⟨rfl, rfl, rfl⟩, rfl⟩

/-- An assignment changes only what scopes bind. -/
theorem Env.sameScopes_assign (s : Env ι) (name : String) (arg : SetArg) :
    SameScopes (s.assign name arg).scopes s.scopes := by
  rw [Env.assign]
  split
  · rfl
  · exact sameScopes_assignIn name _ s.scopes

/-! ### Preorders on environments -/

/-- The bindings of `s'` come from those of `s` by moves that do not shorten the stack. -/
def Env.Grows (s s' : Env ι) : Prop := ReflTransGen Grow s.bindings s'.bindings

/-- The bindings of `s'` come from those of `s` by moves that do not lengthen the stack. -/
def Env.Shrinks (s s' : Env ι) : Prop := ReflTransGen Shrink s.bindings s'.bindings

instance : Std.Refl (Env.Grows (ι := ι)) := ⟨fun _ => ReflTransGen.refl⟩
instance : IsTrans (Env ι) Env.Grows := ⟨fun _ _ _ => ReflTransGen.trans⟩
instance : Std.Refl (Env.Shrinks (ι := ι)) := ⟨fun _ => ReflTransGen.refl⟩
instance : IsTrans (Env ι) Env.Shrinks := ⟨fun _ _ _ => ReflTransGen.trans⟩

theorem Env.grows_assign (s : Env ι) (name : String) (arg : SetArg) :
    s.Grows (s.assign name arg) := by
  rw [Env.Grows, Env.bindings_assign]
  exact ReflTransGen.single (Grow.assign _ _ _)

theorem Env.shrinks_assign (s : Env ι) (name : String) (arg : SetArg) :
    s.Shrinks (s.assign name arg) := by
  rw [Env.Shrinks, Env.bindings_assign]
  exact ReflTransGen.single (Shrink.assign _ _ _)

/-! ### Taking an element -/

/-- The state after `updateLoop` has bound the value `v` to the loop variable and left `rest` of
the range. -/
def Env.takeElement (s : Env ι) (loopVarName : String) (range : CellAddr) (v : VarType)
    (rest : List VarPtr) : Env ι :=
  let bound := s.assign loopVarName (.value v)
  { bound with
    heap := bound.heap.write range (.list rest)
    scopes := bound.scopes.modifyHead (Scope.setExiting (rest.length == 0)) }

theorem Env.bindings_modifyHead_setExiting (s : Env ι) (b : Bool) :
    (s.scopes.modifyHead (Scope.setExiting b)).map Scope.frame = s.bindings := by
  rw [Env.bindings]
  cases s.scopes <;> rfl

theorem Env.bindings_takeElement (s : Env ι) (loopVarName : String) (range : CellAddr)
    (v : VarType) (rest : List VarPtr) :
    (s.takeElement loopVarName range v rest).bindings
      = (s.assign loopVarName (.value v)).bindings :=
  Env.bindings_modifyHead_setExiting _ _

variable (nodes : ι → RuleNode ι)

/-- Nothing is left to take: the state is not touched. -/
theorem updateLoop_nil {s : Env ι} {ctrl : ControlFlow ι} {range : CellAddr}
    (hr : ctrl.range = some range) (hl : s.heap.cell range = .list []) :
    (updateLoop nodes ctrl).run s = (Prog.ofExcept (ctrl.getNext nodes)).run s := by
  simp [updateLoop, hr, hl]

/-- The front element is bound to the loop variable and leaves the list. -/
theorem updateLoop_cons {s : Env ι} {ctrl : ControlFlow ι} {range : CellAddr} {p : VarAddr}
    {rest : List VarPtr} (hr : ctrl.range = some range)
    (hl : s.heap.cell range = .list (some p :: rest)) :
    (updateLoop nodes ctrl).run s = (Prog.ofExcept (ctrl.getNext nodes)).run
      (s.takeElement ctrl.loopVarName range (s.heap.value p) rest) := by
  have hl' := (s.extends_assign ctrl.loopVarName (.value (s.heap.value p))).cell_eq_list hl
  simp [updateLoop, hr, hl, hl', setVariable_run, Env.takeElement]

theorem updateLoop_null_range {s : Env ι} {ctrl : ControlFlow ι} (hr : ctrl.range = none) :
    (updateLoop nodes ctrl).run s = .error (.undefined .nullDeref) s := by
  simp [updateLoop, hr]

theorem updateLoop_null_element {s : Env ι} {ctrl : ControlFlow ι} {range : CellAddr}
    {rest : List VarPtr} (hr : ctrl.range = some range)
    (hl : s.heap.cell range = .list (none :: rest)) :
    (updateLoop nodes ctrl).run s = .error (.undefined .nullDeref) s := by
  simp [updateLoop, hr, hl]

/-- A range that has stopped being a list: its size is not zero unless it is an empty map, and
taking its front throws. -/
theorem updateLoop_not_list {s : Env ι} {ctrl : ControlFlow ι} {range : CellAddr}
    (hr : ctrl.range = some range) (hl : ∀ l, s.heap.cell range ≠ .list l) :
    (updateLoop nodes ctrl).run s = (Prog.ofExcept (ctrl.getNext nodes)).run s ∨
      ∃ e, (updateLoop nodes ctrl).run s = .error (.thrown e) s := by
  by_cases hs : VariableUtils.size (s.heap.cell range) = 0
  · exact Or.inl (by simp [updateLoop, hr, hs])
  · exact Or.inr ⟨.badVariableArg "Expected listObj, int", by
      simp [updateLoop, hr, hs, ListObjUtils.getAt_of_not_list hl]⟩

/-- **What `updateLoop` can do**: it takes the front element, or it leaves the state alone. -/
theorem updateLoop_cases (ctrl : ControlFlow ι) (s : Env ι) :
    (∃ range p rest, ctrl.range = some range ∧ s.heap.cell range = .list (some p :: rest) ∧
      (updateLoop nodes ctrl).run s = (Prog.ofExcept (ctrl.getNext nodes)).run
        (s.takeElement ctrl.loopVarName range (s.heap.value p) rest)) ∨
    (updateLoop nodes ctrl).run s = (Prog.ofExcept (ctrl.getNext nodes)).run s ∨
    ∃ f, (updateLoop nodes ctrl).run s = .error f s := by
  rcases hr : ctrl.range with _ | range
  · exact Or.inr (Or.inr ⟨_, updateLoop_null_range nodes hr⟩)
  by_cases hl : ∃ l, s.heap.cell range = .list l
  · obtain ⟨_ | ⟨_ | p, rest⟩, hl⟩ := hl
    · exact Or.inr (Or.inl (updateLoop_nil nodes hr hl))
    · exact Or.inr (Or.inr ⟨_, updateLoop_null_element nodes hr hl⟩)
    · exact Or.inl ⟨range, p, rest, rfl, hl, updateLoop_cons nodes hr hl⟩
  · push Not at hl
    rcases updateLoop_not_list nodes hr hl with h | ⟨e, h⟩
    · exact Or.inr (Or.inl h)
    · exact Or.inr (Or.inr ⟨_, h⟩)

/-- A relation that holds after an element is taken, and of a state and itself, holds after
`updateLoop`. -/
theorem updateLoop_respects {R : Env ι → Env ι → Prop} [Std.Refl R] {ctrl : ControlFlow ι}
    {s : Env ι}
    (hR : ∀ range p rest, ctrl.range = some range → s.heap.cell range = .list (some p :: rest) →
      R s (s.takeElement ctrl.loopVarName range (s.heap.value p) rest)) :
    Prog.Respects R (updateLoop nodes ctrl) s := by
  have hnext : ∀ t, R s t → ∀ s',
      Prog.after? ((Prog.ofExcept (ctrl.getNext nodes) : Call (Env ι) _).run t) = some s' →
        R s s' := by
    intro t ht s' hs'
    rcases hn : ctrl.getNext nodes with f | next
    · rw [hn, Prog.run_ofExcept_error] at hs'
      rcases f with e | _ | _
      · exact (Option.some_inj.mp hs') ▸ ht
      · cases hs'
      · cases hs'
    · rw [hn, Prog.run_ofExcept_ok] at hs'
      exact (Option.some_inj.mp hs') ▸ ht
  intro s' hs'
  rcases updateLoop_cases nodes ctrl s with ⟨range, p, rest, hr, hl, h⟩ | h | ⟨f, h⟩
  · exact hnext _ (hR range p rest hr hl) s' (h ▸ hs')
  · exact hnext s (Std.Refl.refl s) s' (h ▸ hs')
  · exact Prog.respects_error h s' hs'

theorem updateLoop_grows (ctrl : ControlFlow ι) (s : Env ι) :
    Prog.Respects Env.Grows (updateLoop nodes ctrl) s :=
  updateLoop_respects nodes fun range p rest _ _ => by
    rw [Env.Grows, Env.bindings_takeElement]
    exact s.grows_assign _ _

/-! ### Entering -/

/-- The control flow the constructor makes is the node's. -/
theorem ControlFlow.node_of_new_eq_ok {node : Option ι} {s : Env ι} {ctrl : ControlFlow ι}
    (h : ControlFlow.new nodes node s = .ok ctrl) : ctrl.node = node := by
  rcases node with _ | n
  · obtain rfl := Except.ok.inj h
    rfl
  by_cases hlen : (nodes n).list.length < 2
  · simp only [ControlFlow.new, hlen, if_true] at h
    obtain rfl := Except.ok.inj h
    rfl
  simp only [ControlFlow.new, hlen, if_false] at h
  -- every row that is missing throws, and every return is for `n`
  repeat' split at h
  all_goals first
    | exact Except.ok.inj h ▸ rfl
    | cases h

/-- The scope a constructor returns binds nothing and has a control flow for its node. -/
theorem Scope.new_eq_ok {node : Option ι} {s : Env ι} {scope : Scope ι}
    (h : Scope.new nodes node s = .ok scope) :
    scope.vars = ∅ ∧ scope.timerId = -1 ∧
      ∃ ctrl, ControlFlow.new nodes node s = .ok ctrl ∧ scope.ctrlFlow = some ctrl := by
  rcases hc : ControlFlow.new nodes node s with f | ctrl
  · simp [Scope.new, hc, bind, Except.bind] at h
  · simp only [Scope.new, hc, bind, Except.bind, pure, Except.pure, Except.ok.injEq] at h
    subst h
    exact ⟨rfl, rfl, ctrl, rfl, rfl⟩

/-- The state with a scope in front. -/
def Env.push (s : Env ι) (scope : Scope ι) : Env ι := { s with scopes := scope :: s.scopes }

theorem Env.grows_push (s : Env ι) {scope : Scope ι} (h : scope.vars = ∅) :
    s.Grows (s.push scope) := by
  have hframe : scope.frame = fun _ => none := by
    funext x
    simp [Scope.frame, h]
  rw [Env.Grows, Env.push, Env.bindings, Env.bindings, List.map_cons, hframe]
  exact ReflTransGen.single (Grow.push _)

theorem enterScopeTimed_run {node : Option ι} {timer : Timer ι} {now : ℤ} {s : Env ι}
    {scope : Scope ι} (h : Scope.new nodes node s = .ok scope) :
    (enterScopeTimed nodes node timer now).run s =
      let flagged := if timer.hasFlag then s.assign timer.flagName (.value (.bool false)) else s
      .ok () { flagged with
        scopes := { scope with timerId := timer.id } :: flagged.scopes
        timers := flagged.timers.insert timer.id
          ({ timer.copy with scopeid := s.scopes.length }.start now) } := by
  rw [enterScopeTimed, EStateM.run_bind, EStateM.run_get]
  by_cases hf : timer.hasFlag
  · simp [h, hf, setVariable_run]
  · simp [h, hf]

theorem enterScopeTimed_error {node : Option ι} {timer : Timer ι} {now : ℤ} {s : Env ι}
    {f : Fault Exn} (h : Scope.new nodes node s = .error f) :
    (enterScopeTimed nodes node timer now).run s = .error f s := by
  simp [enterScopeTimed, h]

theorem enterScopeTimed_grows (node : Option ι) (timer : Timer ι) (now : ℤ) (s : Env ι) :
    Prog.Respects Env.Grows (enterScopeTimed nodes node timer now) s := by
  rcases h : Scope.new nodes node s with f | scope
  · exact Prog.respects_error (enterScopeTimed_error nodes h)
  · refine Prog.respects_ok (enterScopeTimed_run nodes h) ?_
    have hvars : ({ scope with timerId := timer.id } : Scope ι).vars = ∅ :=
      (Scope.new_eq_ok nodes h).1
    split
    · exact (s.grows_assign _ _).trans (Env.grows_push _ hvars)
    · exact Env.grows_push s hvars

section Enter

variable [DecidableEq ι]

/-- Entering the node the front scope belongs to: the next iteration. -/
theorem enterScope_again {node : Option ι} {s : Env ι} {ctrl : ControlFlow ι}
    (hf : s.frontCtrlFlow = some ctrl) (hn : ctrl.node = node) :
    (enterScope nodes node).run s = (updateLoop nodes ctrl).run s := by
  simp [enterScope, hf, hn]

/-- Entering any other node: a new scope. -/
theorem enterScope_new {node : Option ι} {s : Env ι} (h : s.frontBelongsTo node = false) :
    (enterScope nodes node).run s = (enterScope.enterNew nodes node).run s := by
  rw [Env.frontBelongsTo] at h
  rcases hf : s.frontCtrlFlow with _ | ctrl
  · simp [enterScope, hf]
  · rw [hf] at h
    simp [enterScope, hf, of_decide_eq_false h]

omit [DecidableEq ι] in
theorem enterNew_error {node : Option ι} {s : Env ι} {f : Fault Exn}
    (h : Scope.new nodes node s = .error f) :
    (enterScope.enterNew nodes node).run s = .error f s := by
  simp [enterScope.enterNew, h]

omit [DecidableEq ι] in
theorem enterNew_error_getNext {node : Option ι} {s : Env ι} {scope : Scope ι}
    {ctrl : ControlFlow ι} {f : Fault Exn} (h : Scope.new nodes node s = .ok scope)
    (hc : scope.ctrlFlow = some ctrl) (hn : ctrl.getNext nodes = .error f) :
    (enterScope.enterNew nodes node).run s = .error f s := by
  simp [enterScope.enterNew, h, hc, hn]

omit [DecidableEq ι] in
/-- A loop node: the scope is pushed first, so that the loop variable can be bound in it. -/
theorem enterNew_loop {n : ι} {s : Env ι} {scope : Scope ι} {ctrl : ControlFlow ι}
    {next : Option ι} (h : Scope.new nodes (some n) s = .ok scope)
    (hc : scope.ctrlFlow = some ctrl) (hn : ctrl.getNext nodes = .ok next)
    (hloop : (nodes n).type.isLoop) :
    (enterScope.enterNew nodes (some n)).run s = (updateLoop nodes ctrl).run (s.push scope) := by
  simp [enterScope.enterNew, h, hc, hn, hloop, Env.push]

omit [DecidableEq ι] in
theorem enterNew_other {node : Option ι} {s : Env ι} {scope : Scope ι} {ctrl : ControlFlow ι}
    {next : Option ι} (h : Scope.new nodes node s = .ok scope)
    (hc : scope.ctrlFlow = some ctrl) (hn : ctrl.getNext nodes = .ok next)
    (hloop : ∀ n, node = some n → (nodes n).type.isLoop = false) :
    (enterScope.enterNew nodes node).run s = .ok next (s.push scope) := by
  rcases node with _ | n
  · simp [enterScope.enterNew, h, hc, hn, Env.push]
  · simp [enterScope.enterNew, h, hc, hn, hloop n rfl, Env.push]

omit [DecidableEq ι] in
/-- **What entering a new scope can do**: fault before anything has changed, or push a scope of
the constructor and, for a loop node, run its `updateLoop`. -/
theorem enterNew_cases (node : Option ι) (s : Env ι) :
    (∃ f, (enterScope.enterNew nodes node).run s = .error f s) ∨
    ∃ scope ctrl next, Scope.new nodes node s = .ok scope ∧ scope.ctrlFlow = some ctrl ∧
      ctrl.getNext nodes = .ok next ∧
      ((enterScope.enterNew nodes node).run s = .ok next (s.push scope) ∨
        (enterScope.enterNew nodes node).run s = (updateLoop nodes ctrl).run (s.push scope)) := by
  rcases h : Scope.new nodes node s with f | scope
  · exact Or.inl ⟨f, enterNew_error nodes h⟩
  obtain ⟨-, -, ctrl, -, hc⟩ := Scope.new_eq_ok nodes h
  rcases hn : ctrl.getNext nodes with f | next
  · exact Or.inl ⟨f, enterNew_error_getNext nodes h hc hn⟩
  refine Or.inr ⟨scope, ctrl, next, rfl, hc, hn, ?_⟩
  by_cases hloop : ∀ n, node = some n → (nodes n).type.isLoop = false
  · exact Or.inl (enterNew_other nodes h hc hn hloop)
  · push Not at hloop
    obtain ⟨n, rfl, hn'⟩ := hloop
    exact Or.inr (enterNew_loop nodes h hc hn (by simpa using hn'))

/-- **What `enterScope` can do.** -/
theorem enterScope_cases (node : Option ι) (s : Env ι) :
    (∃ ctrl, s.frontCtrlFlow = some ctrl ∧ ctrl.node = node ∧
      (enterScope nodes node).run s = (updateLoop nodes ctrl).run s) ∨
    s.frontBelongsTo node = false ∧
      (enterScope nodes node).run s = (enterScope.enterNew nodes node).run s := by
  by_cases h : s.frontBelongsTo node = false
  · exact Or.inr ⟨h, enterScope_new nodes h⟩
  · rw [Env.frontBelongsTo] at h
    rcases hf : s.frontCtrlFlow with _ | ctrl
    · rw [hf] at h; exact absurd rfl h
    · rw [hf] at h
      have hn : ctrl.node = node := by simpa using h
      exact Or.inl ⟨ctrl, rfl, hn, enterScope_again nodes hf hn⟩

/-- A preorder that holds after a push and after each `updateLoop` holds after `enterScope`. -/
theorem enterScope_respects {R : Env ι → Env ι → Prop} [Std.Refl R] [IsTrans (Env ι) R]
    {node : Option ι} {s : Env ι}
    (hpush : ∀ scope, Scope.new nodes node s = .ok scope → R s (s.push scope))
    (hloop : ∀ ctrl t, Prog.Respects R (updateLoop nodes ctrl) t) :
    Prog.Respects R (enterScope nodes node) s := by
  intro s' hs'
  rcases enterScope_cases nodes node s with ⟨ctrl, -, -, h⟩ | ⟨-, h⟩
  · exact hloop ctrl s s' (h ▸ hs')
  rw [h] at hs'
  rcases enterNew_cases nodes node s with ⟨f, h⟩ | ⟨scope, ctrl, next, hscope, -, -, h | h⟩
  · exact Prog.respects_error h s' hs'
  · exact Prog.respects_ok h (hpush scope hscope) s' hs'
  · exact IsTrans.trans _ _ _ (hpush scope hscope) (hloop ctrl _ s' (h ▸ hs'))

theorem enterScope_grows (node : Option ι) (s : Env ι) :
    Prog.Respects Env.Grows (enterScope nodes node) s :=
  enterScope_respects nodes
    (fun _ h => s.grows_push (Scope.new_eq_ok nodes h).1) (updateLoop_grows nodes)

end Enter

/-! ### Leaving -/

theorem exitScope_nil {s : Env ι} (h : s.scopes = []) (force : Bool) (now : ℤ) :
    (exitScope nodes force now).run s = .error (.thrown .gameOver) s := by
  simp [exitScope, h]

/-- The bottom scope, which has no control flow, is never left. -/
theorem exitScope_base {s : Env ι} {scope : Scope ι} {rest : List (Scope ι)}
    (h : s.scopes = scope :: rest) (hc : scope.ctrlFlow = none) (force : Bool) (now : ℤ) :
    (exitScope nodes force now).run s = .ok ((checkTimer s scope now).1, none)
      { s with timers := (checkTimer s scope now).2 } := by
  simp [exitScope, h, hc]

/-- A loop that is not done: its scope is emptied and stays. -/
theorem exitScope_again {s : Env ι} {scope : Scope ι} {rest : List (Scope ι)}
    {ctrl : ControlFlow ι} (h : s.scopes = scope :: rest) (hc : scope.ctrlFlow = some ctrl)
    (he : ctrl.exiting = false) (now : ℤ) :
    (exitScope nodes false now).run s = .ok ((checkTimer s scope now).1, ctrl.node)
      { s with timers := (checkTimer s scope now).2,
               scopes := { scope with vars := ∅ } :: rest } := by
  simp [exitScope, h, hc, he]

theorem not_stays {force exiting : Bool} (he : force = true ∨ exiting = true) :
    ¬ (force = false ∧ exiting = false) := by
  rintro ⟨rfl, rfl⟩
  simp at he

/-- The front scope is left. -/
theorem exitScope_pop {s : Env ι} {scope : Scope ι} {rest : List (Scope ι)}
    {ctrl : ControlFlow ι} {n : ι} {force : Bool} (h : s.scopes = scope :: rest)
    (hc : scope.ctrlFlow = some ctrl) (he : force = true ∨ ctrl.exiting = true)
    (hn : ctrl.node = some n) (now : ℤ) :
    (exitScope nodes force now).run s
      = .ok ((checkTimer s scope now).1, (nodes n).nextNode)
          { s with timers := (checkTimer s scope now).2, scopes := rest } := by
  simp [exitScope, h, hc, hn, not_stays he]

/-- The front scope would be left, but it was entered with a null node. -/
theorem exitScope_null {s : Env ι} {scope : Scope ι} {rest : List (Scope ι)}
    {ctrl : ControlFlow ι} {force : Bool} (h : s.scopes = scope :: rest)
    (hc : scope.ctrlFlow = some ctrl) (he : force = true ∨ ctrl.exiting = true)
    (hn : ctrl.node = none) (now : ℤ) :
    (exitScope nodes force now).run s = .error (.undefined .nullDeref)
      { s with timers := (checkTimer s scope now).2 } := by
  simp [exitScope, h, hc, hn, not_stays he]

/-- **What `exitScope` can do** to the state a caller goes on from. -/
theorem after_exitScope {s s' : Env ι} {force : Bool} {now : ℤ}
    (h : Prog.after? ((exitScope nodes force now).run s) = some s') :
    (s.scopes = [] ∧ s' = s) ∨
    ∃ scope rest, s.scopes = scope :: rest ∧ ∃ scopes',
      s' = { s with timers := (checkTimer s scope now).2, scopes := scopes' } ∧
      ((scope.ctrlFlow = none ∧ scopes' = scope :: rest) ∨
        ∃ ctrl, scope.ctrlFlow = some ctrl ∧
          ((force = false ∧ ctrl.exiting = false ∧ scopes' = { scope with vars := ∅ } :: rest) ∨
            ((force = true ∨ ctrl.exiting = true) ∧ ctrl.node.isSome ∧ scopes' = rest))) := by
  rcases hs : s.scopes with _ | ⟨scope, rest⟩
  · rw [exitScope_nil nodes hs, Prog.after?_thrown, Option.some_inj] at h
    exact Or.inl ⟨rfl, h.symm⟩
  refine Or.inr ⟨scope, rest, rfl, ?_⟩
  rcases hc : scope.ctrlFlow with _ | ctrl
  · rw [exitScope_base nodes hs hc, Prog.after?_ok, Option.some_inj] at h
    exact ⟨scope :: rest, by rw [← h, hs], Or.inl ⟨rfl, rfl⟩⟩
  by_cases he : force = true ∨ ctrl.exiting = true
  · rcases hn : ctrl.node with _ | n
    · rw [exitScope_null nodes hs hc he hn] at h
      cases h
    · rw [exitScope_pop nodes hs hc he hn, Prog.after?_ok, Option.some_inj] at h
      exact ⟨rest, h.symm, Or.inr ⟨ctrl, rfl, Or.inr ⟨he, by simp [hn], rfl⟩⟩⟩
  · have hforce : force = false := by simpa using fun hf => he (Or.inl hf)
    have hexit : ctrl.exiting = false := by simpa using fun hf => he (Or.inr hf)
    subst hforce
    rw [exitScope_again nodes hs hc hexit, Prog.after?_ok, Option.some_inj] at h
    exact ⟨_, h.symm, Or.inr ⟨ctrl, rfl, Or.inl ⟨rfl, hexit, by rw [hc]⟩⟩⟩

theorem exitScope_shrinks (force : Bool) (now : ℤ) (s : Env ι) :
    Prog.Respects Env.Shrinks (exitScope nodes force now) s := by
  intro s' h
  rcases after_exitScope nodes h with ⟨-, rfl⟩ | ⟨scope, rest, hs, scopes', rfl, hcase⟩
  · exact ReflTransGen.refl
  rw [Env.Shrinks, Env.bindings, Env.bindings, hs, List.map_cons]
  rcases hcase with ⟨-, rfl⟩ | ⟨ctrl, -, ⟨-, -, rfl⟩ | ⟨-, -, rfl⟩⟩
  · exact ReflTransGen.refl
  · rw [List.map_cons, Scope.frame_empty]
    exact ReflTransGen.single (Shrink.clear _ _)
  · exact ReflTransGen.single (Shrink.pop _ _)

/-! ### The timer sweep -/

/-- A preorder that each `exitScope` respects is respected by the `while` of the sweep. -/
theorem exitDownTo_respects {R : Env ι → Env ι → Prop} [Std.Refl R] [IsTrans (Env ι) R]
    {now : ℤ} (hexit : ∀ t, Prog.Respects R (exitScope nodes true now) t) (scopeId : ℤ)
    (rounds : ℕ) (s : Env ι) : Prog.Respects R (exitDownTo nodes scopeId now rounds) s := by
  induction rounds generalizing s with
  | zero =>
    by_cases h : scopeId < s.scopes.length
    · exact Prog.respects_error (f := .diverged) (by simp [exitDownTo, h])
    · exact Prog.respects_ok (a := ()) (t := s) (by simp [exitDownTo, h]) (Std.Refl.refl s)
  | succ rounds ih =>
    rw [exitDownTo]
    refine Prog.respects_bind (Prog.respects_ok (EStateM.run_get s) (Std.Refl.refl s)) ?_
    intro a t _
    split
    · exact Prog.respects_bind (hexit t) fun _ u _ => ih u
    · exact Prog.respects_ok (EStateM.run_pure () t) (Std.Refl.refl t)

/-- A preorder that assignments and exits respect is respected by the loop over the timers. -/
theorem sweep_respects {R : Env ι → Env ι → Prop} [Std.Refl R] [IsTrans (Env ι) R] {now : ℤ}
    (hassign : ∀ t name arg, R t (t.assign name arg))
    (hexit : ∀ t, Prog.Respects R (exitScope nodes true now) t) (timers : List (Timer ι))
    (acc : Option ι × ℤ) (s : Env ι) :
    Prog.Respects R (timers.foldlM (expireTimer nodes now) acc) s := by
  refine Prog.respects_foldlM (fun acc timer _ t => ?_) acc
  have hstop : ∀ u, Prog.Respects R (do
      exitDownTo nodes timer.scopeid now (← get).scopes.length
      return if acc.2 > timer.scopeid then (timer.nextRuleNode, timer.scopeid) else acc) u :=
    fun u => Prog.respects_bind (Prog.respects_ok (EStateM.run_get u) (Std.Refl.refl u))
      fun _ v _ => Prog.respects_bind (exitDownTo_respects nodes hexit _ _ v) fun _ w _ =>
        Prog.respects_ok (EStateM.run_pure _ w) (Std.Refl.refl w)
  have htype : ∀ u, Prog.Respects R (if timer.type ≠ .stop then pure acc else do
      exitDownTo nodes timer.scopeid now (← get).scopes.length
      return if acc.2 > timer.scopeid then (timer.nextRuleNode, timer.scopeid) else acc) u := by
    intro u
    split
    · exact Prog.respects_ok (EStateM.run_pure _ u) (Std.Refl.refl u)
    · exact hstop u
  rw [expireTimer]
  split
  · exact Prog.respects_bind
      (Prog.respects_ok (setVariable_run _ _ t) (hassign t _ _)) fun _ u _ => htype u
  · exact htype t

/-- `updateTimers` is the loop over the timers, started with an empty table. -/
theorem updateTimers_run (now : ℤ) (s : Env ι) :
    (updateTimers nodes now).run s
      = (Prod.fst <$> (s.timers.toList.map Prod.snd).foldlM (expireTimer nodes now)
          (none, (s.scopes.length : ℤ))).run { s with timers := ∅ } := by
  simp [updateTimers]

theorem after_updateTimers {now : ℤ} {s s' : Env ι}
    (h : Prog.after? ((updateTimers nodes now).run s) = some s') :
    Prog.after? (((s.timers.toList.map Prod.snd).foldlM (expireTimer nodes now)
      (none, (s.scopes.length : ℤ))).run { s with timers := ∅ }) = some s' := by
  rwa [updateTimers_run, Prog.after?_run_map] at h

/-- A preorder that assignments and exits respect, and that does not see the timer table, is
respected by the sweep. -/
theorem updateTimers_respects {R : Env ι → Env ι → Prop} [Std.Refl R] [IsTrans (Env ι) R]
    {now : ℤ} {s : Env ι} (hclear : R s { s with timers := ∅ })
    (hassign : ∀ t name arg, R t (t.assign name arg))
    (hexit : ∀ t, Prog.Respects R (exitScope nodes true now) t) :
    Prog.Respects R (updateTimers nodes now) s := fun s' h =>
  IsTrans.trans _ _ _ hclear
    (sweep_respects nodes hassign hexit _ _ _ s' (after_updateTimers nodes h))

theorem updateTimers_shrinks (now : ℤ) (s : Env ι) :
    Prog.Respects Env.Shrinks (updateTimers nodes now) s :=
  updateTimers_respects nodes ReflTransGen.refl Env.shrinks_assign
    (exitScope_shrinks nodes true now)

end SocialGaming
