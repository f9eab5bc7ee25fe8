import SocialGaming.RuleNode

/-!
# The environment manager

`EnvironmentManager` holds a stack of scopes and a table of timers. A scope binds names to
`Variable`s and, except for the bottom one, belongs to a rule node through its `ControlFlow`; for a
loop node this also holds the list the loop takes its elements from.

## Design

The front of the deque is the head of `scopes`. The free store is part of the state, since a loop
works on the storage of its list variable and not on a copy. The clock is read through an argument
`now`, the `time_t` the call sees.

`updateLoop` is a member of the control flow it updates. Both callers pass the control flow of the
front scope, so here it updates the front scope.

## Main definitions

* `Timer`, `ControlFlow`, `Scope`, `Env`
* `Env.getVariable`, `setVariable` — lookup and assignment through the stack
* `enterScopeTimed`, `enterScope`, `exitScope`, `updateTimers` — the four operations on the stack
-/

namespace SocialGaming

open Std (ExtTreeMap)

/-- A call on an environment. -/
abbrev Call (σ α : Type) : Type := Prog Exn σ α

/-! ### Timers -/

/-- `Timer::Type`. -/
inductive TimerType where
  | pad
  | stop
  | regular
  deriving DecidableEq, Repr

/-- `struct Timer`. `expireTime` has no value until `start`; nothing reads it before. -/
structure Timer (ι : Type) where
  id : ℤ := -1
  nextRuleNode : Option ι := none
  scopeid : ℤ := 0
  type : TimerType := .regular
  flagName : String := ""
  duration : UInt32 := 0
  expireTime : ℤ := 0
  deriving DecidableEq

namespace Timer

variable {ι : Type}

/-- The copy constructor. It leaves out `scopeid` and `expireTime`. -/
def copy (other : Timer ι) : Timer ι :=
  { id := other.id, nextRuleNode := other.nextRuleNode, type := other.type,
    flagName := other.flagName, duration := other.duration }

/-- `Timer::hasFlag`. -/
def hasFlag (timer : Timer ι) : Bool := timer.flagName != ""

/-- `Timer::start`. -/
def start (now : ℤ) (timer : Timer ι) : Timer ι :=
  { timer with expireTime := now + timer.duration.toNat }

/-- `Timer::isExpired`. -/
def isExpired (now : ℤ) (timer : Timer ι) : Bool := timer.expireTime < now

end Timer

/-! ### Scopes -/

/-- `class ControlFlow`. -/
structure ControlFlow (ι : Type) where
  node : Option ι
  loopVarName : String := ""
  range : Option CellAddr := none
  exiting : Bool := true
  deriving DecidableEq

/-- `class Scope`. -/
structure Scope (ι : Type) where
  vars : ExtTreeMap String VarPtr compare := ∅
  isParallel : Bool := false
  timerId : ℤ := -1
  ctrlFlow : Option (ControlFlow ι) := none

namespace Scope

variable {ι : Type}

/-- `Scope::hasVar`. -/
def hasVar (scope : Scope ι) (name : String) : Bool := scope.vars.contains name

/-- `Scope::getVariable`. -/
def getVariable (scope : Scope ι) (name : String) : VarPtr := (scope.vars[name]?).getD none

/-- `Scope::setVariable`. -/
def setVariable (scope : Scope ι) (name : String) (value : VarPtr) : Scope ι :=
  { scope with vars := scope.vars.insert name value }

/-- `Scope::waitingInputs`. -/
def waitingInputs (_scope : Scope ι) : Bool := false

end Scope

/-- An `EnvironmentManager` and the free store. -/
structure Env (ι : Type) where
  heap : Heap := {}
  scopes : List (Scope ι) := [{}]
  timers : ExtTreeMap ℤ (Timer ι) compare := ∅

/-- The argument of `EnvironmentManager::setVariable`, by the type the template is used at. -/
inductive SetArg where
  /-- A value: it gets a `Variable` with a storage of its own. -/
  | value (v : VarType)
  /-- A `Variable` with storage `a`: it is copied, and the copy has the same storage. -/
  | copy (a : CellAddr)
  /-- A `shared_ptr<Variable>`: it is stored as it is. -/
  | pointer (p : VarPtr)

/-- The pointer that is stored, and the store with it made. -/
def SetArg.toPtr (h : Heap) : SetArg → VarPtr × Heap
  | .value v => let (p, h) := h.makeVariable v; (some p, h)
  | .copy a => let (p, h) := h.copyVariable a; (some p, h)
  | .pointer p => (p, h)

namespace Env

variable {ι : Type}

/-- `EnvironmentManager::depth`. -/
def depth (s : Env ι) : ℕ := s.scopes.length

/-- `EnvironmentManager::hasVar`: the first scope from the front that binds the name. -/
def hasVar (s : Env ι) (name : String) : Option (Scope ι) :=
  s.scopes.find? fun scope => scope.hasVar name

/-- `EnvironmentManager::getVariable`. -/
def getVariable (s : Env ι) (name : String) : VarPtr :=
  match s.hasVar name with
  | some scope => scope.getVariable name
  | none => none

/-- `EnvironmentManager::getTimer`. -/
def getTimer (s : Env ι) (timerId : ℤ) : Option (Timer ι) := s.timers[timerId]?

/-- The control flow of the front scope. -/
def frontCtrlFlow (s : Env ι) : Option (ControlFlow ι) := s.scopes.head?.bind Scope.ctrlFlow

/-- The front scope belongs to the node. -/
def frontBelongsTo [DecidableEq ι] (s : Env ι) (node : Option ι) : Bool :=
  match s.frontCtrlFlow with
  | some ctrl => ctrl.node = node
  | none => false

end Env

/-- The scope `EnvironmentManager::setVariable` writes to is the first that has the name, and the
front one when none has it. -/
def assignIn {ι : Type} (name : String) (value : VarPtr) : List (Scope ι) → List (Scope ι)
  | [] => []
  | front :: rest =>
    if (front :: rest).any fun scope => scope.hasVar name then go (front :: rest)
    else front.setVariable name value :: rest
where
  /-- Write to the first scope that has the name. -/
  go : List (Scope ι) → List (Scope ι)
    | [] => []
    | scope :: rest =>
      if scope.hasVar name then scope.setVariable name value :: rest else scope :: go rest

section Operations

variable {ι : Type}

/-- `EnvironmentManager::setVariable`. -/
def setVariable (name : String) (arg : SetArg) : Call (Env ι) Unit := do
  let s ← get
  if s.scopes.isEmpty then return
  let (value, heap) := arg.toPtr s.heap
  set { s with heap, scopes := assignIn name value s.scopes }

variable (nodes : ι → RuleNode ι)

/-- The `ControlFlow` constructor. -/
def ControlFlow.new (anode : Option ι) (amgr : Env ι) : Except (Fault Exn) (ControlFlow ι) := do
  match anode with
  | none => return { node := anode }
  | some n =>
    let data := (nodes n).list
    if data.length < 2 then return { node := anode }
    let some element := data[1]? | throw (.thrown .outOfRange)
    let some list := data[2]? | throw (.thrown .outOfRange)
    let some loopVarName := element[0]? | throw (.thrown .outOfRange)
    let some listName := list[1]? | throw (.thrown .outOfRange)
    let some var := amgr.getVariable listName | throw (.undefined .nullDeref)
    match amgr.heap.value var with
    | .list _ => return { node := anode, loopVarName, range := some (amgr.heap.storage var) }
    | _ => return { node := anode, loopVarName }

/-- The `Scope` constructor for a node. -/
def Scope.new (node : Option ι) (mgr : Env ι) : Except (Fault Exn) (Scope ι) := do
  let isParallel := match node with
    | some n => (nodes n).type = .parallel
    | none => false
  return { isParallel, ctrlFlow := some (← ControlFlow.new nodes node mgr) }

/-- `ControlFlow::getNext`. -/
def ControlFlow.getNext (ctrl : ControlFlow ι) : Except (Fault Exn) (Option ι) :=
  match ctrl.node with
  | none => .ok none
  | some n =>
    if (nodes n).type.isLoop then do return (← (nodes n).getChildWithKey ["true"]).child
    else .ok none

/-- Set the `exiting` flag of a scope's control flow. -/
def Scope.setExiting (exiting : Bool) (scope : Scope ι) : Scope ι :=
  { scope with ctrlFlow := scope.ctrlFlow.map fun ctrl => { ctrl with exiting } }

/-- `ControlFlow::updateLoop`, on the control flow `ctrl` of the front scope. -/
def updateLoop (ctrl : ControlFlow ι) : Call (Env ι) (Option ι) := do
  let some range := ctrl.range | throw (.undefined .nullDeref)
  if VariableUtils.size ((← get).heap.cell range) != 0 then
    let newVar ← Prog.ofExcept (ListObjUtils.getAt ((← get).heap.cell range) (.int 0))
    let some newVar := newVar | throw (.undefined .nullDeref)
    setVariable ctrl.loopVarName (.value ((← get).heap.value newVar))
    let rest ← Prog.ofExcept (ListObjUtils.removeAt ((← get).heap.cell range) (.int 0))
    modify fun s => { s with heap := s.heap.write range rest }
    modify fun s =>
      { s with scopes := s.scopes.modifyHead (Scope.setExiting (VariableUtils.size rest == 0)) }
  Prog.ofExcept (ControlFlow.getNext nodes ctrl)

/-- `EnvironmentManager::enterScope(node, timer)`. -/
def enterScopeTimed (node : Option ι) (timer : Timer ι) (now : ℤ) : Call (Env ι) Unit := do
  let newScope ← Prog.ofExcept (Scope.new nodes node (← get))
  let newScope := { newScope with timerId := timer.id }
  let newTimer := { timer.copy with scopeid := (← get).scopes.length }
  if timer.hasFlag then
    -- `makeVar(false)` is a temporary: the copy that is stored is the only owner of its storage
    setVariable timer.flagName (.value (.bool false))
  modify fun s =>
    { s with
      scopes := newScope :: s.scopes
      timers := s.timers.insert timer.id (newTimer.start now) }

/-- `EnvironmentManager::enterScope(node)`. -/
def enterScope [DecidableEq ι] (node : Option ι) : Call (Env ι) (Option ι) := do
  match (← get).frontCtrlFlow with
  | some currScopeCtrlFlow =>
    if currScopeCtrlFlow.node = node then
      updateLoop nodes currScopeCtrlFlow
    else
      enterNew
  | none => enterNew
where
  /-- The part after the early return: make a scope and enter it. -/
  enterNew : Call (Env ι) (Option ι) := do
    let newScope ← Prog.ofExcept (Scope.new nodes node (← get))
    let next ← match newScope.ctrlFlow with
      | some ctrl => Prog.ofExcept (ControlFlow.getNext nodes ctrl)
      | none => pure none
    modify fun s => { s with scopes := newScope :: s.scopes }
    match node, newScope.ctrlFlow with
    | some n, some ctrl => if (nodes n).type.isLoop then updateLoop nodes ctrl else return next
    | _, _ => return next

/-- The timer block of `exitScope`: the value of `shouldBlock`, and the timers afterwards. -/
def checkTimer (s : Env ι) (toDelete : Scope ι) (now : ℤ) :
    Bool × ExtTreeMap ℤ (Timer ι) compare :=
  match s.timers[toDelete.timerId]? with
  | some timer =>
    if timer.type = .pad ∧ ¬ timer.isExpired now then (true, s.timers)
    else if ¬ timer.hasFlag then (false, s.timers.erase toDelete.timerId)
    else (false, s.timers)
  | none => (toDelete.waitingInputs, s.timers)

/-- `EnvironmentManager::exitScope`: `shouldBlock` and the next node. -/
def exitScope (force : Bool) (now : ℤ) : Call (Env ι) (Bool × Option ι) := do
  let s ← get
  match s.scopes with
  | [] => throw (.thrown .gameOver)
  | toDelete :: rest =>
    let (shouldBlock, timers) := checkTimer s toDelete now
    modify fun s => { s with timers }
    match toDelete.ctrlFlow with
    | none => return (shouldBlock, none)
    | some deleteCtrlFlow =>
      if !force && !deleteCtrlFlow.exiting then
        modify fun s => { s with scopes := { toDelete with vars := ∅ } :: rest }
        return (shouldBlock, deleteCtrlFlow.node)
      else
        let some n := deleteCtrlFlow.node | throw (.undefined .nullDeref)
        modify fun s => { s with scopes := rest }
        return (shouldBlock, (nodes n).nextNode)

/-- The `while` of `updateTimers`. A round that does not make the stack shorter would be repeated
for ever, so as many rounds as there are scopes are enough. -/
def exitDownTo (scopeId : ℤ) (now : ℤ) : ℕ → Call (Env ι) Unit
  | 0 => do if scopeId < (← get).scopes.length then throw .diverged
  | rounds + 1 => do
    if scopeId < (← get).scopes.length then
      let _ ← exitScope nodes true now
      exitDownTo scopeId now rounds

/-- The body of the loop over the expired timers in `updateTimers`, on the pair of `nextRuleNode`
and `lastExitScopeId`. -/
def expireTimer (now : ℤ) (acc : Option ι × ℤ) (timer : Timer ι) :
    Call (Env ι) (Option ι × ℤ) := do
  if timer.hasFlag then setVariable timer.flagName (.value (.bool true))
  if timer.type ≠ .stop then return acc
  exitDownTo nodes timer.scopeid now (← get).scopes.length
  return if acc.2 > timer.scopeid then (timer.nextRuleNode, timer.scopeid) else acc

/-- `EnvironmentManager::updateTimers`. Every timer is moved out of the table, whether it has
expired or not, and the emptied entries are erased. -/
def updateTimers (now : ℤ) : Call (Env ι) (Option ι) := do
  let expiredTimers := (← get).timers.toList.map Prod.snd
  modify fun s => { s with timers := ∅ }
  let acc ← expiredTimers.foldlM (expireTimer nodes now) (none, ((← get).scopes.length : ℤ))
  return acc.1

end Operations

end SocialGaming
