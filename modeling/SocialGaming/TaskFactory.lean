import SocialGaming.GameInstance

/-!
# Tasks and their factories

A task is made by a factory from a vector of pointers to `Variable`s, and run later. What a task
needs is checked when it is made: the number of arguments, that none is null, and their types.

## Design

A task works on the game whose player handler and environment its factory was made with; a factory's
pointer to one of them may be null. Tasks that change a list keep a pointer to its storage. The
lists of the players and of the choices are copied when the task is made, and the elements that do
not have the type that is wanted are left out. The task of an assignment keeps no copy of its name
but a view into the string of the `Variable` it was given, which is read when the task is run.

The order in which a list is shuffled, the text of an address, and how deep calls can be nested
before the stack is used up, are those of a library and a machine. Counters of elements are natural
numbers.

## Main definitions

* `TaskLib` — what is left open
* `ReverseTask`, `ShuffleTask`, `ExtendTask`, `InputTask`, `MessageTask`, `ScoresTask`,
  `AssignmentTask` — the tasks
* `RunnableTask.run` — running a task
* `TaskFactory.create` — making a task
-/

namespace SocialGaming

open Std (ExtTreeMap)

variable {ι : Type}

/-- What the tasks use that the code leaves open. -/
structure TaskLib where
  shuffle : List VarPtr → List VarPtr
  shuffle_perm : ∀ l, (shuffle l).Perm l
  address : Option StrAddr → String
  stack : ℕ

/-! ### Variables -/

/-- `std::get_if<int>`. -/
def VarType.int? : VarType → Option Int32
  | .int n => some n
  | _ => Option.none

/-- `std::get_if<std::string>`. -/
def VarType.string? : VarType → Option String
  | .string s => some s
  | _ => Option.none

/-- `std::get_if<listObj>`. -/
def VarType.list? : VarType → Option (List VarPtr)
  | .list l => some l
  | _ => Option.none

/-- `ListObjUtils::shuffle`. -/
def ListObjUtils.shuffle (lib : TaskLib) : VarType → Except (Fault Exn) VarType
  | .list list => .ok (.list (lib.shuffle list))
  | _ => .error (.thrown (.badVariableArg "Expected listObj as first arg"))

/-- `ListObjUtils::reverse`. -/
def ListObjUtils.reverse : VarType → Except (Fault Exn) VarType
  | .list list => .ok (.list list.reverse)
  | _ => .error (.thrown (.badVariableArg "Expected listObj as first arg"))

/-- `std::to_string`. -/
def stdToString (i : Int32) : String := toString i.toInt

/-- `VariableUtils::printValue`: what is put out. An entry of a `mapType` is put out with the
address of its value. -/
def VariableUtils.printValue (address : Option StrAddr → String) (h : Heap) :
    ℕ → VarType → String → Except (Fault Exn) String
  | 0, _, _ => .error .diverged
  | stack + 1, var, delim => do
    let text ← match var with
      | .map val => pure (String.join (val.toList.map fun item =>
          "[" ++ item.1 ++ "] = " ++ address item.2))
      | .list val => do
        let texts ← val.mapM fun item => do
          let some item := item | throw (.undefined .nullDeref)
          VariableUtils.printValue address h stack (h.value item) ", "
        pure (String.join texts)
      | .int val => pure (stdToString val)
      | .string val => pure val
      | .bool val => pure (if val then "1" else "0")
      | _ => pure ""
    return text ++ delim

/-- A `Variable` is put out through its pointer. -/
def VariableUtils.printVar (address : Option StrAddr → String) (h : Heap) (stack : ℕ)
    (delim : String) (item : VarPtr) : Except (Fault Exn) String := do
  let some item := item | throw (.undefined .nullDeref)
  printValue address h stack (h.value item) delim

/-- `copyVec`. -/
def copyVec {α : Type} (getIf : VarType → Option α) (h : Heap) :
    List VarPtr → Except (Fault Exn) (List α)
  | [] => return []
  | item :: vec => do
    let some item := item | throw (.undefined .nullDeref)
    let copied ← copyVec getIf h vec
    return (getIf (h.value item)).toList ++ copied

/-! ### Parts of the game -/

/-- A pointer to a part of the game, or null. -/
inductive PartPtr where
  | null
  | part
  deriving DecidableEq, Repr

/-- `queueMessage` through a pointer. -/
def PartPtr.queueMessage (playerHandler : PartPtr) (ids : String) (msg : GameMsgType) :
    Call (GameInstance ι) Unit :=
  match playerHandler with
  | null => throw (.undefined .nullDeref)
  | part => modify fun game =>
      { game with playerHandler := game.playerHandler.queueMessage ids msg }

/-- The contents of a storage are changed. -/
def onStorage (a : CellAddr) (f : VarType → Heap → Except (Fault Exn) (VarType × Heap)) :
    Call (GameInstance ι) Unit :=
  Prog.zoom GameInstance.envMgr GameInstance.setEnvMgr do
    let s ← get
    let (v, heap) ← Prog.ofExcept (f (s.heap.cell a) s.heap)
    set { s with heap := heap.write a v }

/-! ### Tasks -/

/-- `class ReverseTask`. -/
structure ReverseTask where
  list : Option CellAddr
  deriving DecidableEq, Repr

/-- The constructor. -/
def ReverseTask.new (listToReverse : VarAddr) (h : Heap) : ReverseTask :=
  { list := some (h.storage listToReverse) }

/-- `ReverseTask::run`. -/
def ReverseTask.run (task : ReverseTask) : Call (GameInstance ι) Unit := do
  let some list := task.list | return
  onStorage list fun v h => return (← ListObjUtils.reverse v, h)

/-- `class ShuffleTask`. -/
structure ShuffleTask where
  list : Option CellAddr
  deriving DecidableEq, Repr

/-- The constructor. -/
def ShuffleTask.new (listToShuffle : VarAddr) (h : Heap) : ShuffleTask :=
  { list := some (h.storage listToShuffle) }

/-- `ShuffleTask::run`. -/
def ShuffleTask.run (lib : TaskLib) (task : ShuffleTask) : Call (GameInstance ι) Unit := do
  let some list := task.list | return
  onStorage list fun v h => return (← ListObjUtils.shuffle lib v, h)

/-- `class ExtendTask`. -/
structure ExtendTask where
  addList : Option CellAddr
  addElems : List VarPtr
  deriving DecidableEq, Repr

/-- The constructor. -/
def ExtendTask.new (anAddList : VarAddr) (someAddElems : List VarPtr) (h : Heap) : ExtendTask :=
  { addList := some (h.storage anAddList), addElems := someAddElems }

/-- `ExtendTask::run`. -/
def ExtendTask.run (task : ExtendTask) : Call (GameInstance ι) Unit := do
  let some addList := task.addList | return
  forM task.addElems fun item => do
    let some item := item | throw (.undefined .nullDeref)
    onStorage addList fun v h => ListObjUtils.pushBack v (h.value item) h

/-- The entries that a run of `std::accumulate` with a counter makes, one for each string. -/
def numbered (key : ℕ → String) : ℕ → List String → GameMsgType → GameMsgType
  | _, [], msg => msg
  | i, s :: rest, msg => numbered key (i + 1) rest (msg.insert (key i) s)

/-- `ids` in `InputTask::run` and `MessageTask::run`. The first comma is removed, and to remove a
character of an empty string is undefined. -/
def playerIds (playerList : List Int32) : Except (Fault Exn) String :=
  match (playerList.foldl (fun curr id => curr ++ "," ++ stdToString id) "").toList with
  | [] => .error (.undefined .pastEnd)
  | _ :: ids => .ok (String.ofList ids)

/-- `class InputTask`. -/
structure InputTask where
  playerList : List Int32
  prompt : String
  type : String
  playerHandler : PartPtr
  rangeStart : Int32 := -1
  rangeEnd : Int32 := -1
  choices : List String := []
  deriving DecidableEq

namespace InputTask

/-- The constructor. -/
def new (pList : List VarPtr) (prompt type : String) (playerHandler : PartPtr) (h : Heap) :
    Except (Fault Exn) InputTask := do
  return { playerList := ← copyVec VarType.int? h pList, prompt, type, playerHandler }

/-- The constructor with a range. -/
def newRange (pList : List VarPtr) (prompt type : String) (playerHandler : PartPtr)
    (rangeStart rangeEnd : Int32) (h : Heap) : Except (Fault Exn) InputTask := do
  return { playerList := ← copyVec VarType.int? h pList, prompt, type, playerHandler, rangeStart,
           rangeEnd }

/-- The constructor with choices. -/
def newChoices (pList : List VarPtr) (prompt type : String) (playerHandler : PartPtr)
    (vals : List VarPtr) (h : Heap) : Except (Fault Exn) InputTask := do
  return { playerList := ← copyVec VarType.int? h pList, prompt, type, playerHandler,
           choices := ← copyVec VarType.string? h vals }

/-- `setRange`. -/
def setRange (msg : GameMsgType) (start stop : Int32) : GameMsgType :=
  if start = -1 ∨ stop = -1 then msg
  else (msg.insert "rangeStart" (stdToString start)).insert "rangeEnd" (stdToString stop)

/-- `setChoices`. -/
def setChoices (msg : GameMsgType) (choices : List String) : GameMsgType :=
  if choices.length ≤ 0 then msg
  else numbered toString 0 choices (msg.insert "choiceListSize" (toString choices.length))

/-- The message of `InputTask::run`. -/
def msg (task : InputTask) : GameMsgType :=
  let msg := (ExtTreeMap.insert ∅ "prompt" task.prompt).insert "type" task.type
  setChoices (setRange msg task.rangeStart task.rangeEnd) task.choices

/-- `InputTask::run`. -/
def run (task : InputTask) : Call (GameInstance ι) Unit := do
  let ids ← Prog.ofExcept (playerIds task.playerList)
  task.playerHandler.queueMessage ids task.msg

end InputTask

/-- `class MessageTask`. -/
structure MessageTask where
  playerHandler : PartPtr
  playerList : List Int32
  message : String
  deriving DecidableEq

/-- The constructor. -/
def MessageTask.new (playerHandler : PartPtr) (aPlayerList : List VarPtr) (message : String)
    (h : Heap) : Except (Fault Exn) MessageTask := do
  return { playerHandler, playerList := ← copyVec VarType.int? h aPlayerList, message }

/-- `MessageTask::run`. -/
def MessageTask.run (task : MessageTask) : Call (GameInstance ι) Unit := do
  let ids ← Prog.ofExcept (playerIds task.playerList)
  let msg := (ExtTreeMap.insert ∅ "type" "message").insert "data" task.message
  task.playerHandler.queueMessage ids msg

/-- `class ScoresTask`. -/
structure ScoresTask where
  playerHandler : PartPtr
  playerNames : List String
  playerScores : List VarPtr
  attrName : String
  ownerId : Int32
  deriving DecidableEq

/-- The constructor. -/
def ScoresTask.new (playerHandler : PartPtr) (ownerId : Int32)
    (somePlayerNames someScores : List VarPtr) (attrName : String) (h : Heap) :
    Except (Fault Exn) ScoresTask := do
  return { playerHandler, playerNames := ← copyVec VarType.string? h somePlayerNames,
           playerScores := someScores, attrName, ownerId }

/-- The second `std::accumulate` of `ScoresTask::run`. -/
def ScoresTask.addScores (lib : TaskLib) (h : Heap) :
    ℕ → List VarPtr → GameMsgType → Except (Fault Exn) GameMsgType
  | _, [], msg => return msg
  | curr, scorePtr :: rest, msg => do
    let text ← VariableUtils.printVar lib.address h lib.stack "" scorePtr
    addScores lib h (curr + 1) rest (msg.insert ("score" ++ toString curr) text)

/-- `ScoresTask::run`. -/
def ScoresTask.run (lib : TaskLib) (task : ScoresTask) : Call (GameInstance ι) Unit := do
  let msg := ((ExtTreeMap.insert ∅ "type" "scores").insert "attr" task.attrName).insert "count"
    (toString task.playerNames.length)
  let msg := numbered (fun curr => "name" ++ toString curr) 0 task.playerNames msg
  let msg ← Prog.ofExcept (ScoresTask.addScores lib (← get).envMgr.heap 0 task.playerScores msg)
  task.playerHandler.queueMessage (stdToString task.ownerId) msg

/-- A `std::string_view` into the string of a storage, with what the string was when the view was
made. -/
structure NameView where
  storage : CellAddr
  text : String
  deriving DecidableEq

/-- What is read through a view. When the storage is gone, or its string has become another, the
characters need not be there any more. -/
def NameView.read (view : NameView) (h : Heap) : Except (Fault Exn) String :=
  if h.cell view.storage = .string view.text then .ok view.text else .error (.undefined .dangling)

/-- `class AssignmentTask`. -/
structure AssignmentTask where
  mgr : PartPtr
  name : NameView
  val : VarPtr
  deriving DecidableEq

/-- `AssignmentTask::run`. -/
def AssignmentTask.run (task : AssignmentTask) : Call (GameInstance ι) Unit :=
  match task.mgr with
  | .null => throw (.undefined .nullDeref)
  | .part => Prog.zoom GameInstance.envMgr GameInstance.setEnvMgr do
      let name ← Prog.ofExcept (task.name.read (← get).heap)
      setVariable name (.pointer task.val)

/-- The classes that derive from `RunnableTask`. -/
inductive RunnableTask where
  | reverse (task : ReverseTask)
  | shuffle (task : ShuffleTask)
  | extend (task : ExtendTask)
  | input (task : InputTask)
  | message (task : MessageTask)
  | scores (task : ScoresTask)
  | assignment (task : AssignmentTask)
  deriving DecidableEq

/-- `RunnableTask::run`. -/
def RunnableTask.run (lib : TaskLib) : RunnableTask → Call (GameInstance ι) Unit
  | reverse task => task.run
  | shuffle task => task.run lib
  | extend task => task.run
  | input task => task.run
  | message task => task.run
  | scores task => task.run lib
  | assignment task => task.run

/-! ### Factories -/

/-- `checkPreconditions`. -/
def checkPreconditions (sizeMin sizeMax : ℕ) (sizeErrorMsg : String) (vars : List VarPtr) :
    Except (Fault Exn) Bool :=
  if sizeMin > vars.length ∨ sizeMax < vars.length then
    .error (.thrown (.badVariableArg sizeErrorMsg))
  else if ¬ vars.all Option.isSome then
    .error (.thrown (.badVariableArg "nullptr passed to TaskFactory"))
  else .ok true

/-- `checkPreconditions` with a pointer to the player handler. -/
def checkPreconditionsHandler (sizeMin sizeMax : ℕ) (sizeErrorMsg : String) (vars : List VarPtr)
    (pHndlr : PartPtr) : Except (Fault Exn) Bool :=
  if pHndlr = .null then
    .error (.thrown (.badVariableArg "Expected player Handler to be not null"))
  else checkPreconditions sizeMin sizeMax sizeErrorMsg vars

/-- `checkPreconditions` with a pointer to the environment. -/
def checkPreconditionsManager (sizeMin sizeMax : ℕ) (sizeErrorMsg : String) (vars : List VarPtr)
    (eMgr : PartPtr) : Except (Fault Exn) Bool :=
  if eMgr = .null then
    .error (.thrown (.badVariableArg "Expected environment Manager to be not null"))
  else checkPreconditions sizeMin sizeMax sizeErrorMsg vars

/-- `*vars.at(i)`. -/
def varsAt (vars : List VarPtr) (i : ℕ) : Except (Fault Exn) VarAddr :=
  match vars[i]? with
  | none => .error (.thrown .outOfRange)
  | some none => .error (.undefined .nullDeref)
  | some (some p) => .ok p

/-- `DefaultFactory<ReverseTask>::create`. -/
def ReverseFactory.create (vars : List VarPtr) (h : Heap) : Except (Fault Exn) RunnableTask := do
  if vars.length ≠ 1 then throw (.thrown (.badVariableArg "Expected a single argument"))
  return .reverse (.new (← varsAt vars 0) h)

/-- `DefaultFactory<ShuffleTask>::create`. -/
def ShuffleFactory.create (vars : List VarPtr) (h : Heap) : Except (Fault Exn) RunnableTask := do
  if vars.length ≠ 1 then throw (.thrown (.badVariableArg "Expected a single argument"))
  return .shuffle (.new (← varsAt vars 0) h)

/-- `DefaultFactory<ExtendTask>::create`. -/
def ExtendFactory.create (vars : List VarPtr) (h : Heap) : Except (Fault Exn) RunnableTask := do
  let _ ← checkPreconditions 2 2 "Expected two Variable arguments" vars
  let list ← varsAt vars 0
  let elems ← varsAt vars 1
  match (h.value list).list?, (h.value elems).list? with
  | some _, some addElems => return .extend (.new list addElems h)
  | _, _ => throw (.thrown (.badVariableArg "Expected two listObjs"))

/-- The `switch` of `DefaultFactory<InputTask>::create`. -/
def InputFactory.make (playerHandler : PartPtr) (vars : List VarPtr) (playerList : List VarPtr)
    (prompt type : String) (h : Heap) : Except (Fault Exn) RunnableTask := do
  if vars.length = 4 then
    let some choices := (h.value (← varsAt vars (vars.length - 1))).list?
      | throw (.thrown (.badVariableArg "Expected listObj, str, str, listObj"))
    return .input (← InputTask.newChoices playerList prompt type playerHandler choices h)
  else if vars.length = 5 then
    let some start := (h.value (← varsAt vars (vars.length - 2))).int?
      | throw (.thrown (.badVariableArg "Expected listObj, str, str, listObj"))
    let some stop := (h.value (← varsAt vars (vars.length - 1))).int?
      | throw (.thrown (.badVariableArg "Expected listObj, str, str, listObj"))
    return .input (← InputTask.newRange playerList prompt type playerHandler start stop h)
  else return .input (← InputTask.new playerList prompt type playerHandler h)

/-- `DefaultFactory<InputTask>::create`. -/
def InputFactory.create (playerHandler : PartPtr) (vars : List VarPtr) (h : Heap) :
    Except (Fault Exn) RunnableTask := do
  let _ ← checkPreconditionsHandler 3 5 "Expected between 3 and 5 Variable arguments" vars
    playerHandler
  match (h.value (← varsAt vars 0)).list?, (h.value (← varsAt vars 1)).string?,
    (h.value (← varsAt vars 2)).string? with
  | some playerList, some prompt, some type =>
    InputFactory.make playerHandler vars playerList prompt type h
  | _, _, _ => throw (.thrown (.badVariableArg "Expected listObj, str, str"))

/-- `DefaultFactory<MessageTask>::create`. -/
def MessageFactory.create (playerHandler : PartPtr) (vars : List VarPtr) (h : Heap) :
    Except (Fault Exn) RunnableTask := do
  let _ ← checkPreconditionsHandler 2 2 "Expected two Variable arguments" vars playerHandler
  match (h.value (← varsAt vars 0)).list?, (h.value (← varsAt vars 1)).string? with
  | some list, some addElems => return .message (← MessageTask.new playerHandler list addElems h)
  | _, _ => throw (.thrown (.badVariableArg "Expected two listObjs"))

/-- `DefaultFactory<ScoresTask>::create`. -/
def ScoresFactory.create (playerHandler : PartPtr) (vars : List VarPtr) (h : Heap) :
    Except (Fault Exn) RunnableTask := do
  let _ ← checkPreconditionsHandler 4 4 "Expected four Variable arguments" vars playerHandler
  match (h.value (← varsAt vars 0)).int?, (h.value (← varsAt vars 1)).list?,
    (h.value (← varsAt vars 2)).list?, (h.value (← varsAt vars 3)).string? with
  | some ownerId, some nameList, some scoreList, some attrName =>
    return .scores (← ScoresTask.new playerHandler ownerId nameList scoreList attrName h)
  | _, _, _, _ => throw (.thrown (.badVariableArg "Expected listObj, listObj, int, string"))

/-- `DefaultFactory<AssignmentTask>::create`. -/
def AssignmentFactory.create (envMgr : PartPtr) (vars : List VarPtr) (h : Heap) :
    Except (Fault Exn) RunnableTask := do
  let _ ← checkPreconditionsManager 2 2 "Expected two Variable arguments" vars envMgr
  let nameVar ← varsAt vars 0
  match (h.value nameVar).string? with
  | some name =>
    return .assignment
      { mgr := envMgr, name := { storage := h.storage nameVar, text := name },
        val := ← varsAt vars 1 }
  | none => throw (.thrown (.badVariableArg "Expected string, Variable"))

/-- The classes that derive from `TaskFactory`, with the pointers they are made with. -/
inductive TaskFactory where
  | reverse
  | shuffle
  | extend
  | input (playerHandler : PartPtr)
  | message (playerHandler : PartPtr)
  | scores (playerHandler : PartPtr)
  | assignment (envMgr : PartPtr)
  deriving DecidableEq, Repr

/-- `TaskFactory::create`. -/
def TaskFactory.create (vars : List VarPtr) (h : Heap) :
    TaskFactory → Except (Fault Exn) RunnableTask
  | reverse => ReverseFactory.create vars h
  | shuffle => ShuffleFactory.create vars h
  | extend => ExtendFactory.create vars h
  | input playerHandler => InputFactory.create playerHandler vars h
  | message playerHandler => MessageFactory.create playerHandler vars h
  | scores playerHandler => ScoresFactory.create playerHandler vars h
  | assignment envMgr => AssignmentFactory.create envMgr vars h

end SocialGaming
