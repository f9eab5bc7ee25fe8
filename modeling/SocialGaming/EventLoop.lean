import SocialGaming.Library.Outcome
import SocialGaming.Library.Patterns
import SocialGaming.SetupGameSetting

/-!
# The event loop

The program that runs the tasks of a game. It takes them from the game's queue in turn, and at a
task that waits for the server it goes on only when players have given enough input: for now that
comes from the console, a line at a time, and a line that is not understood is asked for again.

## Design

A round of the loop may process any number of tasks, which is 1 in the program. The console is a
list of lines, without their ends, and a process that waits for input when there are no more lines
waits forever.

## Main definitions

* `TaskType`, `Task`, `GameInstance`, `GameInstanceManager`, `Process` — the state
* `inputReg`, `parseInput` — what input is understood
* `processTasks`, `round`, `eventLoop` — the loop
-/

namespace SocialGaming

namespace EventLoop

/-! ### The state -/

/-- `enum TaskType`. -/
inductive TaskType where
  | controlFlow
  | executable
  | serverMsgWait
  | serverMsgContinue
  | serverDisplayMsg
  deriving DecidableEq, Repr

/-- The task is a message to the server. -/
def TaskType.isServerMsg : TaskType → Bool
  | serverMsgWait => true
  | serverMsgContinue => true
  | serverDisplayMsg => true
  | _ => false

/-- `class Task`. -/
structure Task where
  type : TaskType
  id : Int32
  deriving DecidableEq, Repr

/-- `class GameInstance`. -/
structure GameInstance where
  taskQ : List Task

namespace GameInstance

/-- `GameInstance(vector<Player>, int)`, which has its tasks in the code. -/
def new : GameInstance where
  taskQ := (List.range 10).map (fun i => { type := .executable, id := Int32.ofNat i })
    ++ (List.range 5).map (fun i => { type := .serverMsgContinue, id := Int32.ofNat (i + 10) })
    ++ [{ type := .serverMsgWait, id := 21 }, { type := .serverDisplayMsg, id := 22 }]

/-- `setPlayerVar`, whose statement is commented out. -/
def setPlayerVar (_id : Int32) (_key _val : List Char) (game : GameInstance) : GameInstance := game

end GameInstance

/-- `class GameInstanceManager`. -/
structure GameInstanceManager where
  game : GameInstance
  inputCount : Int32 := 0
  neededInputCount : Int32 := 5
  isInactive : Bool := false

/-- A line that is printed. -/
inductive Line where
  | poppingTask (id : Int32)
  | ranTask (id : Int32)
  | gameEnd
  | enterInput
  | malformedMessage
  deriving DecidableEq, Repr

/-- The process. -/
structure Process where
  manager : GameInstanceManager
  /-- The lines that are still to be read. -/
  stdin : List (List Char)
  stdout : List Line := []

/-- A call in the process. No exception leaves one. -/
abbrev Loop (α : Type) : Type := Prog Empty Process α

/-- `cout << line`. -/
def print (line : Line) : Loop Unit := modify fun s => { s with stdout := s.stdout ++ [line] }

/-- A call on the manager. -/
def onManager {α : Type} (x : Prog Empty GameInstanceManager α) : Loop α :=
  Prog.zoom Process.manager (fun manager s => { s with manager }) x

/-! ### Tasks -/

/-- `GameInstance::getTask`. -/
def getTask : Loop (Option Task) := do
  match (← get).manager.game.taskQ with
  | [] => pure none
  | task :: rest =>
    print (.poppingTask task.id)
    onManager (modify fun manager => { manager with game := { taskQ := rest } })
    pure (some task)

/-- `Task::run`. -/
def Task.run (task : Task) : Loop Unit := print (.ranTask task.id)

/-- `putGameInstanceInQueue`. -/
def putGameInstanceInQueue : Loop Unit :=
  onManager (modify fun manager => { manager with isInactive := false })

/-- `putGameInstanceInMap`. -/
def putGameInstanceInMap : Loop Unit :=
  onManager (modify fun manager => { manager with isInactive := true })

/-- What became of the tasks of a round. -/
structure Processed where
  exit : Bool := false
  dontPushActive : Bool := false

/-- The loop over the tasks of a round. -/
def processTasks : ℕ → Loop Processed
  | 0 => pure {}
  | i + 1 => do
    match ← getTask with
    | none =>
      print .gameEnd
      pure { exit := true }
    | some task =>
      if task.type.isServerMsg then
        if task.type = .serverMsgWait then
          putGameInstanceInMap
          onManager (modify fun manager => { manager with isInactive := true })
          pure { dontPushActive := true }
        else processTasks i
      else
        task.run
        processTasks i

/-! ### Input -/

/-- `GameInstanceManager::playerInput`. -/
def playerInput (id : Int32) (key input : List Char) : Prog Empty GameInstanceManager Unit := do
  if (← get).inputCount = Int32.maxValue then throw (.undefined .signedOverflow)
  modify fun manager => { manager with
    inputCount := manager.inputCount + 1
    game := manager.game.setPlayerVar id key input }
  if (← get).neededInputCount ≤ (← get).inputCount then
    modify fun manager => { manager with isInactive := false, inputCount := 0 }

/-- The symbols of a word. -/
def word (text : String) : List (Piece Char) := text.toList.map .symbol

/-- What a dot stands for. -/
def notLineEnd (c : Char) : Bool := c ≠ '\n' && c ≠ '\r'

/-- `player:([0-9]+) key:(.*) value:(.*)`. -/
def inputReg : List (Piece Char) :=
  word "player:" ++ [.group Char.isDigit 1] ++ word " key:" ++ [.group notLineEnd 0]
    ++ word " value:" ++ [.group notLineEnd 0]

/-- The player, the key and the value of an input. -/
def parseInput (input : List Char) : Option (Int32 × List Char × List Char) :=
  match search inputReg input with
  | some [id, key, value] => (stoi id).map fun id => (id, key, value)
  | _ => none

/-- The do-while loop around `getline`, with this many lines to come. -/
def getInput : List (List Char) → Loop (List Char)
  | [] => do
    -- at the end of the file the line is empty, and is asked for again, forever
    print .enterInput
    throw .diverged
  | line :: rest => do
    print .enterInput
    modify fun s => { s with stdin := rest }
    if line = [] then getInput rest else pure line

/-- What is done with an input. -/
def handleInput (input : List Char) : Loop Unit :=
  match parseInput input with
  | some (id, key, value) => onManager (playerInput id key value)
  | none => print .malformedMessage

/-! ### The loop -/

/-- The first part of a round: tasks are processed. It says whether the loop is left. -/
def processGame (maxProcessCount : ℕ) : Loop Bool := do
  if (← get).manager.isInactive then pure false
  else
    let processed ← processTasks maxProcessCount
    if processed.dontPushActive then pure processed.exit
    else
      putGameInstanceInQueue
      pure processed.exit

/-- A round. It says whether the loop is left. -/
def round (maxProcessCount : ℕ) : Loop Bool := do
  let exit ← processGame maxProcessCount
  if (← get).manager.isInactive && !exit then
    handleInput (← getInput (← get).stdin)
  pure exit

/-- The loop, of so many rounds at most. It says whether the loop was left. -/
def eventLoop (maxProcessCount : ℕ) : ℕ → Loop Bool
  | 0 => pure false
  | n + 1 => do
    if ← round maxProcessCount then pure true else eventLoop maxProcessCount n

/-- `main`, with so many rounds at most. -/
def main (rounds : ℕ) : Loop Bool := eventLoop 1 rounds

/-- The process when it is started. -/
def Process.new (taskQ : List Task) (stdin : List (List Char)) : Process where
  manager := { game := { taskQ } }
  stdin

end EventLoop

end SocialGaming
