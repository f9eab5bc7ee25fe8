import SocialGaming.EnvironmentMgr
import SocialGaming.Library.TokenStream

/-!
# The expression evaluator

`EnvironmentManager::evaluationExpression` reads an expression in prefix form from the tokens of a
rule's data. It has no tree: which tokens belong to an operand is decided by evaluating it, and the
iterator it is given by reference is where its caller goes on.

## Design

The order in which the two operands of `=` and `+` are evaluated is the compiler's choice, which is
a parameter: `rightFirst` says, at the tokens the operands start at, whether the call that gives the
right operand is made first. Each operand is taken out of its variant right after its call.

Every call moves the iterator on before it calls the evaluator again, so the number of tokens left
bounds the depth of the recursion.

## Main definitions

* `parseValue` — the value of a token that is not a variable
* `evaluateOperator`, `evaluateBuildIn`, `evaluationExpression`
-/

namespace SocialGaming

/-- A call with an iterator into the tokens of an expression. -/
abbrev Evaluate (α : Type) : Type := Prog Exn (List String) α

/-- `builtinTypes`. -/
inductive BuiltinType where
  | sizeType
  | contains
  | collect
  | upfrom
  deriving DecidableEq, Repr

/-- `operatorTypes`. -/
inductive OperatorType where
  | equals
  | negation
  | addition
  | or
  deriving DecidableEq, Repr

/-- `buildtinMap`. -/
def buildtinMap : List (String × BuiltinType) :=
  [("size", .sizeType), ("contains", .contains), ("collect", .collect), ("upfrom", .upfrom)]

/-- `operatorMap`. -/
def operatorMap : List (String × OperatorType) :=
  [("=", .equals), ("!", .negation), ("+", .addition), ("|", .or)]

/-! ### Values -/

/-- `std::get<int>`. -/
def VarType.getInt : VarType → Except (Fault Exn) Int32
  | .int n => .ok n
  | _ => .error (.thrown .badVariantAccess)

/-- `std::get<bool>`. -/
def VarType.getBool : VarType → Except (Fault Exn) Bool
  | .bool b => .ok b
  | _ => .error (.thrown .badVariantAccess)

/-- `std::get<std::string>`. -/
def VarType.getString : VarType → Except (Fault Exn) String
  | .string s => .ok s
  | _ => .error (.thrown .badVariantAccess)

/-- The sum of two ints is an int. -/
def SumFits (a b : Int32) : Prop :=
  Int32.minValue.toInt ≤ a.toInt + b.toInt ∧ a.toInt + b.toInt ≤ Int32.maxValue.toInt

instance (a b : Int32) : Decidable (SumFits a b) := inferInstanceAs (Decidable (_ ∧ _))

/-- Addition of ints. -/
def addInt (a b : Int32) : Except (Fault Exn) Int32 :=
  if SumFits a b then .ok (a + b) else .error (.undefined .signedOverflow)

/-- `std::stoi` of a string that starts with a digit. It throws when the number is no int. -/
def stoi? (expression : List Char) : Option Int32 :=
  let n := (expression.takeWhile Char.isDigit).foldl (fun n c => 10 * n + (c.toNat - 48)) 0
  if n ≤ Int32.maxValue.toInt.toNat then some (Int32.ofNat n) else none

section

variable {ι : Type} (heap : Heap) (scope : Scope ι)

/-- The branch of `parseValue` for a string. What is looked up is the text from the opening brace up
to the closing one. Without an opening brace, or with a variable and no closing one, `substr` starts
beyond the end and throws. -/
def substitute (expression : List Char) : Except (Fault Exn) VarType := do
  let some first := expression.idxOf? '\x7b' | throw (.thrown .outOfRange)
  let second := expression.idxOf? '\x7d'
  -- with `second` before `first`, or missing, the length wraps around
  let name := match second with
    | some second =>
      if first ≤ second then (expression.drop first).take (second - first)
      else expression.drop first
    | none => expression.drop first
  if name.isEmpty then return .string (String.ofList expression)
  let some stringVariable := scope.getVariable (String.ofList name)
    | throw (.undefined .nullDeref)
  let stringVar ← (heap.value stringVariable).getString
  let some second := second | throw (.thrown .outOfRange)
  return .string (String.ofList (expression.take first) ++ stringVar
    ++ String.ofList (expression.drop second))

/-- `EnvironmentManager::parseValue`. -/
def parseValue (expression : String) : Except (Fault Exn) VarType :=
  if expression = "true" then .ok (.bool true)
  else if expression = "false" then .ok (.bool false)
  else
    match expression.toList with
    | [] => .error (.undefined .pastEnd)
    | first :: rest =>
      if first = '"' then substitute heap scope (first :: rest)
      else if first.isDigit then
        match stoi? (first :: rest) with
        | some n => .ok (.int n)
        | none => .ok (.string expression)
      else .ok (.string expression)

end

/-! ### The evaluator -/

/-- The builtin after the current token. -/
def buildtinAt : List String → Option BuiltinType
  | _ :: next :: _ => buildtinMap.lookup next
  | _ => none

/-- The operator at the current token, which is not looked for at the last one. -/
def operatorAt : List String → Option OperatorType
  | token :: _ :: _ => operatorMap.lookup token
  | _ => none

section

variable {ι : Type} (s : Env ι) (scope : Scope ι) (rightFirst : List String → Bool)

/-- `EnvironmentManager::evaluateBuildIn`. -/
def evaluateBuildIn : BuiltinType → Evaluate VarType
  | .sizeType => do
    let some var := scope.getVariable (← Prog.current) | throw (.undefined .nullDeref)
    Prog.advance 2
    return .int (Int32.ofNat (VariableUtils.size (s.heap.value var)))
  | .contains => do
    Prog.advance 3
    return .bool true
  | .collect => do
    Prog.advance 5
    return .bool false
  | .upfrom => do
    Prog.advance 3
    return .bool false

/-- `EnvironmentManager::evaluateOperator`, which calls the evaluator back. -/
def evaluateOperator (evaluationExpression : Evaluate VarType) : OperatorType → Evaluate VarType
  | .equals => do
    Prog.advance 1
    let (left, right) ← Prog.operands evaluationExpression rightFirst
    return .bool (left = right)
  | .negation => do
    Prog.advance 1
    let operand ← Prog.ofExcept (← evaluationExpression).getBool
    return .bool (!operand)
  | .addition => do
    Prog.advance 1
    let operand : Evaluate Int32 := do Prog.ofExcept (← evaluationExpression).getInt
    let (left, right) ← Prog.operands operand rightFirst
    return .int (← Prog.ofExcept (addInt left right))
  | .or => do
    Prog.advance 1
    let left ← Prog.ofExcept (← evaluationExpression).getBool
    if left then return .bool true
    let right ← Prog.ofExcept (← evaluationExpression).getBool
    return .bool right

/-- The end of `evaluationExpression`: a single token. The scope that is found has the name, so the
branch of `parseValue` is not reached. -/
def evaluateToken : Evaluate VarType := do
  let token ← Prog.current
  let some owner := s.hasVar token | throw (.undefined .nullDeref)
  if owner.hasVar token then
    let var := scope.getVariable token
    Prog.advance 1
    let some var := var | throw (.undefined .nullDeref)
    return s.heap.value var
  else
    let var ← Prog.ofExcept (parseValue s.heap scope token)
    Prog.advance 1
    return var

/-- `EnvironmentManager::evaluationExpression`. -/
def evaluationExpression : Evaluate VarType := do
  go (← get).length
where
  /-- `evaluationExpression`, to a depth. At depth zero no token is left. -/
  go : ℕ → Evaluate VarType
    | 0 => throw (.undefined .pastEnd)
    | depth + 1 => do
      let expression ← get
      match buildtinAt expression with
      | some it => evaluateBuildIn s scope it
      | none =>
        match operatorAt expression with
        | some operatorIt => evaluateOperator rightFirst (go depth) operatorIt
        | none => evaluateToken s scope

end

end SocialGaming
