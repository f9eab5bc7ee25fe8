import SocialGaming.SyntaxTree
import SocialGaming.RuleNode

/-!
# The rule interpreter

The parser that turns the syntax tree of a game's rules into a tree of rule nodes, linked by
pointers, and the function that prints it.

## Design

Rule nodes are made in a store, a list in which the address of a node is its position. Appending to
an `expressionList` that is passed by reference is returning what is appended.

The rules of a body are parsed by `parseRule`, which calls back into `parseControlBody` for the
bodies inside them. The callers take that function as an argument, and it is tied to itself with a
bound on the depth, which the height of the syntax tree exceeds.

## Main definitions

* `parseExpression` — the tokens of an expression
* `parseTask`, `parseForRule`, `parseMatchRule`, `parseRule`, `parseControlBody`, `parseRules`
* `printRuleTreeRecursively` — what is printed of a tree, as a list of the nodes and their depths
-/

namespace SocialGaming

/-- A call of the parser, on the rule nodes made so far. It throws C strings. -/
abbrev Parse (α : Type) : Type := Prog String (List (RuleNode ℕ)) α

/-- `taskRules`. -/
def taskRules : List (String × NodeType) :=
  [("extend", .extend), ("discard", .discard), ("shuffle", .shuffle), ("sort", .sort),
    ("deal", .deal), ("input_choice", .inputChoice), ("message", .message), ("scores", .scores),
    ("assignment", .assignment), ("reverse", .reverse)]

/-! ### Expressions -/

/-- The character after the left operand and a space, which is taken for the operator. -/
def operatorOf (node lhs : SyntaxNode) : Except (Fault String) String :=
  match node.sourceRange[lhs.sourceRange.length + 1]? with
  | some operatorValue => .ok (String.singleton operatorValue)
  | none => .error (.undefined .pastEnd)

/-- `parseExpression`: the tokens it appends. -/
def parseExpression (node : Option SyntaxNode) : Except (Fault String) (List String) :=
  go ((node.map SyntaxNode.height).getD 0 + 1) node
where
  /-- `parseExpression`, to a depth. -/
  go : ℕ → Option SyntaxNode → Except (Fault String) (List String)
    | 0, _ => .error .diverged
    | depth + 1, node => do
      let node ← deref node
      if node.type = "expression_list" then
        return (← node.namedChildren.mapM fun child => go depth (some child)).flatten
      else if let some builtin := node.getChildByFieldName "builtin" then
        let receiver ← deref (node.getNamedChild 0)
        let call ← deref (node.getNamedChild 2)
        let arguments ← (if call.getNumNamedChildren ≠ 0 then
            go depth (call.getChildByFieldName "arguments")
          else .ok [])
        return receiver.text :: builtin.text :: arguments
      else if let some operand := node.getChildByFieldName "operand" then
        return "!" :: (← go depth (some operand))
      else if let some lhs := node.getChildByFieldName "lhs" then
        let operator ← operatorOf node lhs
        let left ← go depth (some lhs)
        let right ← go depth (node.getChildByFieldName "rhs")
        return operator :: (left ++ right)
      else return [if node.text = "all" then "players" else node.text]

/-! ### The store of rule nodes -/

/-- `new TaskRuleNode(list, type)` and `new ControlFlowRuleNode(list, type)`. -/
def newNode (node : RuleNode ℕ) : Parse ℕ := do
  let made ← get
  set (made ++ [node])
  return made.length

/-- Change a node. -/
def modifyNode (node : ℕ) (f : RuleNode ℕ → RuleNode ℕ) : Parse Unit :=
  modify fun made => made.modify node f

/-- `RuleNode::setParentNode`. -/
def setParentNode (node : ℕ) (parent : Option ℕ) : Parse Unit :=
  modifyNode node fun n => { n with parentNode := parent }

/-- `RuleNode::setNextNode`. -/
def setNextNode (node next : ℕ) : Parse Unit :=
  modifyNode node fun n => { n with nextNode := some next }

/-- `ControlFlowRuleNode::setChildren`. -/
def setChildren (node : ℕ) (guard : List String) (childNode : Option ℕ) : Parse Unit :=
  modifyNode node fun n =>
    { n with children := n.children.map (· ++ [{ key := guard, child := childNode }]) }

/-! ### Rules -/

/-- Change the first token. There is none to change in an empty list. -/
def mapFirst (f : String → String) : List String → Except (Fault String) (List String)
  | [] => .error (.undefined .pastEnd)
  | token :: rest => .ok (f token :: rest)

/-- The tokens of the expressions `0, …, count - 1` of a task. -/
def parseExpressions (ruleNode : SyntaxNode) (count : ℕ) :
    Except (Fault String) (List (List String)) :=
  (List.range count).mapM fun i => parseExpression (ruleNode.getNamedChild i)

/-- The `list` of `parseTask`, after its first entry. -/
def taskExpressions (ruleNode : SyntaxNode) :
    NodeType → Except (Fault String) (List (List String))
  | .sort | .deal | .message => parseExpressions ruleNode 2
  | .scores => parseExpressions ruleNode 1
  | .assignment => do
    let target ← mapFirst (fun token => "\"" ++ token ++ "\"")
      (← parseExpression (ruleNode.getNamedChild 0))
    let value ← parseExpression (ruleNode.getNamedChild 1)
    return [target, value]
  | .inputChoice => do
    let player ← mapFirst (fun token => token ++ ".id")
      (← parseExpression (ruleNode.getNamedChild 0))
    let prompt ← parseExpression (ruleNode.getNamedChild 1)
    let choices ← parseExpression (ruleNode.getNamedChild 2)
    let target ← mapFirst (fun token => "\"" ++ token ++ "\"")
      (← parseExpression (ruleNode.getNamedChild 3))
    let timeout ← parseExpression (ruleNode.getNamedChild 4)
    return [player, prompt, choices, target, timeout]
  | _ => return []

/-- The type and the `list` of the node that `parseTask` makes. -/
def taskData (ruleNode : SyntaxNode) : Except (Fault String) (NodeType × List (List String)) := do
  match taskRules.lookup ruleNode.type with
  | some type => return (type, [ruleNode.type] :: (← taskExpressions ruleNode type))
  | none => throw (.undefined .pastEnd)

/-- `parseTask`. -/
def parseTask (node : SyntaxNode) : Parse ℕ := do
  let ruleNode ← Prog.ofExcept (deref (node.getNamedChild 0))
  let (type, list) ← Prog.ofExcept (taskData ruleNode)
  newNode { list, type }

section Bodies

variable (parseControlBody : Option SyntaxNode → Option ℕ → Parse (Option ℕ))

/-- `parseForRule`. -/
def parseForRule (node : SyntaxNode) (type : NodeType) : Parse ℕ := do
  let forRule ← Prog.ofExcept (deref (node.getNamedChild 0))
  let element ← Prog.ofExcept (parseExpression (forRule.getChildByFieldName "element"))
  let list ← Prog.ofExcept (parseExpression (forRule.getChildByFieldName "list"))
  let forNode ← newNode { list := [element, list], type, children := some [] }
  setChildren forNode ["true"]
    (← parseControlBody (forRule.getChildByFieldName "body") (some forNode))
  return forNode

/-- One entry of a match: its guard and its body. -/
def parseMatchEntry (matchNode : ℕ) (matchEntry : SyntaxNode) : Parse Unit := do
  let guard ← Prog.ofExcept (parseExpression (matchEntry.getChildByFieldName "guard"))
  setChildren matchNode guard
    (← parseControlBody (matchEntry.getChildByFieldName "body") (some matchNode))

/-- `parseMatchRule`. -/
def parseMatchRule (node : SyntaxNode) : Parse ℕ := do
  let matchRule ← Prog.ofExcept (deref (node.getNamedChild 0))
  let target ← Prog.ofExcept (parseExpression (matchRule.getChildByFieldName "target"))
  let matchNode ← newNode { list := [target], type := .matchRule, children := some [] }
  (matchRule.namedChildren.drop 1).forM (parseMatchEntry parseControlBody matchNode)
  return matchNode

/-- `parseRule`. -/
def parseRule (node : SyntaxNode) : Parse ℕ := do
  if node.type ≠ "rule" then throw (.thrown "parse rule passed non-rule")
  let rule ← Prog.ofExcept (deref (node.getNamedChild 0))
  if rule.type = "for" then parseForRule parseControlBody node .forLoop
  else if rule.type = "parallel_for" then parseForRule parseControlBody node .parallel
  else if rule.type = "match" then parseMatchRule parseControlBody node
  else parseTask node

/-- The body of the loop in `parseControlBody`, on the pair of `prevNode` and `firstNode`. -/
def parseControlBodyStep (parent : Option ℕ) (acc : Option ℕ × Option ℕ) (child : SyntaxNode) :
    Parse (Option ℕ × Option ℕ) := do
  if child.type = "comment" then return acc
  let node ← parseRule parseControlBody child
  setParentNode node parent
  match acc.1 with
  | some prevNode =>
    setNextNode prevNode node
    return (some node, acc.2)
  | none => return (some node, some node)

end Bodies

/-- `parseControlBody`, for bodies nested to a depth. -/
def parseControlBody : ℕ → Option SyntaxNode → Option ℕ → Parse (Option ℕ)
  | 0, _, _ => throw .diverged
  | depth + 1, bodyNode, parent => do
    let bodyNode ← Prog.ofExcept (deref bodyNode)
    let (_, firstNode) ← bodyNode.namedChildren.foldlM
      (parseControlBodyStep (parseControlBody depth) parent) (none, none)
    return firstNode

/-- `parseRules`: the first node of the tree. -/
def parseRules (node : SyntaxNode) : Parse (Option ℕ) :=
  parseControlBody node.height (node.getChildByFieldName "body") none

/-! ### Printing -/

/-- `printRuleTreeRecursively`, for trees of a size: the nodes it prints, with the depth each is
printed at. A child is followed without asking whether it is null; the next node is not. -/
def printRuleTreeRecursively {ι : Type} (nodes : ι → RuleNode ι) :
    ℕ → Option ι → ℕ → Except (Fault String) (List (ι × ℕ))
  | 0, _, _ => .error .diverged
  | size + 1, node, depth => do
    let node ← deref node
    let children ← (if (nodes node).isControlFlow then
        (nodes node).getBody.mapM fun child =>
          printRuleTreeRecursively nodes size child.child (depth + 1)
      else .ok [])
    let next ← (if (nodes node).nextNode.isSome then
        printRuleTreeRecursively nodes size (nodes node).nextNode depth
      else .ok [])
    return (node, depth) :: (children.flatten ++ next)

end SocialGaming
