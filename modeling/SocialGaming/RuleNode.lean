import SocialGaming.Variables

/-!
# Rule nodes

The nodes a game's rules are parsed into. `RuleNode` is a base class with two subclasses: a
`TaskRuleNode` has no children, a `ControlFlowRuleNode` has a list of guarded ones.

Nodes are linked by pointers and compared by address, so the type of addresses is a parameter `ι`
and the nodes live in a table `nodes : ι → RuleNode ι`. A `shared_ptr<RuleNode>` is an `Option ι`.

## Main definitions

* `NodeType`, `RuleNode`, `ChildNode`
* `RuleNode.getChildWithKey` — the child under a guard
-/

namespace SocialGaming

/-- `enum NodeType`. -/
inductive NodeType where
  | forLoop
  | parallel
  | matchRule
  | extend
  | discard
  | shuffle
  | sort
  | deal
  | inputChoice
  | message
  | scores
  | assignment
  | reverse
  deriving DecidableEq, Repr

/-- The node types whose scope iterates. -/
def NodeType.isLoop : NodeType → Bool
  | .forLoop => true
  | .parallel => true
  | _ => false

/-- `struct ChildNode`. -/
structure ChildNode (ι : Type) where
  key : List String := []
  child : Option ι := none
  deriving DecidableEq

/-- `RuleNode`. `children` is none for a `TaskRuleNode`. -/
structure RuleNode (ι : Type) where
  list : List (List String)
  type : NodeType
  nextNode : Option ι := none
  parentNode : Option ι := none
  children : Option (List (ChildNode ι)) := none
  deriving DecidableEq

namespace RuleNode

variable {ι : Type}

/-- `RuleNode::isControlFlow`. -/
def isControlFlow (node : RuleNode ι) : Bool := node.children.isSome

/-- `RuleNode::getBody`. -/
def getBody (node : RuleNode ι) : List (ChildNode ι) := node.children.getD []

/-- `RuleNode::getChildWithKey`: the first child with the guard. A control-flow node without one
dereferences the end of an empty view; a task node answers with an empty child. -/
def getChildWithKey (node : RuleNode ι) (key : List String) : Except (Fault Exn) (ChildNode ι) :=
  match node.children with
  | none => .ok {}
  | some children =>
    match children.find? fun child => child.key = key with
    | some child => .ok child
    | none => .error (.undefined .pastEnd)

end RuleNode

end SocialGaming
