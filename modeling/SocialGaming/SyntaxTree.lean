import SocialGaming.Library.Outcome
import Mathlib.Data.List.Basic

/-!
# Syntax trees

What the rule interpreter sees of a syntax tree: the type of a node, the source text it covers, and
its children, by position among the named ones or by field name.

## Design

A parent holds each child under at most one field name, so the name is kept with the child, and so
is whether the child is a named one. A null `ts::Node` is `none`, and everything but `isNull` is
undefined on it. A node carries its source range as text, one character for each `char` of the
source.

## Main definitions

* `SyntaxNode`, `SyntaxNode.getNamedChild`, `SyntaxNode.getChildByFieldName`
* `SyntaxNode.height` — a bound for recursion into the tree
-/

namespace SocialGaming

/-- A non-null `ts::Node`, with the text of its `getSourceRange`. -/
inductive SyntaxNode where
  | mk (type : String) (sourceRange : List Char) (field : Option String) (named : Bool)
      (children : List SyntaxNode)

namespace SyntaxNode

/-- `getType`. -/
def type : SyntaxNode → String
  | mk type _ _ _ _ => type

/-- `getSourceRange`. -/
def sourceRange : SyntaxNode → List Char
  | mk _ sourceRange _ _ _ => sourceRange

/-- The field the parent holds the node under. -/
def field : SyntaxNode → Option String
  | mk _ _ field _ _ => field

/-- The node has a name in the grammar. -/
def named : SyntaxNode → Bool
  | mk _ _ _ named _ => named

/-- All children. -/
def children : SyntaxNode → List SyntaxNode
  | mk _ _ _ _ children => children

/-- `(std::string)node.getSourceRange(source)`. -/
def text (node : SyntaxNode) : String := String.ofList node.sourceRange

/-- The named children. -/
def namedChildren (node : SyntaxNode) : List SyntaxNode := node.children.filter named

/-- `getNumNamedChildren`. -/
def getNumNamedChildren (node : SyntaxNode) : ℕ := node.namedChildren.length

/-- `getNamedChild`. -/
def getNamedChild (node : SyntaxNode) (i : ℕ) : Option SyntaxNode := node.namedChildren[i]?

/-- `getChildByFieldName`. -/
def getChildByFieldName (node : SyntaxNode) (name : String) : Option SyntaxNode :=
  node.children.find? fun child => child.field = some name

mutual

/-- The number of levels of the tree. -/
def height : SyntaxNode → ℕ
  | mk _ _ _ _ children => heights children + 1

/-- The number of levels of the highest tree. -/
def heights : List SyntaxNode → ℕ
  | [] => 0
  | node :: nodes => max node.height (heights nodes)

end

theorem height_le_heights {node : SyntaxNode} {nodes : List SyntaxNode} (h : node ∈ nodes) :
    node.height ≤ heights nodes := by
  induction nodes with
  | nil => cases h
  | cons first rest ih =>
    rw [heights]
    rcases List.mem_cons.mp h with rfl | h
    · exact Nat.le_max_left _ _
    · exact Nat.le_trans (ih h) (Nat.le_max_right _ _)

theorem height_lt_of_mem {node child : SyntaxNode} (h : child ∈ node.children) :
    child.height < node.height := by
  obtain ⟨_, _, _, _, children⟩ := node
  rw [height]
  exact Nat.lt_succ_of_le (height_le_heights h)

theorem height_lt_of_mem_namedChildren {node child : SyntaxNode} (h : child ∈ node.namedChildren) :
    child.height < node.height :=
  height_lt_of_mem (List.mem_of_mem_filter h)

theorem height_lt_of_getNamedChild {node child : SyntaxNode} {i : ℕ}
    (h : node.getNamedChild i = some child) : child.height < node.height :=
  height_lt_of_mem_namedChildren (List.mem_of_getElem? h)

theorem height_lt_of_getChildByFieldName {node child : SyntaxNode} {name : String}
    (h : node.getChildByFieldName name = some child) : child.height < node.height :=
  height_lt_of_mem (List.mem_of_find?_eq_some h)

end SyntaxNode

/-- `std::isspace`. -/
def isSpace (c : Char) : Bool := c ∈ [' ', '\t', '\n', '\x0b', '\x0c', '\x0d']

/-- A leaf of a syntax tree. -/
def leafNode (text field : String) : SyntaxNode := .mk "identifier" text.toList (some field) true []

/-- A member function called on a `ts::Node`: undefined on a null one. -/
def deref {ε α : Type} : Option α → Except (Fault ε) α
  | some node => .ok node
  | none => .error (.undefined .nullDeref)

@[simp] theorem deref_some {ε α : Type} (node : α) :
    (deref (some node) : Except (Fault ε) α) = .ok node := rfl

@[simp] theorem deref_none {ε α : Type} :
    (deref none : Except (Fault ε) α) = .error (.undefined .nullDeref) := rfl

end SocialGaming
