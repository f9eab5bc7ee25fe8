import SocialGaming.SourceExpression

/-!
# The layout of expressions

The grammar does not name the operator of a binary expression, so `parseExpression` looks for it in
the text: one character after the left operand. Whether that is the operator depends on how the
expression is laid out, at every binary node of it.

An expression is laid out by its white space. What the parser emits for it is compared with what it
emits for the same expression with single spaces, which is the operator before its operands.

## Main definitions

* `LaidOut` — an expression over the binary operators, with its white space
* `LaidOut.Represents` — a syntax node is that of the expression
* `LaidOut.ReadRight` — the layouts that are read

## Main results

* `parseExpression_layout_iff` — the parser emits the tokens of the single-spaced expression
  exactly for these layouts
-/

namespace SocialGaming

/-- The binary operators. -/
inductive BinaryOp where
  | equals
  | plus
  | or
  deriving DecidableEq, Repr

/-- The operator in the source. -/
def BinaryOp.chars : BinaryOp → List Char
  | equals => ['=']
  | plus => ['+']
  | or => ['|', '|']

/-- Its first character, which is the token it becomes. -/
def BinaryOp.first : BinaryOp → Char
  | equals => '='
  | plus => '+'
  | or => '|'

/-- White space, or none. -/
abbrev Blank : Type := {chars : List Char // ∀ c ∈ chars, isSpace c}

/-- This many spaces. -/
def Blank.spaces (count : ℕ) : Blank :=
  ⟨List.replicate count ' ', fun c hc => by rw [List.eq_of_mem_replicate hc, isSpace]; simp⟩

/-- A single space. -/
def Blank.single : Blank := Blank.spaces 1

/-- No white space. -/
def Blank.none : Blank := Blank.spaces 0

/-- An expression over the binary operators as it is laid out in the source. Its operands are
expressions of other kinds, with their text. -/
inductive LaidOut where
  | operand (e : SourceExpr) (text : List Char)
  | binary (operator : BinaryOp) (before after : Blank) (lhs rhs : LaidOut)

namespace LaidOut

/-- The text of the expression. -/
def text : LaidOut → List Char
  | operand _ text => text
  | binary operator before after lhs rhs =>
    lhs.text ++ (before.val ++ (operator.chars ++ (after.val ++ rhs.text)))

/-- The tokens of the expression, which do not depend on its layout. -/
def tokens : LaidOut → List String
  | operand e _ => e.tokens
  | binary operator _ _ lhs rhs =>
    String.singleton operator.first :: (lhs.tokens ++ rhs.tokens)

/-- The same expression with single spaces. -/
def singleSpaced : LaidOut → LaidOut
  | operand e text => operand e text
  | binary operator _ _ lhs rhs =>
    binary operator .single .single lhs.singleSpaced rhs.singleSpaced

/-- The syntax node is that of the expression. A binary node spans from its left operand to its
right one. -/
def Represents : LaidOut → SyntaxNode → Prop
  | operand e text, node => e.Represents node ∧ node.sourceRange = text
  | binary operator before after lhs rhs, node => node.type ≠ "expression_list" ∧
      node.getChildByFieldName "builtin" = none ∧ node.getChildByFieldName "operand" = none ∧
      node.sourceRange = (binary operator before after lhs rhs).text ∧
      ∃ lhsNode rhsNode, node.getChildByFieldName "lhs" = some lhsNode ∧
        node.getChildByFieldName "rhs" = some rhsNode ∧
        lhs.Represents lhsNode ∧ rhs.Represents rhsNode

/-- The layouts that are read: before each operator there is one character of white space, or there
is none and what follows the first character of the operator is that character again. So it is
within a `||`, and otherwise only where the right operand starts with it. -/
def ReadRight : LaidOut → Prop
  | operand _ _ => True
  | binary operator before after lhs rhs =>
    (before.val.length = 1 ∨ before.val = [] ∧
      (operator = .or ∨ after.val = [] ∧ rhs.text.head? = some operator.first)) ∧
    lhs.ReadRight ∧ rhs.ReadRight

theorem Represents.sourceRange_eq {e : LaidOut} {node : SyntaxNode} (h : e.Represents node) :
    node.sourceRange = e.text := by
  cases e with
  | operand e text => exact h.2
  | binary operator before after lhs rhs => exact h.2.2.2.1

/-! ### The expression with single spaces -/

@[simp] theorem tokens_singleSpaced (e : LaidOut) : e.singleSpaced.tokens = e.tokens := by
  induction e with
  | operand e text => rfl
  | binary operator before after lhs rhs ihl ihr => rw [singleSpaced, tokens, tokens, ihl, ihr]

theorem readRight_singleSpaced (e : LaidOut) : e.singleSpaced.ReadRight := by
  induction e with
  | operand e text => trivial
  | binary operator before after lhs rhs ihl ihr => exact ⟨Or.inl rfl, ihl, ihr⟩

end LaidOut

/-! ### The operator that is read -/

theorem BinaryOp.not_isSpace_first (operator : BinaryOp) : ¬ isSpace operator.first := by
  cases operator <;> decide

/-- The character that is read after a left operand is the operator exactly for these layouts. -/
theorem BinaryOp.read_iff (operator : BinaryOp) (before after : Blank) (rhs : List Char) :
    (before.val ++ (operator.chars ++ (after.val ++ rhs)))[1]? = some operator.first ↔
      before.val.length = 1 ∨ before.val = [] ∧
        (operator = .or ∨ after.val = [] ∧ rhs.head? = some operator.first) := by
  obtain ⟨before, hbefore⟩ := before
  obtain ⟨after, hafter⟩ := after
  have hspace := operator.not_isSpace_first
  match before with
  | [] =>
    have hread : (operator.chars ++ (after ++ rhs))[1]? = some operator.first ↔
        operator = .or ∨ (after ++ rhs).head? = some operator.first := by
      cases operator <;> simp [chars, first, List.head?_eq_getElem?]
    rw [List.nil_append, hread]
    cases after with
    | nil => simp
    | cons c after =>
      have hc : c ≠ operator.first := by
        rintro rfl
        exact hspace (hafter _ List.mem_cons_self)
      simp [hc]
  | [c] => cases operator <;> simp [chars, first]
  | c :: d :: before =>
    have hd : d ≠ operator.first := by
      rintro rfl
      exact hspace (hbefore _ (List.mem_cons_of_mem _ List.mem_cons_self))
    simp [hd]

theorem operatorOf_eq_ok_iff {node lhs : SyntaxNode} {rest : List Char}
    (h : node.sourceRange = lhs.sourceRange ++ rest) {operator : String} :
    operatorOf node lhs = .ok operator ↔
      ∃ c, rest[1]? = some c ∧ operator = String.singleton c := by
  have hread : node.sourceRange[lhs.sourceRange.length + 1]? = rest[1]? := by
    rw [h, List.getElem?_append_right (Nat.le_add_right _ _), Nat.add_sub_cancel_left]
  rw [operatorOf, hread]
  cases rest[1]? with
  | none => simp
  | some c => simp [eq_comm]

/-! ### Parsing -/

/-- Whatever the layout, as many tokens are emitted. -/
theorem LaidOut.length_of_parseExpression {e : LaidOut} {node : SyntaxNode} {depth : ℕ}
    (h : e.Represents node) (hd : node.height ≤ depth) {tokens : List String}
    (hrun : parseExpression.go depth (some node) = .ok tokens) :
    tokens.length = e.tokens.length := by
  induction e generalizing node depth tokens with
  | operand e text =>
    rw [e.parseExpression_go h.1 hd] at hrun
    rw [← Except.ok.inj hrun, LaidOut.tokens]
  | binary operator before after lhs rhs ihl ihr =>
    obtain ⟨htype, hbuiltin, hoperand, -, lhsNode, rhsNode, hlhs, hrhs, hleft, hright⟩ := h
    have hltl := SyntaxNode.height_lt_of_getChildByFieldName hlhs
    have hltr := SyntaxNode.height_lt_of_getChildByFieldName hrhs
    obtain ⟨depth, rfl⟩ : ∃ d, depth = d + 1 := ⟨depth - 1, by omega⟩
    obtain ⟨_, left, right, -, hl, hr, rfl⟩ :=
      (parseExpression_go_binary_iff htype hbuiltin hoperand hlhs hrhs).mp hrun
    rw [LaidOut.tokens, List.length_cons, List.length_cons, List.length_append, List.length_append,
      ihl hleft (by omega) hl, ihr hright (by omega) hr]

/-- The tokens come out right exactly if at every binary node the operator does. -/
theorem LaidOut.parseExpression_go_iff {e : LaidOut} {node : SyntaxNode} {depth : ℕ}
    (h : e.Represents node) (hd : node.height ≤ depth) :
    parseExpression.go depth (some node) = .ok e.tokens ↔ e.ReadRight := by
  induction e generalizing node depth with
  | operand e text => exact iff_of_true (e.parseExpression_go h.1 hd) trivial
  | binary operator before after lhs rhs ihl ihr =>
    obtain ⟨htype, hbuiltin, hoperand, hrange, lhsNode, rhsNode, hlhs, hrhs, hleft, hright⟩ := h
    have hltl := SyntaxNode.height_lt_of_getChildByFieldName hlhs
    have hltr := SyntaxNode.height_lt_of_getChildByFieldName hrhs
    obtain ⟨depth, rfl⟩ : ∃ d, depth = d + 1 := ⟨depth - 1, by omega⟩
    have hspan : node.sourceRange = lhsNode.sourceRange ++
        (before.val ++ (operator.chars ++ (after.val ++ rhs.text))) := by
      rw [hrange, hleft.sourceRange_eq, LaidOut.text]
    rw [parseExpression_go_binary_iff htype hbuiltin hoperand hlhs hrhs, LaidOut.ReadRight,
      ← operator.read_iff, ← ihl hleft (Nat.le_of_lt_succ (hltl.trans_le hd)),
      ← ihr hright (Nat.le_of_lt_succ (hltr.trans_le hd))]
    constructor
    · rintro ⟨token, left, right, hop, hl, hr, htokens⟩
      obtain ⟨c, hc, rfl⟩ := (operatorOf_eq_ok_iff hspan).mp hop
      rw [LaidOut.tokens, List.cons.injEq] at htokens
      have hlen : lhs.tokens.length = left.length :=
        (LaidOut.length_of_parseExpression hleft (by omega) hl).symm
      obtain ⟨rfl, rfl⟩ := List.append_inj htokens.2 hlen
      have hfirst : operator.first = c := String.singleton_inj.mp htokens.1
      exact ⟨hfirst ▸ hc, hl, hr⟩
    · rintro ⟨hc, hl, hr⟩
      exact ⟨_, _, _, (operatorOf_eq_ok_iff hspan).mpr ⟨_, hc, rfl⟩, hl, hr, rfl⟩

/-- **The layout of expressions.** Take any expression over the binary operators, laid out with any
white space, and the same expression with single spaces. For that one the parser emits each operator
before its operands. It emits the same for the other exactly if before each operator there is one
character of white space, or none where the operator's first character comes twice. -/
theorem parseExpression_layout_iff {e : LaidOut} {node spaced : SyntaxNode}
    (h : e.Represents node) (hspaced : e.singleSpaced.Represents spaced) :
    parseExpression (some spaced) = .ok e.tokens ∧
      (parseExpression (some node) = parseExpression (some spaced) ↔ e.ReadRight) := by
  have hsingle : parseExpression (some spaced) = .ok e.tokens := by
    rw [← e.tokens_singleSpaced]
    exact (LaidOut.parseExpression_go_iff hspaced (Nat.le_succ _)).mpr e.readRight_singleSpaced
  refine ⟨hsingle, ?_⟩
  rw [hsingle]
  exact LaidOut.parseExpression_go_iff h (Nat.le_succ _)

/-- An operand that is a name. -/
def LaidOut.name (x : String) : LaidOut := .operand (.leaf x) x.toList

/-- The syntax node of a binary expression of two names. -/
def binaryNode (text lhs rhs : String) : SyntaxNode :=
  .mk "binary" text.toList none true [leafNode lhs "lhs", leafNode rhs "rhs"]

theorem LaidOut.represents_binaryNode (operator : BinaryOp) (before after : Blank) {text : String}
    (htext : text.toList
      = ['a'] ++ (before.val ++ (operator.chars ++ (after.val ++ ['b'])))) :
    (LaidOut.binary operator before after (.name "a") (.name "b")).Represents
      (binaryNode text "a" "b") :=
  ⟨by simp [binaryNode, SyntaxNode.type], rfl, rfl, htext, _, _, rfl, rfl,
    ⟨⟨by decide, rfl, rfl, rfl, rfl⟩, rfl⟩, ⟨by decide, rfl, rfl, rfl, rfl⟩, rfl⟩

/-- `a||b` is read. -/
theorem parseExpression_layout_iff_or :
    parseExpression (some (binaryNode "a||b" "a" "b"))
      = parseExpression (some (binaryNode "a || b" "a" "b")) :=
  (parseExpression_layout_iff (LaidOut.represents_binaryNode .or .none .none rfl)
    (LaidOut.represents_binaryNode .or .single .single rfl)).2.mpr
      ⟨Or.inr ⟨rfl, Or.inl rfl⟩, trivial, trivial⟩

/-- In `a=b` the right operand is taken for the operator, and with two spaces before it the second
of them. -/
theorem parseExpression_layout_lost :
    (LaidOut.binary .equals .none .none (.name "a") (.name "b")).Represents
        (binaryNode "a=b" "a" "b") ∧
      (LaidOut.binary .equals (.spaces 2) .single (.name "a") (.name "b")).Represents
        (binaryNode "a  = b" "a" "b") ∧
      (LaidOut.binary .equals .single .single (.name "a") (.name "b")).Represents
        (binaryNode "a = b" "a" "b") ∧
      parseExpression (some (binaryNode "a=b" "a" "b")) = .ok ["b", "a", "b"] ∧
      parseExpression (some (binaryNode "a  = b" "a" "b")) = .ok [" ", "a", "b"] ∧
      parseExpression (some (binaryNode "a = b" "a" "b")) = .ok ["=", "a", "b"] :=
  ⟨LaidOut.represents_binaryNode .equals .none .none rfl,
    LaidOut.represents_binaryNode .equals (.spaces 2) .single rfl,
    LaidOut.represents_binaryNode .equals .single .single rfl, rfl, rfl, rfl⟩

end SocialGaming
