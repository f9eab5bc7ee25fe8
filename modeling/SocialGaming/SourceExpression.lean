import SocialGaming.RuleInterpreter

/-!
# Expressions of the source

The expressions of a source, as trees, and the tokens `parseExpression` emits for them: the operator
before its operands, a builtin after its receiver, and arguments flattened without a mark of where
one ends. So the tokens are prefix notation except for the calls of builtins.

## Main definitions

* `SourceExpr`, `SourceExprs` — expressions, and lists of them
* `SourceExpr.Represents` — a syntax node is that of an expression
* `SourceExpr.tokens` — the tokens of an expression

## Main results

* `parseExpression_run` — the parser emits the tokens
-/

namespace SocialGaming

mutual

/-- An expression. -/
inductive SourceExpr where
  /-- A name or a literal, with the token it becomes. -/
  | leaf (token : String)
  /-- A call `receiver.builtin(arguments)`. -/
  | call (receiver builtin : String) (arguments : SourceExprs)
  /-- A negation. -/
  | neg (operand : SourceExpr)
  | binary (operator : String) (lhs rhs : SourceExpr)

/-- The arguments of a call. -/
inductive SourceExprs where
  | nil
  | cons (first : SourceExpr) (rest : SourceExprs)

end

/-- The arguments of the call are the named children of its `expression_list`. -/
def SyntaxNode.HasArguments (call : SyntaxNode) (arguments : List SyntaxNode) : Prop :=
  (call.getNumNamedChildren = 0 ∧ arguments = []) ∨
    call.getNumNamedChildren ≠ 0 ∧ ∃ list, call.getChildByFieldName "arguments" = some list ∧
      list.type = "expression_list" ∧ list.namedChildren = arguments

mutual

/-- The syntax node is that of the expression. -/
def SourceExpr.Represents : SourceExpr → SyntaxNode → Prop
  | .leaf token, node => node.type ≠ "expression_list" ∧
      node.getChildByFieldName "builtin" = none ∧ node.getChildByFieldName "operand" = none ∧
      node.getChildByFieldName "lhs" = none ∧
      token = if node.text = "all" then "players" else node.text
  | .call receiver builtin arguments, node => node.type ≠ "expression_list" ∧
      (∃ builtinNode, node.getChildByFieldName "builtin" = some builtinNode ∧
        builtinNode.text = builtin) ∧
      (∃ receiverNode, node.getNamedChild 0 = some receiverNode ∧
        receiverNode.text = receiver) ∧
      ∃ call nodes, node.getNamedChild 2 = some call ∧ call.HasArguments nodes ∧
        arguments.Represents nodes
  | .neg operand, node => node.type ≠ "expression_list" ∧
      node.getChildByFieldName "builtin" = none ∧
      ∃ operandNode, node.getChildByFieldName "operand" = some operandNode ∧
        operand.Represents operandNode
  | .binary operator lhs rhs, node => node.type ≠ "expression_list" ∧
      node.getChildByFieldName "builtin" = none ∧ node.getChildByFieldName "operand" = none ∧
      ∃ lhsNode rhsNode, node.getChildByFieldName "lhs" = some lhsNode ∧
        node.getChildByFieldName "rhs" = some rhsNode ∧ operatorOf node lhsNode = .ok operator ∧
        lhs.Represents lhsNode ∧ rhs.Represents rhsNode

/-- The syntax nodes are those of the arguments. -/
def SourceExprs.Represents : SourceExprs → List SyntaxNode → Prop
  | .nil, nodes => nodes = []
  | .cons first rest, nodes => ∃ node others, nodes = node :: others ∧ first.Represents node ∧
      rest.Represents others

end

mutual

/-- The tokens of an expression. -/
def SourceExpr.tokens : SourceExpr → List String
  | .leaf token => [token]
  | .call receiver builtin arguments => receiver :: builtin :: arguments.tokens
  | .neg operand => "!" :: operand.tokens
  | .binary operator lhs rhs => operator :: (lhs.tokens ++ rhs.tokens)

/-- The tokens of the arguments, one after the other. -/
def SourceExprs.tokens : SourceExprs → List String
  | .nil => []
  | .cons first rest => first.tokens ++ rest.tokens

end

/-! ### Parsing -/

theorem parseExpression_go_list {depth : ℕ} {node : SyntaxNode}
    (htype : node.type = "expression_list") {tokens : List (List String)}
    (h : node.namedChildren.mapM (fun child => parseExpression.go depth (some child))
      = .ok tokens) :
    parseExpression.go (depth + 1) (some node) = .ok tokens.flatten := by
  simp [parseExpression.go, htype, h, bind, Except.bind, pure, Except.pure]

theorem parseExpression_go_call {depth : ℕ} {node builtin receiver call : SyntaxNode}
    {arguments : List String} (htype : node.type ≠ "expression_list")
    (hbuiltin : node.getChildByFieldName "builtin" = some builtin)
    (hreceiver : node.getNamedChild 0 = some receiver) (hcall : node.getNamedChild 2 = some call)
    (h : (if call.getNumNamedChildren ≠ 0 then
        parseExpression.go depth (call.getChildByFieldName "arguments") else .ok [])
      = .ok arguments) :
    parseExpression.go (depth + 1) (some node)
      = .ok (receiver.text :: builtin.text :: arguments) := by
  simp only [parseExpression.go, deref_some, htype, hbuiltin, hreceiver, hcall, h, if_false, bind,
    Except.bind, pure, Except.pure]

theorem parseExpression_go_neg {depth : ℕ} {node operand : SyntaxNode} {tokens : List String}
    (htype : node.type ≠ "expression_list") (hbuiltin : node.getChildByFieldName "builtin" = none)
    (hoperand : node.getChildByFieldName "operand" = some operand)
    (h : parseExpression.go depth (some operand) = .ok tokens) :
    parseExpression.go (depth + 1) (some node) = .ok ("!" :: tokens) := by
  simp only [parseExpression.go, deref_some, htype, hbuiltin, hoperand, h, if_false, bind,
    Except.bind, pure, Except.pure]

/-- A binary node: its operator, and then the operands. -/
theorem parseExpression_go_binary_iff {depth : ℕ} {node lhs rhs : SyntaxNode}
    (htype : node.type ≠ "expression_list") (hbuiltin : node.getChildByFieldName "builtin" = none)
    (hoperand : node.getChildByFieldName "operand" = none)
    (hlhs : node.getChildByFieldName "lhs" = some lhs)
    (hrhs : node.getChildByFieldName "rhs" = some rhs) {tokens : List String} :
    parseExpression.go (depth + 1) (some node) = .ok tokens ↔
      ∃ operator left right, operatorOf node lhs = .ok operator ∧
        parseExpression.go depth (some lhs) = .ok left ∧
        parseExpression.go depth (some rhs) = .ok right ∧ tokens = operator :: (left ++ right) := by
  have hgo : parseExpression.go (depth + 1) (some node) = (do
      let operator ← operatorOf node lhs
      let left ← parseExpression.go depth (some lhs)
      let right ← parseExpression.go depth (some rhs)
      return operator :: (left ++ right)) := by
    simp only [parseExpression.go, deref_some, htype, hbuiltin, hoperand, hlhs, hrhs, if_false,
      bind, Except.bind, pure, Except.pure]
  rw [hgo]
  constructor
  · intro h
    obtain ⟨operator, hop, h⟩ := Prog.bind_eq_ok.mp h
    obtain ⟨left, hleft, h⟩ := Prog.bind_eq_ok.mp h
    obtain ⟨right, hright, h⟩ := Prog.bind_eq_ok.mp h
    exact ⟨operator, left, right, hop, hleft, hright, (Except.ok.inj h).symm⟩
  · rintro ⟨operator, left, right, hop, hleft, hright, rfl⟩
    rw [hop, hleft, hright]
    rfl

theorem parseExpression_go_leaf {depth : ℕ} {node : SyntaxNode}
    (htype : node.type ≠ "expression_list") (hbuiltin : node.getChildByFieldName "builtin" = none)
    (hoperand : node.getChildByFieldName "operand" = none)
    (hlhs : node.getChildByFieldName "lhs" = none) :
    parseExpression.go (depth + 1) (some node)
      = .ok [if node.text = "all" then "players" else node.text] := by
  simp only [parseExpression.go, deref_some, htype, hbuiltin, hoperand, hlhs, if_false, bind,
    Except.bind, pure, Except.pure]

theorem SyntaxNode.height_pos (node : SyntaxNode) : 0 < node.height := by
  obtain ⟨_, _, _, _, children⟩ := node
  exact Nat.succ_pos _

mutual

theorem SourceExpr.parseExpression_go (e : SourceExpr) {node : SyntaxNode} {depth : ℕ}
    (h : e.Represents node) (hd : node.height ≤ depth) :
    parseExpression.go depth (some node) = .ok e.tokens := by
  obtain ⟨depth, rfl⟩ := Nat.exists_eq_succ_of_ne_zero
    (Nat.ne_of_gt (node.height_pos.trans_le hd))
  cases e with
  | leaf token =>
    obtain ⟨htype, hbuiltin, hoperand, hlhs, rfl⟩ := h
    exact parseExpression_go_leaf htype hbuiltin hoperand hlhs
  | call receiver builtin arguments =>
    obtain ⟨htype, ⟨_, hbuiltin, rfl⟩, ⟨_, hreceiver, rfl⟩, call, nodes, hcall, hargs, hrep⟩ := h
    refine parseExpression_go_call htype hbuiltin hreceiver hcall ?_
    have hcalld := SyntaxNode.height_lt_of_getNamedChild hcall
    rcases hargs with ⟨hnone, rfl⟩ | ⟨hsome, list, hlist, hlisttype, rfl⟩
    · cases arguments with
      | nil => rw [if_neg (not_not.mpr hnone)]; rfl
      | cons first rest =>
        obtain ⟨_, _, hnil, -⟩ := hrep
        cases hnil
    · have hlistd := SyntaxNode.height_lt_of_getChildByFieldName hlist
      rw [if_pos hsome, hlist]
      obtain ⟨depth, rfl⟩ : ∃ d, depth = d + 1 := ⟨depth - 1, by omega⟩
      have hchildren : ∀ child ∈ list.namedChildren, child.height ≤ depth := by
        intro child hchild
        have := SyntaxNode.height_lt_of_mem_namedChildren hchild
        omega
      obtain ⟨tokens, hmap, hflat⟩ := arguments.parseExpression_go hrep hchildren
      rw [← hflat]
      exact parseExpression_go_list hlisttype hmap
  | neg operand =>
    obtain ⟨htype, hbuiltin, operandNode, hoperand, hrep⟩ := h
    have hlt := SyntaxNode.height_lt_of_getChildByFieldName hoperand
    exact parseExpression_go_neg htype hbuiltin hoperand
      (operand.parseExpression_go hrep (by omega))
  | binary operator lhs rhs =>
    obtain ⟨htype, hbuiltin, hoperand, lhsNode, rhsNode, hlhs, hrhs, hop, hleft, hright⟩ := h
    have hltl := SyntaxNode.height_lt_of_getChildByFieldName hlhs
    have hltr := SyntaxNode.height_lt_of_getChildByFieldName hrhs
    exact (parseExpression_go_binary_iff htype hbuiltin hoperand hlhs hrhs).mpr
      ⟨operator, _, _, hop, lhs.parseExpression_go hleft (by omega),
        rhs.parseExpression_go hright (by omega), rfl⟩

theorem SourceExprs.parseExpression_go (es : SourceExprs) {nodes : List SyntaxNode} {depth : ℕ}
    (h : es.Represents nodes) (hd : ∀ node ∈ nodes, node.height ≤ depth) :
    ∃ tokens, nodes.mapM (fun child => parseExpression.go depth (some child)) = .ok tokens ∧
      tokens.flatten = es.tokens := by
  cases es with
  | nil =>
    obtain rfl := h
    exact ⟨[], rfl, rfl⟩
  | cons first rest =>
    obtain ⟨node, others, rfl, hfirst, hrest⟩ := h
    rw [List.forall_mem_cons] at hd
    have hhead := first.parseExpression_go hfirst hd.1
    obtain ⟨tokens, hmap, hflat⟩ := rest.parseExpression_go hrest hd.2
    refine ⟨first.tokens :: tokens, ?_, ?_⟩
    · rw [List.mapM_cons, hhead, hmap]
      rfl
    · rw [List.flatten_cons, hflat, SourceExprs.tokens]

end

/-- **The parser emits the tokens of an expression.** -/
theorem parseExpression_run {e : SourceExpr} {node : SyntaxNode} (h : e.Represents node) :
    parseExpression (some node) = .ok e.tokens :=
  e.parseExpression_go h (Nat.le_succ _)

end SocialGaming
