import SocialGaming.ExpressionEvaluator
import SocialGaming.SourceExpression

/-!
# The value of an expression

The evaluator has no tree, and still it gives an expression of variables, `!`, `=` and `+` the value
it has as a tree, and stops at the first token after it. Two things are needed for the structure to
be found again in the tokens: no name is that of a builtin or an operator, and what follows does not
start with a builtin, since the evaluator looks one token ahead for it. With `|` among the operators
a third is: no left operand of a `|` is true, since then the right one is not read.

An operand is followed by whatever follows the expression it belongs to, so the induction is over
the tree with everything that may follow it, and the two operands are read by the same program,
whichever of them is asked for first.

## Main definitions

* `SourceExpr.eval` — the value of an expression as a tree
* `SourceExpr.value` — the same with `|` among the operators
* `SourceExpr.NoTrueLeft` — no left operand of a `|` is true
* `NoBuildtin` — what may follow an expression

## Main results

* `SourceExpr.consumes` — the evaluator takes the tokens of an expression, to any depth that is
  enough
* `evaluationExpression_tree` — evaluating what the parser emits
-/

namespace SocialGaming

open Prog (Consumes)

/-! ### Values of trees -/

/-- The value of `+`: it adds two integers whose sum is one. -/
def addValues : VarType → VarType → Option VarType
  | .int a, .int b => if SumFits a b then some (.int (Int32.ofInt (a.toInt + b.toInt))) else none
  | _, _ => none

/-- The value of a binary operator: `=` compares any two values. -/
def applyOperator (operator : String) (left right : VarType) : Option VarType :=
  if operator = "=" then some (.bool (left = right))
  else if operator = "+" then addValues left right
  else none

/-- The value of a negation. -/
def applyNeg : VarType → Option VarType
  | .bool b => some (.bool (!b))
  | _ => none

/-- The value of an expression of variables, `!`, `=` and `+`. -/
def SourceExpr.eval (values : String → Option VarType) : SourceExpr → Option VarType
  | .leaf name => values name
  | .neg operand => (operand.eval values).bind applyNeg
  | .binary operator lhs rhs =>
    (lhs.eval values).bind fun left => (rhs.eval values).bind fun right =>
      applyOperator operator left right
  | .call _ _ _ => none

/-- The value of `|`. -/
def applyOr : VarType → VarType → Option VarType
  | .bool a, .bool b => some (.bool (a || b))
  | _, _ => none

/-- The value of an expression of variables, `!`, `=`, `+` and `|`. -/
def SourceExpr.value (values : String → Option VarType) : SourceExpr → Option VarType
  | .leaf name => values name
  | .neg operand => (operand.value values).bind applyNeg
  | .binary operator lhs rhs =>
    (lhs.value values).bind fun left => (rhs.value values).bind fun right =>
      if operator = "|" then applyOr left right else applyOperator operator left right
  | .call _ _ _ => none

/-- In no sub-expression does a `|` have a left operand that is true. -/
def SourceExpr.NoTrueLeft (values : String → Option VarType) : SourceExpr → Prop
  | .leaf _ => True
  | .neg operand => operand.NoTrueLeft values
  | .binary operator lhs rhs => lhs.NoTrueLeft values ∧ rhs.NoTrueLeft values ∧
      ¬ (operator = "|" ∧ lhs.value values = some (.bool true))
  | .call _ _ _ => True

/-- The names in an expression of variables and operators. -/
def SourceExpr.names : SourceExpr → List String
  | .leaf name => [name]
  | .neg operand => operand.names
  | .binary _ lhs rhs => lhs.names ++ rhs.names
  | .call _ _ _ => []

/-- The value of a variable of a scope. -/
def Env.valueIn {ι : Type} (s : Env ι) (scope : Scope ι) (name : String) : Option VarType :=
  (scope.getVariable name).map s.heap.value

theorem addInt_eq {a b : Int32} (h : SumFits a b) :
    addInt a b = .ok (Int32.ofInt (a.toInt + b.toInt)) := by
  rw [addInt, if_pos h, Int32.ofInt_add, Int32.ofInt_toInt, Int32.ofInt_toInt]

theorem sumFits_comm {a b : Int32} (h : SumFits a b) : SumFits b a := by
  rwa [SumFits, Int.add_comm]

theorem applyNeg_eq_some {w v : VarType} (h : applyNeg w = some v) :
    ∃ b, w = .bool b ∧ v = .bool (!b) := by
  cases w with
  | bool b => exact ⟨b, rfl, (Option.some.inj h).symm⟩
  | _ => cases h

theorem addValues_eq_some {left right v : VarType} (h : addValues left right = some v) :
    ∃ a b, left = .int a ∧ right = .int b ∧ SumFits a b ∧
      v = .int (Int32.ofInt (a.toInt + b.toInt)) := by
  cases left with
  | int a =>
    cases right with
    | int b =>
      by_cases hfits : SumFits a b
      · rw [addValues, if_pos hfits] at h
        exact ⟨a, b, rfl, rfl, hfits, (Option.some.inj h).symm⟩
      · rw [addValues, if_neg hfits] at h
        cases h
    | _ => cases h
  | _ => cases h

theorem applyOperator_eq_some {operator : String} {left right v : VarType}
    (h : applyOperator operator left right = some v) :
    operator = "=" ∧ v = .bool (left = right) ∨
      operator = "+" ∧ ∃ a b, left = .int a ∧ right = .int b ∧ SumFits a b ∧
        v = .int (Int32.ofInt (a.toInt + b.toInt)) := by
  rw [applyOperator] at h
  split_ifs at h with heq hplus
  · exact Or.inl ⟨heq, (Option.some.inj h).symm⟩
  · exact Or.inr ⟨hplus, addValues_eq_some h⟩

/-! ### What may follow an expression -/

/-- The tokens do not start with the name of a builtin. -/
def NoBuildtin : List String → Prop
  | [] => True
  | next :: _ => buildtinMap.lookup next = none

theorem buildtinAt_eq_none {token : String} {rest : List String} (h : NoBuildtin rest) :
    buildtinAt (token :: rest) = none := by
  cases rest with
  | nil => rfl
  | cons next rest => exact h

theorem operatorAt_eq {token : String} {rest : List String} (h : rest ≠ []) :
    operatorAt (token :: rest) = operatorMap.lookup token := by
  cases rest with
  | nil => exact absurd rfl h
  | cons next rest => rfl

theorem operatorAt_eq_none {token : String} (h : operatorMap.lookup token = none)
    (rest : List String) : operatorAt (token :: rest) = none := by
  cases rest with
  | nil => rfl
  | cons next rest => exact h

/-- A name that is not that of a builtin or an operator. -/
def Unreserved (name : String) : Prop :=
  buildtinMap.lookup name = none ∧ operatorMap.lookup name = none

instance (name : String) : Decidable (Unreserved name) := inferInstanceAs (Decidable (_ ∧ _))

/-- An expression of variables and the operators of `operatorMap`. -/
def SourceExpr.WellFormed : SourceExpr → Prop
  | .leaf name => Unreserved name
  | .neg operand => operand.WellFormed
  | .binary operator lhs rhs =>
    operator ∈ ["=", "+", "|"] ∧ lhs.WellFormed ∧ rhs.WellFormed
  | .call _ _ _ => False

/-- The tokens of such an expression do not start with a builtin. -/
theorem SourceExpr.WellFormed.noBuildtin_tokens {e : SourceExpr} (he : e.WellFormed)
    (rest : List String) : e.tokens ≠ [] ∧ NoBuildtin (e.tokens ++ rest) := by
  cases e with
  | leaf name => exact ⟨by simp [SourceExpr.tokens], he.1⟩
  | call receiver builtin arguments => exact he.elim
  | neg operand => exact ⟨by simp [SourceExpr.tokens], (by decide : buildtinMap.lookup "!" = none)⟩
  | binary operator lhs rhs =>
    have hplain : ∀ op ∈ ["=", "+", "|"], buildtinMap.lookup op = none := by decide
    exact ⟨by simp [SourceExpr.tokens], hplain operator he.1⟩

/-- An expression that has a value without `|` is one of these, has the same value, and has no `|`
that could be cut short. -/
theorem SourceExpr.wellFormed_of_eval {values : String → Option VarType} {e : SourceExpr}
    {v : VarType} (heval : e.eval values = some v) (hnames : ∀ x ∈ e.names, Unreserved x) :
    e.WellFormed ∧ e.value values = some v ∧ e.NoTrueLeft values := by
  induction e using SourceExpr.rec (motive_2 := fun _ => True) generalizing v with
  | leaf name => exact ⟨hnames name (List.mem_singleton_self name), heval, trivial⟩
  | call receiver builtin arguments => cases heval
  | neg operand ih =>
    obtain ⟨w, hw, hneg⟩ := Option.bind_eq_some_iff.mp heval
    obtain ⟨hwf, hvalue, hleft⟩ := ih hw hnames
    refine ⟨hwf, ?_, hleft⟩
    rw [SourceExpr.value, hvalue]
    exact hneg
  | binary operator lhs rhs ihl ihr =>
    obtain ⟨left, hl, heval⟩ := Option.bind_eq_some_iff.mp heval
    obtain ⟨right, hr, heval⟩ := Option.bind_eq_some_iff.mp heval
    rw [SourceExpr.names, List.forall_mem_append] at hnames
    obtain ⟨hwfl, hvl, hnl⟩ := ihl hl hnames.1
    obtain ⟨hwfr, hvr, hnr⟩ := ihr hr hnames.2
    have hop : operator ∈ ["=", "+", "|"] ∧ operator ≠ "|" := by
      rcases applyOperator_eq_some heval with ⟨rfl, -⟩ | ⟨rfl, -⟩
      · decide
      · decide
    refine ⟨⟨hop.1, hwfl, hwfr⟩, ?_, hnl, hnr, fun h => hop.2 h.1⟩
    rw [SourceExpr.value, hvl, hvr, Option.bind_some, Option.bind_some, if_neg hop.2]
    exact heval
  | nil => trivial
  | cons first rest _ _ => trivial

/-! ### What the evaluator takes -/

section

variable {ι : Type} {s : Env ι} {scope : Scope ι} {rightFirst : List String → Bool}

/-- No more calls are nested than there are tokens. -/
theorem evaluationExpression_run (tokens : List String) :
    (evaluationExpression s scope rightFirst).run tokens
      = (evaluationExpression.go s scope rightFirst tokens.length).run tokens := rfl

theorem evaluationExpression_go_buildtin {depth : ℕ} {tokens : List String} {it : BuiltinType}
    (h : buildtinAt tokens = some it) :
    (evaluationExpression.go s scope rightFirst (depth + 1)).run tokens
      = (evaluateBuildIn s scope it).run tokens := by
  simp [evaluationExpression.go, h]

theorem evaluationExpression_go_operator {depth : ℕ} {tokens : List String} {it : OperatorType}
    (h : buildtinAt tokens = none) (hop : operatorAt tokens = some it) :
    (evaluationExpression.go s scope rightFirst (depth + 1)).run tokens
      = (evaluateOperator rightFirst (evaluationExpression.go s scope rightFirst depth) it).run
          tokens := by
  simp [evaluationExpression.go, h, hop]

theorem evaluationExpression_go_token {depth : ℕ} {tokens : List String}
    (h : buildtinAt tokens = none) (hop : operatorAt tokens = none) :
    (evaluationExpression.go s scope rightFirst (depth + 1)).run tokens
      = (evaluateToken s scope).run tokens := by
  simp [evaluationExpression.go, h, hop]

theorem Scope.hasVar_of_getVariable {x : String} {p : VarAddr}
    (h : scope.getVariable x = some p) : scope.hasVar x = true := by
  by_contra hnot
  rw [Scope.hasVar, Std.ExtTreeMap.contains_eq_isSome_getElem?, Option.not_isSome_iff_eq_none]
    at hnot
  rw [Scope.getVariable, hnot] at h
  cases h

/-- The scope that is found binds the name. -/
theorem Env.hasVar_of_hasVar_eq {x : String} {owner : Scope ι} (h : s.hasVar x = some owner) :
    owner.hasVar x = true := by
  rw [Env.hasVar] at h
  have hfound := List.find?_some h
  exact hfound

/-- A variable of a scope on the stack. -/
theorem consumes_evaluateToken {K : List String → Prop} (hscope : scope ∈ s.scopes) {x : String}
    {v : VarType} (h : s.valueIn scope x = some v) : Consumes (evaluateToken s scope) K [x] v := by
  obtain ⟨p, hp, rfl⟩ := Option.map_eq_some_iff.mp h
  obtain ⟨owner, howner⟩ : ∃ owner, s.hasVar x = some owner := by
    rw [← Option.isSome_iff_exists, Env.hasVar, List.find?_isSome]
    exact ⟨scope, hscope, Scope.hasVar_of_getVariable hp⟩
  have hhas : owner.hasVar x = true := Env.hasVar_of_hasVar_eq howner
  intro rest _
  simp [evaluateToken, howner, hhas, hp]

/-- An operator that takes its operands. -/
theorem consumes_go_operator {depth : ℕ} {operator : String} {it : OperatorType}
    {operands : List String} {v : VarType} (hlookup : operatorMap.lookup operator = some it)
    (hnil : operands ≠ []) (hplain : ∀ rest, NoBuildtin (operands ++ rest))
    (h : Consumes (evaluateOperator rightFirst (evaluationExpression.go s scope rightFirst depth)
      it) NoBuildtin (operator :: operands) v) :
    Consumes (evaluationExpression.go s scope rightFirst (depth + 1)) NoBuildtin
      (operator :: operands) v := by
  intro rest hrest
  rw [List.cons_append, evaluationExpression_go_operator (buildtinAt_eq_none (hplain rest))
    ((operatorAt_eq (List.append_ne_nil_of_left_ne_nil hnil rest)).trans hlookup)]
  exact h rest hrest

variable {x : Evaluate VarType} {left right : List String}

theorem consumes_negation {b : Bool} (hx : Consumes x NoBuildtin left (.bool b)) :
    Consumes (evaluateOperator rightFirst x .negation) NoBuildtin ("!" :: left) (.bool (!b)) :=
  (Prog.consumes_advance_one (K := fun _ => True) "!").bind
    (hx.bind_nil (Prog.consumes_pure _)) fun _ _ => trivial

theorem consumes_equals {v w : VarType} (hx : Consumes x NoBuildtin left v)
    (hx' : Consumes x NoBuildtin right w) (hplain : ∀ rest, NoBuildtin (right ++ rest)) :
    Consumes (evaluateOperator rightFirst x .equals) NoBuildtin ("=" :: (left ++ right))
      (.bool (v = w)) := by
  refine (Prog.consumes_advance_one (K := fun _ => True) "=").bind
    (hx.operands_bind rightFirst hx' (fun rest _ => hplain rest) (Prog.consumes_pure _) ?_)
    fun _ _ => trivial
  have hcomm : (VarType.bool (v = w)) = .bool (w = v) := by
    simp only [eq_comm]
  rw [hcomm]
  exact Prog.consumes_pure _

theorem consumes_getInt {a : Int32} (hx : Consumes x NoBuildtin left (.int a)) :
    Consumes (x >>= fun operand => Prog.ofExcept operand.getInt : Evaluate Int32) NoBuildtin left
      a :=
  hx.bind_nil (Prog.consumes_pure a)

theorem consumes_addInt {a b : Int32} (hfits : SumFits a b) :
    Consumes (do return .int (← Prog.ofExcept (addInt a b)) : Evaluate VarType) NoBuildtin []
      (.int (Int32.ofInt (a.toInt + b.toInt))) := by
  rw [addInt_eq hfits]
  exact Prog.consumes_pure _

theorem consumes_addition {a b : Int32} (hx : Consumes x NoBuildtin left (.int a))
    (hx' : Consumes x NoBuildtin right (.int b)) (hplain : ∀ rest, NoBuildtin (right ++ rest))
    (hfits : SumFits a b) :
    Consumes (evaluateOperator rightFirst x .addition) NoBuildtin ("+" :: (left ++ right))
      (.int (Int32.ofInt (a.toInt + b.toInt))) := by
  refine (Prog.consumes_advance_one (K := fun _ => True) "+").bind
    ((consumes_getInt hx).operands_bind rightFirst (consumes_getInt hx')
      (fun rest _ => hplain rest) (consumes_addInt hfits) ?_) fun _ _ => trivial
  rw [Int.add_comm]
  exact consumes_addInt (sumFits_comm hfits)

/-- A false left operand: the right one decides. -/
theorem consumes_or {b : Bool} (hx : Consumes x NoBuildtin left (.bool false))
    (hx' : Consumes x NoBuildtin right (.bool b)) (hplain : ∀ rest, NoBuildtin (right ++ rest)) :
    Consumes (evaluateOperator rightFirst x .or) NoBuildtin ("|" :: (left ++ right))
      (.bool b) := by
  refine (Prog.consumes_advance_one (K := fun _ => True) "|").bind ?_ fun _ _ => trivial
  refine hx.bind ?_ fun rest _ => hplain rest
  exact hx'.bind_nil (Prog.consumes_pure _)

end

theorem applyOr_eq_some {left right v : VarType} (h : applyOr left right = some v) :
    ∃ a b, left = .bool a ∧ right = .bool b ∧ v = .bool (a || b) := by
  cases left with
  | bool a =>
    cases right with
    | bool b => exact ⟨a, b, rfl, rfl, (Option.some.inj h).symm⟩
    | _ => cases h
  | _ => cases h

/-- **The evaluator takes the tokens of an expression**, to any depth that is at least their
number. -/
theorem SourceExpr.consumes {ι : Type} {s : Env ι} {scope : Scope ι}
    {rightFirst : List String → Bool} (hscope : scope ∈ s.scopes) (e : SourceExpr)
    (he : e.WellFormed) {v : VarType} (hvalue : e.value (s.valueIn scope) = some v)
    (hleft : e.NoTrueLeft (s.valueIn scope)) {depth : ℕ} (hd : e.tokens.length ≤ depth) :
    Consumes (evaluationExpression.go s scope rightFirst depth) NoBuildtin e.tokens v := by
  obtain ⟨depth, rfl⟩ : ∃ d, depth = d + 1 := by
    have hpos := List.length_pos_of_ne_nil (he.noBuildtin_tokens []).1
    exact ⟨depth - 1, by omega⟩
  cases e with
  | leaf name =>
    intro rest hrest
    rw [SourceExpr.tokens, List.singleton_append, evaluationExpression_go_token
      (buildtinAt_eq_none hrest) (operatorAt_eq_none he.2 rest)]
    exact consumes_evaluateToken hscope hvalue rest hrest
  | call receiver builtin arguments => exact he.elim
  | neg operand =>
    obtain ⟨w, hw, hneg⟩ := Option.bind_eq_some_iff.mp hvalue
    obtain ⟨b, rfl, rfl⟩ := applyNeg_eq_some hneg
    rw [SourceExpr.tokens, List.length_cons] at hd
    have ih : Consumes (evaluationExpression.go s scope rightFirst depth) NoBuildtin operand.tokens
        (.bool b) := operand.consumes hscope he hw hleft (Nat.le_of_succ_le_succ hd)
    exact consumes_go_operator rfl (he.noBuildtin_tokens (e := operand) []).1
      (fun rest => (he.noBuildtin_tokens (e := operand) rest).2) (consumes_negation ih)
  | binary operator lhs rhs =>
    obtain ⟨-, hel, her⟩ := he
    obtain ⟨hnl, hnr, hshort⟩ := hleft
    obtain ⟨left, hl, hvalue⟩ := Option.bind_eq_some_iff.mp hvalue
    obtain ⟨right, hr, hvalue⟩ := Option.bind_eq_some_iff.mp hvalue
    rw [SourceExpr.tokens, List.length_cons, List.length_append] at hd
    have ihl : Consumes (evaluationExpression.go s scope rightFirst depth) NoBuildtin lhs.tokens
        left := lhs.consumes hscope hel hl hnl (by omega)
    have ihr : Consumes (evaluationExpression.go s scope rightFirst depth) NoBuildtin rhs.tokens
        right := rhs.consumes hscope her hr hnr (by omega)
    have hplain := fun rest => (her.noBuildtin_tokens rest).2
    have hnil : lhs.tokens ++ rhs.tokens ≠ [] :=
      List.append_ne_nil_of_left_ne_nil (hel.noBuildtin_tokens []).1 _
    have hplain' : ∀ rest, NoBuildtin (lhs.tokens ++ rhs.tokens ++ rest) := by
      intro rest
      rw [List.append_assoc]
      exact (hel.noBuildtin_tokens _).2
    by_cases hor : operator = "|"
    · subst hor
      rw [if_pos rfl] at hvalue
      obtain ⟨a, b, rfl, rfl, rfl⟩ := applyOr_eq_some hvalue
      have ha : a = false := by
        by_contra htrue
        have ha : a = true := by simpa using htrue
        exact hshort ⟨rfl, by rw [hl, ha]⟩
      subst ha
      exact consumes_go_operator rfl hnil hplain' (consumes_or ihl ihr hplain)
    rw [if_neg hor] at hvalue
    rcases applyOperator_eq_some hvalue with ⟨rfl, rfl⟩ | ⟨rfl, a, b, rfl, rfl, hfits, rfl⟩
    · exact consumes_go_operator rfl hnil hplain' (consumes_equals ihl ihr hplain)
    · exact consumes_go_operator rfl hnil hplain' (consumes_addition ihl ihr hplain hfits)

/-- **The evaluator agrees with the meaning of expressions.** Take any expression of variables, `!`,
`=` and `+` that has a value, with variables of a scope on the stack that are not named like a
builtin or an operator, and what the parser emits for it. Whatever follows, unless it starts with a
builtin, and whichever operands are evaluated first, the evaluator returns the value of the
expression and leaves the iterator at the first token after it. -/
theorem evaluationExpression_tree {ι : Type} {s : Env ι} {scope : Scope ι}
    (hscope : scope ∈ s.scopes) {e : SourceExpr} {node : SyntaxNode} (hrep : e.Represents node)
    {v : VarType} (heval : e.eval (s.valueIn scope) = some v)
    (hnames : ∀ x ∈ e.names, Unreserved x) :
    ∃ tokens, parseExpression (some node) = .ok tokens ∧ ∀ rightFirst rest, NoBuildtin rest →
      (evaluationExpression s scope rightFirst).run (tokens ++ rest) = .ok v rest := by
  refine ⟨e.tokens, parseExpression_run hrep, fun rightFirst rest hrest => ?_⟩
  rw [evaluationExpression_run]
  have hd : e.tokens.length ≤ (e.tokens ++ rest).length := by
    rw [List.length_append]
    omega
  obtain ⟨he, hvalue, hleft⟩ := SourceExpr.wellFormed_of_eval heval hnames
  exact e.consumes hscope he hvalue hleft hd rest hrest

/-- The expression `a + b = c`. -/
def sumNode : SyntaxNode :=
  .mk "binary" "a + b = c".toList none true
    [.mk "binary" "a + b".toList (some "lhs") true [leafNode "a" "lhs", leafNode "b" "rhs"],
      leafNode "c" "rhs"]

/-- A scope of three variables. -/
def sumScope : Scope Unit :=
  ((({} : Scope Unit).setVariable "a" (some 0)).setVariable "b" (some 1)).setVariable "c" (some 2)

/-- The environment of the scope, in which `a`, `b` and `c` are 1, 2 and 3. -/
def sumEnv : Env Unit :=
  { heap := { cells := [.int 1, .int 2, .int 3], vars := [0, 1, 2] }, scopes := [sumScope] }

/-- The value of `a + b = c`. -/
theorem evaluationExpression_tree_sum :
    ∃ tokens, parseExpression (some sumNode) = .ok tokens ∧ ∀ rightFirst rest, NoBuildtin rest →
      (evaluationExpression sumEnv sumScope rightFirst).run (tokens ++ rest)
        = .ok (.bool true) rest := by
  let e : SourceExpr := .binary "=" (.binary "+" (.leaf "a") (.leaf "b")) (.leaf "c")
  have ha : (SourceExpr.leaf "a").Represents (leafNode "a" "lhs") :=
    ⟨by decide, rfl, rfl, rfl, rfl⟩
  have hb : (SourceExpr.leaf "b").Represents (leafNode "b" "rhs") :=
    ⟨by decide, rfl, rfl, rfl, rfl⟩
  have hc : (SourceExpr.leaf "c").Represents (leafNode "c" "rhs") :=
    ⟨by decide, rfl, rfl, rfl, rfl⟩
  have hrep : e.Represents sumNode := by
    simp only [e, SourceExpr.Represents]
    exact ⟨by decide, rfl, rfl, _, _, rfl, rfl, rfl,
      ⟨by decide, rfl, rfl, _, _, rfl, rfl, rfl, ha, hb⟩, hc⟩
  exact evaluationExpression_tree (List.mem_singleton_self sumScope) hrep (by decide) (by decide)

end SocialGaming
