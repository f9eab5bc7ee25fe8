import SocialGaming.ExpressionEvaluation

/-!
# Calls of builtins

The parser emits the arguments of a builtin call flattened, with nothing that says where they end.
The evaluator does not read them: each builtin moves the iterator on by a number of its own, which
counts the receiver, the builtin, and one token for the argument of `contains` and `upfrom`, or
three for the arguments of `collect`. So what it takes is the call when its arguments have just
that many tokens, and otherwise the iterator is left inside the call or behind it.

## Main definitions

* `BuiltinType.Takes` — the arguments a builtin is called with
* `BuiltinType.skip` — the number of tokens the evaluator moves on by
* `BuiltinType.TakesWhole` — the arguments for which this is the whole call

## Main results

* `evaluateBuildIn_ends_iff` — the move ends at the first token after the call only if it is as long
  as the call
* `evaluationExpression_call_iff` — the calls that are taken whole
-/

namespace SocialGaming

/-! ### Arguments -/

/-- The arguments a builtin is called with: none, one, or a loop name and a condition. -/
def BuiltinType.Takes : BuiltinType → SourceExprs → Prop
  | .sizeType, arguments => arguments = .nil
  | .contains, arguments => ∃ argument, arguments = .cons argument .nil
  | .collect, arguments => ∃ name condition, arguments = .cons (.leaf name) (.cons condition .nil)
  | .upfrom, arguments => ∃ argument, arguments = .cons argument .nil

/-- The number of tokens `evaluateBuildIn` moves on by. -/
def BuiltinType.skip : BuiltinType → ℕ
  | .sizeType => 2
  | .contains => 3
  | .collect => 5
  | .upfrom => 3

/-- A condition of two tokens: `!` of a name or literal, or a builtin called without arguments. -/
def SourceExpr.IsShortCondition (condition : SourceExpr) : Prop :=
  (∃ name, condition = .neg (.leaf name)) ∨
    ∃ receiver builtin, condition = .call receiver builtin .nil

/-- The calls that are as long as the evaluator takes them for: those of `size`, those of `contains`
and `upfrom` with a name or literal, and those of `collect` with a condition of two tokens. -/
def BuiltinType.TakesWhole : BuiltinType → SourceExprs → Prop
  | .sizeType, _ => True
  | .contains, arguments => ∃ name, arguments = .cons (.leaf name) .nil
  | .collect, arguments => ∃ name condition, condition.IsShortCondition ∧
      arguments = .cons (.leaf name) (.cons condition .nil)
  | .upfrom, arguments => ∃ name, arguments = .cons (.leaf name) .nil

/-! ### Numbers of tokens -/

theorem SourceExpr.length_tokens_pos (e : SourceExpr) : 0 < e.tokens.length := by
  cases e <;> simp [SourceExpr.tokens]

theorem SourceExprs.length_tokens_eq_zero_iff {es : SourceExprs} :
    es.tokens.length = 0 ↔ es = .nil := by
  cases es with
  | nil => simp [SourceExprs.tokens]
  | cons first rest =>
    have hpos := first.length_tokens_pos
    simp only [SourceExprs.tokens, List.length_append, reduceCtorEq, iff_false]
    omega

theorem SourceExpr.length_tokens_eq_one_iff {e : SourceExpr} :
    e.tokens.length = 1 ↔ ∃ name, e = .leaf name := by
  constructor
  · intro h
    cases e with
    | leaf name => exact ⟨name, rfl⟩
    | call receiver builtin arguments => simp [SourceExpr.tokens] at h
    | neg operand =>
      have hpos := operand.length_tokens_pos
      rw [SourceExpr.tokens, List.length_cons] at h
      omega
    | binary operator lhs rhs =>
      have hpos := lhs.length_tokens_pos
      rw [SourceExpr.tokens, List.length_cons, List.length_append] at h
      omega
  · rintro ⟨name, rfl⟩
    rfl

theorem SourceExpr.length_tokens_eq_two_iff {e : SourceExpr} :
    e.tokens.length = 2 ↔ e.IsShortCondition := by
  constructor
  · intro h
    cases e with
    | leaf name => simp [SourceExpr.tokens] at h
    | call receiver builtin arguments =>
      rw [SourceExpr.tokens, List.length_cons, List.length_cons] at h
      have hzero : arguments.tokens.length = 0 := by omega
      obtain rfl := SourceExprs.length_tokens_eq_zero_iff.mp hzero
      exact Or.inr ⟨receiver, builtin, rfl⟩
    | neg operand =>
      rw [SourceExpr.tokens, List.length_cons] at h
      have hone : operand.tokens.length = 1 := by omega
      obtain ⟨name, rfl⟩ := SourceExpr.length_tokens_eq_one_iff.mp hone
      exact Or.inl ⟨name, rfl⟩
    | binary operator lhs rhs =>
      have hposl := lhs.length_tokens_pos
      have hposr := rhs.length_tokens_pos
      rw [SourceExpr.tokens, List.length_cons, List.length_append] at h
      omega
  · rintro (⟨name, rfl⟩ | ⟨receiver, builtin, rfl⟩)
    · rfl
    · rfl

theorem SourceExprs.tokens_single (e : SourceExpr) :
    (SourceExprs.cons e .nil).tokens = e.tokens := List.append_nil _

/-- **The calls whose length is the builtin's.** -/
theorem BuiltinType.length_tokens_eq_skip_iff {it : BuiltinType} {arguments : SourceExprs}
    (h : it.Takes arguments) (receiver builtin : String) :
    (SourceExpr.call receiver builtin arguments).tokens.length = it.skip ↔
      it.TakesWhole arguments := by
  have hone : ∀ e, (SourceExpr.call receiver builtin (.cons e .nil)).tokens.length = 3 ↔
      ∃ name, SourceExprs.cons e .nil = .cons (.leaf name) .nil := by
    intro e
    rw [SourceExpr.tokens, SourceExprs.tokens_single, List.length_cons, List.length_cons,
      Nat.add_right_cancel_iff, Nat.add_right_cancel_iff, SourceExpr.length_tokens_eq_one_iff]
    simp
  cases it with
  | sizeType =>
    obtain rfl := h
    exact iff_of_true rfl trivial
  | contains =>
    obtain ⟨e, rfl⟩ := h
    exact hone e
  | upfrom =>
    obtain ⟨e, rfl⟩ := h
    exact hone e
  | collect =>
    obtain ⟨name, condition, rfl⟩ := h
    have hlen : (SourceExpr.call receiver builtin (.cons (.leaf name)
        (.cons condition .nil))).tokens.length = condition.tokens.length + 3 := by
      simp [SourceExpr.tokens, SourceExprs.tokens]
    have htwo : condition.tokens.length + 3 = 5 ↔ condition.tokens.length = 2 := by omega
    rw [hlen, BuiltinType.skip, htwo, SourceExpr.length_tokens_eq_two_iff]
    simp [BuiltinType.TakesWhole]

/-! ### What the evaluator takes -/

section

variable {ι : Type} {s : Env ι} {scope : Scope ι}

theorem run_advance_then_iff {k : ℕ} {value : VarType} {tokens rest : List String} :
    (∃ v, (do Prog.advance k; return value : Evaluate VarType).run (tokens ++ rest) = .ok v rest) ↔
      tokens.length = k := by
  constructor
  · rintro ⟨v, h⟩
    obtain ⟨_, u, hadvance, hret⟩ := Prog.run_bind_eq_ok.mp h
    rw [EStateM.run_pure] at hret
    obtain ⟨-, rfl⟩ := EStateM.Result.ok.inj hret
    exact Prog.run_advance_eq_ok_iff.mp hadvance
  · intro h
    exact ⟨value, Prog.run_bind_eq_ok.mpr ⟨⟨⟩, rest, Prog.run_advance_eq_ok_iff.mpr h, rfl⟩⟩

/-- **The evaluator moves on by a number of its own**, which ends at the first token after the call
only if the call has that many tokens. -/
theorem evaluateBuildIn_ends_iff {receiver : String} (hbound : (scope.getVariable receiver).isSome)
    (it : BuiltinType) (tokens rest : List String) :
    (∃ v, (evaluateBuildIn s scope it).run (receiver :: tokens ++ rest) = .ok v rest) ↔
      (receiver :: tokens).length = it.skip := by
  cases it with
  | sizeType =>
    obtain ⟨p, hp⟩ := Option.isSome_iff_exists.mp hbound
    have hrun : (evaluateBuildIn s scope .sizeType).run (receiver :: tokens ++ rest)
        = (do Prog.advance 2
              return .int (Int32.ofNat (VariableUtils.size (s.heap.value p))) :
            Evaluate VarType).run (receiver :: tokens ++ rest) := by
      simp [evaluateBuildIn, hp]
    rw [hrun]
    exact run_advance_then_iff
  | contains => exact run_advance_then_iff
  | collect => exact run_advance_then_iff
  | upfrom => exact run_advance_then_iff

/-- The evaluator finds the builtin behind the receiver. -/
theorem evaluationExpression_call {receiver builtin : String} {it : BuiltinType}
    (hit : buildtinMap.lookup builtin = some it) (rightFirst : List String → Bool)
    (rest : List String) :
    (evaluationExpression s scope rightFirst).run (receiver :: builtin :: rest)
      = (evaluateBuildIn s scope it).run (receiver :: builtin :: rest) := by
  rw [evaluationExpression_run]
  exact evaluationExpression_go_buildtin hit

/-- **Calls that are taken whole.** Evaluating what the parser emits for a call of a builtin, with
any arguments of the number it takes and whatever follows, leaves the iterator at the first token
after the call exactly when the builtin is `size`, when it is `contains` or `upfrom` and its
argument is a name or literal, and when it is `collect` and its condition has two tokens. -/
theorem evaluationExpression_call_iff {receiver builtin : String} {arguments : SourceExprs}
    {node : SyntaxNode} (hrep : (SourceExpr.call receiver builtin arguments).Represents node)
    {it : BuiltinType} (hit : buildtinMap.lookup builtin = some it) (htakes : it.Takes arguments)
    (hbound : (scope.getVariable receiver).isSome) :
    ∃ tokens, parseExpression (some node) = .ok tokens ∧ ∀ rightFirst rest,
      ((∃ v, (evaluationExpression s scope rightFirst).run (tokens ++ rest) = .ok v rest) ↔
        it.TakesWhole arguments) := by
  refine ⟨_, parseExpression_run hrep, fun rightFirst rest => ?_⟩
  rw [← BuiltinType.length_tokens_eq_skip_iff htakes receiver builtin, SourceExpr.tokens,
    List.cons_append, List.cons_append, evaluationExpression_call hit]
  exact evaluateBuildIn_ends_iff hbound it (builtin :: arguments.tokens) rest

end

/-- A call node, with its arguments. -/
def callNode (receiver builtin : String) (arguments : List SyntaxNode) : SyntaxNode :=
  .mk "call" [] none true [leafNode receiver "object", leafNode builtin "builtin",
    .mk "argument_list" [] none true
      [.mk "expression_list" [] (some "arguments") true arguments]]

/-- The call `players.elements.collect(player, player.weapon = weapon.beats)`. -/
def collectNode : SyntaxNode :=
  callNode "players.elements" "collect" [leafNode "player" "element",
    .mk "comparison" "player.weapon = weapon.beats".toList (some "element") true
      [leafNode "player.weapon" "lhs", leafNode "weapon.beats" "rhs"]]

/-- A scope that binds `players.elements` to an empty list. -/
def playersScope : Scope Unit := ({} : Scope Unit).setVariable "players.elements" (some 0)

/-- The environment of the scope. -/
def playersEnv : Env Unit :=
  { heap := { cells := [.list []], vars := [0] }, scopes := [playersScope] }

/-- The evaluator stops one token before the end of the call. -/
theorem evaluationExpression_collect_ends_early :
    ∃ tokens, parseExpression (some collectNode) = .ok tokens ∧
      (playersScope.getVariable "players.elements").isSome ∧ ∀ rightFirst,
        (evaluationExpression playersEnv playersScope rightFirst).run (tokens ++ [])
            = .ok (.bool false) ["weapon.beats"] ∧
          ¬ ∃ v, (evaluationExpression playersEnv playersScope rightFirst).run (tokens ++ [])
            = .ok v [] := by
  refine ⟨["players.elements", "collect", "player", "=", "player.weapon", "weapon.beats"],
    by decide, by decide, fun rightFirst => ⟨rfl, ?_⟩⟩
  rintro ⟨v, hrun⟩
  cases (show EStateM.Result.ok (VarType.bool false) ["weapon.beats"] = .ok v [] from hrun)

/-- The call `players.elements.contains(player)`. -/
theorem evaluationExpression_call_iff_contains :
    ∃ tokens, parseExpression (some (callNode "players.elements" "contains"
        [leafNode "player" "element"])) = .ok tokens ∧ ∀ rightFirst rest,
      ((∃ v, (evaluationExpression playersEnv playersScope rightFirst).run (tokens ++ rest)
        = .ok v rest) ↔
        BuiltinType.contains.TakesWhole (.cons (.leaf "player") .nil)) := by
  have hrep : (SourceExpr.call "players.elements" "contains"
      (.cons (.leaf "player") .nil)).Represents
        (callNode "players.elements" "contains" [leafNode "player" "element"]) := by
    simp only [SourceExpr.Represents, SourceExprs.Represents]
    refine ⟨by decide, ⟨_, rfl, rfl⟩, ⟨_, rfl, rfl⟩, _, _, rfl,
      Or.inr ⟨by decide, _, rfl, rfl, rfl⟩, _, _, rfl, ⟨by decide, rfl, rfl, rfl, rfl⟩, rfl⟩
  exact evaluationExpression_call_iff hrep rfl ⟨_, rfl⟩ (by decide)

end SocialGaming
