import SocialGaming.ExpressionEvaluation

/-!
# Where an expression ends

The evaluator finds the end of an expression by evaluating it, and the `||` of C++ does not evaluate
its right operand when the left one is true. The tokens of that operand are then still there, and
whatever is evaluated next reads them as its own.

Reading can go wrong but it never goes too far: evaluating at the start of a sequence of expressions
leaves the tokens of a sequence of expressions, at least as many as follow the first. A `|` that is
cut short leaves one more, and nothing makes up for it. So where the evaluator stops tells whether a
`|` was cut short.

## Main definitions

* `tokensOf` — the tokens of expressions, one after the other
* `Reads` — a program leaves at least the expressions after the first

## Main results

* `reads_go` — the evaluator does
* `evaluationExpression_ends_iff` — when it stops at the first token after an expression
* `evaluationExpression_ends_alike_iff` — when it does so in two environments
-/

namespace SocialGaming

/-! ### Sequences of expressions -/

/-- The tokens of expressions, one after the other. -/
def tokensOf (es : List SourceExpr) : List String := es.flatMap SourceExpr.tokens

theorem tokensOf_cons (e : SourceExpr) (es : List SourceExpr) (rest : List String) :
    tokensOf (e :: es) ++ rest = e.tokens ++ (tokensOf es ++ rest) := by
  rw [tokensOf, List.flatMap_cons, List.append_assoc]
  rfl

theorem noBuildtin_tokensOf {es : List SourceExpr} (hes : ∀ e ∈ es, e.WellFormed)
    {rest : List String} (hrest : NoBuildtin rest) : NoBuildtin (tokensOf es ++ rest) := by
  cases es with
  | nil => exact hrest
  | cons e es =>
    rw [tokensOf_cons]
    exact ((hes e List.mem_cons_self).noBuildtin_tokens _).2

theorem eq_nil_of_tokensOf_append {es : List SourceExpr} (hes : ∀ e ∈ es, e.WellFormed)
    {rest : List String} (h : rest = tokensOf es ++ rest) : es = [] := by
  cases es with
  | nil => rfl
  | cons e es =>
    have hpos := List.length_pos_of_ne_nil ((hes e List.mem_cons_self).noBuildtin_tokens []).1
    have hlen := congrArg List.length h
    rw [tokensOf_cons, List.length_append, List.length_append] at hlen
    omega

/-! ### What reading leaves -/

/-- The tokens `t` are those of a sequence of expressions and of `rest`. It is no shorter than `es`,
and if it is no longer then it is `es`, and `Q` holds. -/
def Leaves (es : List SourceExpr) (rest t : List String) (Q : Prop) : Prop :=
  ∃ es', (∀ e ∈ es', e.WellFormed) ∧ t = tokensOf es' ++ rest ∧ es.length ≤ es'.length ∧
    (es'.length = es.length → es' = es ∧ Q)

/-- The program leaves at least the expressions after the first, and if it leaves only these then
its result is that of the first. -/
def Reads {α : Type} (x : Evaluate α) (P : SourceExpr → α → Prop) : Prop :=
  ∀ e es rest a t, e.WellFormed → (∀ e ∈ es, e.WellFormed) → NoBuildtin rest →
    x.run (e.tokens ++ (tokensOf es ++ rest)) = .ok a t → Leaves es rest t (P e a)

theorem Leaves.mono {es : List SourceExpr} {rest t : List String} {Q Q' : Prop}
    (h : Leaves es rest t Q) (hQ : Q → Q') : Leaves es rest t Q' := by
  obtain ⟨es', hwf, ht, hle, hq⟩ := h
  exact ⟨es', hwf, ht, hle, fun heq => ⟨(hq heq).1, hQ (hq heq).2⟩⟩

/-- One expression too many is left. -/
theorem Leaves.of_cons {e : SourceExpr} {es : List SourceExpr} {rest t : List String} {Q Q' : Prop}
    (h : Leaves (e :: es) rest t Q) : Leaves es rest t Q' := by
  obtain ⟨es', hwf, ht, hle, -⟩ := h
  rw [List.length_cons] at hle
  exact ⟨es', hwf, ht, by omega, fun heq => by omega⟩

section

variable {α β : Type} {x : Evaluate α} {P : SourceExpr → α → Prop}

theorem Reads.bind_ofExcept {Q : SourceExpr → β → Prop} {f : α → Except (Fault Exn) β}
    (hx : Reads x P) (hf : ∀ e a b, P e a → f a = .ok b → Q e b) :
    Reads (x >>= fun a => Prog.ofExcept (f a) : Evaluate β) Q := by
  intro e es rest b t he hes hrest hrun
  obtain ⟨a, u, hfirst, hthen⟩ := Prog.run_bind_eq_ok.mp hrun
  obtain ⟨hb, rfl⟩ := Prog.run_ofExcept_eq_ok.mp hthen
  exact (hx e es rest a u he hes hrest hfirst).mono fun h => hf e a b h hb

/-- A second call goes on from what the first left, which is an expression at least. -/
theorem Reads.again {y : Evaluate β} {P' : SourceExpr → β → Prop} (hy : Reads y P')
    {e : SourceExpr} {es : List SourceExpr} {rest u t : List String} {Q : Prop} {b : β}
    (hrest : NoBuildtin rest) (hu : Leaves (e :: es) rest u Q) (hrun : y.run u = .ok b t) :
    Leaves es rest t (Q ∧ P' e b) := by
  obtain ⟨es₁, hwf, rfl, hle, hq⟩ := hu
  cases es₁ with
  | nil => simp at hle
  | cons e₁ es₁ =>
    rw [List.forall_mem_cons] at hwf
    rw [List.length_cons, List.length_cons] at hle hq
    rw [tokensOf_cons] at hrun
    obtain ⟨es₂, hwf₂, ht, hle₂, hq₂⟩ := hy e₁ es₁ rest b t hwf.1 hwf.2 hrest hrun
    refine ⟨es₂, hwf₂, ht, by omega, fun heq => ?_⟩
    obtain ⟨hcons, hQ⟩ := hq (by omega)
    obtain ⟨rfl, rfl⟩ := List.cons.inj hcons
    obtain ⟨rfl, hP⟩ := hq₂ (by omega)
    exact ⟨rfl, hQ, hP⟩

theorem Reads.operands (hx : Reads x P) {rightFirst : List String → Bool} {lhs rhs : SourceExpr}
    {es : List SourceExpr} {rest t : List String} {ab : α × α} (hl : lhs.WellFormed)
    (hr : rhs.WellFormed) (hes : ∀ e ∈ es, e.WellFormed) (hrest : NoBuildtin rest)
    (hrun : (Prog.operands x rightFirst).run (lhs.tokens ++ (tokensOf (rhs :: es) ++ rest))
      = .ok ab t) :
    Leaves es rest t ((P lhs ab.1 ∧ P rhs ab.2) ∨ (P lhs ab.2 ∧ P rhs ab.1)) := by
  rw [Prog.operands, EStateM.run_bind, EStateM.run_get] at hrun
  obtain ⟨first, u, hfirst, hrun⟩ := Prog.run_bind_eq_ok.mp hrun
  obtain ⟨second, v, hsecond, hrun⟩ := Prog.run_bind_eq_ok.mp hrun
  have hleaves := hx lhs (rhs :: es) rest first u hl (List.forall_mem_cons.mpr ⟨hr, hes⟩) hrest
    hfirst
  have hboth := hx.again hrest hleaves hsecond
  rw [EStateM.run_pure] at hrun
  obtain ⟨rfl, rfl⟩ := EStateM.Result.ok.inj hrun
  refine hboth.mono fun h => ?_
  split
  · exact Or.inr h
  · exact Or.inl h

end

/-! ### The evaluator -/

section

variable {ι : Type} {s : Env ι} {scope : Scope ι} {rightFirst : List String → Bool}

/-- The expression has the value, with no `|` cut short. -/
def SourceExpr.HasValue (values : String → Option VarType) (e : SourceExpr) (v : VarType) : Prop :=
  e.value values = some v ∧ e.NoTrueLeft values

theorem evaluateToken_eq_ok {x : String} {rest t : List String} {v : VarType}
    (h : (evaluateToken s scope).run (x :: rest) = .ok v t) :
    s.valueIn scope x = some v ∧ t = rest := by
  rcases howner : s.hasVar x with _ | owner
  · simp [evaluateToken, howner] at h
  have hhas : owner.hasVar x = true := Env.hasVar_of_hasVar_eq howner
  rcases hp : scope.getVariable x with _ | p
  · simp [evaluateToken, howner, hhas, hp] at h
  · simp only [evaluateToken, Prog.run_current_cons, EStateM.run_bind, howner, hhas, hp, if_true,
      Prog.run_advance_one_cons, EStateM.run_pure] at h
    obtain ⟨rfl, rfl⟩ := EStateM.Result.ok.inj h
    exact ⟨by rw [Env.valueIn, hp]; rfl, rfl⟩

variable {x : Evaluate VarType} {values : String → Option VarType} {es : List SourceExpr}
  {rest t : List String} {v : VarType}

theorem reads_negation (hx : Reads x (SourceExpr.HasValue values)) {operand : SourceExpr}
    (he : operand.WellFormed) (hes : ∀ e ∈ es, e.WellFormed) (hrest : NoBuildtin rest)
    (h : (evaluateOperator rightFirst x .negation).run
      ("!" :: (operand.tokens ++ (tokensOf es ++ rest))) = .ok v t) :
    Leaves es rest t ((SourceExpr.neg operand).HasValue values v) := by
  rw [evaluateOperator, EStateM.run_bind, Prog.run_advance_one_cons] at h
  obtain ⟨a, u, hrun, h⟩ := Prog.run_bind_eq_ok.mp h
  obtain ⟨b, w, hget, h⟩ := Prog.run_bind_eq_ok.mp h
  obtain ⟨hb, rfl⟩ := Prog.run_ofExcept_eq_ok.mp hget
  rw [EStateM.run_pure] at h
  obtain ⟨rfl, rfl⟩ := EStateM.Result.ok.inj h
  refine (hx operand es rest a u he hes hrest hrun).mono fun hvalue => ⟨?_, hvalue.2⟩
  cases a with
  | bool a =>
    obtain rfl := Except.ok.inj hb
    rw [SourceExpr.value, hvalue.1]
    rfl
  | _ => cases hb

variable {lhs rhs : SourceExpr}

theorem reads_equals (hx : Reads x (SourceExpr.HasValue values)) (hl : lhs.WellFormed)
    (hr : rhs.WellFormed) (hes : ∀ e ∈ es, e.WellFormed) (hrest : NoBuildtin rest)
    (h : (evaluateOperator rightFirst x .equals).run
      ("=" :: (lhs.tokens ++ (tokensOf (rhs :: es) ++ rest))) = .ok v t) :
    Leaves es rest t ((SourceExpr.binary "=" lhs rhs).HasValue values v) := by
  rw [evaluateOperator, EStateM.run_bind, Prog.run_advance_one_cons] at h
  obtain ⟨ab, u, hrun, h⟩ := Prog.run_bind_eq_ok.mp h
  rw [EStateM.run_pure] at h
  obtain ⟨rfl, rfl⟩ := EStateM.Result.ok.inj h
  have hvalue : ∀ left right, lhs.HasValue values left → rhs.HasValue values right →
      (SourceExpr.binary "=" lhs rhs).HasValue values (.bool (left = right)) := by
    intro left right hleft hright
    refine ⟨?_, hleft.2, hright.2, by simp⟩
    rw [SourceExpr.value, hleft.1, hright.1]
    rfl
  refine (hx.operands hl hr hes hrest hrun).mono fun hboth => ?_
  rcases hboth with ⟨hleft, hright⟩ | ⟨hleft, hright⟩
  · exact hvalue _ _ hleft hright
  · have hcomm : VarType.bool (ab.1 = ab.2) = .bool (ab.2 = ab.1) := by
      simp only [eq_comm]
    exact hcomm ▸ hvalue _ _ hleft hright

theorem addValues_of_addInt {a b c : Int32} (h : addInt a b = .ok c) :
    addValues (.int a) (.int b) = some (.int c) ∧ addValues (.int b) (.int a) = some (.int c) := by
  by_cases hfits : SumFits a b
  · rw [addInt_eq hfits] at h
    obtain rfl := Except.ok.inj h
    refine ⟨if_pos hfits, ?_⟩
    rw [Int.add_comm]
    exact if_pos (sumFits_comm hfits)
  · rw [addInt, if_neg hfits] at h
    cases h

theorem reads_addition (hx : Reads x (SourceExpr.HasValue values)) (hl : lhs.WellFormed)
    (hr : rhs.WellFormed) (hes : ∀ e ∈ es, e.WellFormed) (hrest : NoBuildtin rest)
    (h : (evaluateOperator rightFirst x .addition).run
      ("+" :: (lhs.tokens ++ (tokensOf (rhs :: es) ++ rest))) = .ok v t) :
    Leaves es rest t ((SourceExpr.binary "+" lhs rhs).HasValue values v) := by
  have hint : Reads (x >>= fun operand => Prog.ofExcept operand.getInt : Evaluate Int32)
      fun e n => e.HasValue values (.int n) := by
    refine hx.bind_ofExcept fun e a n hvalue hn => ?_
    cases a with
    | int a => exact Except.ok.inj hn ▸ hvalue
    | _ => cases hn
  rw [evaluateOperator, EStateM.run_bind, Prog.run_advance_one_cons] at h
  obtain ⟨ab, u, hrun, h⟩ := Prog.run_bind_eq_ok.mp h
  obtain ⟨n, w, hsum, h⟩ := Prog.run_bind_eq_ok.mp h
  obtain ⟨hn, rfl⟩ := Prog.run_ofExcept_eq_ok.mp hsum
  rw [EStateM.run_pure] at h
  obtain ⟨rfl, rfl⟩ := EStateM.Result.ok.inj h
  have hvalue : ∀ a b, lhs.HasValue values (.int a) → rhs.HasValue values (.int b) →
      addValues (.int a) (.int b) = some (.int n) →
        (SourceExpr.binary "+" lhs rhs).HasValue values (.int n) := by
    intro a b hleft hright hsum
    refine ⟨?_, hleft.2, hright.2, by simp⟩
    rw [SourceExpr.value, hleft.1, hright.1]
    exact hsum
  refine (hint.operands hl hr hes hrest hrun).mono fun hboth => ?_
  rcases hboth with ⟨hleft, hright⟩ | ⟨hleft, hright⟩
  · exact hvalue _ _ hleft hright (addValues_of_addInt hn).1
  · exact hvalue _ _ hleft hright (addValues_of_addInt hn).2

/-- When the left operand is true, an expression too many is left. -/
theorem reads_or (hx : Reads x (SourceExpr.HasValue values)) (hl : lhs.WellFormed)
    (hr : rhs.WellFormed) (hes : ∀ e ∈ es, e.WellFormed) (hrest : NoBuildtin rest)
    (h : (evaluateOperator rightFirst x .or).run
      ("|" :: (lhs.tokens ++ (tokensOf (rhs :: es) ++ rest))) = .ok v t) :
    Leaves es rest t ((SourceExpr.binary "|" lhs rhs).HasValue values v) := by
  have hbool : Reads (x >>= fun operand => Prog.ofExcept operand.getBool : Evaluate Bool)
      fun e b => e.HasValue values (.bool b) := by
    refine hx.bind_ofExcept fun e a b hvalue hb => ?_
    cases a with
    | bool a => exact Except.ok.inj hb ▸ hvalue
    | _ => cases hb
  rw [evaluateOperator, EStateM.run_bind, Prog.run_advance_one_cons, ← bind_assoc] at h
  obtain ⟨left, u, hrun, h⟩ := Prog.run_bind_eq_ok.mp h
  have hleaves := hbool lhs (rhs :: es) rest left u hl (List.forall_mem_cons.mpr ⟨hr, hes⟩) hrest
    hrun
  cases left with
  | true =>
    obtain ⟨-, rfl⟩ := EStateM.Result.ok.inj h
    exact hleaves.of_cons
  | false =>
    rw [if_neg Bool.false_ne_true, ← bind_assoc] at h
    obtain ⟨right, w, hrun', h⟩ := Prog.run_bind_eq_ok.mp h
    rw [EStateM.run_pure] at h
    obtain ⟨rfl, rfl⟩ := EStateM.Result.ok.inj h
    refine (hbool.again hrest hleaves hrun').mono fun hboth => ?_
    obtain ⟨hleft, hright⟩ := hboth
    refine ⟨?_, hleft.2, hright.2, fun htrue => ?_⟩
    · rw [SourceExpr.value, hleft.1, hright.1]
      rfl
    · rw [hleft.1] at htrue
      simp at htrue

/-- An operator is dispatched on the token it is. -/
theorem go_operator_run {depth : ℕ} {operator : String} {it : OperatorType}
    (hlookup : operatorMap.lookup operator = some it) {e : SourceExpr} (he : e.WellFormed)
    (tokens : List String) :
    (evaluationExpression.go s scope rightFirst (depth + 1)).run (operator :: (e.tokens ++ tokens))
      = (evaluateOperator rightFirst (evaluationExpression.go s scope rightFirst depth) it).run
          (operator :: (e.tokens ++ tokens)) := by
  obtain ⟨hnil, hplain⟩ := he.noBuildtin_tokens tokens
  exact evaluationExpression_go_operator (buildtinAt_eq_none hplain)
    ((operatorAt_eq (List.append_ne_nil_of_left_ne_nil hnil tokens)).trans hlookup)

/-- **Reading never goes too far.** -/
theorem reads_go (depth : ℕ) :
    Reads (evaluationExpression.go s scope rightFirst depth)
      (SourceExpr.HasValue (s.valueIn scope)) := by
  induction depth with
  | zero =>
    intro e es rest v t _ _ _ h
    cases h
  | succ depth ih =>
    intro e es rest v t he hes hrest h
    cases e with
    | leaf name =>
      rw [SourceExpr.tokens, List.singleton_append, evaluationExpression_go_token
        (buildtinAt_eq_none (noBuildtin_tokensOf hes hrest)) (operatorAt_eq_none he.2 _)] at h
      obtain ⟨hvalue, rfl⟩ := evaluateToken_eq_ok h
      exact ⟨es, hes, rfl, le_rfl, fun _ => ⟨rfl, hvalue, trivial⟩⟩
    | call receiver builtin arguments => exact he.elim
    | neg operand =>
      have hoperand : operand.WellFormed := he
      rw [SourceExpr.tokens, List.cons_append, go_operator_run rfl hoperand] at h
      exact reads_negation ih he hes hrest h
    | binary operator lhs rhs =>
      obtain ⟨hop, hl, hr⟩ := he
      rw [SourceExpr.tokens, List.cons_append, List.append_assoc, ← tokensOf_cons] at h
      simp only [List.mem_cons, List.not_mem_nil, or_false] at hop
      rcases hop with rfl | rfl | rfl
      · rw [go_operator_run rfl hl] at h
        exact reads_equals ih hl hr hes hrest h
      · rw [go_operator_run rfl hl] at h
        exact reads_addition ih hl hr hes hrest h
      · rw [go_operator_run rfl hl] at h
        exact reads_or ih hl hr hes hrest h

/-- **When the evaluator stops at the first token after an expression**: when the expression has a
value and no `|` in it has a left operand that is true. -/
theorem evaluationExpression_ends_iff (hscope : scope ∈ s.scopes) {e : SourceExpr}
    (he : e.WellFormed) {rest : List String} (hrest : NoBuildtin rest) :
    (∃ v, (evaluationExpression s scope rightFirst).run (e.tokens ++ rest) = .ok v rest) ↔
      ∃ v, e.HasValue (s.valueIn scope) v := by
  rw [evaluationExpression_run]
  constructor
  · rintro ⟨v, h⟩
    obtain ⟨es', hwf, ht, -, hq⟩ := reads_go _ e [] rest v rest he (by simp) hrest h
    obtain rfl := eq_nil_of_tokensOf_append hwf ht
    exact ⟨v, (hq rfl).2⟩
  · rintro ⟨v, hvalue, hleft⟩
    have hd : e.tokens.length ≤ (e.tokens ++ rest).length := by
      rw [List.length_append]
      omega
    exact ⟨v, e.consumes hscope he hvalue hleft hd rest hrest⟩

end

/-! ### Two environments -/

/-- The scopes bind the same names, to values of the same types. -/
def BindAlike {ι : Type} (s₁ : Env ι) (scope₁ : Scope ι) (s₂ : Env ι) (scope₂ : Scope ι) : Prop :=
  ∀ x, (s₁.valueIn scope₁ x).map VarType.index = (s₂.valueIn scope₂ x).map VarType.index

/-- **Where an expression ends in two environments.** Take any expression of variables and the
operators `=`, `!`, `+` and `|`, and whatever follows it. In both environments the evaluator returns
and stops at the first token after the expression exactly when in both the expression has a value
and no `|` in it has a left operand that is true. If this is so in one of them, then the evaluator
stops at the same token in the other, wherever that is, exactly when it is so there too. -/
theorem evaluationExpression_ends_alike_iff {ι : Type} {s₁ s₂ : Env ι} {scope₁ scope₂ : Scope ι}
    (h₁ : scope₁ ∈ s₁.scopes) (h₂ : scope₂ ∈ s₂.scopes) {e : SourceExpr} (he : e.WellFormed)
    (rightFirst : List String → Bool) {rest : List String} (hrest : NoBuildtin rest) :
    ((∃ v₁ v₂, (evaluationExpression s₁ scope₁ rightFirst).run (e.tokens ++ rest) = .ok v₁ rest ∧
        (evaluationExpression s₂ scope₂ rightFirst).run (e.tokens ++ rest) = .ok v₂ rest) ↔
      (∃ v, e.HasValue (s₁.valueIn scope₁) v) ∧ ∃ v, e.HasValue (s₂.valueIn scope₂) v) ∧
    ((∃ v, e.HasValue (s₁.valueIn scope₁) v) →
      ((∃ v₁ v₂ t, (evaluationExpression s₁ scope₁ rightFirst).run (e.tokens ++ rest) = .ok v₁ t ∧
          (evaluationExpression s₂ scope₂ rightFirst).run (e.tokens ++ rest) = .ok v₂ t) ↔
        ∃ v, e.HasValue (s₂.valueIn scope₂) v)) := by
  have hends₁ : (∃ v, (evaluationExpression s₁ scope₁ rightFirst).run (e.tokens ++ rest)
      = .ok v rest) ↔ ∃ v, e.HasValue (s₁.valueIn scope₁) v :=
    evaluationExpression_ends_iff h₁ he hrest
  have hends₂ : (∃ v, (evaluationExpression s₂ scope₂ rightFirst).run (e.tokens ++ rest)
      = .ok v rest) ↔ ∃ v, e.HasValue (s₂.valueIn scope₂) v :=
    evaluationExpression_ends_iff h₂ he hrest
  constructor
  · rw [← hends₁, ← hends₂]
    constructor
    · rintro ⟨v₁, v₂, hrun₁, hrun₂⟩
      exact ⟨⟨v₁, hrun₁⟩, v₂, hrun₂⟩
    · rintro ⟨⟨v₁, hrun₁⟩, v₂, hrun₂⟩
      exact ⟨v₁, v₂, hrun₁, hrun₂⟩
  · intro hvalue
    obtain ⟨v, hrun⟩ := hends₁.mpr hvalue
    rw [← hends₂]
    constructor
    · rintro ⟨v₁, v₂, t, hrun₁, hrun₂⟩
      rw [hrun] at hrun₁
      obtain ⟨rfl, rfl⟩ := EStateM.Result.ok.inj hrun₁
      exact ⟨v₂, hrun₂⟩
    · rintro ⟨v₂, hrun₂⟩
      exact ⟨v, v₂, rest, hrun, hrun₂⟩

/-- An environment that binds `a`, `b` and `c` to truth values. -/
def truthEnv (a b c : Bool) : Env Unit :=
  { heap := { cells := [.bool a, .bool b, .bool c], vars := [0, 1, 2] }, scopes := [sumScope] }

theorem index_value_truthEnv (a b c : Bool) (p : VarAddr) :
    ((truthEnv a b c).heap.value p).index = 2 := by
  match p with
  | 0 => rfl
  | 1 => rfl
  | 2 => rfl
  | _ + 3 => rfl

theorem bindAlike_truthEnv (a b c a' b' c' : Bool) :
    BindAlike (truthEnv a b c) sumScope (truthEnv a' b' c') sumScope := by
  have hindex : ∀ a b c : Bool, VarType.index ∘ (truthEnv a b c).heap.value = fun _ => 2 :=
    fun a b c => funext (index_value_truthEnv a b c)
  intro x
  rw [Env.valueIn, Env.valueIn, Option.map_map, Option.map_map, hindex, hindex]

/-- The expression `(a | b) = c`. -/
def orExpr : SourceExpr := .binary "=" (.binary "|" (.leaf "a") (.leaf "b")) (.leaf "c")

theorem orExpr_wellFormed : orExpr.WellFormed := by
  simp only [orExpr, SourceExpr.WellFormed]
  decide

/-- With `a` true, `b` is read as the second operand of `=` and `c` is left over. With `a` false,
the evaluator stops at the end. -/
theorem evaluationExpression_ends_apart :
    orExpr.WellFormed ∧ BindAlike (truthEnv true false true) sumScope
        (truthEnv false false true) sumScope ∧
      ∀ rightFirst,
        (∃ v, (evaluationExpression (truthEnv true false true) sumScope rightFirst).run
          orExpr.tokens = .ok v ["c"]) ∧
        (∃ v, (evaluationExpression (truthEnv false false true) sumScope rightFirst).run
          orExpr.tokens = .ok v []) ∧
        ¬ ∃ v₁ v₂ t, (evaluationExpression (truthEnv true false true) sumScope rightFirst).run
            orExpr.tokens = .ok v₁ t ∧
          (evaluationExpression (truthEnv false false true) sumScope rightFirst).run
            orExpr.tokens = .ok v₂ t := by
  refine ⟨orExpr_wellFormed, bindAlike_truthEnv _ _ _ _ _ _, fun rightFirst => ?_⟩
  have hearly : ∃ v, (evaluationExpression (truthEnv true false true) sumScope rightFirst).run
      orExpr.tokens = .ok v ["c"] := ⟨_, rfl⟩
  have hend : ∃ v, (evaluationExpression (truthEnv false false true) sumScope rightFirst).run
      orExpr.tokens = .ok v [] := ⟨_, rfl⟩
  refine ⟨hearly, hend, ?_⟩
  rintro ⟨v₁, v₂, t, h₁, h₂⟩
  obtain ⟨v, hrun⟩ := hearly
  obtain ⟨w, hrun'⟩ := hend
  rw [hrun] at h₁
  rw [hrun'] at h₂
  have heq : ["c"] = [] := (EStateM.Result.ok.inj h₁).2.trans (EStateM.Result.ok.inj h₂).2.symm
  cases heq

theorem hasValue_orExpr (b c : Bool) :
    orExpr.HasValue ((truthEnv false b c).valueIn sumScope) (.bool (VarType.bool b = .bool c)) := by
  have ha : (truthEnv false b c).valueIn sumScope "a" = some (.bool false) := by decide +revert
  have hb : (truthEnv false b c).valueIn sumScope "b" = some (.bool b) := by decide +revert
  have hc : (truthEnv false b c).valueIn sumScope "c" = some (.bool c) := by decide +revert
  simp [orExpr, SourceExpr.HasValue, SourceExpr.value, SourceExpr.NoTrueLeft, ha, hb, hc, applyOr,
    applyOperator]

/-- With `a` false in both, the evaluator stops at the end in both. -/
theorem evaluationExpression_ends_alike_iff_orExpr :
    ∃ v₁ v₂, (evaluationExpression (truthEnv false true true) sumScope fun _ => false).run
          (orExpr.tokens ++ []) = .ok v₁ [] ∧
        (evaluationExpression (truthEnv false false true) sumScope fun _ => false).run
          (orExpr.tokens ++ []) = .ok v₂ [] := by
  have hscope : ∀ b c, sumScope ∈ (truthEnv false b c).scopes := fun b c =>
    List.mem_singleton_self sumScope
  have hnil : NoBuildtin [] := trivial
  exact (evaluationExpression_ends_alike_iff (hscope true true) (hscope false true)
    orExpr_wellFormed (fun _ => false) hnil).1.mpr
      ⟨⟨_, hasValue_orExpr true true⟩, _, hasValue_orExpr false true⟩

end SocialGaming
