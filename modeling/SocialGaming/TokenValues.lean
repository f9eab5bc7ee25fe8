import SocialGaming.ExpressionEvaluation
import SocialGaming.Visibility

/-!
# The value of a single token

An expression bottoms out in single tokens: a variable or a literal. Both kinds are decided in the
same line, which asks the scope that binds the token whether it binds it. The answer is always yes,
so a literal is never read as one: no scope binds it, and the scope that is asked is the null
pointer. A variable is then taken from the scope that was passed, whichever scope binds it.

Literals are read by `parseValue` alone. In a string it looks for one name in braces, and both the
name it looks up and the text it puts back are off by a brace.

## Main definitions

* `ResolvesLeaf` — what a single token should give
* `StringToken` — a quoted string, without braces or with one name in braces
* `StringToken.value` — the text it stands for

## Main results

* `evaluationExpression_leaf_iff` — a single token is resolved exactly if the scope that is passed
  binds it
* `parseValue_string_iff` — which strings are read right
-/

namespace SocialGaming

open Relation (ReflTransGen)

/-! ### Variables and literals -/

section

variable {ι : Type} {s : Env ι} {scope : Scope ι} {token : String} {rest : List String}

/-- What a single token should give: if some scope binds it, the value of its variable, and
otherwise its value as a literal, with just the token consumed. The null pointer is never
dereferenced. -/
structure ResolvesLeaf (s : Env ι) (scope : Scope ι) (token : String) (rest : List String)
    (result : EStateM.Result (Fault Exn) (List String) VarType) : Prop where
  variable_of_bound : (∃ owner ∈ s.scopes, owner.hasVar token) →
    ∃ p, s.getVariable token = some p ∧ result = .ok (s.heap.value p) rest
  literal_of_unbound : (∀ owner ∈ s.scopes, ¬ owner.hasVar token) →
    ∀ v, parseValue s.heap scope token = .ok v → result = .ok v rest
  not_null : ∀ t, result ≠ .error (.undefined .nullDeref) t

/-- A token that the scope that is passed does not bind: either no scope does, or the variable is
taken from one that does not. -/
theorem evaluateToken_null (h : scope.getVariable token = none) :
    ∃ t, (evaluateToken s scope).run (token :: rest) = .error (.undefined .nullDeref) t := by
  rcases howner : s.hasVar token with _ | owner
  · exact ⟨token :: rest, by simp [evaluateToken, howner]⟩
  · have hhas : owner.hasVar token = true := Env.hasVar_of_hasVar_eq howner
    exact ⟨rest, by simp [evaluateToken, howner, hhas, h]⟩

/-- A name is bound in one scope, so the stack finds the variable that this scope finds. -/
theorem Env.getVariable_of_mem (hu : ScopeStack.UniquelyBound s.bindings)
    (hscope : scope ∈ s.scopes) {p : VarAddr} (hp : scope.getVariable token = some p) :
    s.getVariable token = some p := by
  have hframe : scope.frame token = some (some p) := by
    rw [Scope.getVariable_eq] at hp
    rcases hbound : scope.frame token with _ | q
    · rw [hbound] at hp
      cases hp
    · rw [hbound] at hp
      exact congrArg some hp
  have hlookup : ScopeStack.lookup s.bindings token = some (some p) :=
    (ScopeStack.lookup_eq_some_iff hu).mpr ⟨_, List.mem_map_of_mem hscope, hframe⟩
  rw [Env.getVariable_eq_lookup, hlookup]
  rfl

theorem evaluationExpression_leaf (hrest : NoBuildtin rest)
    (htoken : operatorMap.lookup token = none) (rightFirst : List String → Bool) :
    (evaluationExpression s scope rightFirst).run (token :: rest)
      = (evaluateToken s scope).run (token :: rest) :=
  evaluationExpression_go_token (buildtinAt_eq_none hrest) (operatorAt_eq_none htoken rest)

end

/-- **Single tokens.** Take any reachable state, a scope on its stack and a token that is not an
operator and not followed by a builtin. It is resolved, to its variable if it is bound in any scope
and to its literal value if not, exactly if the scope that is passed binds it to a variable. So no
literal is, and no variable of another scope: there the null pointer is dereferenced. -/
theorem evaluationExpression_leaf_iff {ι : Type} [DecidableEq ι] {nodes : ι → RuleNode ι}
    {s : Env ι} (h : Reachable nodes s) {scope : Scope ι} (hscope : scope ∈ s.scopes)
    {token : String} {rest : List String} (hrest : NoBuildtin rest)
    (htoken : operatorMap.lookup token = none) (rightFirst : List String → Bool) :
    ResolvesLeaf s scope token rest
        ((evaluationExpression s scope rightFirst).run (token :: rest)) ↔
      (scope.getVariable token).isSome := by
  rw [evaluationExpression_leaf hrest htoken]
  constructor
  · intro hres
    by_contra hnone
    obtain ⟨t, ht⟩ : ∃ t, (evaluateToken s scope).run (token :: rest)
        = .error (.undefined .nullDeref) t :=
      evaluateToken_null (Option.not_isSome_iff_eq_none.mp hnone)
    exact hres.not_null t ht
  · intro hsome
    obtain ⟨p, hp⟩ := Option.isSome_iff_exists.mp hsome
    have hrun : (evaluateToken s scope).run (token :: rest) = .ok (s.heap.value p) rest :=
      consumes_evaluateToken (K := fun _ => True) hscope (by rw [Env.valueIn, hp]; rfl) rest trivial
    rw [hrun]
    refine ⟨fun _ => ⟨p, Env.getVariable_of_mem h.uniquelyBound hscope hp, rfl⟩, ?_, ?_⟩
    · intro hunbound
      exact absurd (Scope.hasVar_of_getVariable hp) (hunbound scope hscope)
    · intro t ht
      cases ht

/-- A new environment after `setVariable("x", 1)`, and the scope of it. -/
theorem evaluationExpression_leaf_iff_assigned :
    ResolvesLeaf (({} : Env Unit).assign "x" (.value (.int 1)))
      (({} : Scope Unit).setVariable "x" (some 0)) "x" []
      ((evaluationExpression (({} : Env Unit).assign "x" (.value (.int 1)))
        (({} : Scope Unit).setVariable "x" (some 0)) fun _ => false).run ["x"]) := by
  have hset : Step matchNode {} (({} : Env Unit).assign "x" (.value (.int 1))) :=
    Step.op (.setVariable "x" (.value (.int 1))) 0 rfl
  have hscope : ({} : Scope Unit).setVariable "x" (some 0)
      ∈ (({} : Env Unit).assign "x" (.value (.int 1))).scopes := List.mem_singleton_self _
  have hrest : NoBuildtin [] := trivial
  exact (evaluationExpression_leaf_iff (ReflTransGen.single hset) hscope hrest (by decide)
    fun _ => false).mpr (by decide)

/-- The literal `5`, in a new environment. -/
theorem evaluationExpression_literal_null :
    Reachable matchNode {} ∧ ({} : Scope Unit) ∈ ({} : Env Unit).scopes ∧
      operatorMap.lookup "5" = none ∧ parseValue {} ({} : Scope Unit) "5" = .ok (.int 5) ∧
      ∀ rightFirst, (evaluationExpression ({} : Env Unit) {} rightFirst).run ["5"]
          = .error (.undefined .nullDeref) ["5"] ∧
        ¬ ResolvesLeaf ({} : Env Unit) {} "5" []
          ((evaluationExpression ({} : Env Unit) {} rightFirst).run ["5"]) := by
  refine ⟨.refl, List.mem_singleton_self _, by decide, by decide, fun rightFirst => ?_⟩
  have hrun : (evaluationExpression ({} : Env Unit) {} rightFirst).run ["5"]
      = .error (.undefined .nullDeref) ["5"] := rfl
  exact ⟨hrun, fun hres => hres.not_null _ hrun⟩

/-! ### Strings -/

/-- A quoted string, without braces or with one name in braces. -/
inductive StringToken where
  | plain (text : String)
  | braced (before name after : String)

/-- The text has no braces. -/
def NoBraces (text : String) : Prop := '\x7b' ∉ text.toList ∧ '\x7d' ∉ text.toList

instance (text : String) : Decidable (NoBraces text) := inferInstanceAs (Decidable (_ ∧ _))

/-- The string that a name is bound to. -/
def Scope.stringOf {ι : Type} (heap : Heap) (scope : Scope ι) (name : String) : Option String :=
  (scope.getVariable name).bind fun p => (heap.value p).getString.toOption

namespace StringToken

/-- The token. -/
def text : StringToken → String
  | plain text => text
  | braced before name after =>
    before ++ String.singleton '\x7b' ++ name ++ String.singleton '\x7d' ++ after

/-- It starts with a quote, and has no braces but those around the name. -/
def Quoted (token : StringToken) : Prop :=
  token.text.toList.head? = some '"' ∧
    match token with
    | plain text => NoBraces text
    | braced before _ after => NoBraces before ∧ NoBraces after

section

variable {ι : Type} (heap : Heap) (scope : Scope ι)

/-- The text that the token stands for: the string is put in the place of the name and its
braces. -/
def value : StringToken → Option String
  | plain text => some text
  | braced before name after =>
    (scope.stringOf heap name).map fun string => before ++ string ++ after

/-- The name that is looked up: the opening brace is left on. -/
def lookedUp (name : String) : String :=
  String.ofList ('\x7b' :: name.toList.takeWhile (· ≠ '\x7d'))

/-- What is left of the name and its closing brace. -/
def leftOver (name : String) : String :=
  String.ofList ((name.toList ++ ['\x7d']).dropWhile (· ≠ '\x7d'))

/-- The two slips cancel: the name with the opening brace is bound to a string as well, and the
string of the name is this one with what is left over. -/
def SlipsCancel : StringToken → Prop
  | plain _ => False
  | braced _ name _ => ∃ string, scope.stringOf heap (lookedUp name) = some string ∧
      scope.stringOf heap name = some (string ++ leftOver name)

end

end StringToken

example : StringToken.lookedUp "x" = "\x7bx" ∧ StringToken.leftOver "x" = "\x7d" := by decide

section

variable {ι : Type} {heap : Heap} {scope : Scope ι}

theorem parseValue_quoted {expression : String}
    (h : expression.toList.head? = some '"') :
    parseValue heap scope expression = substitute heap scope expression.toList := by
  have htrue : expression ≠ "true" := by
    rintro rfl
    cases h
  have hfalse : expression ≠ "false" := by
    rintro rfl
    cases h
  rw [parseValue, if_neg htrue, if_neg hfalse]
  rcases hlist : expression.toList with _ | ⟨first, rest⟩
  · rw [hlist] at h
    cases h
  · rw [hlist] at h
    obtain rfl : first = '"' := Option.some.inj h
    rfl

/-- Without an opening brace, `substr` throws. -/
theorem substitute_no_brace {expression : List Char} (h : '\x7b' ∉ expression) :
    substitute heap scope expression = .error (.thrown .outOfRange) := by
  have hfirst : expression.idxOf? '\x7b' = none := List.idxOf?_eq_none_iff.mpr h
  rw [substitute, hfirst]
  rfl

theorem idxOf?_append_cons {c : Char} {before after : List Char} (h : c ∉ before) :
    (before ++ c :: after).idxOf? c = some before.length := by
  induction before with
  | nil => simp [List.idxOf?_cons]
  | cons a before ih =>
    rw [List.mem_cons, not_or] at h
    simp [List.idxOf?_cons, Ne.symm h.1, ih h.2]

/-- With a closing brace after the opening one, what is looked up starts with the one and what is
put back starts with the other. -/
theorem substitute_braces {before name after : List Char} (hopen : '\x7b' ∉ before)
    (hclose : '\x7d' ∉ before) (hname : '\x7d' ∉ name) :
    substitute heap scope (before ++ '\x7b' :: (name ++ '\x7d' :: after))
      = (scope.getVariable (String.ofList ('\x7b' :: name))).elim (.error (.undefined .nullDeref))
          fun p => (heap.value p).getString.map fun string =>
            .string (String.ofList before ++ string ++ String.ofList ('\x7d' :: after)) := by
  have hfirst : (before ++ '\x7b' :: (name ++ '\x7d' :: after)).idxOf? '\x7b'
      = some before.length := idxOf?_append_cons hopen
  have hsplit : before ++ '\x7b' :: (name ++ '\x7d' :: after)
      = (before ++ '\x7b' :: name) ++ '\x7d' :: after := by simp
  have hsecond : (before ++ '\x7b' :: (name ++ '\x7d' :: after)).idxOf? '\x7d'
      = some (before ++ '\x7b' :: name).length := by
    rw [hsplit]
    exact idxOf?_append_cons (by simp [hclose, hname])
  have hle : before.length ≤ (before ++ '\x7b' :: name).length := by simp
  have hlooked : ((before ++ '\x7b' :: (name ++ '\x7d' :: after)).drop before.length).take
      ((before ++ '\x7b' :: name).length - before.length) = '\x7b' :: name := by
    rw [List.drop_left, List.length_append, Nat.add_sub_cancel_left, ← List.cons_append,
      List.take_left]
  have hbefore : (before ++ '\x7b' :: (name ++ '\x7d' :: after)).take before.length = before :=
    List.take_left
  have hafter : (before ++ '\x7b' :: (name ++ '\x7d' :: after)).drop
      (before ++ '\x7b' :: name).length = '\x7d' :: after := by
    rw [hsplit, List.drop_left]
  simp only [substitute, hfirst, hsecond, if_pos hle, hlooked, hbefore, hafter, List.isEmpty_cons,
    Bool.false_eq_true, if_false]
  rcases scope.getVariable (String.ofList ('\x7b' :: name)) with _ | p
  · rfl
  · rcases hstring : (heap.value p).getString with fault | string
    · simp [hstring, bind, Except.bind, Except.map]
    · simp [hstring, bind, Except.bind, Except.map, pure, Except.pure]

theorem substitute_braces_eq_ok_iff {before name after : List Char} (hopen : '\x7b' ∉ before)
    (hclose : '\x7d' ∉ before) (hname : '\x7d' ∉ name) {v : String} :
    substitute heap scope (before ++ '\x7b' :: (name ++ '\x7d' :: after)) = .ok (.string v) ↔
      ∃ string, scope.stringOf heap (String.ofList ('\x7b' :: name)) = some string ∧
        v = String.ofList before ++ string ++ String.ofList ('\x7d' :: after) := by
  rw [substitute_braces hopen hclose hname, Scope.stringOf]
  rcases scope.getVariable (String.ofList ('\x7b' :: name)) with _ | p
  · constructor
    · intro h
      cases h
    · rintro ⟨_, h, -⟩
      cases h
  · rw [Option.bind_some, Option.elim_some]
    rcases (heap.value p).getString with fault | string
    · constructor
      · intro h
        cases h
      · rintro ⟨_, h, -⟩
        cases h
    · constructor
      · intro h
        exact ⟨string, rfl, (VarType.string.inj (Except.ok.inj h)).symm⟩
      · rintro ⟨_, h, rfl⟩
        obtain rfl := Option.some.inj h
        rfl

/-- A name and its closing brace, split at the first closing brace. -/
theorem split_at_closing (name : List Char) :
    ∃ rest, (name ++ ['\x7d']).dropWhile (· ≠ '\x7d') = '\x7d' :: rest ∧
      name ++ ['\x7d'] = name.takeWhile (· ≠ '\x7d') ++ '\x7d' :: rest := by
  induction name with
  | nil => exact ⟨[], by simp, by simp⟩
  | cons c name ih =>
    by_cases hc : c = '\x7d'
    · subst hc
      exact ⟨name ++ ['\x7d'], by simp, by simp⟩
    · obtain ⟨rest, hdrop, hsplit⟩ := ih
      refine ⟨rest, ?_, by simp [hc, hsplit]⟩
      rw [List.cons_append, List.dropWhile_cons_of_pos (by simpa using hc), hdrop]

theorem StringToken.Quoted.substitute_eq_ok_iff {before name after : String}
    (h : (StringToken.braced before name after).Quoted) {v : String} :
    substitute heap scope (StringToken.braced before name after).text.toList = .ok (.string v) ↔
      ∃ string, scope.stringOf heap (StringToken.lookedUp name) = some string ∧
        v = before ++ (string ++ StringToken.leftOver name) ++ after := by
  obtain ⟨rest, hdrop, hsplit⟩ := split_at_closing name.toList
  have htext : (StringToken.braced before name after).text.toList = before.toList ++ '\x7b' ::
      (name.toList.takeWhile (· ≠ '\x7d') ++ '\x7d' :: (rest ++ after.toList)) := by
    have hrest : name.toList ++ '\x7d' :: after.toList
        = name.toList.takeWhile (· ≠ '\x7d') ++ '\x7d' :: (rest ++ after.toList) := by
      simpa using congrArg (· ++ after.toList) hsplit
    rw [← hrest]
    simp [StringToken.text]
  have hname : '\x7d' ∉ name.toList.takeWhile (· ≠ '\x7d') := by
    intro hmem
    simpa using List.mem_takeWhile_imp hmem
  rw [htext, substitute_braces_eq_ok_iff h.2.1.1 h.2.1.2 hname]
  have hv : ∀ string : String, String.ofList before.toList ++ string
      ++ String.ofList ('\x7d' :: (rest ++ after.toList))
      = before ++ (string ++ StringToken.leftOver name) ++ after := by
    intro string
    rw [StringToken.leftOver, hdrop]
    apply String.toList_injective
    simp
  simp only [hv, StringToken.lookedUp]

/-- **Strings.** A quoted string without braces is never read: `parseValue` throws. One with a name
in braces, bound to a string, is read right exactly if the two slips cancel. -/
theorem parseValue_string_iff {token : StringToken} (h : token.Quoted) {v : String}
    (hv : token.value heap scope = some v) :
    parseValue heap scope token.text = .ok (.string v) ↔ token.SlipsCancel heap scope := by
  rw [parseValue_quoted h.1]
  cases token with
  | plain text =>
    rw [StringToken.text, substitute_no_brace h.2.1]
    exact ⟨nofun, False.elim⟩
  | braced before name after =>
    obtain ⟨string, hstring, rfl⟩ := Option.map_eq_some_iff.mp hv
    rw [h.substitute_eq_ok_iff]
    constructor
    · rintro ⟨found, hfound, heq⟩
      rw [String.append_left_inj, String.append_right_inj] at heq
      exact ⟨found, hfound, heq ▸ hstring⟩
    · rintro ⟨found, hfound, heq⟩
      refine ⟨found, hfound, ?_⟩
      rw [hstring] at heq
      rw [Option.some.inj heq]

end

/-- A store of two strings. -/
def twoStrings : Heap := { cells := [.string "Ann", .string "Ann\x7d"], vars := [0, 1] }

/-- `x` is bound to the string `Ann`. -/
def annScope : Scope Unit := ({} : Scope Unit).setVariable "x" (some 0)

/-- `x` is bound to a string that ends in a brace, and `x` with a brace in front to the string
before that brace. -/
def bracedScope : Scope Unit :=
  (({} : Scope Unit).setVariable "\x7bx" (some 0)).setVariable "x" (some 1)

/-- A name in braces that is read right. -/
theorem parseValue_string_iff_braced :
    parseValue twoStrings bracedScope "\"\x7bx\x7d!\"" = .ok (.string "\"Ann\x7d!\"") := by
  have hquoted : (StringToken.braced "\"" "x" "!\"").Quoted :=
    ⟨rfl, (by decide : NoBraces "\"" ∧ NoBraces "!\"")⟩
  exact (parseValue_string_iff hquoted (by decide)).mpr ⟨"Ann", by decide, by decide⟩

/-- A string without braces throws, and one with a name in braces has the name looked up under
another one. -/
theorem parseValue_string_fails :
    (∃ token : StringToken, token.Quoted ∧ token.value twoStrings annScope = some "\"hello\"" ∧
      parseValue twoStrings annScope token.text = .error (.thrown .outOfRange)) ∧
    ∃ token : StringToken, token.Quoted ∧ token.value twoStrings annScope = some "\"hi Ann!\"" ∧
      parseValue twoStrings annScope token.text = .error (.undefined .nullDeref) := by
  refine ⟨⟨.plain "\"hello\"", ⟨rfl, ?_⟩, by decide, by decide⟩,
    ⟨.braced "\"hi " "x" "!\"", ⟨rfl, ?_⟩, by decide, by decide⟩⟩
  · exact (by decide : NoBraces "\"hello\"")
  · exact (by decide : NoBraces "\"hi " ∧ NoBraces "!\"")

end SocialGaming
