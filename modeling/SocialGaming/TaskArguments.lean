import SocialGaming.RuleLayout
import Mathlib.Data.List.Forall2

/-!
# The arguments of a task

`parseTask` makes the data of a task node of the expressions that its rule has as arguments. How
many of them it looks at depends on the kind of the rule alone. For four kinds it looks at none.

## Main definitions

* `encodedArguments` — how many arguments are looked at
* `taskList` — the data that is made of the tokens of the arguments
* `KeepsArguments` — the data has the tokens of every argument

## Main results

* `taskExpressions_eq` — the data of a task
* `keepsArguments_iff` — when no argument is lost
-/

namespace SocialGaming

/-- The number of arguments that `parseTask` looks at. -/
def encodedArguments : NodeType → ℕ
  | .sort | .deal | .message => 2
  | .scores => 1
  | .assignment => 2
  | .inputChoice => 5
  | _ => 0

/-- What is made of the first token of an argument: a name that is assigned to is quoted, and of a
player the `id` is taken. -/
def decoration : NodeType → ℕ → String → String
  | .assignment, 0 => fun token => "\"" ++ token ++ "\""
  | .inputChoice, 0 => fun token => token ++ ".id"
  | .inputChoice, 3 => fun token => "\"" ++ token ++ "\""
  | _, _ => id

/-- The entries of the data that are made of the tokens of the arguments. -/
def taskList (type : NodeType) (tokens : List (List String)) : List (List String) :=
  (tokens.take (encodedArguments type)).mapIdx fun i ts => ts.modifyHead (decoration type i)

theorem decoration_injective (type : NodeType) (i : ℕ) :
    Function.Injective (decoration type i) := by
  have hquoted : Function.Injective fun token : String => "\"" ++ token ++ "\"" := by
    intro s t h
    simpa using h
  have hid : Function.Injective fun token : String => token ++ ".id" := by
    intro s t h
    simpa using h
  rcases type with _ | _ | _ | _ | _ | _ | _ | _ | _ | _ | _ | _ | _
  case assignment => 
    rcases i with _ | i
    · exact hquoted
    · exact Function.injective_id
  case inputChoice =>
    rcases i with _ | _ | _ | _ | i
    · exact hid
    · exact Function.injective_id
    · exact Function.injective_id
    · exact hquoted
    · exact Function.injective_id
  all_goals exact Function.injective_id

/-- These are the tokens of the arguments of the rule. An argument has at least one. -/
def HasTokens (ruleNode : SyntaxNode) (tokens : List (List String)) : Prop :=
  List.Forall₂ (fun arg ts => parseExpression (some arg) = .ok ts ∧ ts ≠ [])
    ruleNode.namedChildren tokens

section

variable {ruleNode : SyntaxNode} {tokens : List (List String)}

theorem HasTokens.ne_nil (h : HasTokens ruleNode tokens) : ∀ ts ∈ tokens, ts ≠ [] := by
  intro ts hts
  obtain ⟨i, hi, rfl⟩ := List.mem_iff_getElem.mp hts
  have hlength := h.length_eq
  exact (h.get (by omega) hi).2

/-- An argument that is not there is dereferenced. -/
theorem HasTokens.parseExpression_eq (h : HasTokens ruleNode tokens) (i : ℕ) :
    parseExpression (ruleNode.getNamedChild i) =
      match tokens[i]? with
      | some ts => .ok ts
      | none => .error (.undefined .nullDeref) := by
  have hargs : ∀ (args : List SyntaxNode) (tokens : List (List String)),
      List.Forall₂ (fun arg ts => parseExpression (some arg) = .ok ts ∧ ts ≠ []) args tokens →
      ∀ i : ℕ, parseExpression args[i]? = match tokens[i]? with
        | some ts => .ok ts
        | none => .error (.undefined .nullDeref) := by
    intro args tokens h
    induction h with
    | nil =>
      intro i
      rfl
    | cons harg _ ih =>
      rintro (_ | i)
      · exact harg.1
      · exact ih i
  exact hargs _ _ h i

theorem parseExpressions_eq (h : HasTokens ruleNode tokens) (count : ℕ) :
    parseExpressions ruleNode count =
      if count ≤ tokens.length then .ok (tokens.take count)
      else .error (.undefined .nullDeref) := by
  induction count with
  | zero => rfl
  | succ count ih =>
    have hsucc : parseExpressions ruleNode (count + 1) = (do
        let first ← parseExpressions ruleNode count
        let last ← parseExpression (ruleNode.getNamedChild count)
        return first ++ [last]) := by
      rw [parseExpressions, List.range_succ, List.mapM_append, ← parseExpressions]
      simp
    rw [hsucc, ih, h.parseExpression_eq]
    by_cases hlt : count < tokens.length
    · rw [if_pos (by omega), if_pos (by omega), List.getElem?_eq_getElem hlt,
        ← List.take_concat_get' _ _ hlt]
      rfl
    · rw [if_neg (show ¬ count + 1 ≤ tokens.length by omega),
        List.getElem?_eq_none (by omega)]
      by_cases hle : count ≤ tokens.length
      · rw [if_pos hle]
        rfl
      · rw [if_neg hle]
        rfl

/-- The kinds whose arguments are taken as they are. -/
theorem taskList_eq {type : NodeType} (h : ∀ i, decoration type i = id) :
    taskList type tokens = tokens.take (encodedArguments type) := by
  simp [taskList, h, List.mapIdx_eq_zipIdx_map]

/-- There is a first token to quote. -/
theorem taskExpressions_assignment (h : HasTokens ruleNode tokens) :
    taskExpressions ruleNode .assignment =
      if 2 ≤ tokens.length then .ok (taskList .assignment tokens)
      else .error (.undefined .nullDeref) := by
  have hne := h.ne_nil
  simp only [taskExpressions, h.parseExpression_eq]
  rcases tokens with _ | ⟨t₀, tokens⟩
  · rfl
  obtain ⟨_, _, rfl⟩ := List.exists_cons_of_ne_nil (hne t₀ (by simp))
  rcases tokens with _ | ⟨t₁, tokens⟩
  · rfl
  · rw [if_pos (by simp)]
    simp [taskList, encodedArguments, decoration]
    rfl

theorem taskExpressions_inputChoice (h : HasTokens ruleNode tokens) :
    taskExpressions ruleNode .inputChoice =
      if 5 ≤ tokens.length then .ok (taskList .inputChoice tokens)
      else .error (.undefined .nullDeref) := by
  have hne := h.ne_nil
  simp only [taskExpressions, h.parseExpression_eq]
  rcases tokens with _ | ⟨t₀, tokens⟩
  · rfl
  obtain ⟨_, _, rfl⟩ := List.exists_cons_of_ne_nil (hne t₀ (by simp))
  rcases tokens with _ | ⟨t₁, _ | ⟨t₂, _ | ⟨t₃, tokens⟩⟩⟩
  · rfl
  · rfl
  · rfl
  obtain ⟨_, _, rfl⟩ := List.exists_cons_of_ne_nil (hne t₃ (by simp))
  rcases tokens with _ | ⟨t₄, tokens⟩
  · rfl
  · rw [if_pos (by simp)]
    simp [taskList, encodedArguments, decoration]
    rfl

/-- **The data of a task.** -/
theorem taskExpressions_eq (h : HasTokens ruleNode tokens) (type : NodeType) :
    taskExpressions ruleNode type =
      if encodedArguments type ≤ tokens.length then .ok (taskList type tokens)
      else .error (.undefined .nullDeref) := by
  have hnone : ∀ {type : NodeType}, encodedArguments type = 0 → (.ok [] : Except (Fault String)
      (List (List String))) = if encodedArguments type ≤ tokens.length then
        .ok (taskList type tokens) else .error (.undefined .nullDeref) := by
    intro type hzero
    simp [taskList, hzero]
  have hplain : ∀ {type : NodeType}, (∀ i, decoration type i = id) →
      taskExpressions ruleNode type = parseExpressions ruleNode (encodedArguments type) →
      taskExpressions ruleNode type = if encodedArguments type ≤ tokens.length then
        .ok (taskList type tokens) else .error (.undefined .nullDeref) := by
    intro type hid hparse
    rw [hparse, parseExpressions_eq h, taskList_eq hid]
  rcases type with _ | _ | _ | _ | _ | _ | _ | _ | _ | _ | _ | _ | _
  case assignment => exact taskExpressions_assignment h
  case inputChoice => exact taskExpressions_inputChoice h
  case sort => exact hplain (fun _ => rfl) rfl
  case deal => exact hplain (fun _ => rfl) rfl
  case message => exact hplain (fun _ => rfl) rfl
  case scores => exact hplain (fun _ => rfl) rfl
  all_goals exact hnone rfl

end

/-! ### No argument is lost -/

/-- The rule is a task of the kind, whose arguments have these tokens. -/
structure IsTaskRule (node ruleNode : SyntaxNode) (type : NodeType) (tokens : List (List String)) :
    Prop where
  child : node.getNamedChild 0 = some ruleNode
  kind : taskRules.lookup ruleNode.type = some type
  arguments : HasTokens ruleNode tokens

/-- `parseTask` makes a node of this type, with this data. -/
def MakesTask (node : SyntaxNode) (type : NodeType) (list : List (List String)) : Prop :=
  ∀ made, (parseTask node).run made = .ok made.length (made ++ [{ list := list, type := type }])

/-- For each argument, the data has its tokens. And a rule of the same kind that has other tokens
for an argument has other data. -/
structure KeepsArguments (node : SyntaxNode) (type : NodeType) (tokens : List (List String)) :
    Prop where
  contains : ∃ list, MakesTask node type list ∧
    ∀ (i : ℕ) ts, tokens[i]? = some ts → list[i + 1]? = some (ts.modifyHead (decoration type i))
  differs : ∀ node' ruleNode' tokens' list list', IsTaskRule node' ruleNode' type tokens' →
    (∃ (i : ℕ) (ts ts' : List String), tokens[i]? = some ts ∧ tokens'[i]? = some ts' ∧ ts ≠ ts') →
    MakesTask node type list → MakesTask node' type list' → list ≠ list'

section

variable {node ruleNode : SyntaxNode} {type : NodeType} {tokens list : List (List String)}

/-- With enough arguments, the node is made of the first of them. -/
theorem IsTaskRule.makesTask (h : IsTaskRule node ruleNode type tokens)
    (hle : encodedArguments type ≤ tokens.length) :
    MakesTask node type ([ruleNode.type] :: taskList type tokens) := by
  intro made
  refine parseTask_run h.child ?_ made
  rw [taskData, h.kind]
  simp only [taskExpressions_eq h.arguments, if_pos hle]
  rfl

/-- Otherwise none is made. -/
theorem IsTaskRule.of_makesTask (h : IsTaskRule node ruleNode type tokens)
    (hmakes : MakesTask node type list) : encodedArguments type ≤ tokens.length ∧
      list = [ruleNode.type] :: taskList type tokens := by
  by_cases hle : encodedArguments type ≤ tokens.length
  · have hrun := (h.makesTask hle []).symm.trans (hmakes [])
    exact ⟨hle, by simpa using hrun.symm⟩
  · have hdata : taskData ruleNode = .error (.undefined .nullDeref) := by
      rw [taskData, h.kind]
      simp only [taskExpressions_eq h.arguments, if_neg hle]
      rfl
    have hrun := hmakes []
    rw [parseTask, h.child] at hrun
    simp [hdata, Prog.ofExcept] at hrun

theorem getElem?_taskList {i : ℕ} (hi : i < encodedArguments type) :
    (taskList type tokens)[i]? = tokens[i]?.map (List.modifyHead (decoration type i)) := by
  rw [taskList, List.getElem?_mapIdx, List.getElem?_take_of_lt hi]

theorem modifyHead_injective {f : String → String} (hf : Function.Injective f) :
    Function.Injective (List.modifyHead f) := by
  rintro (_ | ⟨a, l⟩) (_ | ⟨b, m⟩) h
  · rfl
  · cases h
  · cases h
  · simp only [List.modifyHead_cons, List.cons.injEq] at h
    rw [hf h.1, h.2]

/-- Equal data is made of arguments that have the same tokens, as far as they are looked at. -/
theorem taskList_inj {tokens' : List (List String)} {i : ℕ} (hi : i < encodedArguments type)
    {ts ts' : List String} (hts : tokens[i]? = some ts) (hts' : tokens'[i]? = some ts')
    (h : taskList type tokens = taskList type tokens') : ts = ts' := by
  have hentry : (taskList type tokens)[i]? = (taskList type tokens')[i]? := by rw [h]
  rw [getElem?_taskList hi, getElem?_taskList hi, hts, hts', Option.map_some, Option.map_some,
    Option.some_inj] at hentry
  exact modifyHead_injective (decoration_injective type i) hentry

/-- **When no argument of a task is lost**: when the rule has as many as are looked at. -/
theorem keepsArguments_iff (h : IsTaskRule node ruleNode type tokens) :
    KeepsArguments node type tokens ↔ ruleNode.getNumNamedChildren = encodedArguments type := by
  have hlength : ruleNode.getNumNamedChildren = tokens.length := h.arguments.length_eq
  rw [hlength]
  constructor
  · intro hkeeps
    obtain ⟨list, hmakes, hcontains⟩ := hkeeps.contains
    obtain ⟨hle, rfl⟩ := h.of_makesTask hmakes
    by_contra hne
    -- the first argument that is not looked at
    have hlt : encodedArguments type < tokens.length := by omega
    have hentry := hcontains _ _ (List.getElem?_eq_getElem hlt)
    have hshort : (taskList type tokens).length ≤ encodedArguments type := by
      rw [taskList, List.length_mapIdx]
      exact List.length_take_le _ _
    rw [List.getElem?_cons_succ, List.getElem?_eq_none hshort] at hentry
    cases hentry
  · intro heq
    refine ⟨⟨_, h.makesTask (Nat.le_of_eq heq.symm), ?_⟩, ?_⟩
    · intro i ts hts
      obtain ⟨hi, -⟩ := List.getElem?_eq_some_iff.mp hts
      rw [List.getElem?_cons_succ, getElem?_taskList (by omega), hts, Option.map_some]
    · rintro node' ruleNode' tokens' list list' h' ⟨i, ts, ts', hts, hts', hne⟩ hmakes hmakes' hlist
      obtain ⟨-, rfl⟩ := h.of_makesTask hmakes
      obtain ⟨-, rfl⟩ := h'.of_makesTask hmakes'
      obtain ⟨hi, -⟩ := List.getElem?_eq_some_iff.mp hts
      exact hne (taskList_inj (by omega) hts hts' (List.cons.inj hlist).2)

end

/-- A task with names for arguments. -/
def taskNode (kind : String) (arguments : List String) : SyntaxNode :=
  .mk kind kind.toList none true (arguments.map fun text => leafNode text "argument")

/-- The rule that is this task. -/
def taskRuleNode (kind : String) (arguments : List String) : SyntaxNode :=
  .mk "rule" kind.toList none true [taskNode kind arguments]

theorem isTaskRule_message : IsTaskRule (taskRuleNode "message" ["players", "winners"])
    (taskNode "message" ["players", "winners"]) .message [["players"], ["winners"]] :=
  ⟨rfl, rfl, .cons ⟨rfl, by simp⟩ (.cons ⟨rfl, by simp⟩ .nil)⟩

theorem isTaskRule_reverse {list : String} (hlist : list = "winners" ∨ list = "losers") :
    IsTaskRule (taskRuleNode "reverse" [list]) (taskNode "reverse" [list]) .reverse [[list]] := by
  rcases hlist with rfl | rfl
  · exact ⟨rfl, rfl, .cons ⟨rfl, by simp⟩ .nil⟩
  · exact ⟨rfl, rfl, .cons ⟨rfl, by simp⟩ .nil⟩

theorem keepsArguments_message :
    KeepsArguments (taskRuleNode "message" ["players", "winners"]) .message
      [["players"], ["winners"]] :=
  (keepsArguments_iff isTaskRule_message).mpr rfl

/-- Whatever list is to be reversed, the data is the same. -/
theorem keepsArguments_reverse :
    MakesTask (taskRuleNode "reverse" ["winners"]) .reverse [["reverse"]] ∧
      MakesTask (taskRuleNode "reverse" ["losers"]) .reverse [["reverse"]] ∧
      ¬ KeepsArguments (taskRuleNode "reverse" ["winners"]) .reverse [["winners"]] := by
  have hwinners : MakesTask (taskRuleNode "reverse" ["winners"]) .reverse [["reverse"]] :=
    (isTaskRule_reverse (Or.inl rfl)).makesTask (Nat.zero_le _)
  have hlosers : MakesTask (taskRuleNode "reverse" ["losers"]) .reverse [["reverse"]] :=
    (isTaskRule_reverse (Or.inr rfl)).makesTask (Nat.zero_le _)
  refine ⟨hwinners, hlosers, ?_⟩
  intro hkeeps
  exact hkeeps.differs _ _ _ _ _ (isTaskRule_reverse (Or.inr rfl))
    ⟨0, ["winners"], ["losers"], rfl, rfl, by decide⟩ hwinners hlosers rfl

end SocialGaming
