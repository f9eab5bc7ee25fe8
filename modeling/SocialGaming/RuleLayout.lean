import SocialGaming.RuleInterpreter

/-!
# What the parser builds

The rules of a source, as trees, and the nodes the parser makes of them. A rule's node is made
before those of its bodies, and the bodies are parsed in order, so the nodes of a rule take a
segment of the store, in the order of the source. What stands in this segment can be written down
without running the parser; that the parser writes it is the one induction over the parser.

## Main definitions

* `SourceRule`, `SourceEntries`, `SourceBody` — rules, the entries of a match, and bodies
* `SourceRule.Represents` — a syntax node is that of a rule
* `SourceRule.layout`, `SourceBody.layout` — the nodes made of a rule, and of a body

## Main results

* `parseRule_run`, `parseControlBody_run` — the parser appends the layout
* `parseRules_run` — so does `parseRules`, to an empty store
-/

namespace SocialGaming

/-! ### Source rules -/

mutual

/-- A rule, with the data its node has. -/
inductive SourceRule where
  | task (type : NodeType) (list : List (List String))
  /-- A for rule or a parallel one. -/
  | loop (type : NodeType) (element list : List String) (body : SourceBody)
  | matchRule (target : List String) (entries : SourceEntries)

/-- The entries of a match rule. -/
inductive SourceEntries where
  | nil
  | cons (guard : List String) (body : SourceBody) (rest : SourceEntries)

/-- The rules of a body. -/
inductive SourceBody where
  | nil
  | cons (rule : SourceRule) (rest : SourceBody)

end

/-- The children of a body that are rules. -/
def SyntaxNode.rules (bodyNode : SyntaxNode) : List SyntaxNode :=
  bodyNode.namedChildren.filter fun child => child.type ≠ "comment"

mutual

/-- The syntax node is that of the rule. -/
def SourceRule.Represents : SourceRule → SyntaxNode → Prop
  | .task type list, node => node.type = "rule" ∧ ∃ ruleNode, node.getNamedChild 0 = some ruleNode ∧
      ruleNode.type ∉ ["for", "parallel_for", "match"] ∧ taskData ruleNode = .ok (type, list)
  | .loop type element list body, node =>
    node.type = "rule" ∧ ∃ forRule, node.getNamedChild 0 = some forRule ∧
      (forRule.type = "for" ∧ type = .forLoop ∨ forRule.type = "parallel_for" ∧ type = .parallel) ∧
      parseExpression (forRule.getChildByFieldName "element") = .ok element ∧
      parseExpression (forRule.getChildByFieldName "list") = .ok list ∧
      ∃ bodyNode, forRule.getChildByFieldName "body" = some bodyNode ∧
        body.Represents bodyNode.rules
  | .matchRule target entries, node =>
    node.type = "rule" ∧ ∃ rule, node.getNamedChild 0 = some rule ∧ rule.type = "match" ∧
      parseExpression (rule.getChildByFieldName "target") = .ok target ∧
      entries.Represents (rule.namedChildren.drop 1)

/-- The syntax nodes are those of the entries. -/
def SourceEntries.Represents : SourceEntries → List SyntaxNode → Prop
  | .nil, nodes => nodes = []
  | .cons guard body rest, nodes => ∃ matchEntry entries, nodes = matchEntry :: entries ∧
      parseExpression (matchEntry.getChildByFieldName "guard") = .ok guard ∧
      (∃ bodyNode, matchEntry.getChildByFieldName "body" = some bodyNode ∧
        body.Represents bodyNode.rules) ∧
      rest.Represents entries

/-- The syntax nodes are those of the body's rules. -/
def SourceBody.Represents : SourceBody → List SyntaxNode → Prop
  | .nil, nodes => nodes = []
  | .cons rule rest, nodes => ∃ node others, nodes = node :: others ∧ rule.Represents node ∧
      rest.Represents others

end

/-! ### The layout -/

mutual

/-- The number of nodes made of a rule. -/
def SourceRule.size : SourceRule → ℕ
  | .task _ _ => 1
  | .loop _ _ _ body => body.size + 1
  | .matchRule _ entries => entries.size + 1

/-- The number of nodes made of the bodies of entries. -/
def SourceEntries.size : SourceEntries → ℕ
  | .nil => 0
  | .cons _ body rest => body.size + rest.size

/-- The number of nodes made of a body. -/
def SourceBody.size : SourceBody → ℕ
  | .nil => 0
  | .cons rule rest => rule.size + rest.size

end

/-- The address of the first node of a body made at `base`. -/
def SourceBody.first (base : ℕ) : SourceBody → Option ℕ
  | .nil => none
  | .cons _ _ => some base

/-- The children that a match node has for entries whose bodies are made at `base`. -/
def SourceEntries.childNodes (base : ℕ) : SourceEntries → List (ChildNode ℕ)
  | .nil => []
  | .cons guard body rest =>
    { key := guard, child := body.first base } :: rest.childNodes (base + body.size)

/-- The node of a rule made at `base`. -/
def SourceRule.node (base : ℕ) (parent next : Option ℕ) : SourceRule → RuleNode ℕ
  | .task type list => { list, type, nextNode := next, parentNode := parent }
  | .loop type element list body =>
    { list := [element, list], type, nextNode := next, parentNode := parent
      children := some [{ key := ["true"], child := body.first (base + 1) }] }
  | .matchRule target entries =>
    { list := [target], type := .matchRule, nextNode := next, parentNode := parent
      children := some (entries.childNodes (base + 1)) }

mutual

/-- The nodes of the bodies of a rule made at `base`. -/
def SourceRule.inner (base : ℕ) : SourceRule → List (RuleNode ℕ)
  | .task _ _ => []
  | .loop _ _ _ body => body.layout (base + 1) (some base)
  | .matchRule _ entries => entries.layout (base + 1) base

/-- The nodes of the bodies of entries, made at `base` under the match node `owner`. -/
def SourceEntries.layout (base owner : ℕ) : SourceEntries → List (RuleNode ℕ)
  | .nil => []
  | .cons _ body rest => body.layout base (some owner) ++ rest.layout (base + body.size) owner

/-- The nodes of a body made at `base`: each rule's node, with the next rule as its next node,
and the nodes below it. -/
def SourceBody.layout (base : ℕ) (parent : Option ℕ) : SourceBody → List (RuleNode ℕ)
  | .nil => []
  | .cons rule rest =>
    rule.node base parent (rest.first (base + rule.size)) :: (rule.inner base ++
      rest.layout (base + rule.size) parent)

end

/-- The nodes of a rule. -/
def SourceRule.layout (base : ℕ) (parent next : Option ℕ) (rule : SourceRule) :
    List (RuleNode ℕ) :=
  rule.node base parent next :: rule.inner base

mutual

theorem SourceRule.length_inner (base : ℕ) (rule : SourceRule) :
    (rule.inner base).length + 1 = rule.size := by
  cases rule with
  | task type list => rfl
  | loop type element list body =>
    rw [SourceRule.inner, SourceRule.size, body.length_layout]
  | matchRule target entries =>
    rw [SourceRule.inner, SourceRule.size, entries.length_layout]

theorem SourceEntries.length_layout (base owner : ℕ) (entries : SourceEntries) :
    (entries.layout base owner).length = entries.size := by
  cases entries with
  | nil => rfl
  | cons guard body rest =>
    rw [SourceEntries.layout, SourceEntries.size, List.length_append, body.length_layout,
      rest.length_layout]

theorem SourceBody.length_layout (base : ℕ) (parent : Option ℕ) (body : SourceBody) :
    (body.layout base parent).length = body.size := by
  cases body with
  | nil => rfl
  | cons rule rest =>
    have hinner := rule.length_inner base
    rw [SourceBody.layout, SourceBody.size, List.length_cons, List.length_append,
      rest.length_layout]
    omega

end

/-! ### Changing one node -/

section Store

variable {α : Type}

theorem modify_length_append (l l' : List α) (f : α → α) :
    (l ++ l').modify l.length f = l ++ l'.modify 0 f := by
  induction l with
  | nil => rfl
  | cons a l ih => rw [List.cons_append, List.length_cons, List.modify_succ_cons, ih]; rfl

end Store

theorem newNode_run (node : RuleNode ℕ) (made : List (RuleNode ℕ)) :
    (newNode node).run made = .ok made.length (made ++ [node]) := rfl

theorem modifyNode_run (i : ℕ) (f : RuleNode ℕ → RuleNode ℕ) (made : List (RuleNode ℕ)) :
    (modifyNode i f).run made = .ok () (made.modify i f) := rfl

/-- Changing the node at which a segment starts. -/
theorem modifyNode_run_append (made : List (RuleNode ℕ)) (node : RuleNode ℕ)
    (rest : List (RuleNode ℕ)) (f : RuleNode ℕ → RuleNode ℕ) :
    (modifyNode made.length f).run (made ++ node :: rest) = .ok () (made ++ f node :: rest) := by
  rw [modifyNode_run, modify_length_append, List.modify_zero_cons]

theorem SourceRule.node_with_next (base : ℕ) (parent next : Option ℕ) (rule : SourceRule) :
    { rule.node base parent none with nextNode := next } = rule.node base parent next := by
  cases rule <;> rfl

theorem SourceRule.node_with_parent (base : ℕ) (parent : Option ℕ) (rule : SourceRule) :
    { rule.node base none none with parentNode := parent } = rule.node base parent none := by
  cases rule <;> rfl

theorem SourceRule.nextNode_node (base : ℕ) (parent next : Option ℕ) (rule : SourceRule) :
    (rule.node base parent next).nextNode = next := by
  cases rule <;> rfl

/-! ### Running the parser -/

section Parser

variable {p : Option SyntaxNode → Option ℕ → Parse (Option ℕ)}

theorem parseRule_task {node ruleNode : SyntaxNode} (hnode : node.type = "rule")
    (hchild : node.getNamedChild 0 = some ruleNode)
    (htype : ruleNode.type ∉ ["for", "parallel_for", "match"]) :
    parseRule p node = parseTask node := by
  simp only [List.mem_cons, List.not_mem_nil, or_false, not_or] at htype
  rw [parseRule, hnode, hchild]
  simp [htype, Prog.ofExcept]

theorem parseRule_for {node forRule : SyntaxNode} {type : NodeType} (hnode : node.type = "rule")
    (hchild : node.getNamedChild 0 = some forRule)
    (htype : forRule.type = "for" ∧ type = .forLoop ∨
      forRule.type = "parallel_for" ∧ type = .parallel) :
    parseRule p node = parseForRule p node type := by
  rw [parseRule, hnode, hchild]
  rcases htype with ⟨htype, rfl⟩ | ⟨htype, rfl⟩
  · simp [htype, Prog.ofExcept]
  · simp [htype, Prog.ofExcept]

theorem parseRule_match {node rule : SyntaxNode} (hnode : node.type = "rule")
    (hchild : node.getNamedChild 0 = some rule) (htype : rule.type = "match") :
    parseRule p node = parseMatchRule p node := by
  rw [parseRule, hnode, hchild]
  simp [htype, Prog.ofExcept]

theorem parseTask_run {node ruleNode : SyntaxNode} {type : NodeType} {list : List (List String)}
    (hchild : node.getNamedChild 0 = some ruleNode) (hdata : taskData ruleNode = .ok (type, list))
    (made : List (RuleNode ℕ)) :
    (parseTask node).run made = .ok made.length (made ++ [{ list := list, type := type }]) := by
  rw [parseTask, hchild]
  simp [hdata, newNode_run]

/-- A for rule's node is made, its body is parsed, and then the node gets its child. -/
theorem parseForRule_run {node forRule bodyNode : SyntaxNode} {type : NodeType}
    {element list : List String} {first : Option ℕ} {made inner : List (RuleNode ℕ)}
    (hchild : node.getNamedChild 0 = some forRule)
    (helement : parseExpression (forRule.getChildByFieldName "element") = .ok element)
    (hlist : parseExpression (forRule.getChildByFieldName "list") = .ok list)
    (hbody : forRule.getChildByFieldName "body" = some bodyNode)
    (hrun : ∀ forNode, (p (some bodyNode) (some made.length)).run (made ++ [forNode])
      = .ok first (made ++ forNode :: inner)) :
    (parseForRule p node type).run made = .ok made.length
      (made ++ { list := [element, list], type, children := some [⟨["true"], first⟩] } ::
        inner) := by
  rw [parseForRule, hchild]
  simp [helement, hlist, hbody, newNode_run, hrun, setChildren, modifyNode_run_append]

/-- A comment is skipped. -/
theorem foldlM_rules (parent : Option ℕ) (nodes : List SyntaxNode) (acc : Option ℕ × Option ℕ) :
    nodes.foldlM (parseControlBodyStep p parent) acc
      = (nodes.filter fun child => child.type ≠ "comment").foldlM
          (parseControlBodyStep p parent) acc := by
  induction nodes generalizing acc with
  | nil => rfl
  | cons node nodes ih =>
    by_cases hcomment : node.type = "comment"
    · have hskip : parseControlBodyStep p parent acc node = pure acc := by
        rw [parseControlBodyStep, if_pos hcomment]
      rw [List.filter_cons_of_neg (by simpa using hcomment), List.foldlM_cons, hskip, pure_bind, ih]
    · rw [List.filter_cons_of_pos (by simpa using hcomment), List.foldlM_cons, List.foldlM_cons]
      exact congrArg _ (funext ih)

/-- The first rule of a body. -/
theorem parseControlBodyStep_first (parent first : Option ℕ) {child : SyntaxNode} {base : ℕ}
    {made rest : List (RuleNode ℕ)} {rule : SourceRule} (hbase : made.length = base)
    (hcomment : child.type ≠ "comment")
    (hrun : (parseRule p child).run made
      = .ok base (made ++ rule.node base none none :: rest)) :
    (parseControlBodyStep p parent (none, first) child).run made
      = .ok (some base, some base) (made ++ rule.node base parent none :: rest) := by
  subst hbase
  rw [parseControlBodyStep, if_neg hcomment]
  simp [hrun, setParentNode, modifyNode_run_append, SourceRule.node_with_parent]

/-- A rule after the one at `prev`, which gets it as its next node. -/
theorem parseControlBodyStep_next (parent first : Option ℕ) {child : SyntaxNode} {base : ℕ}
    {made tail rest : List (RuleNode ℕ)} {prev : RuleNode ℕ} {rule : SourceRule}
    (hbase : (made ++ prev :: tail).length = base) (hcomment : child.type ≠ "comment")
    (hrun : (parseRule p child).run (made ++ prev :: tail)
      = .ok base (made ++ prev :: tail ++ rule.node base none none :: rest)) :
    (parseControlBodyStep p parent (some made.length, first) child).run (made ++ prev :: tail)
      = .ok (some base, first)
          (made ++ { prev with nextNode := some base } :: tail ++
            rule.node base parent none :: rest) := by
  subst hbase
  rw [parseControlBodyStep, if_neg hcomment]
  simp only [EStateM.run_bind, hrun, setParentNode, modifyNode_run_append,
    SourceRule.node_with_parent]
  rw [List.append_assoc, List.cons_append, setNextNode, modifyNode_run_append]
  simp

/-- One entry of a match: its body is parsed, and then the match node gets one more child. -/
theorem parseMatchEntry_run {matchEntry bodyNode : SyntaxNode} {guard : List String}
    {first : Option ℕ} {made tail inner : List (RuleNode ℕ)} {matchNode : RuleNode ℕ}
    {children : List (ChildNode ℕ)} (hchildren : matchNode.children = some children)
    (hguard : parseExpression (matchEntry.getChildByFieldName "guard") = .ok guard)
    (hbody : matchEntry.getChildByFieldName "body" = some bodyNode)
    (hrun : (p (some bodyNode) (some made.length)).run (made ++ matchNode :: tail)
      = .ok first (made ++ matchNode :: (tail ++ inner))) :
    (parseMatchEntry p made.length matchEntry).run (made ++ matchNode :: tail)
      = .ok () (made ++ { matchNode with children := some (children ++ [⟨guard, first⟩]) } ::
          (tail ++ inner)) := by
  rw [parseMatchEntry, hbody]
  simp [hguard, hrun, setChildren, modifyNode_run_append, hchildren]

end Parser

/-! ### The parser appends the layout -/

theorem SyntaxNode.height_le_of_mem_rules {node child : SyntaxNode} {depth : ℕ}
    (h : node.height ≤ depth + 1) : child ∈ node.rules → child.height ≤ depth := by
  intro hmem
  have := height_lt_of_mem_namedChildren (List.mem_of_mem_filter hmem)
  omega

theorem parseControlBody_succ {depth : ℕ} (bodyNode : SyntaxNode) (parent : Option ℕ) :
    parseControlBody (depth + 1) (some bodyNode) parent
      = Prod.snd <$> bodyNode.rules.foldlM
          (parseControlBodyStep (parseControlBody depth) parent) (none, none) := by
  rw [parseControlBody, deref_some, SyntaxNode.rules, ← foldlM_rules, map_eq_pure_bind]
  rfl

mutual

/-- A rule. -/
theorem parseRule_run {depth : ℕ} {node : SyntaxNode} (rule : SourceRule)
    (hrep : rule.Represents node) (hdepth : node.height ≤ depth) (made : List (RuleNode ℕ)) :
    (parseRule (parseControlBody depth) node).run made
      = .ok made.length (made ++ rule.layout made.length none none) := by
  cases rule with
  | task type list =>
    rw [SourceRule.Represents] at hrep
    obtain ⟨hnode, ruleNode, hchild, htype, hdata⟩ := hrep
    rw [parseRule_task hnode hchild htype, parseTask_run hchild hdata]
    rfl
  | loop type element list body =>
    rw [SourceRule.Represents] at hrep
    obtain ⟨hnode, forRule, hchild, htype, helement, hlist, bodyNode, hbody, hrest⟩ := hrep
    have hheight : bodyNode.height ≤ depth := by
      have h₁ := SyntaxNode.height_lt_of_getNamedChild hchild
      have h₂ := SyntaxNode.height_lt_of_getChildByFieldName hbody
      omega
    rw [parseRule_for hnode hchild htype]
    refine parseForRule_run hchild helement hlist hbody fun forNode => ?_
    rw [parseControlBody_run body hrest hheight, List.length_append]
    simp [SourceRule.inner]
  | matchRule target entries =>
    rw [SourceRule.Represents] at hrep
    obtain ⟨hnode, rule, hchild, htype, htarget, hentries⟩ := hrep
    have hheight : ∀ entry ∈ rule.namedChildren.drop 1, entry.height ≤ depth := by
      intro entry hentry
      have h₁ := SyntaxNode.height_lt_of_getNamedChild hchild
      have h₂ := SyntaxNode.height_lt_of_mem_namedChildren (List.mem_of_mem_drop hentry)
      omega
    have hchildren : ({ list := [target], type := .matchRule, children := some [] } :
        RuleNode ℕ).children = some [] := rfl
    have hrun := parseEntries_run entries hentries hheight made [] hchildren
    rw [parseRule_match hnode hchild htype, parseMatchRule, hchild]
    simp only [deref_some, EStateM.run_bind, Prog.run_ofExcept_ok, htarget, newNode_run, hrun]
    rfl

/-- The entries of a match, when its node is at `made.length`. -/
theorem parseEntries_run {depth : ℕ} {nodes : List SyntaxNode} (entries : SourceEntries)
    (hrep : entries.Represents nodes) (hdepth : ∀ node ∈ nodes, node.height ≤ depth)
    (made tail : List (RuleNode ℕ)) {matchNode : RuleNode ℕ} {children : List (ChildNode ℕ)}
    (hchildren : matchNode.children = some children) :
    (nodes.forM (parseMatchEntry (parseControlBody depth) made.length)).run
        (made ++ matchNode :: tail)
      = .ok () (made ++ { matchNode with children := some (children ++
            entries.childNodes (made.length + 1 + tail.length)) } ::
          (tail ++ entries.layout (made.length + 1 + tail.length) made.length)) := by
  cases entries with
  | nil =>
    rw [SourceEntries.Represents] at hrep
    subst hrep
    simp [SourceEntries.childNodes, SourceEntries.layout, ← hchildren]
  | cons guard body rest =>
    rw [SourceEntries.Represents] at hrep
    obtain ⟨entry, others, rfl, hguard, ⟨bodyNode, hbody, hrep⟩, hrest⟩ := hrep
    have hheight : bodyNode.height ≤ depth := by
      have h₁ := SyntaxNode.height_lt_of_getChildByFieldName hbody
      have h₂ := hdepth entry List.mem_cons_self
      omega
    have hlen : (made ++ matchNode :: tail).length = made.length + 1 + tail.length := by
      rw [List.length_append, List.length_cons]
      omega
    have hrun := parseControlBody_run body hrep hheight (some made.length)
      (made ++ matchNode :: tail)
    rw [hlen, List.append_assoc, List.cons_append] at hrun
    have hentry := parseMatchEntry_run hchildren hguard hbody hrun
    have hchildren' : ({ matchNode with children := some (children ++
        [⟨guard, body.first (made.length + 1 + tail.length)⟩]) } : RuleNode ℕ).children
          = some (children ++ [⟨guard, body.first (made.length + 1 + tail.length)⟩]) := rfl
    have hothers := parseEntries_run rest hrest
      (fun node hnode => hdepth node (List.mem_cons_of_mem _ hnode)) made
      (tail ++ body.layout (made.length + 1 + tail.length) (some made.length)) hchildren'
    rw [List.length_append, body.length_layout, ← Nat.add_assoc] at hothers
    have hforM : (entry :: others).forM (parseMatchEntry (parseControlBody depth) made.length)
        = parseMatchEntry (parseControlBody depth) made.length entry >>= fun _ =>
          others.forM (parseMatchEntry (parseControlBody depth) made.length) := rfl
    rw [hforM, EStateM.run_bind, hentry, SourceEntries.childNodes, SourceEntries.layout]
    refine hothers.trans ?_
    simp only [List.append_assoc, List.singleton_append]

/-- The rules of a body after the one at `made.length`. -/
theorem parseRest_run {depth : ℕ} {nodes : List SyntaxNode} (body : SourceBody)
    (hrep : body.Represents nodes) (hdepth : ∀ node ∈ nodes, node.height ≤ depth)
    (hrules : ∀ node ∈ nodes, node.type ≠ "comment") (parent first : Option ℕ)
    (made tail : List (RuleNode ℕ)) {prev : RuleNode ℕ} (hprev : prev.nextNode = none) :
    ∃ last, (nodes.foldlM (parseControlBodyStep (parseControlBody depth) parent)
        (some made.length, first)).run (made ++ prev :: tail)
      = .ok (last, first) (made ++
          { prev with nextNode := body.first (made.length + 1 + tail.length) } ::
          (tail ++ body.layout (made.length + 1 + tail.length) parent)) := by
  cases body with
  | nil =>
    rw [SourceBody.Represents] at hrep
    subst hrep
    exact ⟨some made.length, by simp [SourceBody.first, SourceBody.layout, ← hprev]⟩
  | cons rule rest =>
    rw [SourceBody.Represents] at hrep
    obtain ⟨node, others, rfl, hrule, hrest⟩ := hrep
    have hlen : (made ++ prev :: tail).length = made.length + 1 + tail.length := by
      rw [List.length_append, List.length_cons]
      omega
    have hrun := parseRule_run rule hrule (hdepth node List.mem_cons_self)
      (made ++ prev :: tail)
    rw [hlen] at hrun
    have hstep := parseControlBodyStep_next parent first hlen
      (hrules node List.mem_cons_self) hrun
    obtain ⟨last, hothers⟩ := parseRest_run rest hrest
      (fun node hnode => hdepth node (List.mem_cons_of_mem _ hnode))
      (fun node hnode => hrules node (List.mem_cons_of_mem _ hnode)) parent first
      (made ++ { prev with nextNode := some (made.length + 1 + tail.length) } :: tail)
      (rule.inner (made.length + 1 + tail.length))
      (rule.nextNode_node (made.length + 1 + tail.length) parent none)
    have hlen' : (made ++ { prev with nextNode := some (made.length + 1 + tail.length) } ::
        tail).length = made.length + 1 + tail.length := hlen ▸ by simp
    have hsize : made.length + 1 + tail.length + 1
        + (rule.inner (made.length + 1 + tail.length)).length
          = made.length + 1 + tail.length + rule.size := by
      have := rule.length_inner (made.length + 1 + tail.length)
      omega
    rw [hlen', hsize, SourceRule.node_with_next] at hothers
    refine ⟨last, ?_⟩
    rw [List.foldlM_cons, EStateM.run_bind, hstep, SourceBody.layout]
    refine hothers.trans ?_
    simp only [List.append_assoc, List.cons_append]
    rfl

/-- A body. -/
theorem parseControlBody_run {depth : ℕ} {bodyNode : SyntaxNode} (body : SourceBody)
    (hrep : body.Represents bodyNode.rules) (hdepth : bodyNode.height ≤ depth)
    (parent : Option ℕ) (made : List (RuleNode ℕ)) :
    (parseControlBody depth (some bodyNode) parent).run made
      = .ok (body.first made.length) (made ++ body.layout made.length parent) := by
  obtain ⟨depth, rfl⟩ : ∃ d, depth = d + 1 := by
    obtain ⟨_, _, _, _, children⟩ := bodyNode
    rw [SyntaxNode.height] at hdepth
    exact ⟨depth - 1, by omega⟩
  have hheight : ∀ node ∈ bodyNode.rules, node.height ≤ depth := fun node =>
    SyntaxNode.height_le_of_mem_rules hdepth
  have hrules : ∀ node ∈ bodyNode.rules, node.type ≠ "comment" := by
    intro node hnode
    simpa using List.of_mem_filter hnode
  rw [parseControlBody_succ, Prog.run_map]
  cases body with
  | nil =>
    rw [SourceBody.Represents] at hrep
    simp [hrep, SourceBody.first, SourceBody.layout]
  | cons rule rest =>
    rw [SourceBody.Represents] at hrep
    obtain ⟨node, others, hnodes, hrule, hrest⟩ := hrep
    rw [hnodes] at hheight hrules
    have hrun := parseRule_run rule hrule (hheight node List.mem_cons_self) made
    have hstep := parseControlBodyStep_first parent none rfl
      (hrules node List.mem_cons_self) hrun
    obtain ⟨last, hothers⟩ := parseRest_run rest hrest
      (fun node hnode => hheight node (List.mem_cons_of_mem _ hnode))
      (fun node hnode => hrules node (List.mem_cons_of_mem _ hnode)) parent
      (some made.length) made (rule.inner made.length)
      (rule.nextNode_node made.length parent none)
    have hsize : made.length + 1 + (rule.inner made.length).length = made.length + rule.size := by
      have := rule.length_inner made.length
      omega
    rw [hsize, SourceRule.node_with_next] at hothers
    rw [hnodes, List.foldlM_cons, EStateM.run_bind, hstep, SourceBody.layout]
    simp only [hothers]
    rfl

end

/-- **What the parser builds.** It appends the layout of the rules. -/
theorem parseRules_run {node bodyNode : SyntaxNode} {body : SourceBody}
    (hbody : node.getChildByFieldName "body" = some bodyNode)
    (hrep : body.Represents bodyNode.rules) :
    (parseRules node).run [] = .ok (body.first 0) (body.layout 0 none) := by
  rw [parseRules, hbody]
  exact parseControlBody_run body hrep (SyntaxNode.height_lt_of_getChildByFieldName hbody).le
    none []

end SocialGaming
