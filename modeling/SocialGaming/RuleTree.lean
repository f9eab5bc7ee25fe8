import SocialGaming.RuleLayout

/-!
# The tree of rules

The rule nodes of a source, read along their pointers: a walk from the first node meets every node
once and in the order of the source, and each body of the source is a chain of nodes under the node
that owns it.

## Main definitions

* `Walk` — the depth-first walk: a node, the chain of each of its children, the next node
* `SourceBody.BuiltAt` — a chain of nodes is a body of the source
* `SourceBody.flatten` — the data of the rules of a body, in order

## Main results

* `printRuleTreeRecursively_ok_iff` — a tree is printed when no child in it is null
* `parseRules_tree` — what a walk through the tree of a source meets, and how its nodes are linked
-/

namespace SocialGaming

/-! ### Walks -/

section Walk

variable {ι : Type}

/-- The depth-first walk from pointers that are still to be followed. Under a node there are the
chain of each child, in order, and then the next node. Under a null pointer there is nothing, though
`printRuleTreeRecursively` goes no further when a child is null: it dereferences it. -/
inductive Walk (nodes : ι → RuleNode ι) : List (Option ι) → List ι → Prop
  | nil : Walk nodes [] []
  | null {ps : List (Option ι)} {l : List ι} (h : Walk nodes ps l) : Walk nodes (none :: ps) l
  | node {n : ι} {ps : List (Option ι)} {l : List ι}
      (h : Walk nodes ((nodes n).getBody.map ChildNode.child ++ (nodes n).nextNode :: ps) l) :
      Walk nodes (some n :: ps) (n :: l)

variable {nodes : ι → RuleNode ι}

/-- There is one walk. -/
theorem Walk.unique {ps : List (Option ι)} {l l' : List ι} (h : Walk nodes ps l)
    (h' : Walk nodes ps l') : l = l' := by
  induction h generalizing l' with
  | nil => cases h'; rfl
  | null _ ih => cases h' with | null h' => exact ih h'
  | node _ ih => cases h' with | node h' => rw [ih h']

theorem Walk.append {ps qs : List (Option ι)} {l l' : List ι} (h : Walk nodes ps l)
    (h' : Walk nodes qs l') : Walk nodes (ps ++ qs) (l ++ l') := by
  induction h with
  | nil => exact h'
  | null _ ih => exact Walk.null ih
  | node _ ih =>
    rw [List.append_assoc, List.cons_append] at ih
    exact Walk.node ih

/-- None of the nodes has a child that is null. -/
def NoNullChild (nodes : ι → RuleNode ι) (l : List ι) : Prop :=
  ∀ n ∈ l, ∀ child ∈ (nodes n).getBody, child.child ≠ none

theorem noNullChild_append {l l' : List ι} :
    NoNullChild nodes (l ++ l') ↔ NoNullChild nodes l ∧ NoNullChild nodes l' := by
  constructor
  · intro h
    exact ⟨fun n hn => h n (List.mem_append_left _ hn),
      fun n hn => h n (List.mem_append_right _ hn)⟩
  · rintro ⟨h, h'⟩ n hn
    exact (List.mem_append.mp hn).elim (h n) (h' n)

/-! ### Printing -/

/-- What is printed of a node, its children and its next node. -/
theorem printRuleTreeRecursively_succ {size depth : ℕ} {n : ι} {out : List (ι × ℕ)} :
    printRuleTreeRecursively nodes (size + 1) (some n) depth = .ok out ↔
      ∃ children next,
        ((nodes n).getBody.mapM fun child =>
          printRuleTreeRecursively nodes size child.child (depth + 1)) = .ok children ∧
        (if (nodes n).nextNode.isSome then
          printRuleTreeRecursively nodes size (nodes n).nextNode depth else .ok []) = .ok next ∧
        out = (n, depth) :: (children.flatten ++ next) := by
  have hbody : (if (nodes n).isControlFlow then
      (nodes n).getBody.mapM fun child =>
        printRuleTreeRecursively nodes size child.child (depth + 1)
      else .ok [])
      = (nodes n).getBody.mapM fun child =>
        printRuleTreeRecursively nodes size child.child (depth + 1) := by
    rcases hchildren : (nodes n).children with _ | children
    · simp [RuleNode.isControlFlow, RuleNode.getBody, hchildren, pure, Except.pure]
    · simp [RuleNode.isControlFlow, hchildren]
  have hok : ∀ {a b : List (ι × ℕ)}, (pure a : Except (Fault String) _) = .ok b ↔ b = a := by
    intro a b
    exact ⟨fun h => (Except.ok.inj h).symm, fun h => congrArg _ h.symm⟩
  rw [printRuleTreeRecursively, deref_some, Prog.bind_eq_ok]
  simp only [Except.ok.injEq, exists_eq_left', hbody, Prog.bind_eq_ok, hok]
  exact ⟨fun ⟨children, hchildren, next, hnext, hout⟩ => ⟨children, next, hchildren, hnext, hout⟩,
    fun ⟨children, next, hchildren, hnext, hout⟩ => ⟨children, hchildren, next, hnext, hout⟩⟩

/-- What is printed is a walk, and no child on it is null. -/
theorem walk_of_print {size depth : ℕ} {p : Option ι} {out : List (ι × ℕ)}
    (h : printRuleTreeRecursively nodes size p depth = .ok out) :
    p ≠ none ∧ Walk nodes [p] (out.map Prod.fst) ∧ NoNullChild nodes (out.map Prod.fst) := by
  induction size generalizing p depth out with
  | zero => cases h
  | succ size ih =>
    rcases p with _ | n
    · cases h
    obtain ⟨children, next, hchildren, hnext, rfl⟩ := printRuleTreeRecursively_succ.mp h
    have hbelow : ∀ (body : List (ChildNode ι)) (outs : List (List (ι × ℕ))),
        (body.mapM fun child => printRuleTreeRecursively nodes size child.child (depth + 1))
          = .ok outs →
        (∀ child ∈ body, child.child ≠ none) ∧
        Walk nodes (body.map ChildNode.child) (outs.flatten.map Prod.fst) ∧
          NoNullChild nodes (outs.flatten.map Prod.fst) := by
      intro body
      induction body with
      | nil =>
        rintro outs hout
        obtain rfl : [] = outs := Except.ok.inj hout
        exact ⟨List.forall_mem_nil _, Walk.nil, List.forall_mem_nil _⟩
      | cons child body ihbody =>
        intro outs hout
        obtain ⟨first, rest, hfirst, hrest, rfl⟩ := Prog.mapM_cons_eq_ok.mp hout
        obtain ⟨hnull, hwalk, hno⟩ := ih hfirst
        obtain ⟨hnull', hwalk', hno'⟩ := ihbody rest hrest
        rw [List.flatten_cons, List.map_append]
        exact ⟨List.forall_mem_cons.mpr ⟨hnull, hnull'⟩, hwalk.append hwalk',
          noNullChild_append.mpr ⟨hno, hno'⟩⟩
    have hafter : Walk nodes [(nodes n).nextNode] (next.map Prod.fst) ∧
        NoNullChild nodes (next.map Prod.fst) := by
      rcases hnode : (nodes n).nextNode with _ | m
      · rw [hnode] at hnext
        obtain rfl : [] = next := Except.ok.inj hnext
        exact ⟨Walk.null Walk.nil, List.forall_mem_nil _⟩
      · rw [hnode] at hnext
        exact (ih hnext).2
    obtain ⟨hnull, hwalk, hno⟩ := hbelow _ _ hchildren
    refine ⟨Option.some_ne_none n, ?_, ?_⟩
    · rw [List.map_cons, List.map_append]
      exact Walk.node (hwalk.append hafter.1)
    · rw [List.map_cons, List.map_append]
      exact List.forall_mem_cons.mpr ⟨hnull, noNullChild_append.mpr ⟨hno, hafter.2⟩⟩

/-- A walk on which no child is null can be printed. -/
theorem exists_print_of_walk {ps : List (Option ι)} {l : List ι} (h : Walk nodes ps l)
    (hno : NoNullChild nodes l) {size : ℕ} (hsize : l.length ≤ size) {p : Option ι} (hp : p ∈ ps)
    (hnull : p ≠ none) (depth : ℕ) :
    ∃ out, printRuleTreeRecursively nodes size p depth = .ok out := by
  induction h generalizing size p depth with
  | nil => cases hp
  | null _ ih =>
    rcases List.mem_cons.mp hp with rfl | hp
    · exact absurd rfl hnull
    · exact ih hno hsize hp hnull depth
  | @node n ps l _ ih =>
    obtain ⟨hchild, hno⟩ := List.forall_mem_cons.mp hno
    rw [List.length_cons] at hsize
    rcases List.mem_cons.mp hp with rfl | hp
    · obtain ⟨size, rfl⟩ : ∃ m, size = m + 1 := ⟨size - 1, by omega⟩
      have hsize' : l.length ≤ size := by omega
      obtain ⟨children, hchildren⟩ : ∃ out, ((nodes n).getBody.mapM fun child =>
          printRuleTreeRecursively nodes size child.child (depth + 1)) = .ok out :=
        Prog.exists_mapM_eq_ok fun child hmem =>
          ih hno hsize' (List.mem_append_left _ (List.mem_map_of_mem hmem)) (hchild child hmem)
            (depth + 1)
      obtain ⟨next, hnext⟩ : ∃ out, (if (nodes n).nextNode.isSome then
          printRuleTreeRecursively nodes size (nodes n).nextNode depth else .ok []) = .ok out := by
        by_cases hsome : (nodes n).nextNode.isSome
        · rw [if_pos hsome]
          exact ih hno hsize' (List.mem_append_right _ List.mem_cons_self)
            (Option.isSome_iff_ne_none.mp hsome) depth
        · exact ⟨[], if_neg hsome⟩
      exact ⟨_, printRuleTreeRecursively_succ.mpr ⟨children, next, hchildren, hnext, rfl⟩⟩
    · exact ih hno (by omega) (List.mem_append_right _ (List.mem_cons_of_mem _ hp)) hnull depth

/-- **When a tree is printed.** It has a first node and no null child, and then its nodes are
printed in the order of the walk. -/
theorem printRuleTreeRecursively_ok_iff {root : Option ι} {l : List ι} (h : Walk nodes [root] l)
    (depth : ℕ) :
    (∃ size out, printRuleTreeRecursively nodes size root depth = .ok out ∧
      out.map Prod.fst = l) ↔ root ≠ none ∧ NoNullChild nodes l := by
  constructor
  · rintro ⟨size, out, hout, rfl⟩
    obtain ⟨hnull, -, hno⟩ := walk_of_print hout
    exact ⟨hnull, hno⟩
  · rintro ⟨hnull, hno⟩
    obtain ⟨out, hout⟩ := exists_print_of_walk h hno le_rfl List.mem_cons_self hnull depth
    exact ⟨_, out, hout, (walk_of_print hout).2.1.unique h⟩

end Walk

/-! ### The store, as a table -/

/-- The node at an address of the store. -/
def nodesOf (made : List (RuleNode ℕ)) (address : ℕ) : RuleNode ℕ :=
  made.getD address { list := [], type := .forLoop }

/-- The segment that starts at `base`. -/
def Placed (made : List (RuleNode ℕ)) (base : ℕ) (segment : List (RuleNode ℕ)) : Prop :=
  ∃ before after, made = before ++ (segment ++ after) ∧ before.length = base

namespace Placed

variable {made segment segment' : List (RuleNode ℕ)} {base : ℕ} {node : RuleNode ℕ}

theorem self (made : List (RuleNode ℕ)) : Placed made 0 made := ⟨[], [], by simp, rfl⟩

theorem nodesOf_eq (h : Placed made base (node :: segment)) : nodesOf made base = node := by
  obtain ⟨before, after, rfl, rfl⟩ := h
  simp [nodesOf]

theorem tail (h : Placed made base (node :: segment)) : Placed made (base + 1) segment := by
  obtain ⟨before, after, rfl, rfl⟩ := h
  exact ⟨before ++ [node], after, by simp, by simp⟩

theorem left (h : Placed made base (segment ++ segment')) : Placed made base segment := by
  obtain ⟨before, after, rfl, rfl⟩ := h
  exact ⟨before, segment' ++ after, by simp, rfl⟩

theorem right (h : Placed made base (segment ++ segment')) :
    Placed made (base + segment.length) segment' := by
  obtain ⟨before, after, rfl, rfl⟩ := h
  exact ⟨before ++ segment, after, by simp, by simp⟩

/-- A rule of a body: its node, the nodes of its bodies, and those of the rules after it. -/
theorem rule {rule : SourceRule} {parent next : Option ℕ}
    (h : Placed made base (rule.node base parent next :: (rule.inner base ++ segment))) :
    nodesOf made base = rule.node base parent next ∧ Placed made (base + 1) (rule.inner base) ∧
      Placed made (base + rule.size) segment := by
  refine ⟨h.nodesOf_eq, h.tail.left, ?_⟩
  have hrest := h.tail.right
  have hsize := rule.length_inner base
  rwa [show base + 1 + (rule.inner base).length = base + rule.size by omega] at hrest

end Placed

/-! ### The walk through a source -/

/-- The walk below a node that has been made of a rule. -/
theorem range'_rule (base : ℕ) (rule : SourceRule) (rest : ℕ) :
    List.range' base (rule.size + rest)
      = base :: (List.range' (base + 1) (rule.inner base).length ++
          List.range' (base + rule.size) rest) := by
  have hsize := rule.length_inner base
  rw [← hsize, Nat.add_right_comm, List.range'_succ]
  congr 1
  rw [← List.range'_append_1]
  congr 2
  omega

mutual

/-- The walk through the children of a rule's node. -/
theorem walk_inner {made : List (RuleNode ℕ)} {base : ℕ} (rule : SourceRule)
    (h : Placed made (base + 1) (rule.inner base)) (parent next : Option ℕ) :
    Walk (nodesOf made) ((rule.node base parent next).getBody.map ChildNode.child)
      (List.range' (base + 1) (rule.inner base).length) := by
  cases rule with
  | task type list => exact Walk.nil
  | loop type element list body =>
    rw [SourceRule.inner] at h ⊢
    rw [body.length_layout]
    exact walk_body body h
  | matchRule target entries =>
    rw [SourceRule.inner] at h ⊢
    rw [entries.length_layout]
    exact walk_entries entries h

/-- The walk through the children made of entries. -/
theorem walk_entries {made : List (RuleNode ℕ)} {base owner : ℕ} (entries : SourceEntries)
    (h : Placed made base (entries.layout base owner)) :
    Walk (nodesOf made) ((entries.childNodes base).map ChildNode.child)
      (List.range' base entries.size) := by
  cases entries with
  | nil => exact Walk.nil
  | cons guard body rest =>
    rw [SourceEntries.layout] at h
    have hrest := h.right
    rw [body.length_layout] at hrest
    rw [SourceEntries.childNodes, SourceEntries.size, ← List.range'_append_1]
    exact (walk_body body h.left).append (walk_entries rest hrest)

/-- **The walk through a body.** -/
theorem walk_body {made : List (RuleNode ℕ)} {base : ℕ} {parent : Option ℕ} (body : SourceBody)
    (h : Placed made base (body.layout base parent)) :
    Walk (nodesOf made) [body.first base] (List.range' base body.size) := by
  cases body with
  | nil => exact Walk.null Walk.nil
  | cons rule rest =>
    rw [SourceBody.layout] at h
    obtain ⟨hnode, hinner, hrest⟩ := h.rule
    rw [SourceBody.size, range'_rule]
    refine Walk.node ?_
    rw [hnode, rule.nextNode_node]
    exact (walk_inner rule hinner _ _).append (walk_body rest hrest)

end

/-! ### The data of the nodes -/

mutual

/-- The type and data of the node of a rule, and of those of its bodies, in source order. -/
def SourceRule.flatten : SourceRule → List (NodeType × List (List String))
  | .task type list => [(type, list)]
  | .loop type element list body => (type, [element, list]) :: body.flatten
  | .matchRule target entries => (.matchRule, [target]) :: entries.flatten

/-- The same for the bodies of entries. -/
def SourceEntries.flatten : SourceEntries → List (NodeType × List (List String))
  | .nil => []
  | .cons _ body rest => body.flatten ++ rest.flatten

/-- The same for a body. -/
def SourceBody.flatten : SourceBody → List (NodeType × List (List String))
  | .nil => []
  | .cons rule rest => rule.flatten ++ rest.flatten

end

/-- The type and data of a node. -/
def RuleNode.typeAndData {ι : Type} (node : RuleNode ι) : NodeType × List (List String) :=
  (node.type, node.list)

mutual

theorem SourceRule.flatten_eq (base : ℕ) (parent next : Option ℕ) (rule : SourceRule) :
    (rule.node base parent next).typeAndData :: (rule.inner base).map RuleNode.typeAndData
      = rule.flatten := by
  cases rule with
  | task type list => rfl
  | loop type element list body =>
    rw [SourceRule.inner, body.map_layout, SourceRule.flatten]
    rfl
  | matchRule target entries =>
    rw [SourceRule.inner, entries.map_layout, SourceRule.flatten]
    rfl

theorem SourceEntries.map_layout (base owner : ℕ) (entries : SourceEntries) :
    (entries.layout base owner).map RuleNode.typeAndData = entries.flatten := by
  cases entries with
  | nil => rfl
  | cons guard body rest =>
    rw [SourceEntries.layout, List.map_append, body.map_layout, rest.map_layout,
      SourceEntries.flatten]

theorem SourceBody.map_layout (base : ℕ) (parent : Option ℕ) (body : SourceBody) :
    (body.layout base parent).map RuleNode.typeAndData = body.flatten := by
  cases body with
  | nil => rfl
  | cons rule rest =>
    rw [SourceBody.layout, List.map_cons, List.map_append, rest.map_layout, ← List.cons_append,
      rule.flatten_eq, SourceBody.flatten]

end

/-! ### Chains and parents -/

mutual

/-- The node is that of the rule: it has the type and data of the rule, its parent is `parent`, and
its children are the bodies of the rule, under their guards. -/
def SourceRule.BuiltAt (nodes : ℕ → RuleNode ℕ) (node : ℕ) (parent : Option ℕ) :
    SourceRule → Prop
  | .task type list => (nodes node).type = type ∧ (nodes node).list = list ∧
      (nodes node).parentNode = parent ∧ (nodes node).children = none
  | .loop type element list body => (nodes node).type = type ∧
      (nodes node).list = [element, list] ∧ (nodes node).parentNode = parent ∧
      ∃ first, (nodes node).children = some [{ key := ["true"], child := first }] ∧
        body.BuiltAt nodes first (some node)
  | .matchRule target entries => (nodes node).type = .matchRule ∧ (nodes node).list = [target] ∧
      (nodes node).parentNode = parent ∧
      ∃ children, (nodes node).children = some children ∧ entries.BuiltAt nodes children node

/-- The children are the bodies of the entries, under their guards. -/
def SourceEntries.BuiltAt (nodes : ℕ → RuleNode ℕ) (children : List (ChildNode ℕ)) (owner : ℕ) :
    SourceEntries → Prop
  | .nil => children = []
  | .cons guard body rest => ∃ first others, children = { key := guard, child := first } :: others ∧
      body.BuiltAt nodes first (some owner) ∧ rest.BuiltAt nodes others owner

/-- The chain of next nodes from `first` is that of the body's rules and ends in null, and the
parent of each is `parent`. -/
def SourceBody.BuiltAt (nodes : ℕ → RuleNode ℕ) (first parent : Option ℕ) : SourceBody → Prop
  | .nil => first = none
  | .cons rule rest => ∃ node, first = some node ∧ rule.BuiltAt nodes node parent ∧
      rest.BuiltAt nodes (nodes node).nextNode parent

end

mutual

theorem SourceRule.builtAt {made : List (RuleNode ℕ)} {base : ℕ} {parent next : Option ℕ}
    (rule : SourceRule) (hnode : nodesOf made base = rule.node base parent next)
    (h : Placed made (base + 1) (rule.inner base)) :
    rule.BuiltAt (nodesOf made) base parent := by
  cases rule with
  | task type list =>
    rw [SourceRule.BuiltAt, hnode]
    exact ⟨rfl, rfl, rfl, rfl⟩
  | loop type element list body =>
    rw [SourceRule.BuiltAt, hnode]
    exact ⟨rfl, rfl, rfl, _, rfl, body.builtAt h⟩
  | matchRule target entries =>
    rw [SourceRule.BuiltAt, hnode]
    exact ⟨rfl, rfl, rfl, _, rfl, entries.builtAt h⟩

theorem SourceEntries.builtAt {made : List (RuleNode ℕ)} {base owner : ℕ}
    (entries : SourceEntries) (h : Placed made base (entries.layout base owner)) :
    entries.BuiltAt (nodesOf made) (entries.childNodes base) owner := by
  cases entries with
  | nil => rfl
  | cons guard body rest =>
    rw [SourceEntries.layout] at h
    have hrest := h.right
    rw [body.length_layout] at hrest
    rw [SourceEntries.BuiltAt]
    exact ⟨_, _, rfl, body.builtAt h.left, rest.builtAt hrest⟩

theorem SourceBody.builtAt {made : List (RuleNode ℕ)} {base : ℕ} {parent : Option ℕ}
    (body : SourceBody) (h : Placed made base (body.layout base parent)) :
    body.BuiltAt (nodesOf made) (body.first base) parent := by
  cases body with
  | nil => rfl
  | cons rule rest =>
    rw [SourceBody.layout] at h
    obtain ⟨hnode, hinner, hrest⟩ := h.rule
    rw [SourceBody.BuiltAt]
    refine ⟨base, rfl, rule.builtAt hnode hinner, ?_⟩
    rw [hnode, rule.nextNode_node]
    exact rest.builtAt hrest

end

/-! ### The tree -/

/-- **The tree of rules.** Whatever rules a source has, and whatever comments are among them:
`parseRules` returns, and the depth-first walk through its tree meets every node it has made, once
and in the order in which the rules stand in the source. Each chain of next nodes is that of one
body, ends in null, and has the node that owns the body as its parent; the chain of the rules at top
level has none. What `printRuleTreeRecursively` prints is this walk, and it prints it if there is a
rule and no body is empty. -/
theorem parseRules_tree {node bodyNode : SyntaxNode} {body : SourceBody}
    (hbody : node.getChildByFieldName "body" = some bodyNode)
    (hrep : body.Represents bodyNode.rules) :
    ∃ root made, (parseRules node).run [] = .ok root made ∧
      Walk (nodesOf made) [root] (List.range made.length) ∧
      made.map RuleNode.typeAndData = body.flatten ∧
      body.BuiltAt (nodesOf made) root none ∧
      (∀ size depth out, printRuleTreeRecursively (nodesOf made) size root depth = .ok out →
        out.map Prod.fst = List.range made.length) ∧
      (root ≠ none → NoNullChild (nodesOf made) (List.range made.length) →
        ∀ depth, ∃ size out,
          printRuleTreeRecursively (nodesOf made) size root depth = .ok out) := by
  have hplaced := Placed.self (body.layout 0 none)
  have hwalk : Walk (nodesOf (body.layout 0 none)) [body.first 0]
      (List.range (body.layout 0 none).length) := by
    rw [List.range_eq_range', body.length_layout]
    exact walk_body body hplaced
  refine ⟨body.first 0, body.layout 0 none, parseRules_run hbody hrep, hwalk,
    body.map_layout 0 none, body.builtAt hplaced, fun size depth out hout => ?_,
    fun hnull hno depth => ?_⟩
  · exact (walk_of_print hout).2.1.unique hwalk
  · obtain ⟨size, out, hout, -⟩ := (printRuleTreeRecursively_ok_iff hwalk depth).mpr ⟨hnull, hno⟩
    exact ⟨size, out, hout⟩

/-- The rule `reverse`. -/
def reverseRule : SyntaxNode := .mk "rule" [] none true [.mk "reverse" [] none true []]

/-- The rule `for x in xs`, with a body. -/
def forRule (children : List SyntaxNode) : SyntaxNode :=
  .mk "rule" [] none true [.mk "for" [] none true
    [leafNode "x" "element", leafNode "xs" "list", .mk "body" [] (some "body") true children]]

/-- A comment, a loop over a rule and a comment, and a rule. -/
def rulesNode : SyntaxNode :=
  .mk "rules" [] none true [.mk "body" [] (some "body") true
    [.mk "comment" [] none true [], forRule [reverseRule, .mk "comment" [] none true []],
      reverseRule]]

/-- The tree of three rules. -/
theorem parseRules_tree_three : ∃ root made, (parseRules rulesNode).run [] = .ok root made ∧
    Walk (nodesOf made) [root] (List.range made.length) ∧
    made.map RuleNode.typeAndData = [(.forLoop, [["x"], ["xs"]]), (.reverse, [["reverse"]]),
      (.reverse, [["reverse"]])] := by
  let task : SourceRule := .task .reverse [["reverse"]]
  let body : SourceBody := .cons (.loop .forLoop ["x"] ["xs"] (.cons task .nil)) (.cons task .nil)
  have htask : task.Represents reverseRule := by
    rw [SourceRule.Represents]
    exact ⟨rfl, _, rfl, by decide, rfl⟩
  have hrep : body.Represents (SyntaxNode.rules (.mk "body" [] (some "body") true
      [.mk "comment" [] none true [], forRule [reverseRule, .mk "comment" [] none true []],
        reverseRule])) := by
    simp only [body, SourceBody.Represents, SourceRule.Represents]
    exact ⟨_, _, rfl, ⟨rfl, _, rfl, Or.inl ⟨rfl, trivial⟩, rfl, rfl, _, rfl, _, _, rfl, htask, rfl⟩,
      _, _, rfl, htask, rfl⟩
  have hbody : rulesNode.getChildByFieldName "body" = some (.mk "body" [] (some "body") true
      [.mk "comment" [] none true [], forRule [reverseRule, .mk "comment" [] none true []],
        reverseRule]) := rfl
  obtain ⟨root, made, hrun, hwalk, hdata, -⟩ := parseRules_tree hbody hrep
  exact ⟨root, made, hrun, hwalk, hdata⟩

end SocialGaming
