import SocialGaming.RuleTree
import Mathlib.Data.List.Forall2

/-!
# Comments in the rules

The grammar reports a comment as a named child of the node it stands in. The loop over a body skips
the comments among its children. The loop over a match takes every named child after the first for
an entry, so a comment there is an entry without a guard, and one before the target makes an entry
of the target.

## Design

Comments are put into a tree where the parser looks: the relation follows it from the rules to
their body, from a rule to its first named child, from a match to its entries, and from each of
them to their bodies. The source text of a node changes with what is put into it, and the parser
reads it of expressions only, in which there are no bodies.

## Main definitions

* `Place` — what a node is to the parser
* `Commented` — comments are put into a tree, in the nodes of some places
* `SyntaxNode.TargetsFirst` — a match begins with its target

## Main results

* `comments_kept_iff` — the rules with the comments are parsed as those without them exactly if
  none is put into a match
-/

namespace SocialGaming

open Prog

/-! ### Putting comments into a tree -/

/-- A comment: a named leaf under no field. -/
def commentNode (text : List Char) : SyntaxNode := .mk "comment" text none true []

/-- What a node of the rules is. -/
inductive Place where
  /-- The rules, a for rule, or an entry of a match: a node with a body. -/
  | owner
  | body
  | rule
  | matchRule

/-- What the first named child of a rule is. There is no body in a task. -/
def SyntaxNode.controlPlace (node : SyntaxNode) : Option Place :=
  if node.type = "for" ∨ node.type = "parallel_for" then some .owner
  else if node.type = "match" then some .matchRule
  else none

/-- What a child of a body or of a match is. -/
def Place.inner : Place → SyntaxNode → Option Place
  | .body, child => if child.named ∧ child.type ≠ "comment" then some .rule else none
  | .matchRule, child => if child.named ∧ child.field ≠ some "target" then some .owner else none
  | _, _ => none

mutual

/-- Comments are put among the children of the nodes below that are in one of the places. -/
inductive Commented (places : List Place) : Place → SyntaxNode → SyntaxNode → Prop where
  | same {place : Place} {node : SyntaxNode} : Commented places place node node
  | owner {type : String} {text text' : List Char} {field : Option String} {named : Bool}
      {before after : List SyntaxNode} {bodyNode bodyNode' : SyntaxNode}
      (hbefore : ∀ child ∈ before, child.field ≠ some "body")
      (hfield : bodyNode.field = some "body") (h : Commented places .body bodyNode bodyNode') :
      Commented places .owner (.mk type text field named (before ++ bodyNode :: after))
        (.mk type text' field named (before ++ bodyNode' :: after))
  | rule {type : String} {text text' : List Char} {field : Option String} {named : Bool}
      {before after : List SyntaxNode} {control control' : SyntaxNode} {place : Place}
      (hbefore : ∀ child ∈ before, child.named = false) (hnamed : control.named = true)
      (hplace : control.controlPlace = some place) (h : Commented places place control control') :
      Commented places .rule (.mk type text field named (before ++ control :: after))
        (.mk type text' field named (before ++ control' :: after))
  | body {type : String} {text text' : List Char} {field : Option String} {named : Bool}
      {children children' : List SyntaxNode}
      (h : CommentedChildren places .body children children') :
      Commented places .body (.mk type text field named children)
        (.mk type text' field named children')
  | matchRule {type : String} {text text' : List Char} {field : Option String} {named : Bool}
      {children children' : List SyntaxNode}
      (h : CommentedChildren places .matchRule children children') :
      Commented places .matchRule (.mk type text field named children)
        (.mk type text' field named children')

/-- Comments are put among the children of a body or of a match, if it is in one of the places, and
into these children. -/
inductive CommentedChildren (places : List Place) :
    Place → List SyntaxNode → List SyntaxNode → Prop where
  | nil {place : Place} : CommentedChildren places place [] []
  | keep {place : Place} {child : SyntaxNode} {children children' : List SyntaxNode}
      (hinner : place.inner child = none)
      (hrest : CommentedChildren places place children children') :
      CommentedChildren places place (child :: children) (child :: children')
  | inside {place inner : Place} {child child' : SyntaxNode} {children children' : List SyntaxNode}
      (hinner : place.inner child = some inner) (h : Commented places inner child child')
      (hrest : CommentedChildren places place children children') :
      CommentedChildren places place (child :: children) (child' :: children')
  | comment {place : Place} {text : List Char} {children children' : List SyntaxNode}
      (hplace : place ∈ places) (hrest : CommentedChildren places place children children') :
      CommentedChildren places place children (commentNode text :: children')

end

section Commented

variable {places : List Place} {place : Place} {node node' : SyntaxNode}

theorem Commented.type_eq (h : Commented places place node node') : node'.type = node.type := by
  cases h <;> rfl

theorem Commented.field_eq (h : Commented places place node node') : node'.field = node.field := by
  cases h <;> rfl

theorem Commented.named_eq (h : Commented places place node node') : node'.named = node.named := by
  cases h <;> rfl

/-! ### The nodes the parser finds -/

theorem Place.inner_body_eq_some {child : SyntaxNode} {inner : Place} :
    Place.body.inner child = some inner ↔
      inner = .rule ∧ child.named = true ∧ child.type ≠ "comment" := by
  rw [Place.inner, Option.ite_none_right_eq_some, Option.some_inj, and_comm, eq_comm]

theorem Place.inner_matchRule_eq_some {child : SyntaxNode} {inner : Place} :
    Place.matchRule.inner child = some inner ↔
      inner = .owner ∧ child.named = true ∧ child.field ≠ some "target" := by
  rw [Place.inner, Option.ite_none_right_eq_some, Option.some_inj, and_comm, eq_comm]

theorem Place.inner_body_commentNode (text : List Char) :
    Place.body.inner (commentNode text) = none := by
  simp [Place.inner, commentNode, SyntaxNode.type]

/-- The rules among the children of a body. -/
def rulesAmong (children : List SyntaxNode) : List SyntaxNode :=
  children.filter fun child => (Place.body.inner child).isSome

theorem rulesAmong_cons_of_none {child : SyntaxNode} (h : Place.body.inner child = none)
    (children : List SyntaxNode) : rulesAmong (child :: children) = rulesAmong children := by
  rw [rulesAmong, List.filter_cons, h]
  rfl

theorem rulesAmong_cons_of_some {child : SyntaxNode} {inner : Place}
    (h : Place.body.inner child = some inner) (children : List SyntaxNode) :
    rulesAmong (child :: children) = child :: rulesAmong children := by
  rw [rulesAmong, List.filter_cons, h]
  rfl

theorem SyntaxNode.rules_eq (bodyNode : SyntaxNode) :
    bodyNode.rules = rulesAmong bodyNode.children := by
  rw [SyntaxNode.rules, SyntaxNode.namedChildren, List.filter_filter, rulesAmong]
  refine List.filter_congr fun child _ => ?_
  by_cases h : child.named = true ∧ child.type ≠ "comment"
  · simp [Place.inner, h]
  · rw [Place.inner, if_neg h, Option.isSome_none]
    simpa using fun hnamed hcomment => h ⟨hcomment, hnamed⟩

/-- Comments in a body are not among its rules. -/
theorem CommentedChildren.rules {l l' : List SyntaxNode}
    (h : CommentedChildren places .body l l') :
    List.Forall₂ (Commented places .rule) (rulesAmong l) (rulesAmong l') ∧
      ∀ places' : List Place, .body ∈ places' →
        List.Forall₂ (Commented places' .rule) (rulesAmong l) (rulesAmong l') →
        CommentedChildren places' .body l l' := by
  match h with
  | .nil => exact ⟨.nil, fun _ _ _ => .nil⟩
  | .keep hinner hrest =>
    obtain ⟨hrules, hback⟩ := hrest.rules
    rw [rulesAmong_cons_of_none hinner, rulesAmong_cons_of_none hinner]
    exact ⟨hrules, fun places' hbody hrest => .keep hinner (hback places' hbody hrest)⟩
  | .inside hinner h hrest =>
    obtain ⟨hrules, hback⟩ := hrest.rules
    obtain ⟨rfl, hnamed, htype⟩ := Place.inner_body_eq_some.mp hinner
    rw [← h.named_eq] at hnamed
    rw [← h.type_eq] at htype
    have hinner' := Place.inner_body_eq_some.mpr ⟨rfl, hnamed, htype⟩
    rw [rulesAmong_cons_of_some hinner, rulesAmong_cons_of_some hinner']
    refine ⟨.cons h hrules, fun places' hbody hrest => ?_⟩
    obtain ⟨hchild, hrest⟩ := List.forall₂_cons.mp hrest
    exact .inside hinner hchild (hback places' hbody hrest)
  | .comment hplace hrest =>
    obtain ⟨hrules, hback⟩ := hrest.rules
    rw [rulesAmong_cons_of_none (Place.inner_body_commentNode _)]
    exact ⟨hrules, fun places' hbody hrest => .comment hbody (hback places' hbody hrest)⟩

theorem Commented.rules (h : Commented places .body node node') :
    List.Forall₂ (Commented places .rule) node.rules node'.rules ∧
      ∀ places' : List Place, .body ∈ places' →
        List.Forall₂ (Commented places' .rule) node.rules node'.rules →
        Commented places' .body node node' := by
  rw [SyntaxNode.rules_eq, SyntaxNode.rules_eq]
  cases h with
  | same => exact ⟨List.forall₂_same.2 fun _ _ => .same, fun _ _ _ => .same⟩
  | body h =>
    obtain ⟨hrules, hback⟩ := h.rules
    exact ⟨hrules, fun places' hbody hrest => .body (hback places' hbody hrest)⟩

/-- The other fields of a node with a body. -/
theorem Commented.getChildByFieldName_of_ne (h : Commented places .owner node node') {name : String}
    (hname : name ≠ "body") : node'.getChildByFieldName name = node.getChildByFieldName name := by
  cases h with
  | same => rfl
  | owner hbefore hfield h =>
    have hne : ¬ (some "body" = some name) := fun heq => hname (Option.some.inj heq).symm
    simp only [SyntaxNode.getChildByFieldName, SyntaxNode.children, List.find?_append,
      List.find?_cons, h.field_eq, hfield, hne, decide_false]

/-- The body of a node that has one. -/
theorem Commented.bodyNode (h : Commented places .owner node node') {bodyNode : SyntaxNode}
    (hbody : node.getChildByFieldName "body" = some bodyNode) :
    ∃ bodyNode', node'.getChildByFieldName "body" = some bodyNode' ∧
      Commented places .body bodyNode bodyNode' ∧
      ∀ places' : List Place, Commented places' .body bodyNode bodyNode' →
        Commented places' .owner node node' := by
  cases h with
  | same => exact ⟨bodyNode, hbody, .same, fun _ _ => .same⟩
  | @owner type text text' field named before after found found' hbefore hfield h =>
    have hnone : (before.find? fun child => decide (child.field = some "body")) = none := by
      simpa using hbefore
    simp only [SyntaxNode.getChildByFieldName, SyntaxNode.children, List.find?_append, hnone,
      Option.none_or, List.find?_cons, hfield, decide_true, Option.some_inj] at hbody
    subst hbody
    refine ⟨found', ?_, h, fun places' hbody => .owner hbefore hfield hbody⟩
    simp only [SyntaxNode.getChildByFieldName, SyntaxNode.children, List.find?_append, hnone,
      Option.none_or, List.find?_cons, h.field_eq, hfield, decide_true]

/-- The first named child of a rule. -/
theorem Commented.control (h : Commented places .rule node node') {control : SyntaxNode}
    (hchild : node.getNamedChild 0 = some control) :
    node' = node ∨ ∃ place control', control.controlPlace = some place ∧
      node'.getNamedChild 0 = some control' ∧ Commented places place control control' ∧
      ∀ places' : List Place, Commented places' place control control' →
        Commented places' .rule node node' := by
  cases h with
  | same => exact Or.inl rfl
  | @rule type text text' field named before after found found' place hbefore hnamed hplace h =>
    have hnil : before.filter SyntaxNode.named = [] := by
      simpa [List.filter_eq_nil_iff] using hbefore
    simp only [SyntaxNode.getNamedChild, SyntaxNode.namedChildren, SyntaxNode.children,
      List.filter_append, hnil, List.nil_append, List.filter_cons, hnamed, if_true,
      List.getElem?_cons_zero, Option.some_inj] at hchild
    subst hchild
    refine Or.inr ⟨place, found', hplace, ?_, h, fun places' h' => .rule hbefore hnamed hplace h'⟩
    simp only [SyntaxNode.getNamedChild, SyntaxNode.namedChildren, SyntaxNode.children,
      List.filter_append, hnil, List.nil_append, List.filter_cons, h.named_eq, hnamed, if_true,
      List.getElem?_cons_zero]

/-! ### The entries of a match -/

theorem CommentedChildren.find?_target {l l' : List SyntaxNode}
    (h : CommentedChildren places .matchRule l l') :
    (l'.find? fun child => decide (child.field = some "target"))
      = l.find? fun child => decide (child.field = some "target") := by
  match h with
  | .nil => rfl
  | .keep hinner hrest => rw [List.find?_cons, List.find?_cons, hrest.find?_target]
  | .inside hinner h hrest =>
    obtain ⟨-, -, hfield⟩ := Place.inner_matchRule_eq_some.mp hinner
    rw [List.find?_cons, List.find?_cons, h.field_eq, hrest.find?_target]
    simp only [hfield, decide_false]
  | .comment hplace hrest => rw [List.find?_cons, hrest.find?_target]; rfl

/-- The node has no guard. -/
def SyntaxNode.lacksGuard (node : SyntaxNode) : Bool := (node.getChildByFieldName "guard").isNone

theorem Commented.lacksGuard_eq (h : Commented places .owner node node') :
    node'.lacksGuard = node.lacksGuard := by
  rw [SyntaxNode.lacksGuard, h.getChildByFieldName_of_ne (by decide), SyntaxNode.lacksGuard]

theorem countP_lacksGuard_eq {l l' : List SyntaxNode}
    (h : List.Forall₂ (Commented places .owner) l l') :
    l'.countP SyntaxNode.lacksGuard = l.countP SyntaxNode.lacksGuard := by
  induction h with
  | nil => rfl
  | cons h _ ih => rw [List.countP_cons, List.countP_cons, h.lacksGuard_eq, ih]

/-- A comment in a match is one more named child without a guard. If there is none, the named
children are those there were. -/
theorem CommentedChildren.named {l l' : List SyntaxNode}
    (h : CommentedChildren places .matchRule l l') :
    .matchRule ∈ places ∧ (l.filter SyntaxNode.named).countP SyntaxNode.lacksGuard
        < (l'.filter SyntaxNode.named).countP SyntaxNode.lacksGuard ∨
      List.Forall₂ (fun child child' => Commented places .owner child child' ∧
          (child.field = some "target" → child' = child))
        (l.filter SyntaxNode.named) (l'.filter SyntaxNode.named) ∧
      ∀ places' : List Place, List.Forall₂ (Commented places' .owner)
          (l.filter SyntaxNode.named) (l'.filter SyntaxNode.named) →
        CommentedChildren places' .matchRule l l' := by
  match h with
  | .nil => exact Or.inr ⟨.nil, fun _ _ => .nil⟩
  | @CommentedChildren.keep _ _ child children children' hinner hrest =>
    by_cases hnamed : child.named = true
    · rw [List.filter_cons_of_pos hnamed, List.filter_cons_of_pos hnamed]
      rcases hrest.named with ⟨hplace, hlt⟩ | ⟨hnamed', hback⟩
      · left
        rw [List.countP_cons, List.countP_cons]
        exact ⟨hplace, Nat.add_lt_add_right hlt _⟩
      · right
        refine ⟨.cons ⟨.same, fun _ => rfl⟩ hnamed', fun places' hall => ?_⟩
        exact .keep hinner (hback places' (List.forall₂_cons.mp hall).2)
    · rw [List.filter_cons_of_neg hnamed, List.filter_cons_of_neg hnamed]
      rcases hrest.named with hlt | ⟨hnamed', hback⟩
      · exact Or.inl hlt
      · exact Or.inr ⟨hnamed', fun places' hall => .keep hinner (hback places' hall)⟩
  | @CommentedChildren.inside _ _ inner child child' children children' hinner h hrest =>
    obtain ⟨rfl, hnamed, hfield⟩ := Place.inner_matchRule_eq_some.mp hinner
    rw [List.filter_cons_of_pos hnamed, List.filter_cons_of_pos (h.named_eq ▸ hnamed)]
    rcases hrest.named with ⟨hplace, hlt⟩ | ⟨hnamed', hback⟩
    · left
      rw [List.countP_cons, List.countP_cons, h.lacksGuard_eq]
      exact ⟨hplace, Nat.add_lt_add_right hlt _⟩
    · right
      refine ⟨.cons ⟨h, fun heq => absurd heq hfield⟩ hnamed', fun places' hall => ?_⟩
      obtain ⟨hchild, hall⟩ := List.forall₂_cons.mp hall
      exact .inside hinner hchild (hback places' hall)
  | @CommentedChildren.comment _ _ text _ children' hplace hrest =>
    left
    refine ⟨hplace, ?_⟩
    have hcomment : (commentNode text).lacksGuard = true := rfl
    rw [List.filter_cons_of_pos (rfl : (commentNode text).named = true), List.countP_cons,
      if_pos hcomment]
    rcases hrest.named with ⟨-, hlt⟩ | ⟨hnamed', -⟩
    · omega
    · have hcount := countP_lacksGuard_eq (hnamed'.imp fun _ _ h => h.1)
      omega

/-- The named children of a match that begins with a target without a guard. -/
theorem Commented.entries (h : Commented places .matchRule node node') {target : SyntaxNode}
    {entries : List SyntaxNode} (hnamed : node.namedChildren = target :: entries)
    (hfield : target.field = some "target") (hguard : target.lacksGuard = true) :
    .matchRule ∈ places ∧ (∃ entry ∈ node'.namedChildren.drop 1, entry.lacksGuard = true) ∨
      List.Forall₂ (Commented places .owner) entries (node'.namedChildren.drop 1) ∧
      ∀ places' : List Place,
        List.Forall₂ (Commented places' .owner) entries (node'.namedChildren.drop 1) →
        Commented places' .matchRule node node' := by
  cases h with
  | same =>
    rw [hnamed]
    exact Or.inr ⟨List.forall₂_same.2 fun _ _ => .same, fun _ _ => .same⟩
  | @matchRule type text text' field named children children' h =>
    rw [SyntaxNode.namedChildren, SyntaxNode.children] at hnamed ⊢
    rcases h.named with ⟨hplace, hlt⟩ | ⟨hall, hback⟩
    · left
      refine ⟨hplace, ?_⟩
      rw [hnamed, List.countP_cons_of_pos hguard] at hlt
      cases hchildren : children'.filter SyntaxNode.named with
      | nil =>
        rw [hchildren] at hlt
        simp at hlt
      | cons first rest =>
        rw [hchildren, List.countP_cons] at hlt
        have hpos : 0 < rest.countP SyntaxNode.lacksGuard := by
          split at hlt <;> omega
        exact List.countP_pos_iff.mp hpos
    · right
      rw [hnamed] at hall hback
      obtain ⟨first, rest, ⟨-, hfirst⟩, hrest, hchildren⟩ := List.forall₂_cons_left_iff.mp hall
      rw [hfirst hfield] at hchildren
      rw [hchildren] at hback ⊢
      exact ⟨hrest.imp fun _ _ h => h.1,
        fun places' hrest => .matchRule (hback places' (.cons .same hrest))⟩

theorem Commented.target (h : Commented places .matchRule node node') :
    node'.getChildByFieldName "target" = node.getChildByFieldName "target" := by
  cases h with
  | same => rfl
  | matchRule h => exact h.find?_target

end Commented

/-! ### Trees in which a match begins with its target -/

mutual

/-- The nodes of a tree. -/
def SyntaxNode.nodes : SyntaxNode → List SyntaxNode
  | .mk type text field named children =>
    .mk type text field named children :: SyntaxNode.nodesBelow children

/-- The nodes of trees. -/
def SyntaxNode.nodesBelow : List SyntaxNode → List SyntaxNode
  | [] => []
  | node :: nodes => node.nodes ++ SyntaxNode.nodesBelow nodes

end

/-- The first named child of a match is its target, an expression, which has no guard. -/
def SyntaxNode.TargetsFirst (node : SyntaxNode) : Prop :=
  ∀ rule ∈ node.nodes, rule.named = true → rule.type = "match" →
    ∃ target ∈ rule.getNamedChild 0, target.field = some "target" ∧ target.lacksGuard = true

theorem SyntaxNode.mem_nodes_self (node : SyntaxNode) : node ∈ node.nodes := by
  obtain ⟨type, text, field, named, children⟩ := node
  rw [SyntaxNode.nodes]
  exact List.mem_cons_self

theorem SyntaxNode.nodes_subset_nodesBelow {child : SyntaxNode} {children : List SyntaxNode}
    (h : child ∈ children) : child.nodes ⊆ SyntaxNode.nodesBelow children := by
  induction children with
  | nil => cases h
  | cons first rest ih =>
    rw [SyntaxNode.nodesBelow]
    rcases List.mem_cons.mp h with rfl | h
    · exact List.subset_append_left _ _
    · exact List.Subset.trans (ih h) (List.subset_append_right _ _)

/-- The trees below. -/
theorem SyntaxNode.TargetsFirst.of_mem_children {node child : SyntaxNode} (h : node.TargetsFirst)
    (hchild : child ∈ node.children) : child.TargetsFirst := by
  obtain ⟨type, text, field, named, children⟩ := node
  intro rule hrule
  refine h rule ?_
  rw [SyntaxNode.nodes]
  exact List.mem_cons_of_mem _ (SyntaxNode.nodes_subset_nodesBelow hchild hrule)

theorem SyntaxNode.TargetsFirst.of_getNamedChild {node child : SyntaxNode} (h : node.TargetsFirst)
    {i : ℕ} (hchild : node.getNamedChild i = some child) : child.TargetsFirst :=
  h.of_mem_children (List.mem_of_mem_filter (List.mem_of_getElem? hchild))

theorem SyntaxNode.TargetsFirst.of_getChildByFieldName {node child : SyntaxNode}
    (h : node.TargetsFirst) {name : String} (hchild : node.getChildByFieldName name = some child) :
    child.TargetsFirst :=
  h.of_mem_children (List.mem_of_find?_eq_some hchild)

theorem SyntaxNode.TargetsFirst.of_mem_rules {node child : SyntaxNode} (h : node.TargetsFirst)
    (hchild : child ∈ node.rules) : child.TargetsFirst :=
  h.of_mem_children (List.mem_of_mem_filter (List.mem_of_mem_filter hchild))

/-- The named children of a match. -/
theorem SyntaxNode.TargetsFirst.namedChildren {node rule : SyntaxNode} (h : node.TargetsFirst)
    (hrule : node.getNamedChild 0 = some rule) (htype : rule.type = "match") :
    ∃ target, rule.namedChildren = target :: rule.namedChildren.drop 1 ∧
      target.field = some "target" ∧ target.lacksGuard = true := by
  have hnamed : rule.named = true := List.of_mem_filter (List.mem_of_getElem? hrule)
  obtain ⟨target, hchild, htarget⟩ :=
    h.of_getNamedChild hrule rule rule.mem_nodes_self hnamed htype
  refine ⟨target, ?_, htarget⟩
  rw [Option.mem_def, SyntaxNode.getNamedChild] at hchild
  cases hnodes : rule.namedChildren with
  | nil =>
    rw [hnodes] at hchild
    cases hchild
  | cons first rest =>
    rw [hnodes, List.getElem?_cons_zero, Option.some_inj] at hchild
    rw [hchild]
    rfl

/-! ### Parses that fail -/

section Fails

variable {p : Option SyntaxNode → Option ℕ → Parse (Option ℕ)} {node child bodyNode : SyntaxNode}

/-- The guard of an entry is read before anything else. -/
theorem fails_parseMatchEntry_guard (h : node.lacksGuard = true) (i : ℕ) :
    Fails (parseMatchEntry p i node) := by
  rw [SyntaxNode.lacksGuard, Option.isNone_iff_eq_none] at h
  rw [parseMatchEntry, h]
  exact (fails_ofExcept rfl).bind _

theorem fails_parseMatchEntry_body (hbody : node.getChildByFieldName "body" = some bodyNode)
    (h : ∀ parent, Fails (p (some bodyNode) parent)) (i : ℕ) :
    Fails (parseMatchEntry p i node) := by
  rw [parseMatchEntry, hbody]
  exact fails_bind _ fun _ => (h _).bind _

theorem fails_parseMatchRule (hchild : node.getNamedChild 0 = some child) {entry : SyntaxNode}
    (hentry : entry ∈ child.namedChildren.drop 1) (h : ∀ i, Fails (parseMatchEntry p i entry)) :
    Fails (parseMatchRule p node) := by
  rw [parseMatchRule, hchild, deref_some, ofExcept_ok, pure_bind]
  refine fails_bind _ fun _ => fails_bind _ fun matchNode => ?_
  exact (fails_forM hentry (h matchNode)).bind _

theorem fails_parseForRule (hchild : node.getNamedChild 0 = some child)
    (hbody : child.getChildByFieldName "body" = some bodyNode)
    (h : ∀ parent, Fails (p (some bodyNode) parent)) (type : NodeType) :
    Fails (parseForRule p node type) := by
  rw [parseForRule, hchild, deref_some, ofExcept_ok, pure_bind, hbody]
  exact fails_bind _ fun _ => fails_bind _ fun _ => fails_bind _ fun _ => (h _).bind _

theorem fails_parseControlBody (hchild : child ∈ bodyNode.rules)
    (h : ∀ depth, Fails (parseRule (parseControlBody depth) child)) (depth : ℕ)
    (parent : Option ℕ) : Fails (parseControlBody depth (some bodyNode) parent) := by
  cases depth with
  | zero => exact fails_throw _
  | succ depth =>
    have hcomment : child.type ≠ "comment" := by simpa using List.of_mem_filter hchild
    rw [parseControlBody_succ]
    refine Fails.map (fails_foldlM hchild (fun acc => ?_) _) _
    rw [parseControlBodyStep, if_neg hcomment]
    exact (h depth).bind _

end Fails

/-! ### Comments and the parser -/

section

variable {places : List Place}

/-- The rules are kept, or one of them has a comment in a match, and the parser fails there. -/
def SourceBody.KeptOrFails (places : List Place) (body : SourceBody)
    (nodes nodes' : List SyntaxNode) : Prop :=
  List.Forall₂ (Commented [.body] .rule) nodes nodes' ∧ body.Represents nodes' ∨
    .matchRule ∈ places ∧ ∃ node ∈ nodes', ∀ depth,
      Fails (parseRule (parseControlBody depth) node)

/-- The same for the entries of a match. -/
def SourceEntries.KeptOrFails (places : List Place) (entries : SourceEntries)
    (nodes nodes' : List SyntaxNode) : Prop :=
  List.Forall₂ (Commented [.body] .owner) nodes nodes' ∧ entries.Represents nodes' ∨
    .matchRule ∈ places ∧ ∃ entry ∈ nodes', ∀ depth i,
      Fails (parseMatchEntry (parseControlBody depth) i entry)

/-- And for one rule. -/
def SourceRule.KeptOrFails (places : List Place) (rule : SourceRule) (node node' : SyntaxNode) :
    Prop :=
  Commented [.body] .rule node node' ∧ rule.Represents node' ∨
    .matchRule ∈ places ∧ ∀ depth, Fails (parseRule (parseControlBody depth) node')

/-- A node with a body, when it is known what happens to the rules of the body. -/
theorem Commented.body_cases {node node' bodyNode : SyntaxNode} {body : SourceBody}
    (h : Commented places .owner node node')
    (hbody : node.getChildByFieldName "body" = some bodyNode)
    (hrules : ∀ nodes', List.Forall₂ (Commented places .rule) bodyNode.rules nodes' →
      body.KeptOrFails places bodyNode.rules nodes') :
    ∃ bodyNode', node'.getChildByFieldName "body" = some bodyNode' ∧
      (Commented [.body] .owner node node' ∧ body.Represents bodyNode'.rules ∨
        .matchRule ∈ places ∧ ∀ depth parent,
          Fails (parseControlBody depth (some bodyNode') parent)) := by
  obtain ⟨bodyNode', hbody', hbodies, hback⟩ := h.bodyNode hbody
  refine ⟨bodyNode', hbody', ?_⟩
  rcases hrules _ hbodies.rules.1 with ⟨hcommented, hrep⟩ | ⟨hplace, child, hmem, hfails⟩
  · exact Or.inl ⟨hback _ (hbodies.rules.2 _ List.mem_cons_self hcommented), hrep⟩
  · exact Or.inr ⟨hplace, fails_parseControlBody hmem hfails⟩

/-- A task is none of the nodes that comments are put below. -/
theorem commented_task {node node' : SyntaxNode} {type : NodeType} {list : List (List String)}
    (hrep : (SourceRule.task type list).Represents node)
    (h : Commented places .rule node node') :
    (SourceRule.task type list).KeptOrFails places node node' := by
  have hrep' := hrep
  rw [SourceRule.Represents] at hrep'
  obtain ⟨hnode, ruleNode, hchild, htype, hdata⟩ := hrep'
  rcases h.control hchild with rfl | ⟨place, ruleNode', hplace, -⟩
  · exact Or.inl ⟨.same, hrep⟩
  · simp only [List.mem_cons, List.not_mem_nil, or_false, not_or] at htype
    rw [SyntaxNode.controlPlace, if_neg (by simp [htype]), if_neg htype.2.2] at hplace
    cases hplace

/-- A loop, when it is known what happens to the rules of its body. -/
theorem commented_loop {node node' : SyntaxNode} {type : NodeType} {element list : List String}
    {body : SourceBody} (hrep : (SourceRule.loop type element list body).Represents node)
    (htargets : node.TargetsFirst) (h : Commented places .rule node node')
    (hrules : ∀ nodes nodes', body.Represents nodes → (∀ child ∈ nodes, child.TargetsFirst) →
      List.Forall₂ (Commented places .rule) nodes nodes' → body.KeptOrFails places nodes nodes') :
    (SourceRule.loop type element list body).KeptOrFails places node node' := by
  have hrep' := hrep
  rw [SourceRule.Represents] at hrep'
  obtain ⟨hnode, forRule, hchild, htype, helement, hlist, bodyNode, hbody, hrest⟩ := hrep'
  rcases h.control hchild with rfl | ⟨place, forRule', hplace, hchild', hfor, hback⟩
  · exact Or.inl ⟨.same, hrep⟩
  have htype' : forRule.type = "for" ∨ forRule.type = "parallel_for" :=
    htype.imp And.left And.left
  rw [SyntaxNode.controlPlace, if_pos htype', Option.some_inj] at hplace
  subst hplace
  rw [← hfor.type_eq] at htype
  have htargets' := (htargets.of_getNamedChild hchild).of_getChildByFieldName hbody
  obtain ⟨bodyNode', hbody', ⟨hcommented, hrest'⟩ | ⟨hplace, hfails⟩⟩ :=
    hfor.body_cases hbody fun nodes' =>
      hrules _ nodes' hrest fun child hmem => htargets'.of_mem_rules hmem
  · left
    refine ⟨hback _ hcommented, ?_⟩
    rw [SourceRule.Represents, h.type_eq]
    rw [← hfor.getChildByFieldName_of_ne (by decide)] at helement hlist
    exact ⟨hnode, forRule', hchild', htype, helement, hlist, bodyNode', hbody', hrest'⟩
  · right
    refine ⟨hplace, fun depth => ?_⟩
    rw [← h.type_eq] at hnode
    rw [parseRule_for hnode hchild' htype]
    exact fails_parseForRule hchild' hbody' (hfails depth) type

/-- A match, when it is known what happens to its entries. -/
theorem commented_match {node node' : SyntaxNode} {target : List String} {entries : SourceEntries}
    (hrep : (SourceRule.matchRule target entries).Represents node)
    (htargets : node.TargetsFirst) (h : Commented places .rule node node')
    (hentries : ∀ nodes nodes', entries.Represents nodes →
      (∀ entry ∈ nodes, entry.TargetsFirst) →
      List.Forall₂ (Commented places .owner) nodes nodes' →
      entries.KeptOrFails places nodes nodes') :
    (SourceRule.matchRule target entries).KeptOrFails places node node' := by
  have hrep' := hrep
  rw [SourceRule.Represents] at hrep'
  obtain ⟨hnode, rule, hchild, htype, htarget, hrest⟩ := hrep'
  rcases h.control hchild with rfl | ⟨place, rule', hplace, hchild', hmatch, hback⟩
  · exact Or.inl ⟨.same, hrep⟩
  rw [SyntaxNode.controlPlace, if_neg (by simp [htype]), if_pos htype, Option.some_inj] at hplace
  subst hplace
  obtain ⟨first, hnamed, hfield, hguard⟩ := htargets.namedChildren hchild htype
  have hfails : ∀ entry ∈ rule'.namedChildren.drop 1,
      (∀ depth i, Fails (parseMatchEntry (parseControlBody depth) i entry)) →
      ∀ depth, Fails (parseRule (parseControlBody depth) node') := by
    intro entry hentry hfails depth
    rw [parseRule_match (h.type_eq ▸ hnode) hchild' (hmatch.type_eq ▸ htype)]
    exact fails_parseMatchRule hchild' hentry (hfails depth)
  rcases hmatch.entries hnamed hfield hguard
    with ⟨hplace, entry, hmem, hlacks⟩ | ⟨hall, hback'⟩
  · right
    exact ⟨hplace, hfails entry hmem fun depth => fails_parseMatchEntry_guard hlacks⟩
  have htargets' : ∀ entry ∈ rule.namedChildren.drop 1, entry.TargetsFirst := fun entry hmem =>
    (htargets.of_getNamedChild hchild).of_mem_children
      (List.mem_of_mem_filter (List.mem_of_mem_drop hmem))
  rcases hentries _ _ hrest htargets' hall
    with ⟨hcommented, hrest'⟩ | ⟨hplace, entry, hmem, hentry⟩
  · left
    refine ⟨hback _ (hback' _ hcommented), ?_⟩
    rw [SourceRule.Represents, h.type_eq]
    rw [← hmatch.target] at htarget
    rw [← hmatch.type_eq] at htype
    exact ⟨hnode, rule', hchild', htype, htarget, hrest'⟩
  · exact Or.inr ⟨hplace, hfails entry hmem hentry⟩

mutual

/-- A rule with comments put into it. -/
theorem SourceRule.commented {node node' : SyntaxNode} (rule : SourceRule)
    (hrep : rule.Represents node) (htargets : node.TargetsFirst)
    (h : Commented places .rule node node') : rule.KeptOrFails places node node' := by
  cases rule with
  | task type list => exact commented_task hrep h
  | loop type element list body =>
    exact commented_loop hrep htargets h fun _ _ => body.commented
  | matchRule target entries =>
    exact commented_match hrep htargets h fun _ _ => entries.commented

/-- The entries of a match, with comments put into each of them. -/
theorem SourceEntries.commented {nodes nodes' : List SyntaxNode} (entries : SourceEntries)
    (hrep : entries.Represents nodes) (htargets : ∀ entry ∈ nodes, entry.TargetsFirst)
    (h : List.Forall₂ (Commented places .owner) nodes nodes') :
    entries.KeptOrFails places nodes nodes' := by
  cases entries with
  | nil =>
    rw [SourceEntries.Represents] at hrep
    subst hrep
    cases h
    exact Or.inl ⟨.nil, rfl⟩
  | cons guard body rest =>
    rw [SourceEntries.Represents] at hrep
    obtain ⟨entry, others, rfl, hguard, ⟨bodyNode, hbody, hrep⟩, hrest⟩ := hrep
    obtain ⟨entry', others', hentry, hothers, rfl⟩ := List.forall₂_cons_left_iff.mp h
    have htargets' := (htargets entry List.mem_cons_self).of_getChildByFieldName hbody
    obtain ⟨bodyNode', hbody', ⟨hcommented, hrep'⟩ | ⟨hplace, hfails⟩⟩ :=
      hentry.body_cases hbody fun nodes' =>
        body.commented hrep fun child hmem => htargets'.of_mem_rules hmem
    · rcases rest.commented hrest (fun entry hmem => htargets entry (List.mem_cons_of_mem _ hmem))
        hothers with ⟨hcommented', hrest'⟩ | ⟨hplace, entry, hmem, hfails⟩
      · left
        refine ⟨.cons hcommented hcommented', ?_⟩
        rw [SourceEntries.Represents]
        rw [← hentry.getChildByFieldName_of_ne (by decide)] at hguard
        exact ⟨entry', others', rfl, hguard, ⟨bodyNode', hbody', hrep'⟩, hrest'⟩
      · exact Or.inr ⟨hplace, entry, List.mem_cons_of_mem _ hmem, hfails⟩
    · right
      refine ⟨hplace, entry', List.mem_cons_self, fun depth => ?_⟩
      exact fails_parseMatchEntry_body hbody' (hfails depth)

/-- The rules of a body, with comments put into each of them. -/
theorem SourceBody.commented {nodes nodes' : List SyntaxNode} (body : SourceBody)
    (hrep : body.Represents nodes) (htargets : ∀ node ∈ nodes, node.TargetsFirst)
    (h : List.Forall₂ (Commented places .rule) nodes nodes') :
    body.KeptOrFails places nodes nodes' := by
  cases body with
  | nil =>
    rw [SourceBody.Represents] at hrep
    subst hrep
    cases h
    exact Or.inl ⟨.nil, rfl⟩
  | cons rule rest =>
    rw [SourceBody.Represents] at hrep
    obtain ⟨node, others, rfl, hrule, hrest⟩ := hrep
    obtain ⟨node', others', hnode, hothers, rfl⟩ := List.forall₂_cons_left_iff.mp h
    rcases rule.commented hrule (htargets node List.mem_cons_self) hnode
      with ⟨hcommented, hrule'⟩ | ⟨hplace, hfails⟩
    · rcases rest.commented hrest (fun node hmem => htargets node (List.mem_cons_of_mem _ hmem))
        hothers with ⟨hcommented', hrest'⟩ | ⟨hplace, node, hmem, hfails⟩
      · left
        refine ⟨.cons hcommented hcommented', ?_⟩
        rw [SourceBody.Represents]
        exact ⟨node', others', rfl, hrule', hrest'⟩
      · exact Or.inr ⟨hplace, node, List.mem_cons_of_mem _ hmem, hfails⟩
    · exact Or.inr ⟨hplace, node', List.mem_cons_self, hfails⟩

end

end

/-- **Comments do not change the rules that are parsed, exactly if none is put into a match.** The
rules are any tree in which a match begins with its target, and comments are put anywhere among the
named children of its bodies and matches. The parse with them returns the nodes of the one without
them when they are in bodies only, and fails otherwise. -/
theorem comments_kept_iff {node node' bodyNode : SyntaxNode} {body : SourceBody}
    (hbody : node.getChildByFieldName "body" = some bodyNode)
    (hrep : body.Represents bodyNode.rules) (htargets : node.TargetsFirst)
    (h : Commented [.body, .matchRule] .owner node node') :
    (∃ root made, (parseRules node').run [] = .ok root made ∧
        (parseRules node).run [] = .ok root made) ↔ Commented [.body] .owner node node' := by
  have htargets' : ∀ child ∈ bodyNode.rules, child.TargetsFirst := fun child hmem =>
    (htargets.of_getChildByFieldName hbody).of_mem_rules hmem
  constructor
  · rintro ⟨root, made, hrun, -⟩
    obtain ⟨bodyNode', hbody', ⟨hcommented, -⟩ | ⟨-, hfails⟩⟩ :=
      h.body_cases hbody fun nodes' => body.commented hrep htargets'
    · exact hcommented
    · rw [parseRules, hbody'] at hrun
      exact absurd hrun (hfails _ none).ne_ok
  · intro hkept
    obtain ⟨bodyNode', hbody', ⟨-, hrep'⟩ | ⟨hplace, -⟩⟩ :=
      hkept.body_cases hbody fun nodes' => body.commented hrep htargets'
    · exact ⟨_, _, parseRules_run hbody' hrep', parseRules_run hbody hrep⟩
    · simp at hplace

/-- The rules that are one rule. -/
def oneRule (control : SyntaxNode) : SyntaxNode :=
  .mk "rules" [] none true
    [.mk "body" [] (some "body") true [.mk "rule" [] none true [control]]]

/-- A match of `x` with one entry, with children between the target and the entry, and in the body
of the entry before its rule. -/
def matchNodeOf (between inside : List SyntaxNode) : SyntaxNode :=
  .mk "match" [] none true (leafNode "x" "target" :: (between ++
    [.mk "match_entry" [] none true [leafNode "true" "guard",
      .mk "body" [] (some "body") true (inside ++ [reverseRule])]]))

theorem represents_matchNodeOf : ∃ bodyNode, ∃ body : SourceBody,
    (oneRule (matchNodeOf [] [])).getChildByFieldName "body" = some bodyNode ∧
      body.Represents bodyNode.rules := by
  let task : SourceRule := .task .reverse [["reverse"]]
  have htask : task.Represents reverseRule := by
    rw [SourceRule.Represents]
    exact ⟨rfl, _, rfl, by decide, rfl⟩
  refine ⟨_, .cons (.matchRule ["x"] (.cons ["true"] (.cons task .nil) .nil)) .nil, rfl, ?_⟩
  simp only [SourceBody.Represents, SourceRule.Represents, SourceEntries.Represents]
  exact ⟨_, _, rfl, ⟨rfl, _, rfl, rfl, rfl, _, _, rfl, rfl, ⟨_, rfl, _, _, rfl, htask, rfl⟩, rfl⟩,
    rfl⟩

theorem targetsFirst_matchNodeOf : (oneRule (matchNodeOf [] [])).TargetsFirst := by
  rw [SyntaxNode.TargetsFirst]
  decide

section

variable {places : List Place}

theorem Commented.oneRule {control control' : SyntaxNode} {place : Place}
    (hnamed : control.named = true) (hplace : control.controlPlace = some place)
    (h : Commented places place control control') :
    Commented places .owner (oneRule control) (oneRule control') := by
  have hrule : Commented places .rule (.mk "rule" [] none true [control])
      (.mk "rule" [] none true [control']) :=
    @Commented.rule places "rule" [] [] none true [] [] _ _ _ (List.forall_mem_nil _) hnamed hplace
      h
  have hinner : Place.body.inner (.mk "rule" [] none true [control]) = some .rule :=
    Place.inner_body_eq_some.mpr ⟨rfl, rfl, by simp [SyntaxNode.type]⟩
  exact @Commented.owner places "rules" [] [] none true [] [] _ _ (List.forall_mem_nil _) rfl
    (.body (.inside hinner hrule .nil))

theorem commented_between (text : List Char) (h : .matchRule ∈ places) :
    Commented places .owner (oneRule (matchNodeOf [] []))
      (oneRule (matchNodeOf [commentNode text] [])) :=
  .oneRule rfl rfl (.matchRule (.keep rfl (.comment h (.inside rfl .same .nil))))

theorem commented_inside (text : List Char) (h : .body ∈ places) :
    Commented places .owner (oneRule (matchNodeOf [] []))
      (oneRule (matchNodeOf [] [commentNode text])) := by
  have hbody : Commented places .body (.mk "body" [] (some "body") true [reverseRule])
      (.mk "body" [] (some "body") true [commentNode text, reverseRule]) :=
    .body (.comment h (.inside rfl .same .nil))
  have hentry := @Commented.owner places "match_entry" [] [] none true [leafNode "true" "guard"] []
    _ _ (by decide) rfl hbody
  exact .oneRule rfl rfl (.matchRule (.keep rfl (.inside rfl hentry .nil)))

end

/-- A comment in the body of the entry. -/
theorem comments_kept_inside : ∃ root made,
    (parseRules (oneRule (matchNodeOf [] [commentNode "// again".toList]))).run [] = .ok root made ∧
      (parseRules (oneRule (matchNodeOf [] []))).run [] = .ok root made := by
  obtain ⟨bodyNode, body, hbody, hrep⟩ := represents_matchNodeOf
  exact (comments_kept_iff hbody hrep targetsFirst_matchNodeOf
    (commented_inside _ List.mem_cons_self)).mpr (commented_inside _ List.mem_cons_self)

/-- A comment before the entry: the rules are parsed without it, and not with it. -/
theorem comment_before_entry :
    (∃ bodyNode, ∃ body : SourceBody,
        (oneRule (matchNodeOf [] [])).getChildByFieldName "body" = some bodyNode ∧
        body.Represents bodyNode.rules) ∧
      (oneRule (matchNodeOf [] [])).TargetsFirst ∧
      Commented [.body, .matchRule] .owner (oneRule (matchNodeOf [] []))
        (oneRule (matchNodeOf [commentNode "// again".toList] [])) ∧
      (parseRules (oneRule (matchNodeOf [] []))).run [] = .ok (some 0)
        [{ list := [["x"]], type := .matchRule, children := some [⟨["true"], some 1⟩] },
          { list := [["reverse"]], type := .reverse, parentNode := some 0 }] ∧
      (parseRules (oneRule (matchNodeOf [commentNode "// again".toList] []))).run []
        = .error (.undefined .nullDeref)
            [{ list := [["x"]], type := .matchRule, children := some [] }] :=
  ⟨represents_matchNodeOf, targetsFirst_matchNodeOf,
    commented_between _ (List.mem_cons_of_mem _ List.mem_cons_self), rfl, rfl⟩

end SocialGaming
