import SocialGaming.RuleTree
import SocialGaming.EnvironmentRuns

/-!
# Entering a loop that has been parsed

`parseForRule` gives the node of a loop two rows of data, the element and the list. The
`ControlFlow` constructor takes data of two rows or more for that of a loop and reads the second and
the third, as they are in the data of a task, whose first row is its type. So no loop that has been
parsed can be entered.

## Main definitions

* `KeepsData` — the parser's changes to its store: new nodes, and links

## Main results

* `parseControlBody_keepsData` — the parser does not change the data of a node it has made
* `parseForRule_data` — the data of a loop's node
* `Reachable.length_ne_two` — no scope belongs to a node with two rows
* `enterScope_parsedLoop` — entering it throws
-/

namespace SocialGaming

open Relation (ReflTransGen)

/-! ### The data of a parsed loop -/

/-- The nodes that were made have kept their type and data. -/
def KeepsData (made made' : List (RuleNode ℕ)) : Prop :=
  made.map RuleNode.typeAndData <+: made'.map RuleNode.typeAndData

instance : Std.Refl KeepsData := ⟨fun _ => List.prefix_rfl⟩
instance : IsTrans (List (RuleNode ℕ)) KeepsData := ⟨fun _ _ _ => List.IsPrefix.trans⟩

theorem newNode_keepsData (node : RuleNode ℕ) (made : List (RuleNode ℕ)) :
    Prog.Respects KeepsData (newNode node) made :=
  Prog.respects_ok (newNode_run node made) (by
    rw [KeepsData, List.map_append]
    exact List.prefix_append _ _)

theorem map_modify_eq {α β : Type} {g : α → β} {f : α → α} (hf : ∀ a, g (f a) = g a) (l : List α)
    (i : ℕ) : (l.modify i f).map g = l.map g := by
  induction l generalizing i with
  | nil => rw [List.modify_nil]
  | cons a l ih =>
    cases i with
    | zero => rw [List.modify_zero_cons, List.map_cons, List.map_cons, hf]
    | succ i => rw [List.modify_succ_cons, List.map_cons, List.map_cons, ih]

theorem modifyNode_keepsData (f : RuleNode ℕ → RuleNode ℕ)
    (hf : ∀ node, (f node).typeAndData = node.typeAndData) (i : ℕ) (made : List (RuleNode ℕ)) :
    Prog.Respects KeepsData (modifyNode i f) made :=
  Prog.respects_ok (modifyNode_run i f made) (by
    rw [KeepsData, map_modify_eq hf])

theorem setParentNode_keepsData (node : ℕ) (parent : Option ℕ) (made : List (RuleNode ℕ)) :
    Prog.Respects KeepsData (setParentNode node parent) made := by
  rw [setParentNode]
  refine modifyNode_keepsData _ ?_ node made
  intro n
  rfl

theorem setNextNode_keepsData (node next : ℕ) (made : List (RuleNode ℕ)) :
    Prog.Respects KeepsData (setNextNode node next) made := by
  rw [setNextNode]
  refine modifyNode_keepsData _ ?_ node made
  intro n
  rfl

theorem setChildren_keepsData (node : ℕ) (guard : List String) (childNode : Option ℕ)
    (made : List (RuleNode ℕ)) :
    Prog.Respects KeepsData (setChildren node guard childNode) made := by
  rw [setChildren]
  refine modifyNode_keepsData _ ?_ node made
  intro n
  rfl

theorem parseTask_keepsData (node : SyntaxNode) (made : List (RuleNode ℕ)) :
    Prog.Respects KeepsData (parseTask node) made :=
  Prog.respects_bind (Prog.respects_ofExcept _) fun _ _ _ =>
    Prog.respects_bind (Prog.respects_ofExcept _) fun _ made₂ _ => newNode_keepsData _ made₂

section

variable {p : Option SyntaxNode → Option ℕ → Parse (Option ℕ)}
  (hp : ∀ body parent made, Prog.Respects KeepsData (p body parent) made)

include hp

theorem parseForRule_keepsData (node : SyntaxNode) (type : NodeType) (made : List (RuleNode ℕ)) :
    Prog.Respects KeepsData (parseForRule p node type) made :=
  Prog.respects_bind (Prog.respects_ofExcept _) fun _ _ _ =>
    Prog.respects_bind (Prog.respects_ofExcept _) fun _ _ _ =>
    Prog.respects_bind (Prog.respects_ofExcept _) fun _ made₁ _ =>
    Prog.respects_bind (newNode_keepsData _ made₁) fun _ made₂ _ =>
    Prog.respects_bind (hp _ _ made₂) fun _ made₃ _ =>
    Prog.respects_bind (setChildren_keepsData _ _ _ made₃) fun _ made₄ _ =>
      Prog.respects_ok (EStateM.run_pure _ made₄) List.prefix_rfl

theorem parseMatchEntry_keepsData (matchNode : ℕ) (entry : SyntaxNode)
    (made : List (RuleNode ℕ)) :
    Prog.Respects KeepsData (parseMatchEntry p matchNode entry) made :=
  Prog.respects_bind (Prog.respects_ofExcept _) fun _ made₁ _ =>
    Prog.respects_bind (hp _ _ made₁) fun _ made₂ _ =>
      setChildren_keepsData _ _ _ made₂

theorem forM_keepsData (matchNode : ℕ) (entries : List SyntaxNode) (made : List (RuleNode ℕ)) :
    Prog.Respects KeepsData (entries.forM (parseMatchEntry p matchNode)) made := by
  induction entries generalizing made with
  | nil => exact Prog.respects_ok (EStateM.run_pure _ made) List.prefix_rfl
  | cons entry entries ih =>
    exact Prog.respects_bind (parseMatchEntry_keepsData hp matchNode entry made)
      fun _ made₁ _ => ih made₁

theorem parseMatchRule_keepsData (node : SyntaxNode) (made : List (RuleNode ℕ)) :
    Prog.Respects KeepsData (parseMatchRule p node) made :=
  Prog.respects_bind (Prog.respects_ofExcept _) fun _ _ _ =>
    Prog.respects_bind (Prog.respects_ofExcept _) fun _ made₁ _ =>
    Prog.respects_bind (newNode_keepsData _ made₁) fun _ made₂ _ =>
    Prog.respects_bind (forM_keepsData hp _ _ made₂) fun _ made₃ _ =>
      Prog.respects_ok (EStateM.run_pure _ made₃) List.prefix_rfl

theorem parseRule_keepsData (node : SyntaxNode) (made : List (RuleNode ℕ)) :
    Prog.Respects KeepsData (parseRule p node) made := by
  have hkind : ∀ rule : SyntaxNode, ∀ made, Prog.Respects KeepsData
      (if rule.type = "for" then parseForRule p node .forLoop
        else if rule.type = "parallel_for" then parseForRule p node .parallel
        else if rule.type = "match" then parseMatchRule p node
        else parseTask node) made := by
    intro rule made
    split_ifs
    · exact parseForRule_keepsData hp node .forLoop made
    · exact parseForRule_keepsData hp node .parallel made
    · exact parseMatchRule_keepsData hp node made
    · exact parseTask_keepsData node made
  rw [parseRule]
  by_cases hnode : node.type ≠ "rule"
  · rw [if_pos hnode]
    exact Prog.respects_error (Prog.run_throw _ made)
  · rw [if_neg hnode]
    exact Prog.respects_bind (Prog.respects_ofExcept _) fun rule made₁ _ => hkind rule made₁

theorem parseControlBodyStep_keepsData (parent : Option ℕ) (acc : Option ℕ × Option ℕ)
    (child : SyntaxNode) (made : List (RuleNode ℕ)) :
    Prog.Respects KeepsData (parseControlBodyStep p parent acc child) made := by
  rw [parseControlBodyStep]
  by_cases hcomment : child.type = "comment"
  · rw [if_pos hcomment]
    exact Prog.respects_ok (EStateM.run_pure _ made) List.prefix_rfl
  · rw [if_neg hcomment]
    refine Prog.respects_bind (parseRule_keepsData hp child made) fun node made₁ _ =>
      Prog.respects_bind (setParentNode_keepsData _ _ made₁) fun _ made₂ _ => ?_
    rcases acc.1 with _ | prevNode
    · exact Prog.respects_ok (EStateM.run_pure _ made₂) List.prefix_rfl
    · exact Prog.respects_bind (setNextNode_keepsData _ _ made₂) fun _ made₃ _ =>
        Prog.respects_ok (EStateM.run_pure _ made₃) List.prefix_rfl

end

/-- **The parser does not change the data of a node it has made.** -/
theorem parseControlBody_keepsData (depth : ℕ) (body : Option SyntaxNode) (parent : Option ℕ)
    (made : List (RuleNode ℕ)) :
    Prog.Respects KeepsData (parseControlBody depth body parent) made := by
  induction depth generalizing body parent made with
  | zero => exact Prog.respects_error (Prog.run_throw _ made)
  | succ depth ih =>
    exact Prog.respects_bind (Prog.respects_ofExcept _) fun bodyNode made₁ _ =>
      Prog.respects_bind
        (Prog.respects_foldlM (fun acc child _ made => parseControlBodyStep_keepsData
          (fun body parent made => ih body parent made) parent acc child made) _)
        fun acc made₂ _ => Prog.respects_ok (EStateM.run_pure _ made₂) List.prefix_rfl

theorem nodesOf_of_keepsData {made made' : List (RuleNode ℕ)} (h : KeepsData made made') {i : ℕ}
    (hi : i < made.length) : (nodesOf made' i).typeAndData = (nodesOf made i).typeAndData := by
  have hi' : i < made'.length := by
    have hle := h.length_le
    rw [List.length_map, List.length_map] at hle
    omega
  have hget := h.getElem (i := i) (by rwa [List.length_map])
  rw [List.getElem_map, List.getElem_map] at hget
  rw [nodesOf, nodesOf, List.getD_eq_getElem _ _ hi, List.getD_eq_getElem _ _ hi', hget]

/-- **The data of a loop's node**: the row of the element and the row of the list. -/
theorem parseForRule_data {depth forNode : ℕ} {node : SyntaxNode} {type : NodeType}
    {made made' : List (RuleNode ℕ)}
    (h : (parseForRule (parseControlBody depth) node type).run made = .ok forNode made') :
    forNode < made'.length ∧ ∃ element list,
      (nodesOf made' forNode).typeAndData = (type, [element, list]) := by
  simp only [parseForRule, Prog.run_bind_eq_ok, Prog.run_ofExcept_eq_ok] at h
  obtain ⟨rule, _, ⟨-, rfl⟩, element, _, ⟨-, rfl⟩, list, _, ⟨-, rfl⟩, n, made₁, hnew, first, made₂,
    hbody, ⟨⟩, made₃, hset, hret⟩ := h
  rw [newNode_run] at hnew
  obtain ⟨rfl, rfl⟩ := EStateM.Result.ok.inj hnew
  obtain ⟨rfl, rfl⟩ := EStateM.Result.ok.inj hret
  have hkeep₂ := parseControlBody_keepsData depth _ _ _ made₂ (congrArg Prog.after? hbody)
  have hkeep₃ := setChildren_keepsData _ _ _ made₂ made₃ (congrArg Prog.after? hset)
  have hkeep : KeepsData _ made₃ := hkeep₂.trans hkeep₃
  have hlt : made.length < (made ++ [({ list := [element, list], type, children := some [] } :
      RuleNode ℕ)]).length := by simp
  have hle := hkeep.length_le
  rw [List.length_map, List.length_map] at hle
  refine ⟨by omega, element, list, ?_⟩
  rw [nodesOf_of_keepsData hkeep hlt, nodesOf, List.getD_append_right _ _ _ _ le_rfl,
    Nat.sub_self]
  rfl

/-! ### Nodes with two rows -/

section

variable {ι : Type} (nodes : ι → RuleNode ι)

/-- The constructor reads a third row. -/
theorem ControlFlow.new_of_length_eq_two {n : ι} (h : (nodes n).list.length = 2) (s : Env ι) :
    ControlFlow.new nodes (some n) s = .error (.thrown .outOfRange) := by
  obtain ⟨element, list, hrows⟩ := List.length_eq_two.mp h
  simp [ControlFlow.new, hrows]
  rfl

theorem Scope.new_of_length_eq_two {n : ι} (h : (nodes n).list.length = 2) (s : Env ι) :
    Scope.new nodes (some n) s = .error (.thrown .outOfRange) := by
  rw [Scope.new, ControlFlow.new_of_length_eq_two nodes h]
  rfl

variable {nodes} [DecidableEq ι]

/-- No scope belongs to a node whose data has two rows. -/
theorem Reachable.length_ne_two {s : Env ι} (h : Reachable nodes s) :
    ∀ n, some (some n) ∈ owners s.scopes → (nodes n).list.length ≠ 2 := by
  refine h.owners_invariant (P := fun os => ∀ n, some (some n) ∈ os → (nodes n).list.length ≠ 2)
    (by simp) ?_
  intro os os' hmove hos n hn
  cases hmove with
  | @enter node s ctrl hctrl _ =>
    rcases List.mem_cons.mp hn with hhead | htail
    · intro hlen
      obtain rfl : node = some n := by
        rw [← ControlFlow.node_of_new_eq_ok nodes hctrl]
        exact (Option.some.inj hhead).symm
      rw [ControlFlow.new_of_length_eq_two nodes hlen] at hctrl
      cases hctrl
    · exact hos n htail
  | leave m _ => exact hos n (List.mem_cons_of_mem _ hn)

/-- Such a node cannot be entered. -/
theorem Reachable.enterScope_of_length_eq_two {s : Env ι} (h : Reachable nodes s) {n : ι}
    (hn : (nodes n).list.length = 2) :
    (enterScope nodes (some n)).run s = .error (.thrown .outOfRange) s := by
  rcases enterScope_cases nodes (some n) s with ⟨ctrl, hf, hnode, -⟩ | ⟨-, hrun⟩
  · -- the front scope would belong to the node
    obtain ⟨front, hfront, hctrl⟩ := Option.bind_eq_some_iff.mp hf
    have howner : front.owner = some (some n) := by
      rw [Scope.owner, hctrl, Option.map_some, hnode]
    have hmem : some (some n) ∈ owners s.scopes :=
      List.mem_map.mpr ⟨front, List.mem_of_mem_head? hfront, howner⟩
    exact absurd hn (h.length_ne_two n hmem)
  · rw [hrun]
    exact enterNew_error nodes (Scope.new_of_length_eq_two nodes hn s)

end

/-! ### Entering a parsed loop -/

/-- **A loop that has been parsed cannot be entered.** Whatever its element and its list are, and
whatever the environment binds, entering the node throws, and changes nothing. The nodes are those
of any store the parser has gone on to. -/
theorem enterScope_parsedLoop {depth forNode : ℕ} {node : SyntaxNode} {type : NodeType}
    {made made' parsed : List (RuleNode ℕ)}
    (hparse : (parseForRule (parseControlBody depth) node type).run made = .ok forNode made')
    (hkeep : KeepsData made' parsed) {s : Env ℕ} (hs : Reachable (nodesOf parsed) s) :
    (enterScope (nodesOf parsed) (some forNode)).run s = .error (.thrown .outOfRange) s ∧
      ∀ timer now, (enterScopeTimed (nodesOf parsed) (some forNode) timer now).run s
        = .error (.thrown .outOfRange) s := by
  obtain ⟨hlt, element, list, hdata⟩ := parseForRule_data hparse
  have hrows : (nodesOf parsed forNode).list = [element, list] := by
    rw [← nodesOf_of_keepsData hkeep hlt] at hdata
    exact congrArg Prod.snd hdata
  have hlen : (nodesOf parsed forNode).list.length = 2 := by rw [hrows]; rfl
  refine ⟨hs.enterScope_of_length_eq_two hlen, fun timer now => ?_⟩
  exact enterScopeTimed_error _ (Scope.new_of_length_eq_two _ hlen s)

/-- The store with the node of `for x in xs`. -/
def parsedLoop : List (RuleNode ℕ) :=
  [{ list := [["x"], ["xs"]], type := .forLoop, children := some [{ key := ["true"] }] }]

theorem parseForRule_parsedLoop :
    (parseForRule (parseControlBody 1) (forRule []) .forLoop).run [] = .ok 0 parsedLoop := rfl

/-- A new environment, after a client has bound `xs` to the list `1, 2`. -/
def xsEnv : Env ℕ :=
  ({ heap := { cells := [.int 1, .int 2, .list [some 0, some 1]], vars := [0, 1, 2] } } :
    Env ℕ).assign "xs" (.pointer (some 2))

theorem reachable_xsEnv (nodes : ℕ → RuleNode ℕ) : Reachable nodes xsEnv := by
  have hlist : Step nodes {}
      { heap := { cells := [.int 1, .int 2, .list [some 0, some 1]], vars := [0, 1, 2] } } :=
    Step.client ⟨List.nil_prefix, Nat.zero_le _, nofun⟩
  exact (ReflTransGen.single hlist).tail (Step.op (.setVariable "xs" (.pointer (some 2))) 0 rfl)

/-- The loop `for x in xs`, with `xs` bound to a list. -/
theorem enterScope_parsedLoop_xs :
    (enterScope (nodesOf parsedLoop) (some 0)).run xsEnv = .error (.thrown .outOfRange) xsEnv :=
  (enterScope_parsedLoop parseForRule_parsedLoop (Std.Refl.refl _) (reachable_xsEnv _)).1

/-- A list variable is bound and the loop is not entered. -/
theorem parsedLoop_not_entered :
    (parseForRule (parseControlBody 1) (forRule []) .forLoop).run [] = .ok 0 parsedLoop ∧
      (nodesOf parsedLoop 0).list = [["x"], ["xs"]] ∧
      Reachable (nodesOf parsedLoop) xsEnv ∧
      (∃ p, xsEnv.getVariable "xs" = some p ∧
        xsEnv.heap.value p = .list [some 0, some 1]) ∧
      ¬ ∃ next s', (enterScope (nodesOf parsedLoop) (some 0)).run xsEnv = .ok next s' := by
  have hthrow : (enterScope (nodesOf parsedLoop) (some 0)).run xsEnv
      = .error (.thrown .outOfRange) xsEnv :=
    (reachable_xsEnv _).enterScope_of_length_eq_two rfl
  refine ⟨parseForRule_parsedLoop, rfl, reachable_xsEnv _, ⟨2, by decide, by decide⟩, ?_⟩
  rintro ⟨next, s', hrun⟩
  rw [hthrow] at hrun
  cases hrun

end SocialGaming
