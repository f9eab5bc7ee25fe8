import SocialGaming.SyntaxTree
import SocialGaming.Library.PostOrder
import Mathlib.Data.List.Basic
import Mathlib.Data.Nat.Basic

/-!
# The search for descendants

`getAllChildNodeValues` collects the source text of all named descendants of a type. Its helper
descends into a child before it looks at the child itself, so the texts come in the post-order of
their nodes, which in the source is the order of their ends.

## Main definitions

* `getAllChildNodeValues`
* `SourceLayout` — the positions of the nodes in the source

## Main results

* `getAllChildNodeValuesHelper_eq` — what the helper appends
* `getAllChildNodeValues_ordered` — every descendant of the type once, in the order of the ends
-/

namespace SocialGaming

open SyntaxNode

/-- `getAllChildNodeValuesHelper`: `result` after the call. -/
def getAllChildNodeValuesHelper (childNodeType : String) (node : SyntaxNode)
    (result : List (List Char)) : List (List Char) :=
  if node.getNumNamedChildren = 0 then result
  else node.namedChildren.attach.foldl (fun result current =>
    let result := getAllChildNodeValuesHelper childNodeType current.1 result
    if current.1.type = childNodeType then result ++ [current.1.sourceRange] else result) result
termination_by node.height
decreasing_by exact height_lt_of_mem_namedChildren current.2

/-- `getAllChildNodeValues`. -/
def getAllChildNodeValues (childNodeType : String) (node : SyntaxNode) : List (List Char) :=
  getAllChildNodeValuesHelper childNodeType node []

/-! ### What is found -/

/-- The text of the node that a path leads to, if the node is of the type. -/
def matchAt (childNodeType : String) (node : SyntaxNode) (path : List ℕ) : Option (List Char) :=
  (descend namedChildren node path).bind fun current =>
    if current.type = childNodeType then some current.sourceRange else none

section

variable {childNodeType : String} {node : SyntaxNode}

/-- The texts below a node are those of the children and those below the children. -/
theorem filterMap_postOrder (depth : ℕ) :
    (postOrder namedChildren (depth + 1) node).filterMap (matchAt childNodeType node)
      = node.namedChildren.flatMap fun current =>
        (postOrder namedChildren depth current).filterMap (matchAt childNodeType current) ++
          (matchAt childNodeType current []).toList := by
  have hchild : ∀ child ∈ node.namedChildren.zipIdx, ∀ path,
      matchAt childNodeType node (child.2 :: path) = matchAt childNodeType child.1 path := by
    rintro ⟨current, i⟩ hmem path
    have hcurrent : node.namedChildren[i]? = some current := by
      simpa [List.mem_zipIdx_iff_getElem?] using hmem
    rw [matchAt, descend, hcurrent]
    rfl
  rw [postOrder, List.filterMap_flatMap, ← List.zipIdx_map_fst 0 node.namedChildren,
    List.flatMap_map, List.zipIdx_map_fst]
  refine List.flatMap_congr ?_
  intro child hmem
  have hbelow : (postOrder namedChildren depth child.1).filterMap
      (fun path => matchAt childNodeType node (child.2 :: path))
        = (postOrder namedChildren depth child.1).filterMap (matchAt childNodeType child.1) :=
    List.filterMap_congr fun path _ => hchild child hmem path
  have hself : [[child.2]].filterMap (matchAt childNodeType node)
      = (matchAt childNodeType child.1 []).toList := by
    rw [← hchild child hmem, List.filterMap_cons]
    rcases matchAt childNodeType node [child.2] with _ | text
    · rfl
    · rfl
  rw [List.filterMap_append, List.filterMap_map, hself]
  exact congrArg (· ++ _) hbelow

/-- **What the helper appends.** -/
theorem getAllChildNodeValuesHelper_eq {depth : ℕ} (hdepth : node.height ≤ depth)
    (result : List (List Char)) :
    getAllChildNodeValuesHelper childNodeType node result
      = result ++ (postOrder namedChildren depth node).filterMap (matchAt childNodeType node) := by
  induction depth generalizing node result with
  | zero =>
    obtain ⟨_, _, _, _, _⟩ := node
    rw [height] at hdepth
    omega
  | succ depth ih =>
    have hstep : ∀ current ∈ node.namedChildren, ∀ result,
        (if current.type = childNodeType then
          getAllChildNodeValuesHelper childNodeType current result ++ [current.sourceRange]
          else getAllChildNodeValuesHelper childNodeType current result)
        = result ++ ((postOrder namedChildren depth current).filterMap
          (matchAt childNodeType current) ++ (matchAt childNodeType current []).toList) := by
      intro current hcurrent result
      have hlt := height_lt_of_mem_namedChildren hcurrent
      rw [ih (by omega), matchAt, descend, Option.bind_some]
      by_cases htype : current.type = childNodeType
      · simp [htype]
      · simp [htype]
    rw [getAllChildNodeValuesHelper, filterMap_postOrder]
    by_cases hnone : node.getNumNamedChildren = 0
    · rw [if_pos hnone, List.length_eq_zero_iff.mp hnone]
      simp
    · rw [if_neg hnone]
      conv_rhs => rw [← List.attach_map_subtype_val node.namedChildren]
      generalize node.namedChildren.attach = children
      induction children generalizing result with
      | nil => simp
      | cons current rest ihrest =>
        rw [List.foldl_cons, ihrest, hstep current.1 current.2, List.map_cons, List.flatMap_cons,
          List.append_assoc]

end

/-! ### In the source -/

/-- The named descendants of the node lie in the source, from the starts to the stops of their
ranges, and their texts are what the source has there. -/
structure SourceLayout (source : List Char) (node : SyntaxNode) (start stop : List ℕ → ℕ) :
    Prop where
  nested : NestedRanges namedChildren node start stop
  text : ∀ path current, descend namedChildren node path = some current →
    current.sourceRange = (source.take (stop path)).drop (start path)

/-- The path leads to a proper descendant of the type. -/
def LeadsToType (childNodeType : String) (node : SyntaxNode) (path : List ℕ) : Prop :=
  path ≠ [] ∧ ∃ current, descend namedChildren node path = some current ∧
    current.type = childNodeType

section

variable {source : List Char} {node : SyntaxNode} {start stop : List ℕ → ℕ}
  {childNodeType : String}

theorem LeadsToType.isSome {path : List ℕ} (h : LeadsToType childNodeType node path) :
    (descend namedChildren node path).isSome := by
  obtain ⟨-, current, hcurrent, -⟩ := h
  rw [hcurrent]
  rfl

theorem mem_postOrder_height_iff {path : List ℕ} :
    path ∈ postOrder namedChildren node.height node ↔
      path ≠ [] ∧ (descend namedChildren node path).isSome := by
  refine mem_postOrder_iff ?_ (Nat.le_refl _)
  intro _ _ hchild
  exact height_lt_of_mem_namedChildren hchild

/-- A text is found at the paths that lead to a node of the type. -/
theorem SourceLayout.matchAt_eq (h : SourceLayout source node start stop) {path : List ℕ}
    [Decidable (LeadsToType childNodeType node path)] (hne : path ≠ []) :
    matchAt childNodeType node path = if LeadsToType childNodeType node path then
      some ((source.take (stop path)).drop (start path)) else none := by
  rcases hcurrent : descend namedChildren node path with _ | current
  · have hnot : ¬ LeadsToType childNodeType node path := by
      rintro ⟨-, current, hcurrent', -⟩
      rw [hcurrent] at hcurrent'
      cases hcurrent'
    rw [if_neg hnot, matchAt, hcurrent, Option.bind_none]
  · rw [matchAt, hcurrent, Option.bind_some, h.text path current hcurrent]
    by_cases htype : current.type = childNodeType
    · rw [if_pos htype, if_pos ⟨hne, current, hcurrent, htype⟩]
    · have hnot : ¬ LeadsToType childNodeType node path := by
        rintro ⟨-, current', hcurrent', htype'⟩
        obtain rfl := Option.some_inj.mp (hcurrent.symm.trans hcurrent')
        exact htype htype'
      rw [if_neg htype, if_neg hnot]

open Classical in
/-- **The search for descendants.** What is returned are the texts of the proper descendants of the
type, of each once and of no other node. Their ends do not decrease, and no node comes before one
that is inside it. -/
theorem getAllChildNodeValues_ordered (h : SourceLayout source node start stop)
    (childNodeType : String) : ∃ found : List (List ℕ),
      getAllChildNodeValues childNodeType node
        = found.map (fun path => (source.take (stop path)).drop (start path)) ∧
      found.Nodup ∧ (∀ path, path ∈ found ↔ LeadsToType childNodeType node path) ∧
      found.Pairwise fun path path' => stop path ≤ stop path' ∧ ¬ path <+: path' := by
  set found := (postOrder namedChildren node.height node).filter
    (fun path => LeadsToType childNodeType node path) with hfound
  have hmem : ∀ path, path ∈ found ↔ LeadsToType childNodeType node path := by
    intro path
    rw [hfound, List.mem_filter, decide_eq_true_iff, mem_postOrder_height_iff]
    exact and_iff_right_of_imp fun hleads => ⟨hleads.1, hleads.isSome⟩
  have hsub : found.Sublist (postOrder namedChildren node.height node) := List.filter_sublist
  refine ⟨found, ?_, (nodup_postOrder _ _).sublist hsub, hmem, ?_⟩
  · rw [getAllChildNodeValues, getAllChildNodeValuesHelper_eq (Nat.le_refl _), List.nil_append,
      hfound, ← List.filterMap_eq_map, List.filterMap_filter]
    refine List.filterMap_congr ?_
    intro path hpath
    rw [h.matchAt_eq (mem_postOrder_height_iff.mp hpath).1]
    simp
  · refine ((pairwise_postOrder _ _).sublist hsub).imp_of_mem ?_
    intro path path' hpath hpath' hbefore
    exact ⟨h.nested.stop_le_stop hbefore ((hmem path).mp hpath).isSome
      ((hmem path').mp hpath').isSome, hbefore.not_prefix⟩

end

/-- Two messages, the second inside a rule. -/
def messagesSource : List Char := "m all; m Bob;".toList

/-- The first message. -/
def firstMessage : SyntaxNode := .mk "message" "m all;".toList none true []

/-- The second message. -/
def secondMessage : SyntaxNode := .mk "message" "m Bob;".toList none true []

/-- The rule it is in. -/
def secondRule : SyntaxNode := .mk "rule" "m Bob;".toList none true [secondMessage]

/-- The tree of the source. -/
def messagesNode : SyntaxNode :=
  .mk "body" messagesSource none true [firstMessage, secondRule]

/-- Where its nodes start. -/
def messagesStart : List ℕ → ℕ
  | [] => 0
  | 0 :: _ => 0
  | _ => 7

/-- Where its nodes stop. -/
def messagesStop : List ℕ → ℕ
  | 0 :: _ => 6
  | _ => 13

/-- The nodes of the tree. -/
theorem descend_messagesNode {path : List ℕ} {current : SyntaxNode}
    (h : descend namedChildren messagesNode path = some current) :
    path = [] ∧ current = messagesNode ∨ path = [0] ∧ current = firstMessage ∨
      path = [1] ∧ current = secondRule ∨
      path = [1, 0] ∧ current = secondMessage := by
  rcases path with _ | ⟨_ | _ | i, path⟩
  · exact Or.inl ⟨rfl, (Option.some_inj.mp h).symm⟩
  · rcases path with _ | ⟨j, path⟩
    · exact Or.inr (Or.inl ⟨rfl, (Option.some_inj.mp h).symm⟩)
    · cases h
  · rcases path with _ | ⟨_ | j, _ | ⟨k, path⟩⟩
    · exact Or.inr (Or.inr (Or.inl ⟨rfl, (Option.some_inj.mp h).symm⟩))
    · exact Or.inr (Or.inr (Or.inr ⟨rfl, (Option.some_inj.mp h).symm⟩))
    · cases h
    · cases h
    · cases h
  · cases h

theorem path_messagesNode {path : List ℕ}
    (h : (descend namedChildren messagesNode path).isSome) :
    path = [] ∨ path = [0] ∨ path = [1] ∨ path = [1, 0] := by
  obtain ⟨current, hcurrent⟩ := Option.isSome_iff_exists.mp h
  rcases descend_messagesNode hcurrent with ⟨rfl, -⟩ | ⟨rfl, -⟩ | ⟨rfl, -⟩ | ⟨rfl, -⟩
  all_goals simp

/-- The paths to the children. -/
theorem append_messagesNode {path : List ℕ} {i : ℕ}
    (h : (descend namedChildren messagesNode (path ++ [i])).isSome) :
    path = [] ∧ i = 0 ∨ path = [] ∧ i = 1 ∨ path = [1] ∧ i = 0 := by
  have hpath := path_messagesNode h
  rcases path with _ | ⟨a, _ | ⟨b, path⟩⟩
  · simpa using hpath
  · simpa using hpath
  · simp at hpath

theorem sourceLayout_messages :
    SourceLayout messagesSource messagesNode messagesStart messagesStop where
  nested := by
    refine ⟨?_, ?_, ?_, ?_⟩
    · intro path h
      rcases path_messagesNode h with rfl | rfl | rfl | rfl
      all_goals decide
    · intro path i h
      rcases append_messagesNode h with ⟨rfl, rfl⟩ | ⟨rfl, rfl⟩ | ⟨rfl, rfl⟩
      all_goals decide
    · intro path i h
      rcases append_messagesNode h with ⟨rfl, rfl⟩ | ⟨rfl, rfl⟩ | ⟨rfl, rfl⟩
      all_goals decide
    · intro path i j hij h h'
      rcases append_messagesNode h with ⟨rfl, rfl⟩ | ⟨rfl, rfl⟩ | ⟨rfl, rfl⟩
      all_goals
        rcases append_messagesNode h' with ⟨hpath, rfl⟩ | ⟨hpath, rfl⟩ | ⟨hpath, rfl⟩
        all_goals first | omega | decide | cases hpath
  text := by
    intro path current h
    rcases descend_messagesNode h with ⟨rfl, rfl⟩ | ⟨rfl, rfl⟩ | ⟨rfl, rfl⟩ | ⟨rfl, rfl⟩
    all_goals rfl

theorem getAllChildNodeValues_messages : ∃ found : List (List ℕ),
    getAllChildNodeValues "message" messagesNode
      = found.map (fun path =>
        (messagesSource.take (messagesStop path)).drop (messagesStart path)) ∧
    found.Nodup ∧ (∀ path, path ∈ found ↔ LeadsToType "message" messagesNode path) ∧
    found.Pairwise fun path path' => messagesStop path ≤ messagesStop path' ∧ ¬ path <+: path' :=
  getAllChildNodeValues_ordered sourceLayout_messages "message"

end SocialGaming
