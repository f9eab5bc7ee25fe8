import SocialGaming.LoopScope

/-!
# Running a loop

A loop over a list of `n` elements whose bodies keep the list runs its body `n` times, once for each
element and in order.

## Main definitions

* `IsLoop` — a loop node whose data the `ControlFlow` constructor can read
* `Rounds` — rounds of the loop after which its scope is still entered
* `LoopAt` — the invariant of the rounds

## Main results

* `Rounds.loopAt` — each round takes one element
* `loop_execution` — what the next round does, after any number of them
-/

namespace SocialGaming

open ScopeStack (doms)

variable {ι : Type}

/-- The node is a loop over the variable `listName`, with the row and column layout the
`ControlFlow` constructor reads, and its body starts at `child`. -/
structure IsLoop (nodes : ι → RuleNode ι) (node : ι) (loopVar listName : String)
    (child : Option ι) : Prop where
  type : (nodes node).type.isLoop
  child : ∃ c, (nodes node).getChildWithKey ["true"] = .ok c ∧ c.child = child
  element : ∃ row, (nodes node).list[1]? = some row ∧ row[0]? = some loopVar
  list : ∃ row, (nodes node).list[2]? = some row ∧ row[1]? = some listName

/-- The control flow of a loop, as the constructor makes it. -/
def loopFlow (node : ι) (loopVar : String) (range : CellAddr) : ControlFlow ι :=
  { node := some node, loopVarName := loopVar, range := some range }

/-- The scope of a loop, as the constructor makes it. -/
def loopScope (nodes : ι → RuleNode ι) (node : ι) (loopVar : String) (range : CellAddr) :
    Scope ι :=
  { isParallel := (nodes node).type = .parallel, ctrlFlow := some (loopFlow node loopVar range) }

section Entry

variable {nodes : ι → RuleNode ι} {node : ι} {loopVar listName : String} {child : Option ι}

/-- A loop node with a child for the guard `true`. -/
theorem getNext_eq_ok {c : ChildNode ι} (htype : (nodes node).type.isLoop)
    (hchild : (nodes node).getChildWithKey ["true"] = .ok c) {ctrl : ControlFlow ι}
    (hn : ctrl.node = some node) : ctrl.getNext nodes = .ok c.child := by
  rw [ControlFlow.getNext, hn]
  simp [htype, hchild, bind, Except.bind, pure, Except.pure]

theorem IsLoop.getNext (h : IsLoop nodes node loopVar listName child) (range : CellAddr) :
    (loopFlow node loopVar range).getNext nodes = .ok child := by
  obtain ⟨c, hc, rfl⟩ := h.child
  exact getNext_eq_ok h.type hc rfl

theorem IsLoop.not_short (h : IsLoop nodes node loopVar listName child) :
    ¬ (nodes node).list.length < 2 := by
  obtain ⟨row, hrow, -⟩ := h.list
  have hlt := (List.getElem?_eq_some_iff.mp hrow).1
  omega

/-- The constructor's range is the storage of the list variable, not a copy. -/
theorem IsLoop.new_eq_ok (h : IsLoop nodes node loopVar listName child) {s : Env ι} {p : VarAddr}
    {l : List VarPtr} (hp : s.getVariable listName = some p) (hl : s.heap.value p = .list l) :
    Scope.new nodes (some node) s = .ok (loopScope nodes node loopVar (s.heap.storage p)) := by
  obtain ⟨row₁, hrow₁, helement⟩ := h.element
  obtain ⟨row₂, hrow₂, hlist⟩ := h.list
  simp [Scope.new, ControlFlow.new, h.not_short, hrow₁, hrow₂, helement, hlist, hp, hl, loopScope,
    loopFlow, bind, Except.bind, pure, Except.pure]

/-- A loop over what is no list has no range. Its first round dereferences null. -/
theorem IsLoop.enterNew_not_list (h : IsLoop nodes node loopVar listName child) {s : Env ι}
    {p : VarAddr} (hp : s.getVariable listName = some p) (hl : ∀ l, s.heap.value p ≠ .list l) :
    (enterScope.enterNew nodes (some node)).run s = .error (.undefined .nullDeref)
      (s.push { isParallel := (nodes node).type = .parallel,
                ctrlFlow := some { node := some node, loopVarName := loopVar } }) := by
  obtain ⟨row₁, hrow₁, helement⟩ := h.element
  obtain ⟨row₂, hrow₂, hlist⟩ := h.list
  obtain ⟨c, hchild, -⟩ := h.child
  have hctrl : ControlFlow.new nodes (some node) s
      = .ok { node := some node, loopVarName := loopVar } := by
    simp only [ControlFlow.new, h.not_short, hrow₁, hrow₂, helement, hlist, hp, if_false]
    rcases hval : s.heap.value p with _ | _ | _ | _ | l | _ | _ | _
    case list => exact absurd hval (hl l)
    all_goals rfl
  have hscope : Scope.new nodes (some node) s
      = .ok { isParallel := (nodes node).type = .parallel,
              ctrlFlow := some { node := some node, loopVarName := loopVar } } := by
    rw [Scope.new, hctrl]
    rfl
  rw [enterNew_loop nodes hscope rfl (getNext_eq_ok h.type hchild rfl) h.type]
  exact updateLoop_null_range nodes rfl

end Entry

/-! ### The invariant of the rounds -/

/-- The loop over `vs` that was entered in `s` has taken `i` elements. Its scope is in front, and
the scopes below bind the names they did. -/
structure LoopAt (nodes : ι → RuleNode ι) (node : ι) (loopVar : String) (range : CellAddr)
    (vs : List VarAddr) (s : Env ι) (i : ℕ) (exiting : Bool) (t : Env ι) : Prop where
  inLoop : InLoop (loopScope nodes node loopVar range) s.scopes range exiting (vs.drop i) t
  names : (doms t.bindings).rtake s.depth = doms s.bindings

namespace LoopAt

variable {nodes : ι → RuleNode ι} {node : ι} {loopVar listName : String} {child : Option ι}
  {range : CellAddr} {vs : List VarAddr} {s t : Env ι} {i : ℕ} {exiting : Bool}

/-- Pushing the scope the constructor makes. -/
theorem push (hl : s.heap.cell range = .list (vs.map some)) :
    LoopAt nodes node loopVar range vs s 0 true
      (s.push (loopScope nodes node loopVar range)) :=
  ⟨⟨SameScopes.refl _, hl⟩, s.rtake_doms_push _⟩

/-- The `updateLoop` of a round: the next element is bound to the loop variable. -/
theorem run_updateLoop (hloop : IsLoop nodes node loopVar listName child)
    (h : LoopAt nodes node loopVar range vs s i exiting t) {v : VarAddr} (hv : vs[i]? = some v) :
    ∃ t₁, (updateLoop nodes { loopFlow node loopVar range with exiting }).run t = .ok child t₁ ∧
      LoopAt nodes node loopVar range vs s (i + 1) (vs.drop (i + 1)).isEmpty t₁ ∧
      ∃ q, t₁.getVariable loopVar = some q ∧ t₁.heap.value q = t.heap.value v := by
  obtain ⟨hi, rfl⟩ := List.getElem?_eq_some_iff.mp hv
  have hin := h.inLoop
  rw [List.drop_eq_getElem_cons hi] at hin
  obtain ⟨scope, rest, hscopes, -⟩ := hin.exists_cons rfl
  refine ⟨_, hin.updateLoop_cons rfl (hloop.getNext range), ⟨hin.takeElement _ _, ?_⟩, ?_⟩
  · have hlt : s.depth < t.bindings.length := by
      rw [Env.length_bindings, ← Env.depth, hin.depth_eq, Env.depth]
      omega
    rw [Env.bindings_takeElement,
      (ScopeStack.rtake_doms_of_grows (t.grows_assign _ _) hlt).2, h.names]
  · exact Env.getVariable_takeElement (by simp [hscopes]) hin.list _ _ _

/-- Leaving a loop that has elements left: its scope stays. -/
theorem exitScope_again (h : LoopAt nodes node loopVar range vs s i false t) (now : ℤ) :
    ∃ blk t', (exitScope nodes false now).run t = .ok (blk, some node) t' ∧
      LoopAt nodes node loopVar range vs s i false t' ∧ (t.getTimer (-1) = none → blk = false) := by
  obtain ⟨blk, t', hrun, hin, hnames, hblk⟩ := h.inLoop.exitScope_again nodes rfl rfl now
  exact ⟨blk, t', hrun, ⟨hin, hnames.trans h.names⟩, hblk rfl⟩

/-- Leaving a loop that has none: the scopes are those it was entered in. -/
theorem exitScope_done (h : LoopAt nodes node loopVar range vs s i true t) (now : ℤ) :
    ∃ blk t', (exitScope nodes false now).run t = .ok (blk, (nodes node).nextNode) t' ∧
      SameScopes t'.scopes s.scopes ∧ t'.scopes.map Scope.names = s.scopes.map Scope.names ∧
      t'.heap = t.heap ∧ (t.getTimer (-1) = none → blk = false) := by
  obtain ⟨blk, t', hrun, hsame, hheap, hnames, hblk⟩ := h.inLoop.exitScope_done nodes rfl rfl now
  refine ⟨blk, t', hrun, hsame, ?_, hheap, hblk rfl⟩
  rw [← Env.doms_bindings, ← Env.doms_bindings, hnames]
  exact h.names

variable [DecidableEq ι]

/-- A body does not change where the loop is. -/
theorem body {u : Env ι} (h : LoopAt nodes node loopVar range vs s i exiting t)
    (hbody : Body nodes node t u) (hkeep : u.heap.cell range = t.heap.cell range) :
    LoopAt nodes node loopVar range vs s i exiting u := by
  obtain ⟨hin, hnames⟩ := h.inLoop.body rfl rfl hbody (hkeep.trans h.inLoop.list)
  exact ⟨hin, hnames.trans h.names⟩

end LoopAt

/-! ### Rounds -/

section Rounds

variable [DecidableEq ι] (nodes : ι → RuleNode ι)

/-- `t` is reached from `s` by `i` rounds of the loop, each of which enters the node, runs a body
that keeps the list, and leaves the scope, which is still on the stack. -/
inductive Rounds (node : ι) (range : CellAddr) (s : Env ι) : ℕ → Env ι → Prop
  | start : Rounds node range s 0 s
  | next {i : ℕ} {t t₁ t₂ t₃ : Env ι} {child back : Option ι} {blk : Bool} (now : ℤ)
      (h : Rounds node range s i t) (hin : (enterScope nodes (some node)).run t = .ok child t₁)
      (hbody : Body nodes node t₁ t₂) (hkeep : t₂.heap.cell range = t₁.heap.cell range)
      (hout : (exitScope nodes false now).run t₂ = .ok (blk, back) t₃)
      (hstay : t₃.depth = s.depth + 1) : Rounds node range s (i + 1) t₃

variable {nodes} {node : ι} {loopVar listName : String} {child : Option ι} {s : Env ι}
  {p : VarAddr} {vs : List VarAddr}

/-- Entering the loop node, in the first round and in the later ones. -/
theorem enterScope_round (hloop : IsLoop nodes node loopVar listName child)
    (hfront : s.frontBelongsTo (some node) = false) (hp : s.getVariable listName = some p)
    (hl : s.heap.value p = .list (vs.map some)) {i : ℕ} {t : Env ι} {v : VarAddr}
    (hv : vs[i]? = some v)
    (ht : i = 0 ∧ t = s ∨ LoopAt nodes node loopVar (s.heap.storage p) vs s i false t) :
    ∃ t₁, (enterScope nodes (some node)).run t = .ok child t₁ ∧
      LoopAt nodes node loopVar (s.heap.storage p) vs s (i + 1) (vs.drop (i + 1)).isEmpty t₁ ∧
      ∃ q, t₁.getVariable loopVar = some q ∧ t₁.heap.value q = t.heap.value v := by
  rcases ht with ⟨rfl, rfl⟩ | ht
  · have hnew := hloop.new_eq_ok hp hl
    rw [enterScope_new nodes hfront, enterNew_loop nodes hnew rfl (hloop.getNext _) hloop.type]
    exact (LoopAt.push hl).run_updateLoop hloop hv
  · have hnode : ({ loopFlow node loopVar (s.heap.storage p) with exiting := false } :
        ControlFlow ι).node = some node := rfl
    rw [enterScope_again nodes (ht.inLoop.frontCtrlFlow rfl) hnode]
    exact ht.run_updateLoop hloop hv

omit [DecidableEq ι] in
/-- The scope stays when there are elements left, and is left when there are none. -/
theorem exitScope_round {i : ℕ} {t : Env ι}
    (ht : LoopAt nodes node loopVar (s.heap.storage p) vs s (i + 1)
      (vs.drop (i + 1)).isEmpty t) (now : ℤ) :
    ∃ blk back t₃, (exitScope nodes false now).run t = .ok (blk, back) t₃ ∧
      (t.getTimer (-1) = none → blk = false) ∧
      (i + 1 < vs.length → back = some node ∧ t₃.depth = s.depth + 1 ∧
        LoopAt nodes node loopVar (s.heap.storage p) vs s (i + 1) false t₃) ∧
      (vs.length ≤ i + 1 → back = (nodes node).nextNode ∧ SameScopes t₃.scopes s.scopes ∧
        t₃.scopes.map Scope.names = s.scopes.map Scope.names ∧ t₃.heap = t.heap) := by
  rcases Nat.lt_or_ge (i + 1) vs.length with hlt | hge
  · have hflag : (vs.drop (i + 1)).isEmpty = false := by simpa using hlt
    rw [hflag] at ht
    obtain ⟨blk, t₃, hout, hat, hblk⟩ := ht.exitScope_again now
    exact ⟨blk, some node, t₃, hout, hblk, fun _ => ⟨rfl, hat.inLoop.depth_eq, hat⟩,
      fun hge => by omega⟩
  · have hflag : (vs.drop (i + 1)).isEmpty = true := by simpa using hge
    rw [hflag] at ht
    obtain ⟨blk, t₃, hout, hsame, hnames, hheap, hblk⟩ := ht.exitScope_done now
    exact ⟨blk, _, t₃, hout, hblk, fun hlt => by omega, fun _ => ⟨rfl, hsame, hnames, hheap⟩⟩

/-- **Each round takes one element**, and one is left as long as the loop's scope stays. -/
theorem Rounds.loopAt (hloop : IsLoop nodes node loopVar listName child)
    (hfront : s.frontBelongsTo (some node) = false) (hp : s.getVariable listName = some p)
    (hl : s.heap.value p = .list (vs.map some)) (hne : vs ≠ []) {i : ℕ} {t : Env ι}
    (h : Rounds nodes node (s.heap.storage p) s i t) :
    i < vs.length ∧
      (i = 0 ∧ t = s ∨ LoopAt nodes node loopVar (s.heap.storage p) vs s i false t) := by
  induction h with
  | start => exact ⟨List.length_pos_iff.mpr hne, Or.inl ⟨rfl, rfl⟩⟩
  | @next i t t₁ t₂ t₃ c back blk now _ hin hbody hkeep hout hstay ih =>
    obtain ⟨hi, ht⟩ := ih
    obtain ⟨t₁', hin', hat, -⟩ :=
      enterScope_round hloop hfront hp hl (List.getElem?_eq_getElem hi) ht
    obtain ⟨-, rfl⟩ := EStateM.Result.ok.inj (hin.symm.trans hin')
    obtain ⟨_, _, t₃', hout', -, hagain, hdone⟩ := exitScope_round (hat.body hbody hkeep) now
    obtain ⟨-, rfl⟩ := EStateM.Result.ok.inj (hout.symm.trans hout')
    rcases Nat.lt_or_ge (i + 1) vs.length with hlt | hge
    · exact ⟨hlt, Or.inr (hagain hlt).2.2⟩
    · -- the scope would have been left
      have hlen := (hdone hge).2.1.length_eq
      rw [← Env.depth, ← Env.depth] at hlen
      omega

/-- **Running a loop.** A loop over a list of `n` elements, whatever its bodies do as long as they
keep the list and leave what they have entered: after `i` rounds the next `enterScope` returns the
body and binds the loop variable to the `i`-th element, and so `i < n`. The `exitScope` after it
returns the loop node if there are elements left, and otherwise the node after the loop, with the
scopes the loop was entered in, each of which binds the names it did. -/
theorem loop_execution (hloop : IsLoop nodes node loopVar listName child)
    (hfront : s.frontBelongsTo (some node) = false) (hp : s.getVariable listName = some p)
    (hl : s.heap.value p = .list (vs.map some)) (hne : vs ≠ []) {i : ℕ} {t : Env ι}
    (h : Rounds nodes node (s.heap.storage p) s i t) :
    ∃ v, vs[i]? = some v ∧ ∃ t₁, (enterScope nodes (some node)).run t = .ok child t₁ ∧
      (∃ q, t₁.getVariable loopVar = some q ∧ t₁.heap.value q = t.heap.value v) ∧
      ∀ t₂, Body nodes node t₁ t₂ →
        t₂.heap.cell (s.heap.storage p) = t₁.heap.cell (s.heap.storage p) → ∀ now,
        ∃ blk back t₃, (exitScope nodes false now).run t₂ = .ok (blk, back) t₃ ∧
          (t₂.getTimer (-1) = none → blk = false) ∧
          (i + 1 < vs.length → back = some node ∧ t₃.depth = s.depth + 1) ∧
          (i + 1 = vs.length → back = (nodes node).nextNode ∧ SameScopes t₃.scopes s.scopes ∧
            t₃.scopes.map Scope.names = s.scopes.map Scope.names) := by
  obtain ⟨hi, ht⟩ := h.loopAt hloop hfront hp hl hne
  have hv := List.getElem?_eq_getElem hi
  obtain ⟨t₁, hin, hat, hvar⟩ := enterScope_round hloop hfront hp hl hv ht
  refine ⟨_, hv, t₁, hin, hvar, fun t₂ hbody hkeep now => ?_⟩
  obtain ⟨blk, back, t₃, hout, hblk, hagain, hdone⟩ := exitScope_round (hat.body hbody hkeep) now
  refine ⟨blk, back, t₃, hout, hblk, fun hlt => ⟨(hagain hlt).1, (hagain hlt).2.1⟩, fun heq => ?_⟩
  obtain ⟨hback, hsame, hnames, -⟩ := hdone heq.ge
  exact ⟨hback, hsame, hnames⟩

end Rounds

/-- The node of a loop `for x in xs` with an empty body. -/
def forNode : Unit → RuleNode Unit := fun _ =>
  { list := [["for"], ["x"], ["in", "xs"]], type := .forLoop, children := some [⟨["true"], none⟩] }

/-- A new environment, after a client has bound `xs` to the list `1, 2`. -/
def listEnv : Env Unit :=
  ({ heap := { cells := [.int 1, .int 2, .list [some 0, some 1]], vars := [0, 1, 2] } } :
    Env Unit).assign "xs" (.pointer (some 2))

theorem reachable_listEnv : Reachable forNode listEnv := by
  have hstore : ({} : Heap).Evolves
      { cells := [.int 1, .int 2, .list [some 0, some 1]], vars := [0, 1, 2] } :=
    ⟨List.nil_prefix, Nat.zero_le _, fun _ ha => absurd ha (Nat.not_lt_zero _)⟩
  exact (Relation.ReflTransGen.single (Step.client hstore)).tail
    (Step.op (.setVariable "xs" (.pointer (some 2))) 0 rfl)

theorem isLoop_forNode : IsLoop forNode () "x" "xs" none :=
  ⟨rfl, ⟨_, rfl, rfl⟩, ⟨_, rfl, rfl⟩, ⟨_, rfl, rfl⟩⟩

/-- The second round over `1, 2`, and the exit after it. -/
theorem loop_execution_second :
    ∃ t, Rounds forNode () (listEnv.heap.storage 2) listEnv 1 t ∧
      ∃ t₁, (enterScope forNode (some ())).run t = .ok none t₁ ∧
        (∃ q, t₁.getVariable "x" = some q ∧ t₁.heap.value q = t.heap.value 1) ∧
        ∃ blk t₃, (exitScope forNode false 0).run t₁ = .ok (blk, (forNode ()).nextNode) t₃ ∧
          t₃.scopes.map Scope.names = listEnv.scopes.map Scope.names := by
  have hl : listEnv.heap.value 2 = .list ([0, 1].map some) := by decide
  have hbody : ∀ t : Env Unit, Body forNode () t t := fun t => ⟨.refl, rfl⟩
  obtain ⟨v, hv, t₁, hin, -, hexit⟩ := loop_execution isLoop_forNode rfl (by decide) hl (by decide)
    Rounds.start
  obtain ⟨blk, back, t₃, hout, -, hagain, -⟩ := hexit t₁ (hbody t₁) rfl 0
  have hround : Rounds forNode () (listEnv.heap.storage 2) listEnv 1 t₃ :=
    .next 0 .start hin (hbody t₁) rfl hout (hagain (by decide)).2
  obtain ⟨v', hv', t₁', hin', hvar, hexit'⟩ :=
    loop_execution isLoop_forNode rfl (by decide) hl (by decide) hround
  obtain rfl := Option.some.inj hv'
  obtain ⟨blk', back', t₃', hout', -, -, hdone⟩ := hexit' t₁' (hbody t₁') rfl 0
  obtain ⟨rfl, -, hnames⟩ := hdone rfl
  exact ⟨t₃, hround, t₁', hin', hvar, blk', t₃', hout', hnames⟩

end SocialGaming
