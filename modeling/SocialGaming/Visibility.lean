import SocialGaming.EnvironmentRuns

/-!
# What names are bound to, and where they can be seen

Two laws of the scope stack, over whole runs. The first is that of a store: a name has one home, so
an assignment is read back, disturbs no other name, and would be found by any order of search. The
second is that of a block: whatever happens above a scope, leaving it leaves the names visible that
were visible before it was entered.

Both come from the abstraction of an environment to its bindings: the operations are moves of a
scope stack, and the laws are laws of these moves.

## Main results

* `setVariable_readback` — unique binding and read-your-writes
* `block_visibility` — the block structure of visibility
-/

namespace SocialGaming

open Relation (ReflTransGen)
open ScopeStack (doms lookup visible)

variable {ι : Type}

/-! ### Unique binding and read-your-writes -/

/-- The pointer `q` is what an assignment of `arg` stores: the pointer itself, or a `Variable` with
the storage or the value that was assigned. -/
def SetArg.StoredAs (arg : SetArg) (heap : Heap) (q : VarPtr) : Prop :=
  match arg with
  | .value v => ∃ p, q = some p ∧ heap.value p = v
  | .copy a => ∃ p, q = some p ∧ heap.storage p = a
  | .pointer p => q = p

theorem SetArg.storedAs_toPtr (h : Heap) (arg : SetArg) :
    arg.StoredAs (arg.toPtr h).2 (arg.toPtr h).1 := by
  rcases arg with v | a | p
  · exact ⟨_, rfl, h.value_makeVariable v⟩
  · exact ⟨_, rfl, h.storage_copyVariable a⟩
  · rfl

theorem Env.heap_assign {s : Env ι} (hs : s.scopes ≠ []) (name : String) (arg : SetArg) :
    (s.assign name arg).heap = (arg.toPtr s.heap).2 := by
  rw [Env.assign, if_neg (by simpa using hs)]

theorem Env.getVariable_assign_self {s : Env ι} (hs : s.scopes ≠ []) (x : String)
    (arg : SetArg) : (s.assign x arg).getVariable x = (arg.toPtr s.heap).1 := by
  have hb : s.bindings ≠ [] := by simpa [Env.bindings] using hs
  rw [Env.getVariable_eq_lookup, Env.bindings_assign, ScopeStack.lookup_assign hb,
    Function.update_self, Option.getD_some]

theorem Env.getVariable_assign_of_ne {s : Env ι} (hs : s.scopes ≠ []) {x y : String}
    (hy : y ≠ x) (arg : SetArg) : (s.assign x arg).getVariable y = s.getVariable y := by
  have hb : s.bindings ≠ [] := by simpa [Env.bindings] using hs
  rw [Env.getVariable_eq_lookup, Env.bindings_assign, ScopeStack.lookup_assign hb,
    Function.update_of_ne hy, ← Env.getVariable_eq_lookup]

/-- Unique binding, read off the scopes. -/
theorem Env.pairwise_of_uniquelyBound {s : Env ι} (h : ScopeStack.UniquelyBound s.bindings) :
    s.scopes.Pairwise fun a b => ∀ x, ¬ (a.hasVar x ∧ b.hasVar x) := by
  rw [ScopeStack.UniquelyBound, ScopeStack.doms, Env.bindings, List.map_map,
    List.pairwise_map] at h
  refine h.imp fun hd x => ?_
  rintro ⟨ha, hb⟩
  exact Set.disjoint_left.mp hd (by simpa [Scope.hasVar_eq] using ha)
    (by simpa [Scope.hasVar_eq] using hb)

/-- The lookup is the same in whatever order the scopes are searched. -/
theorem Env.getVariable_perm {s : Env ι} (h : ScopeStack.UniquelyBound s.bindings)
    {scopes : List (Scope ι)} (hp : s.scopes.Perm scopes) (x : String) :
    ({ s with scopes } : Env ι).getVariable x = s.getVariable x := by
  rw [Env.getVariable_eq_lookup, Env.getVariable_eq_lookup,
    ScopeStack.lookup_perm h (hp.map Scope.frame)]
  rfl

variable [DecidableEq ι] {nodes : ι → RuleNode ι}

/-- **Unique binding and read-your-writes.** In every reachable state a name is bound in at most
one scope; an assignment is stored and read back, changes no other name's `Variable` and nothing
that was in the store; and a lookup does not depend on the order of the scopes. -/
theorem setVariable_readback {s : Env ι} (h : Reachable nodes s) :
    (s.scopes.Pairwise fun a b => ∀ x, ¬ (a.hasVar x ∧ b.hasVar x)) ∧
    (∀ x arg, ∃ s', (setVariable x arg).run s = .ok () s' ∧
      arg.StoredAs s'.heap (s'.getVariable x) ∧
      (∀ y, y ≠ x → s'.getVariable y = s.getVariable y) ∧ s.heap.Extends s'.heap) ∧
    ∀ scopes, s.scopes.Perm scopes →
      ∀ x, ({ s with scopes } : Env ι).getVariable x = s.getVariable x := by
  have hu := h.uniquelyBound
  have hs := h.based.ne_nil
  refine ⟨Env.pairwise_of_uniquelyBound hu, fun x arg => ?_,
    fun scopes hp => Env.getVariable_perm hu hp⟩
  refine ⟨s.assign x arg, setVariable_run x arg s, ?_, fun y hy => ?_, s.extends_assign x arg⟩
  · rw [Env.getVariable_assign_self hs, Env.heap_assign hs]
    exact SetArg.storedAs_toPtr s.heap arg
  · exact Env.getVariable_assign_of_ne hs hy arg

/-- The node of a match rule. -/
def matchNode : Unit → RuleNode Unit := fun _ => { list := [], type := .matchRule }

/-- A name that is bound in a new environment is assigned again from a block, and read back. -/
theorem setVariable_readback_block : ∃ s s' : Env Unit, Reachable matchNode s ∧ s.depth = 2 ∧
    (s.scopes.Pairwise fun a b => ∀ x, ¬ (a.hasVar x ∧ b.hasVar x)) ∧
    (setVariable "x" (.value (.int 2))).run s = .ok () s' ∧
    (SetArg.value (.int 2)).StoredAs s'.heap (s'.getVariable "x") ∧
    s'.getVariable "y" = s.getVariable "y" ∧ s.heap.Extends s'.heap := by
  let bound : Env Unit := ({} : Env Unit).assign "x" (.value (.int 1))
  have hset : Step matchNode {} bound := Step.op (.setVariable "x" (.value (.int 1))) 0 rfl
  have henter : Step matchNode bound _ := Step.op (.enterScope (some ())) 0 rfl
  have hreach := ((ReflTransGen.single hset).tail henter).tail
    (Step.op (.setVariable "y" (.value (.bool true))) 0 rfl)
  obtain ⟨hunique, hread, -⟩ := setVariable_readback hreach
  obtain ⟨s', hrun, hstored, hothers, hext⟩ := hread "x" (.value (.int 2))
  exact ⟨_, s', hreach, rfl, hunique, hrun, hstored, hothers "y" (by decide), hext⟩

/-! ### The block structure of visibility -/

/-- The names a scope binds. -/
def Scope.names (scope : Scope ι) : Set String := {x | scope.hasVar x}

omit [DecidableEq ι] in
theorem Env.doms_bindings (s : Env ι) : doms s.bindings = s.scopes.map Scope.names := by
  rw [doms, Env.bindings, List.map_map]
  refine List.map_congr_left fun scope _ => ?_
  ext x
  simp [Scope.names, Scope.hasVar_eq]

/-- The calls that enter a scope and set no timer flag. -/
inductive Op.EntersBlock : Op ι → Prop
  | enterScope (node : Option ι) : EntersBlock (.enterScope node)
  | enterScopeTimed (node : Option ι) {timer : Timer ι} (h : timer.hasFlag = false) :
      EntersBlock (.enterScopeTimed node timer)

/-- The stack is as deep in `s'` as in `s`. -/
def Env.SameDepth (s s' : Env ι) : Prop := s'.depth = s.depth

instance : Std.Refl (Env.SameDepth (ι := ι)) := ⟨fun _ => rfl⟩

omit [DecidableEq ι] in
theorem Env.depth_eq_length_bindings (s : Env ι) : s.depth = s.bindings.length :=
  s.length_bindings.symm

omit [DecidableEq ι] in
theorem updateLoop_sameDepth (ctrl : ControlFlow ι) (s : Env ι) :
    Prog.Respects Env.SameDepth (updateLoop nodes ctrl) s :=
  updateLoop_respects nodes fun _ _ _ _ _ => by
    rw [Env.SameDepth, Env.depth_eq_length_bindings, Env.bindings_takeElement,
      Env.bindings_assign, ScopeStack.length_assign, ← Env.depth_eq_length_bindings]

/-- A call that enters a new scope pushes an empty one before it binds anything. -/
theorem Op.EntersBlock.exists_push {o : Op ι} (ho : o.EntersBlock) {now : ℤ} {s s₁ : Env ι}
    (h : Prog.after? ((o.call nodes now).run s) = some s₁) (hd : s₁.depth = s.depth + 1) :
    ∃ scope : Scope ι, scope.vars = ∅ ∧ (s.push scope).Grows s₁ := by
  rcases ho with node | ⟨node, hf⟩
  · rw [Op.call, Prog.after?_run_map] at h
    rcases enterScope_cases nodes node s with ⟨ctrl, -, -, hr⟩ | ⟨-, hr⟩
    · -- the front scope was the node's: nothing has been pushed
      have hsame : s₁.depth = s.depth := updateLoop_sameDepth ctrl s s₁ (hr ▸ h)
      omega
    rw [hr] at h
    rcases enterNew_cases nodes node s with ⟨f, hr⟩ | ⟨scope, ctrl, next, hscope, -, -, hcase⟩
    · have hsame : s₁.depth = s.depth :=
        Prog.respects_error (R := Env.SameDepth) hr s₁ h
      omega
    refine ⟨scope, (Scope.new_eq_ok nodes hscope).1, ?_⟩
    rcases hcase with hr | hr
    · rw [hr, Prog.after?_ok, Option.some_inj] at h
      exact h ▸ ReflTransGen.refl
    · exact updateLoop_grows nodes ctrl _ s₁ (hr ▸ h)
  · rw [Op.call] at h
    rename_i timer
    rcases hscope : Scope.new nodes node s with f | scope
    · have hsame : s₁.depth = s.depth :=
        Prog.respects_error (R := Env.SameDepth) (enterScopeTimed_error nodes hscope) s₁ h
      omega
    · rw [enterScopeTimed_run nodes hscope, hf] at h
      simp only [Bool.false_eq_true, if_false, Prog.after?_ok, Option.some_inj] at h
      exact ⟨{ scope with timerId := timer.id }, (Scope.new_eq_ok nodes hscope).1,
        h ▸ ReflTransGen.refl⟩

/-- A step that starts and ends above a level leaves the names bound below it alone. -/
theorem Step.rtake_doms {s s' : Env ι} (h : Step nodes s s') {d : ℕ} (hd : d < s.depth)
    (hd' : d < s'.depth) : (doms s'.bindings).rtake d = (doms s.bindings).rtake d := by
  rw [Env.depth_eq_length_bindings] at hd hd'
  rcases h.grows_or_shrinks with hg | hs
  · exact (ScopeStack.rtake_doms_of_grows hg hd).2
  · exact (ScopeStack.rtake_doms_of_shrinks hs hd').2

/-- The same for a run that stays above the level. -/
theorem rtake_doms_of_run {s s' : Env ι} {d : ℕ} (hd : d < s.depth)
    (h : ReflTransGen (fun a b => Step nodes a b ∧ d < b.depth) s s') :
    d < s'.depth ∧ (doms s'.bindings).rtake d = (doms s.bindings).rtake d := by
  induction h with
  | refl => exact ⟨hd, rfl⟩
  | tail _ hstep ih => exact ⟨hstep.2, (hstep.1.rtake_doms ih.1 hstep.2).trans ih.2⟩

omit [DecidableEq ι] in
/-- An `exitScope` that makes the stack shorter takes the front scope away and nothing else. -/
theorem bindings_of_exitScope_pop {s s' : Env ι} {force : Bool} {now : ℤ}
    (h : Prog.after? ((exitScope nodes force now).run s) = some s') (hd : s'.depth < s.depth) :
    ∃ f, s.bindings = f :: s'.bindings := by
  rcases after_exitScope nodes h with ⟨-, rfl⟩ | ⟨scope, rest, hs, scopes', rfl, hcase⟩
  · exact absurd hd (lt_irrefl _)
  rcases hcase with ⟨-, rfl⟩ | ⟨ctrl, -, ⟨-, -, rfl⟩ | ⟨-, -, rfl⟩⟩
  · simp [Env.depth, hs] at hd
  · simp [Env.depth, hs] at hd
  · exact ⟨scope.frame, by rw [Env.bindings, hs]; rfl⟩

omit [DecidableEq ι] in
/-- Below a scope that is pushed, the frames bind what they did. -/
theorem Env.rtake_doms_push (s : Env ι) (scope : Scope ι) :
    (doms (s.push scope).bindings).rtake s.depth = doms s.bindings := by
  have hlen : (doms s.bindings).length = s.depth := by
    rw [ScopeStack.length_doms, Env.depth_eq_length_bindings]
  show (ScopeStack.dom scope.frame :: doms s.bindings).rtake s.depth = doms s.bindings
  rw [ScopeStack.rtake_cons_of_le _ hlen.ge, ScopeStack.rtake_eq_self hlen.le]

/-- **The block structure of visibility.** Enter a new scope without setting a timer flag, go on in
any way that keeps it on the stack, and leave it: the names that can be seen are those that could be
seen before, so none that was first assigned inside the block, and every scope that was there binds
the names it did.

No operation both enters a scope and leaves one, so the scope is on the stack as long as the stack
is deeper than it was when the scope was entered. -/
theorem block_visibility {s s₁ s₂ s₃ : Env ι} {o : Op ι} {now now' : ℤ} {force : Bool}
    (ho : o.EntersBlock) (hin : Prog.after? ((o.call nodes now).run s) = some s₁)
    (hnew : s₁.depth = s.depth + 1)
    (hrun : ReflTransGen (fun a b => Step nodes a b ∧ s.depth < b.depth) s₁ s₂)
    (hout : Prog.after? ((exitScope nodes force now').run s₂) = some s₃)
    (hpop : s₃.depth = s.depth) :
    (∀ x, (s₃.hasVar x).isSome ↔ (s.hasVar x).isSome) ∧
      s₃.scopes.map Scope.names = s.scopes.map Scope.names := by
  obtain ⟨scope, hvars, hgrow⟩ := ho.exists_push hin hnew
  have hin' : (doms s₁.bindings).rtake s.depth = doms s.bindings := by
    rw [(ScopeStack.rtake_doms_of_grows hgrow (by simp [Env.push, Env.depth])).2,
      s.rtake_doms_push scope]
  obtain ⟨hd₂, hrun'⟩ := rtake_doms_of_run (by omega) hrun
  obtain ⟨f, hf⟩ := bindings_of_exitScope_pop hout (by omega)
  have hout' : (doms s₂.bindings).rtake s.depth = doms s₃.bindings := by
    have hlen : (doms s₃.bindings).length = s.depth := by
      rw [ScopeStack.length_doms, ← Env.depth_eq_length_bindings, hpop]
    rw [hf, ScopeStack.doms_cons, ScopeStack.rtake_cons_of_le _ hlen.ge,
      ScopeStack.rtake_eq_self hlen.le]
  have hdoms : doms s₃.bindings = doms s.bindings := by rw [← hout', hrun', hin']
  refine ⟨fun x => ?_, by rw [← Env.doms_bindings, ← Env.doms_bindings, hdoms]⟩
  rw [Env.isSome_hasVar_iff, Env.isSome_hasVar_iff, ScopeStack.visible_congr hdoms]

/-- A block that binds a name, in a new environment: nothing can be seen after it. -/
theorem block_visibility_match :
    let inside := (({} : Env Unit).push { ctrlFlow := some { node := some () } }).assign "x"
      (.value (.int 1))
    ∃ s₃, Prog.after? ((exitScope matchNode false 0).run inside) = some s₃ ∧
      ∀ x, (s₃.hasVar x).isSome ↔ (({} : Env Unit).hasVar x).isSome := by
  intro inside
  have hset : Step matchNode (({} : Env Unit).push { ctrlFlow := some { node := some () } })
      inside := Step.op (.setVariable "x" (.value (.int 1))) 0 rfl
  have hin : Prog.after? (((Op.enterScope (some ())).call matchNode 0).run ({} : Env Unit))
      = some (({} : Env Unit).push { ctrlFlow := some { node := some () } }) := rfl
  have hout : Prog.after? ((exitScope matchNode false 0).run inside)
      = some { inside with scopes := [{}] } := rfl
  refine ⟨{ inside with scopes := [{}] }, hout, ?_⟩
  exact (block_visibility (Op.EntersBlock.enterScope (some ())) hin rfl
    (ReflTransGen.single ⟨hset, by decide⟩) hout rfl).1

end SocialGaming
