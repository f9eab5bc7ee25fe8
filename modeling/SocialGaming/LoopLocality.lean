import SocialGaming.LoopEntry
import SocialGaming.Library.Runs

/-!
# Where a loop variable is bound

`updateLoop` binds the loop variable with `setVariable`, which writes to the first scope that has
the name. The new scope is pushed before, so that the variable goes there, but this it does only if
no other scope has the name. If one has, the loop rebinds the variable of that scope.

## Main definitions

* `LoopTakes`, `Rebinds` — the loop takes an element, and one of the frames has its variable's name
* `BindsLocally` — the loop variable is bound in the loop's own scope and nowhere else
* `LoopStep` — a step of a run in which loops are the only steps that may touch a level

## Main results

* `bindsLocally_iff` — one call binds locally when no enclosing scope has the name
* `loopVariable_local` — the same, and what follows for whole loops
-/

namespace SocialGaming

open ScopeStack (Frame dom doms visible)

variable {ι : Type} [DecidableEq ι]

/-- Entering the loop node takes an element and binds it to the name. -/
def LoopTakes (nodes : ι → RuleNode ι) (node : ι) (s : Env ι) (x : String) : Prop :=
  ∃ ctrl range p rest, s.loopCtrl? nodes node = some ctrl ∧ ctrl.loopVarName = x ∧
    ctrl.range = some range ∧ s.heap.cell range = .list (some p :: rest)

/-- It does so when one of the frames has the name. -/
def Rebinds (nodes : ι → RuleNode ι) (node : ι) (s : Env ι) (frames : List (Frame String VarPtr)) :
    Prop :=
  ∃ x, LoopTakes nodes node s x ∧ x ∈ visible frames

/-- Entering the loop node leaves the frames around the loop as they are, and binds the loop
variable in the frame of the loop. -/
structure BindsLocally (nodes : ι → RuleNode ι) (node : ι) (s s' : Env ι) : Prop where
  enclosing : s.enclosing node <:+ s'.bindings
  own : ∀ x, LoopTakes nodes node s x → ∃ f, s'.bindings = f :: s.enclosing node ∧ x ∈ dom f

section

variable {nodes : ι → RuleNode ι} {node : ι} {s s' : Env ι}

omit [DecidableEq ι] in
/-- What a caller goes on from when there was nothing to run. -/
theorem after_ofExcept {α : Type} {x : Except (Fault Exn) α} {t u : Env ι}
    (h : Prog.after? ((Prog.ofExcept x : Call (Env ι) α).run t) = some u) : u = t :=
  (Prog.respects_ofExcept (R := Eq) x u h).symm

/-- What a caller goes on from after entering a loop node: the frames are those around the loop,
with one in front in which, or around which, the element is bound that was taken. -/
theorem bindings_of_enterScope_loop (hloop : (nodes node).type.isLoop)
    (h : Prog.after? ((enterScope nodes (some node)).run s) = some s') :
    ((∀ x, ¬ LoopTakes nodes node s x) ∧ s.enclosing node <:+ s'.bindings) ∨
    ∃ x own v, LoopTakes nodes node s x ∧ (∀ y, LoopTakes nodes node s y → y = x) ∧
      s'.bindings = ScopeStack.assign x v (own :: s.enclosing node) := by
  rcases enterScope_loop hloop s with
    ⟨f, hrun, hnone⟩ | ⟨ctrl, own, t, hctrl, -, hown, hheap, hrun⟩
  · rw [hrun] at h
    cases f with
    | thrown e =>
      refine Or.inl ⟨?_, ?_⟩
      · rintro x ⟨ctrl, range, p, rest, hctrl, -⟩
        rw [hnone e rfl] at hctrl
        cases hctrl
      · obtain rfl := Option.some.inj h
        rw [Env.enclosing]
        split
        · exact List.tail_suffix _
        · exact List.suffix_rfl
    | undefined u => cases h
    | diverged => cases h
  rw [hrun] at h
  have htakes : ∀ {x}, LoopTakes nodes node s x → ∃ range p rest, ctrl.loopVarName = x ∧
      ctrl.range = some range ∧ t.heap.cell range = .list (some p :: rest) := by
    rintro x ⟨ctrl', range, p, rest, hctrl', hx, hrange, hlist⟩
    rw [hctrl, Option.some_inj] at hctrl'
    subst hctrl'
    exact ⟨range, p, rest, hx, hrange, by rw [hheap, hlist]⟩
  by_cases hlist : ∃ range p rest, ctrl.range = some range ∧
      t.heap.cell range = .list (some p :: rest)
  · obtain ⟨range, p, rest, hrange, hlist⟩ := hlist
    rw [updateLoop_cons nodes hrange hlist] at h
    obtain rfl := after_ofExcept h
    refine Or.inr ⟨ctrl.loopVarName, own, (SetArg.toPtr t.heap (.value (t.heap.value p))).1,
      ⟨ctrl, range, p, rest, hctrl, rfl, hrange, ?_⟩, fun y hy => ?_, ?_⟩
    · rw [← hheap, hlist]
    · obtain ⟨-, -, -, hy, -⟩ := htakes hy
      exact hy.symm
    · rw [Env.bindings_takeElement, Env.bindings_assign, hown]
  · have hkeep : s' = t := by
      rcases updateLoop_cases nodes ctrl t with ⟨range, p, rest, hr, hl, -⟩ | hrun' | ⟨f, hrun'⟩
      · exact absurd ⟨range, p, rest, hr, hl⟩ hlist
      · rw [hrun'] at h
        exact after_ofExcept h
      · exact (Prog.respects_error (R := Eq) hrun' s' h).symm
    refine Or.inl ⟨fun x hx => ?_, ?_⟩
    · obtain ⟨range, p, rest, -, hr, hl⟩ := htakes hx
      exact hlist ⟨range, p, rest, hr, hl⟩
    · rw [hkeep, hown]
      exact List.suffix_cons _ _

/-! ### One call -/

/-- **One call binds locally** when no enclosing scope has the name of the loop variable, if it
takes an element. -/
theorem bindsLocally_iff (hreach : Reachable nodes s) (hloop : (nodes node).type.isLoop)
    (h : Prog.after? ((enterScope nodes (some node)).run s) = some s') :
    BindsLocally nodes node s s' ↔ ¬ Rebinds nodes node s (s.enclosing node) := by
  rcases bindings_of_enterScope_loop hloop h with
    ⟨hnone, hsuffix⟩ | ⟨x, own, v, htakes, honly, hbindings⟩
  · refine iff_of_true ⟨hsuffix, fun x hx => absurd hx (hnone x)⟩ ?_
    rintro ⟨x, hx, -⟩
    exact hnone x hx
  constructor
  · rintro hlocal ⟨y, hy, hvisible⟩
    obtain ⟨f, hf, hown⟩ := hlocal.own y hy
    have hstep : Step nodes s s' :=
      Step.op (.enterScope (some node)) 0 (by rwa [Op.call, Prog.after?_run_map])
    have hunique := Reachable.uniquelyBound (hreach.tail hstep)
    rw [hf] at hunique
    exact Set.disjoint_left.mp (ScopeStack.uniquelyBound_cons.mp hunique).1 hown hvisible
  · intro hnot
    have hx : x ∉ visible (s.enclosing node) := fun hx => hnot ⟨x, htakes, hx⟩
    rw [← List.singleton_append, ScopeStack.assign_append (List.cons_ne_nil _ _) hx] at hbindings
    obtain ⟨f, hf, hdom⟩ : ∃ f, ScopeStack.assign x v [own] = [f] ∧ x ∈ dom f := by
      rw [ScopeStack.assign]
      by_cases hbound : (own x).isSome
      · refine ⟨Function.update own x (some v), ?_, by simp⟩
        rw [ScopeStack.lookup_cons, Option.isSome_or, hbound, Bool.true_or, if_pos rfl,
          ScopeStack.rebind, if_pos hbound]
      · have hunbound : (ScopeStack.lookup [own] x).isSome = false := by
          simpa [ScopeStack.lookup_cons, ScopeStack.lookup] using hbound
        exact ⟨Function.update own x (some v), by rw [hunbound]; rfl, by simp⟩
    rw [hf] at hbindings
    refine ⟨⟨[f], hbindings.symm⟩, fun y hy => ⟨f, hbindings, ?_⟩⟩
    rw [honly y hy]
    exact hdom

/-! ### Whole loops -/

end

/-- What happens in a run: a loop node is entered, or anything else. -/
inductive LoopEvent (ι : Type) where
  | loop (node : ι)
  | other

/-- A step that leaves at least `d` scopes. Any loop node may be entered, but not one that the front
scope belongs to when this is one of the `d`; and any other step may be made that binds nothing in
the `d` scopes. -/
inductive LoopStep (nodes : ι → RuleNode ι) (d : ℕ) : Env ι → LoopEvent ι → Env ι → Prop
  | loop {node : ι} {t t' : Env ι} (hloop : (nodes node).type.isLoop)
      (habove : d < t.depth ∨ t.frontBelongsTo (some node) = false)
      (h : Prog.after? ((enterScope nodes (some node)).run t) = some t') :
      LoopStep nodes d t (.loop node) t'
  | other {t t' : Env ι} (h : Step nodes t t') (hd : d ≤ t'.depth)
      (hkeep : t'.bindings.rtake d = t.bindings.rtake d) : LoopStep nodes d t .other t'

section

variable {nodes : ι → RuleNode ι} {node : ι} {s s' : Env ι} {d : ℕ}

/-- The level is that of scopes around the loop. -/
theorem rtake_enclosing (hd : d ≤ s.depth)
    (habove : d < s.depth ∨ s.frontBelongsTo (some node) = false) :
    d ≤ (s.enclosing node).length ∧ (s.enclosing node).rtake d = s.bindings.rtake d := by
  rw [Env.depth_eq_length_bindings] at hd habove
  rw [Env.enclosing]
  split
  · rename_i hfront
    rw [hfront] at habove
    have hlt : d < s.bindings.length := habove.resolve_right (by simp)
    obtain ⟨front, rest, hs⟩ := List.exists_cons_of_length_pos (Nat.zero_lt_of_lt hlt)
    rw [hs, List.length_cons] at hlt
    rw [hs, List.tail_cons]
    exact ⟨Nat.le_of_lt_succ hlt, (ScopeStack.rtake_cons_of_le front (Nat.le_of_lt_succ hlt)).symm⟩
  · exact ⟨hd, rfl⟩

/-- **One step.** A loop that does not rebind a name of a frame below the level leaves these frames
as they are. -/
theorem LoopStep.rtake_bindings {t t' : Env ι} {e : LoopEvent ι} (h : LoopStep nodes d t e t')
    (hlocal : ∀ node, e = .loop node → ¬ Rebinds nodes node t (t.bindings.rtake d))
    (hd : d ≤ t.depth) : d ≤ t'.depth ∧ t'.bindings.rtake d = t.bindings.rtake d := by
  cases h with
  | other _ hd' hkeep => exact ⟨hd', hkeep⟩
  | @loop node _ _ hloop habove hrun =>
    obtain ⟨hlen, hrtake⟩ := rtake_enclosing hd habove
    rcases bindings_of_enterScope_loop hloop hrun with
      ⟨-, top, hbindings⟩ | ⟨x, own, v, htakes, -, hbindings⟩
    · rw [Env.depth_eq_length_bindings, ← hbindings, ScopeStack.rtake_append_of_le top hlen, hrtake,
        List.length_append]
      exact ⟨by omega, rfl⟩
    · have hcons : (own :: t.enclosing node).rtake d = t.bindings.rtake d := by
        rw [ScopeStack.rtake_cons_of_le own hlen, hrtake]
      have hx : x ∉ visible ((own :: t.enclosing node).rtake d) := fun hx =>
        hlocal node rfl ⟨x, htakes, hcons ▸ hx⟩
      have hlt : d < (own :: t.enclosing node).length := by
        rw [List.length_cons]
        omega
      refine ⟨?_, ?_⟩
      · rw [Env.depth_eq_length_bindings, hbindings, ScopeStack.length_assign]
        exact hlt.le
      · rw [hbindings, ScopeStack.rtake_assign_of_not_mem hlt hx, hcons]

/-- **Whole runs.** If no loop rebinds a name of the scopes the run starts in, then these bind what
they did, as long as they are on the stack. -/
theorem rtake_bindings_of_loops {trace : List (Env ι × LoopEvent ι)}
    (h : Run (LoopStep nodes s.depth) s trace s')
    (hlocal : ∀ t node, (t, LoopEvent.loop node) ∈ trace →
      ¬ Rebinds nodes node t (t.bindings.rtake s.depth)) :
    s.depth ≤ s'.depth ∧ s'.bindings.rtake s.depth = s.bindings := by
  have hself : s.bindings.rtake s.depth = s.bindings := by
    rw [Env.depth_eq_length_bindings, ScopeStack.rtake_eq_self le_rfl]
  refine h.invariant_of_forall (P := fun t => s.depth ≤ t.depth ∧
      t.bindings.rtake s.depth = s.bindings)
    (C := fun p => ∀ node, p.2 = .loop node →
      ¬ Rebinds nodes node p.1 (p.1.bindings.rtake s.depth)) ?_ ⟨le_rfl, hself⟩ ?_
  · rintro ⟨t, e⟩ hmem node rfl
    exact hlocal t node hmem
  · rintro t e t' hstep hC ⟨hd, hkeep⟩
    obtain ⟨hd', hkeep'⟩ := hstep.rtake_bindings hC hd
    exact ⟨hd', hkeep'.trans hkeep⟩

/-- **Loop variables are local when no scope around the loop has their names.** Entering a loop
node, for the first time or again, binds the loop variable in the loop's own scope and leaves those
around it as they are, exactly when it takes no element or no scope around the loop has the name. So
if in a run, of loops within loops and anything else that rebinds no name of the scopes it started
in, no loop takes an element whose name one of these scopes has, then these scopes bind what they
did; and once they are the only ones left, every name is bound to the `Variable` it was bound to
before. -/
theorem loopVariable_local (hreach : Reachable nodes s) :
    (∀ node s', (nodes node).type.isLoop →
      Prog.after? ((enterScope nodes (some node)).run s) = some s' →
        (BindsLocally nodes node s s' ↔ ¬ Rebinds nodes node s (s.enclosing node))) ∧
    ∀ trace s', Run (LoopStep nodes s.depth) s trace s' →
      (∀ t node, (t, LoopEvent.loop node) ∈ trace →
        ¬ Rebinds nodes node t (t.bindings.rtake s.depth)) →
      s'.bindings.rtake s.depth = s.bindings ∧
        (s'.depth = s.depth → ∀ x, s'.getVariable x = s.getVariable x) := by
  refine ⟨fun node s' => bindsLocally_iff hreach, fun trace s' hrun hlocal => ?_⟩
  obtain ⟨-, hkeep⟩ := rtake_bindings_of_loops hrun hlocal
  refine ⟨hkeep, fun hdepth x => ?_⟩
  have hall : s'.bindings = s.bindings := by
    rw [← hkeep, ← hdepth, Env.depth_eq_length_bindings, ScopeStack.rtake_eq_self le_rfl]
  rw [Env.getVariable_eq_lookup, Env.getVariable_eq_lookup, hall]

end

/-- The first round over `1, 2`, where no scope has the name `x`. -/
theorem loopVariable_local_first :
    ∃ t, Prog.after? ((enterScope forNode (some ())).run listEnv) = some t ∧
      BindsLocally forNode () listEnv t := by
  refine ⟨_, rfl, ((loopVariable_local reachable_listEnv).1 () _ rfl rfl).mpr ?_⟩
  rintro ⟨x, ⟨ctrl, range, p, rest, hctrl, rfl, -⟩, hx⟩
  obtain rfl := Option.some.inj hctrl
  revert hx
  show _ ∈ visible listEnv.bindings → False
  rw [← Env.isSome_hasVar_iff]
  decide

/-- The lists `1, 2`, with a variable that has the name of the loop variable. -/
def shadowEnv : Env Unit := listEnv.assign "x" (.value (.int 0))

theorem reachable_shadowEnv : Reachable forNode shadowEnv :=
  reachable_listEnv.tail (Step.op (.setVariable "x" (.value (.int 0))) 0 rfl)

/-- Its `x` is the loop's variable from the first round on, and another `Variable` after the loop
than before. -/
theorem loopVariable_shadow_fails :
    Reachable forNode shadowEnv ∧ (forNode ()).type.isLoop ∧
      (∃ t, Prog.after? ((enterScope forNode (some ())).run shadowEnv) = some t ∧
        ¬ BindsLocally forNode () shadowEnv t) ∧
      ∃ t, Completes forNode () 2 shadowEnv t ∧ t.depth = shadowEnv.depth ∧
        t.getVariable "x" ≠ shadowEnv.getVariable "x" := by
  have hvisible : "x" ∈ visible (shadowEnv.enclosing ()) := by
    show "x" ∈ visible shadowEnv.bindings
    rw [← Env.isSome_hasVar_iff]
    decide
  have hbody : ∀ u : Env Unit, Body forNode () u u := fun u => ⟨Relation.ReflTransGen.refl, rfl⟩
  refine ⟨reachable_shadowEnv, rfl, ⟨_, rfl, ?_⟩, ?_⟩
  · rw [bindsLocally_iff reachable_shadowEnv rfl rfl, not_not]
    exact ⟨"x", ⟨_, _, 0, [some 1], rfl, rfl, rfl, by decide⟩, hvisible⟩
  · refine ⟨_, Completes.intro 0 (Rounds.next 0 Rounds.start rfl (hbody _) rfl rfl rfl) rfl
      (hbody _) rfl rfl rfl, ?_⟩
    decide

end SocialGaming
