import SocialGaming.LoopExecution

/-!
# What a loop leaves of its list

The range of a loop is the storage of its list variable, and `updateLoop` removes from it each
element it binds. So the list is empty after the loop, and the loop run again, as an inner loop is
in the next round of an outer one, has nothing to run over.

## Main definitions

* `Completes` — a loop run from the `enterScope` that enters it to the `exitScope` that leaves it

## Main results

* `loop_consumes_list` — the list variable holds the empty list after the loop
-/

namespace SocialGaming

open Relation (ReflTransGen)

variable {ι : Type} [DecidableEq ι]

section

variable (nodes : ι → RuleNode ι)

/-- The loop entered in `s` is left in `t`, after rounds none of which touches the list. -/
inductive Completes (node : ι) (range : CellAddr) (s : Env ι) : Env ι → Prop
  | intro {i : ℕ} {t t₁ t₂ t₃ : Env ι} {child back : Option ι} {blk : Bool} (now : ℤ)
      (h : Rounds nodes node range s i t)
      (hin : (enterScope nodes (some node)).run t = .ok child t₁)
      (hbody : Body nodes node t₁ t₂) (hkeep : t₂.heap.cell range = t₁.heap.cell range)
      (hout : (exitScope nodes false now).run t₂ = .ok (blk, back) t₃)
      (hleft : t₃.depth = s.depth) : Completes node range s t₃

end

variable {nodes : ι → RuleNode ι} {node : ι} {loopVar listName : String} {child : Option ι}
  {range : CellAddr} {s t : Env ι} {p : VarAddr} {vs : List VarAddr}

/-! ### A round is a run -/

theorem Body.steps (h : Body nodes node s t) : ReflTransGen (Step nodes) s t :=
  ReflTransGen.mono (fun _ _ => BodyStep.step) _ _ h.run

theorem step_of_enterScope {m c : Option ι} (h : (enterScope nodes m).run s = .ok c t) :
    Step nodes s t :=
  Step.op (.enterScope m) 0 (by rw [Op.call, Prog.after?_run_map, h, Prog.after?_ok])

theorem step_of_exitScope {force : Bool} {now : ℤ} {r : Bool × Option ι}
    (h : (exitScope nodes force now).run s = .ok r t) : Step nodes s t :=
  Step.op (.exitScope force) now (by rw [Op.call, Prog.after?_run_map, h, Prog.after?_ok])

theorem Rounds.steps {i : ℕ} (h : Rounds nodes node range s i t) :
    ReflTransGen (Step nodes) s t := by
  induction h with
  | start => exact ReflTransGen.refl
  | next _ _ hin hbody _ hout _ ih =>
    exact ((ih.tail (step_of_enterScope hin)).trans hbody.steps).tail (step_of_exitScope hout)

theorem heapEvolves_of_steps (h : ReflTransGen (Step nodes) s t) : s.heap.Evolves t.heap := by
  induction h with
  | refl => exact Heap.Evolves.refl _
  | tail _ hstep ih => exact ih.trans hstep.heapEvolves

theorem Completes.heapEvolves (h : Completes nodes node range s t) : s.heap.Evolves t.heap := by
  obtain ⟨_, h, hin, hbody, -, hout, -⟩ := h
  exact heapEvolves_of_steps
    (((h.steps.tail (step_of_enterScope hin)).trans hbody.steps).tail (step_of_exitScope hout))

/-! ### The list after the loop -/

/-- The last round leaves the scopes as they were and nothing of the list. -/
theorem Completes.after (hloop : IsLoop nodes node loopVar listName child)
    (hfront : s.frontBelongsTo (some node) = false) (hp : s.getVariable listName = some p)
    (hl : s.heap.value p = .list (vs.map some)) (hne : vs ≠ [])
    (h : Completes nodes node (s.heap.storage p) s t) :
    SameScopes t.scopes s.scopes ∧ t.heap.cell (s.heap.storage p) = .list [] := by
  rcases h with @⟨i, t, t₁, t₂, _, c, back, blk, now, h, hin, hbody, hkeep, hout, hleft⟩
  obtain ⟨hi, ht⟩ := h.loopAt hloop hfront hp hl hne
  obtain ⟨t₁', hin', hat, -⟩ :=
    enterScope_round hloop hfront hp hl (List.getElem?_eq_getElem hi) ht
  obtain ⟨-, rfl⟩ := EStateM.Result.ok.inj (hin.symm.trans hin')
  have hat₂ := hat.body hbody hkeep
  obtain ⟨_, _, t₃', hout', -, hagain, hdone⟩ := exitScope_round hat₂ now
  obtain ⟨-, rfl⟩ := EStateM.Result.ok.inj (hout.symm.trans hout')
  rcases Nat.lt_or_ge (i + 1) vs.length with hlt | hge
  · -- the scope would still be there
    have hstay := (hagain hlt).2.1
    omega
  · obtain ⟨-, hsame, -, hheap⟩ := hdone hge
    refine ⟨hsame, ?_⟩
    rw [hheap, hat₂.inLoop.list, List.drop_eq_nil_of_le hge]
    rfl

omit [DecidableEq ι] in
theorem SameScopes.frontCtrlFlow_eq (h : SameScopes t.scopes s.scopes) :
    t.frontCtrlFlow = s.frontCtrlFlow := by
  rw [Env.frontCtrlFlow, Env.frontCtrlFlow]
  rcases hs : s.scopes with _ | ⟨a, as⟩ <;> rcases ht : t.scopes with _ | ⟨b, bs⟩ <;>
    rw [hs, ht] at h
  · exact absurd h.length_eq (by simp)
  · exact absurd h.length_eq (by simp)
  · exact (sameScopes_cons.mp h).1.2.2

/-- A loop over the empty list: its scope is entered, and nothing is bound. -/
theorem enterScope_empty (hloop : IsLoop nodes node loopVar listName child)
    (hfront : t.frontBelongsTo (some node) = false) (hp : t.getVariable listName = some p)
    (hl : t.heap.value p = .list []) :
    (enterScope nodes (some node)).run t
      = .ok child (t.push (loopScope nodes node loopVar (t.heap.storage p))) := by
  have hin : InLoop (loopScope nodes node loopVar (t.heap.storage p)) t.scopes
      (t.heap.storage p) true [] (t.push (loopScope nodes node loopVar (t.heap.storage p))) :=
    ⟨SameScopes.refl _, hl⟩
  rw [enterScope_new nodes hfront,
    enterNew_loop nodes (hloop.new_eq_ok hp hl) rfl (hloop.getNext _) hloop.type]
  have hrange : (loopFlow node loopVar (t.heap.storage p)).range = some (t.heap.storage p) := rfl
  exact hin.updateLoop_nil hrange (hloop.getNext _)

/-- **A loop consumes its list.** Whatever a loop over a list with elements is entered in, and
whatever its bodies do as long as they keep the list, the list variable holds the empty list after
the loop, and so not what it held before. If the name still stands for it, the loop run again enters
its body without binding an element. -/
theorem loop_consumes_list (hloop : IsLoop nodes node loopVar listName child)
    (hfront : s.frontBelongsTo (some node) = false) (hp : s.getVariable listName = some p)
    (hlive : p < s.heap.vars.length) (hl : s.heap.value p = .list (vs.map some)) (hne : vs ≠ [])
    (h : Completes nodes node (s.heap.storage p) s t) :
    t.heap.value p = .list [] ∧ t.heap.value p ≠ s.heap.value p ∧
      (t.getVariable listName = some p → (enterScope nodes (some node)).run t
        = .ok child (t.push (loopScope nodes node loopVar (t.heap.storage p)))) := by
  obtain ⟨hsame, hempty⟩ := h.after hloop hfront hp hl hne
  have hvalue : t.heap.value p = .list [] := by
    rw [Heap.value, h.heapEvolves.storage_eq hlive, hempty]
  refine ⟨hvalue, ?_, fun hp' => ?_⟩
  · rw [hvalue, hl]
    simpa using hne.symm
  · have hfront' : t.frontBelongsTo (some node) = false := by
      rw [Env.frontBelongsTo, hsame.frontCtrlFlow_eq]
      exact hfront
    exact enterScope_empty hloop hfront' hp' hvalue

/-! ### One loop -/

/-- The two rounds of the loop over `1, 2`, with empty bodies. -/
theorem exists_completes_listEnv :
    ∃ t, Completes forNode () 2 listEnv t ∧ t.getVariable "xs" = some 2 ∧
      t.heap.value 2 = .list [] := by
  have hbody : ∀ u : Env Unit, Body forNode () u u := fun u => ⟨ReflTransGen.refl, rfl⟩
  refine ⟨_, Completes.intro 0 (Rounds.next 0 Rounds.start rfl (hbody _) rfl rfl rfl) rfl
    (hbody _) rfl rfl rfl, ?_⟩
  decide

/-- The loop over `1, 2` in a new environment: `xs` is `1, 2` before and empty after. -/
theorem loop_keeps_list_fails :
    Reachable forNode listEnv ∧ listEnv.getVariable "xs" = some 2 ∧
      listEnv.heap.value 2 = .list [some 0, some 1] ∧
      ∃ t, Completes forNode () 2 listEnv t ∧ t.getVariable "xs" = some 2 ∧
        t.heap.value 2 ≠ listEnv.heap.value 2 := by
  obtain ⟨t, hrun, hxs, hempty⟩ := exists_completes_listEnv
  refine ⟨reachable_listEnv, by decide, by decide, t, hrun, hxs, ?_⟩
  rw [hempty]
  decide

/-- The same loop, run again: its body is entered, and no element is bound. -/
theorem loop_consumes_list_twice :
    ∃ t, Completes forNode () 2 listEnv t ∧
      (enterScope forNode (some ())).run t
        = .ok none (t.push (loopScope forNode () "x" (t.heap.storage 2))) := by
  obtain ⟨t, hrun, hxs, -⟩ := exists_completes_listEnv
  have hl : listEnv.heap.value 2 = .list ([0, 1].map some) := by decide
  exact ⟨t, hrun, (loop_consumes_list isLoop_forNode rfl (by decide) (by decide) hl (by decide)
    hrun).2.2 hxs⟩

end SocialGaming
