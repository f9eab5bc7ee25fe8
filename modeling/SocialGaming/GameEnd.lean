import SocialGaming.Visibility

/-!
# The end of the game

`exitScope` throws a `GameOverException` when it finds no scope. The bottom scope is built by the
other constructor of `Scope` and has no control flow, and `exitScope` returns before it pops such a
scope. So the stack is never empty, and the end of the game is never reported: once the bottom scope
is the only one, leaving it returns a null node again and again.

## Main definitions

* `Env.NonNull` — every scope with a control flow was entered with a node
* `exitScopes` — forced exits, one after the other
* `ReportsGameOver` — forced exits leave all scopes, and the next one reports it

## Main results

* `exitScope_force` — one forced exit
* `exitScopes_depth` — any number of them
* `gameOver_not_reported` — the end of the game is not reported
-/

namespace SocialGaming

variable {ι : Type}

/-- Every scope that has a control flow was entered with a non-null node. -/
def Env.NonNull (s : Env ι) : Prop :=
  ∀ scope ∈ s.scopes, ∀ ctrl, scope.ctrlFlow = some ctrl → ctrl.node.isSome

section

variable (nodes : ι → RuleNode ι)

/-- `exitScope(shouldBlock, true)`, once at each of the clock readings. -/
def exitScopes : List ℤ → Call (Env ι) Unit
  | [] => return
  | now :: clock => do
    let _ ← exitScope nodes true now
    exitScopes clock

/-- Some number of forced exits return and leave no scope, and the next one throws. -/
def ReportsGameOver (clock : ℕ → ℤ) (s : Env ι) : Prop :=
  ∃ k t, (exitScopes nodes ((List.range k).map clock)).run s = .ok () t ∧ t.scopes = [] ∧
    (exitScope nodes true (clock k)).run t = .error (.thrown .gameOver) t

/-- A forced exit leaves a scope that was entered. -/
theorem exitScope_force_pop {s : Env ι} (hnull : s.NonNull) {front : Scope ι}
    {rest : List (Scope ι)} (hs : s.scopes = front :: rest) (hc : front.ctrlFlow.isSome)
    (now : ℤ) : ∃ next, (exitScope nodes true now).run s = .ok ((checkTimer s front now).1, next)
      { s with timers := (checkTimer s front now).2, scopes := rest } := by
  obtain ⟨ctrl, hctrl⟩ := Option.isSome_iff_exists.mp hc
  have hfront : front ∈ s.scopes := hs ▸ List.mem_cons_self
  obtain ⟨n, hn⟩ := Option.isSome_iff_exists.mp (hnull front hfront ctrl hctrl)
  exact ⟨_, exitScope_pop nodes hs hctrl (Or.inl rfl) hn now⟩

/-- **A forced exit** returns. It leaves the front scope if there is another below it, and the
bottom scope stays. -/
theorem exitScope_force {s : Env ι} (hbased : s.Based) (hnull : s.NonNull) (now : ℤ) :
    ∃ result t, (exitScope nodes true now).run s = .ok result t ∧ t.Based ∧ t.NonNull ∧
      t.depth = max 1 (s.depth - 1) := by
  obtain ⟨front, rest, hs⟩ := List.exists_cons_of_ne_nil hbased.ne_nil
  have hdepth : s.depth = rest.length + 1 := by rw [Env.depth, hs, List.length_cons]
  rcases hbased.cons_cases hs with ⟨hc, rfl⟩ | ⟨hc, hrest⟩
  · refine ⟨_, _, exitScope_base nodes hs hc true now, hbased, hnull, ?_⟩
    show s.depth = _
    rw [hdepth]
    rfl
  · obtain ⟨next, hrun⟩ := exitScope_force_pop nodes hnull hs hc now
    have hpos := List.length_pos_iff.mpr hrest
    refine ⟨_, _, hrun, hbased.tail hs hrest, fun scope hmem => ?_, ?_⟩
    · exact hnull scope (hs ▸ List.mem_cons_of_mem front hmem)
    · show rest.length = _
      omega

/-- **Any number of forced exits** return, and leave as many scopes as there are above the bottom
one. -/
theorem exitScopes_depth {s : Env ι} (hbased : s.Based) (hnull : s.NonNull) (clock : List ℤ) :
    ∃ t, (exitScopes nodes clock).run s = .ok () t ∧ t.Based ∧
      t.depth = max 1 (s.depth - clock.length) := by
  induction clock generalizing s with
  | nil =>
    have hpos : 0 < s.depth := List.length_pos_iff.mpr hbased.ne_nil
    exact ⟨s, rfl, hbased, by rw [List.length_nil]; omega⟩
  | cons now clock ih =>
    obtain ⟨result, t, hrun, hbased', hnull', hdepth⟩ := exitScope_force nodes hbased hnull now
    obtain ⟨u, hrest, hbased'', hdepth'⟩ := ih hbased' hnull'
    refine ⟨u, ?_, hbased'', ?_⟩
    · rw [exitScopes, EStateM.run_bind, hrun]
      exact hrest
    · rw [hdepth', hdepth, List.length_cons]
      omega

variable {nodes}

/-- The stack does not get empty. -/
theorem not_reportsGameOver {s : Env ι} (hbased : s.Based) (hnull : s.NonNull) (clock : ℕ → ℤ) :
    ¬ ReportsGameOver nodes clock s := by
  rintro ⟨k, t, hrun, hempty, -⟩
  obtain ⟨t', hrun', hbased', -⟩ :=
    exitScopes_depth nodes hbased hnull ((List.range k).map clock)
  rw [hrun'] at hrun
  obtain rfl := (EStateM.Result.ok.inj hrun).2
  exact hbased'.ne_nil hempty

end

variable [DecidableEq ι] {nodes : ι → RuleNode ι}

/-- **The end of the game is not reported.** From no reachable state whose scopes were entered with
non-null nodes do forced exits come to an empty stack and throw. They all return, and from some call
on the bottom scope is the only one. -/
theorem gameOver_not_reported {s : Env ι} (h : Reachable nodes s) (hnull : s.NonNull)
    (clock : ℕ → ℤ) :
    ¬ ReportsGameOver nodes clock s ∧
      ∀ k, ∃ t, (exitScopes nodes ((List.range k).map clock)).run s = .ok () t ∧
        t.depth = max 1 (s.depth - k) := by
  refine ⟨not_reportsGameOver h.based hnull clock, fun k => ?_⟩
  obtain ⟨t, hrun, -, hdepth⟩ := exitScopes_depth nodes h.based hnull ((List.range k).map clock)
  rw [List.length_map, List.length_range] at hdepth
  exact ⟨t, hrun, hdepth⟩

/-- A new environment, in which a scope has been entered with a node. -/
def matchedEnv : Env Unit := ({} : Env Unit).push { ctrlFlow := some { node := some () } }

theorem reachable_matchedEnv : Reachable matchNode matchedEnv :=
  Relation.ReflTransGen.single (Step.op (.enterScope (some ())) 0 rfl)

theorem nonNull_matchedEnv : matchedEnv.NonNull := by
  intro scope hmem ctrl hctrl
  simp only [matchedEnv, Env.push, List.mem_cons, List.not_mem_nil, or_false] at hmem
  rcases hmem with rfl | rfl
  · obtain rfl := Option.some.inj hctrl
    rfl
  · cases hctrl

/-- Two forced exits there: the second leaves the bottom scope where it is. -/
theorem gameOver_not_reported_matched :
    ¬ ReportsGameOver matchNode (fun _ => 0) matchedEnv ∧
      ∃ t, (exitScopes matchNode [0, 0]).run matchedEnv = .ok () t ∧ t.depth = 1 := by
  obtain ⟨hnot, hexits⟩ :=
    gameOver_not_reported reachable_matchedEnv nonNull_matchedEnv fun _ => 0
  exact ⟨hnot, hexits 2⟩

/-- No forced exits there come to the end of the game. -/
theorem gameOver_reported_fails :
    ¬ ∀ s : Env Unit, Reachable matchNode s → s.NonNull →
      ReportsGameOver matchNode (fun _ => 0) s := by
  intro hreports
  exact not_reportsGameOver reachable_matchedEnv.based nonNull_matchedEnv _
    (hreports matchedEnv reachable_matchedEnv nonNull_matchedEnv)

end SocialGaming
