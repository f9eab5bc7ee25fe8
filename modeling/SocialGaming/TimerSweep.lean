import SocialGaming.Visibility

/-!
# The timer sweep

`updateTimers` moves every timer out of the table before it looks at any of them, and never asks
whether one has expired. So the sweep acts on all timers alike: none is left, every flag is set, and
the scope of every stop timer is left.

## Main definitions

* `ActsOnlyOnExpired` — a sweep that leaves the timers alone that have not expired

## Main results

* `updateTimers_acts_on_all` — what the sweep does, whatever the clock says
* `updateTimers_actsOnlyOnExpired_iff` — a sweep leaves the running timers alone only when there are
  none
-/

namespace SocialGaming

open Std (ExtTreeMap)
open ScopeStack (Shrink)

variable {ι : Type}

/-! ### What the sweep does -/

/-- No timer is added. -/
def Env.KeepsNoTimers (s s' : Env ι) : Prop := s.timers = ∅ → s'.timers = ∅

instance : Std.Refl (Env.KeepsNoTimers (ι := ι)) := ⟨fun _ => id⟩
instance : IsTrans (Env ι) Env.KeepsNoTimers := ⟨fun _ _ _ h₁ h₂ => h₂ ∘ h₁⟩

/-- The stack is not deeper. -/
def Env.DepthLe (s s' : Env ι) : Prop := s'.depth ≤ s.depth

instance : Std.Refl (Env.DepthLe (ι := ι)) := ⟨fun _ => le_rfl⟩
instance : IsTrans (Env ι) Env.DepthLe := ⟨fun _ _ _ h₁ h₂ => h₂.trans h₁⟩

theorem checkTimer_of_no_timers {s : Env ι} (h : s.timers = ∅) (scope : Scope ι) (now : ℤ) :
    checkTimer s scope now = (false, ∅) := by
  simp [checkTimer, h, Scope.waitingInputs]

section

variable {nodes : ι → RuleNode ι} {now : ℤ}

theorem exitScope_keepsNoTimers (force : Bool) (s : Env ι) :
    Prog.Respects Env.KeepsNoTimers (exitScope nodes force now) s := by
  intro s' h hnone
  rcases after_exitScope nodes h with ⟨-, rfl⟩ | ⟨scope, _, _, _, rfl, -⟩
  · exact hnone
  · exact congrArg Prod.snd (checkTimer_of_no_timers hnone scope now)

theorem exitScope_depthLe (force : Bool) (s : Env ι) :
    Prog.Respects Env.DepthLe (exitScope nodes force now) s := by
  intro s' h
  rcases after_exitScope nodes h with ⟨-, rfl⟩ | ⟨scope, rest, hs, scopes', rfl, hcase⟩
  · exact le_rfl
  rw [Env.DepthLe, Env.depth, Env.depth, hs]
  rcases hcase with ⟨-, rfl⟩ | ⟨ctrl, -, ⟨-, -, rfl⟩ | ⟨-, -, rfl⟩⟩
  · exact le_rfl
  · exact le_rfl
  · exact Nat.le_succ _

theorem Env.depthLe_assign (s : Env ι) (name : String) (arg : SetArg) :
    s.DepthLe (s.assign name arg) :=
  (s.sameScopes_assign name arg).length_eq.le

theorem sweep_depthLe (timers : List (Timer ι)) (acc : Option ι × ℤ) (s : Env ι) :
    Prog.Respects Env.DepthLe (timers.foldlM (expireTimer nodes now) acc) s :=
  sweep_respects nodes Env.depthLe_assign (exitScope_depthLe true) timers acc s

/-- After the sweep, however it ends, there are no timers. -/
theorem timers_of_updateTimers {s s' : Env ι}
    (h : Prog.after? ((updateTimers nodes now).run s) = some s') : s'.timers = ∅ :=
  sweep_respects nodes (R := Env.KeepsNoTimers) (fun t name arg ht => by rwa [t.timers_assign])
    (exitScope_keepsNoTimers true) _ _ _ s' (after_updateTimers nodes h) rfl

theorem updateTimers_depthLe (s : Env ι) :
    Prog.Respects Env.DepthLe (updateTimers nodes now) s :=
  updateTimers_respects nodes (le_refl s.depth) Env.depthLe_assign (exitScope_depthLe true)

/-- The `while` of the sweep, when no round is left. -/
theorem exitDownTo_zero_run (scopeId : ℤ) (s : Env ι) :
    (exitDownTo nodes scopeId now 0).run s
      = if scopeId < s.depth then .error .diverged s else .ok () s := by
  rw [exitDownTo, EStateM.run_bind, EStateM.run_get]
  by_cases hlt : scopeId < s.depth
  · have hlt' : scopeId < s.scopes.length := hlt
    simp [hlt, hlt']
  · have hlt' : ¬ scopeId < s.scopes.length := hlt
    simp [hlt, hlt']

/-- One round of it. -/
theorem exitDownTo_succ_run (scopeId : ℤ) (rounds : ℕ) (s : Env ι) :
    (exitDownTo nodes scopeId now (rounds + 1)).run s
      = if scopeId < s.depth then
          (exitScope nodes true now >>= fun _ => exitDownTo nodes scopeId now rounds).run s
        else .ok () s := by
  rw [exitDownTo, EStateM.run_bind, EStateM.run_get]
  by_cases hlt : scopeId < s.depth
  · have hlt' : scopeId < s.scopes.length := hlt
    simp only [hlt, hlt', if_true]
  · have hlt' : ¬ scopeId < s.scopes.length := hlt
    simp only [hlt, hlt', if_false]
    rfl

/-- It ends with the stack as shallow as it was to be. -/
theorem depth_of_exitDownTo {scopeId : ℤ} {rounds : ℕ} {s s' : Env ι}
    (h : (exitDownTo nodes scopeId now rounds).run s = .ok () s') : (s'.depth : ℤ) ≤ scopeId := by
  induction rounds generalizing s with
  | zero =>
    rw [exitDownTo_zero_run] at h
    split at h
    · cases h
    · obtain rfl := (EStateM.Result.ok.inj h).2
      omega
  | succ rounds ih =>
    rw [exitDownTo_succ_run] at h
    split at h
    · obtain ⟨r, t, -, hrest⟩ := Prog.run_bind_eq_ok.mp h
      exact ih hrest
    · obtain rfl := (EStateM.Result.ok.inj h).2
      omega

variable (nodes now) in
/-- The turn of a stop timer, after its flag has been set. -/
theorem expireTimer_stop {timer : Timer ι} (hstop : timer.type = .stop) (acc : Option ι × ℤ)
    (s : Env ι) : ∃ t, s.SameDepth t ∧ (expireTimer nodes now acc timer).run s
      = (do exitDownTo nodes timer.scopeid now t.scopes.length
            return if acc.2 > timer.scopeid then (timer.nextRuleNode, timer.scopeid) else acc :
          Call (Env ι) _).run t := by
  rw [expireTimer]
  by_cases hflag : timer.hasFlag
  · refine ⟨s.assign timer.flagName (.value (.bool true)),
      (s.sameScopes_assign _ _).length_eq, ?_⟩
    simp only [hflag, if_true, hstop, ne_eq, not_true_eq_false, if_false, EStateM.run_bind,
      setVariable_run, EStateM.run_get]
  · refine ⟨s, rfl, ?_⟩
    simp only [hflag, hstop, ne_eq, not_true_eq_false, if_false, EStateM.run_bind]
    rfl

/-- A stop timer takes its scope with it. -/
theorem depth_of_expireTimer {acc acc' : Option ι × ℤ} {timer : Timer ι} {s s' : Env ι}
    (hstop : timer.type = .stop) (h : (expireTimer nodes now acc timer).run s = .ok acc' s') :
    (s'.depth : ℤ) ≤ timer.scopeid := by
  obtain ⟨t, -, hrun⟩ := expireTimer_stop nodes now hstop acc s
  rw [hrun] at h
  obtain ⟨⟨⟩, u, hexit, hret⟩ := Prog.run_bind_eq_ok.mp h
  obtain rfl := (EStateM.Result.ok.inj hret).2
  exact depth_of_exitDownTo hexit

/-- So it does in a sweep, whatever comes after it. -/
theorem depth_of_sweep {timers : List (Timer ι)} {acc acc' : Option ι × ℤ} {s s' : Env ι}
    (h : (timers.foldlM (expireTimer nodes now) acc).run s = .ok acc' s') {timer : Timer ι}
    (hmem : timer ∈ timers) (hstop : timer.type = .stop) : (s'.depth : ℤ) ≤ timer.scopeid := by
  induction timers generalizing acc s with
  | nil => cases hmem
  | cons first rest ih =>
    rw [List.foldlM_cons, EStateM.run_bind] at h
    rcases hfirst : (expireTimer nodes now acc first).run s with ⟨acc₁, t⟩ | ⟨f, t⟩
    · rw [hfirst] at h
      rcases List.mem_cons.mp hmem with rfl | hmem
      · have hshallow := depth_of_expireTimer hstop hfirst
        have hle : s'.depth ≤ t.depth :=
          sweep_depthLe rest acc₁ t s' (congrArg Prog.after? h)
        omega
      · exact ih h hmem
    · rw [hfirst] at h
      cases h

/-- **What the sweep does, whatever the clock says.** No timer is left, and the scope of every stop
timer is left with everything above it. -/
theorem updateTimers_acts_on_all {s s' : Env ι} {next : Option ι}
    (h : (updateTimers nodes now).run s = .ok next s') :
    s'.timers = ∅ ∧ ∀ id timer, s.getTimer id = some timer → timer.type = .stop →
      (s'.depth : ℤ) ≤ timer.scopeid := by
  refine ⟨timers_of_updateTimers (congrArg Prog.after? h), fun id timer htimer hstop => ?_⟩
  rw [updateTimers_run, Prog.run_map] at h
  rcases hrun : ((s.timers.toList.map Prod.snd).foldlM (expireTimer nodes now)
      (none, (s.scopes.length : ℤ))).run { s with timers := ∅ } with ⟨acc, t⟩ | ⟨f, t⟩
  · rw [hrun] at h
    obtain ⟨-, rfl⟩ := EStateM.Result.ok.inj h
    have hmem : timer ∈ s.timers.toList.map Prod.snd :=
      List.mem_map.mpr ⟨(id, timer), ExtTreeMap.mem_toList_iff_getElem?_eq_some.mpr htimer, rfl⟩
    exact depth_of_sweep hrun hmem hstop
  · rw [hrun] at h
    cases h

/-! ### Running timers -/

/-- A sweep from `s` to `s'` that leaves the timers alone that have not expired: each is still in
the table, its flag reads what it read, and its scope is on the stack unless that of an expired stop
timer at or below it is left. If none has expired then nothing is done. -/
structure ActsOnlyOnExpired (now : ℤ) (s : Env ι) (next : Option ι) (s' : Env ι) : Prop where
  kept : ∀ id timer, s.getTimer id = some timer → timer.isExpired now = false →
    s'.getTimer id = some timer
  flag : ∀ id timer, s.getTimer id = some timer → timer.isExpired now = false →
    timer.hasFlag = true → (s'.getVariable timer.flagName).map s'.heap.value
      = (s.getVariable timer.flagName).map s.heap.value
  scope : ∀ id timer, s.getTimer id = some timer → timer.isExpired now = false →
    timer.scopeid < s.depth →
    (∀ id' other, s.getTimer id' = some other → other.isExpired now = true →
      other.type = .stop → timer.scopeid < other.scopeid) → timer.scopeid < s'.depth
  idle : (∀ id timer, s.getTimer id = some timer → timer.isExpired now = false) →
    s' = s ∧ next = none

/-- With no timers the sweep does nothing. -/
theorem updateTimers_no_timers {s : Env ι} (h : s.timers = ∅) :
    (updateTimers nodes now).run s = .ok none s := by
  have hclear : ({ s with timers := ∅ } : Env ι) = s := by rw [← h]
  rw [updateTimers_run, hclear, h]
  rfl

/-- **A sweep leaves the running timers alone only when there are none.** -/
theorem updateTimers_actsOnlyOnExpired_iff {s s' : Env ι} {next : Option ι}
    (h : (updateTimers nodes now).run s = .ok next s') :
    ActsOnlyOnExpired now s next s' ↔
      ∀ id timer, s.getTimer id = some timer → timer.isExpired now = true := by
  constructor
  · intro hacts id timer htimer
    by_contra hrunning
    have hkept := hacts.kept id timer htimer (by simpa using hrunning)
    rw [Env.getTimer, (updateTimers_acts_on_all h).1, ExtTreeMap.getElem?_empty] at hkept
    cases hkept
  · intro hexpired
    have hnone : ∀ {P : Prop} (id : ℤ) (timer : Timer ι), s.getTimer id = some timer →
        timer.isExpired now = false → P := by
      intro P id timer htimer hrunning
      rw [hexpired id timer htimer] at hrunning
      cases hrunning
    refine ⟨fun id timer ht hr => hnone id timer ht hr, fun id timer ht hr => hnone id timer ht hr,
      fun id timer ht hr => hnone id timer ht hr, fun hidle => ?_⟩
    have hempty : s.timers = ∅ := by
      refine ExtTreeMap.ext_getElem? fun {id} => ?_
      rw [ExtTreeMap.getElem?_empty]
      rcases htimer : s.timers[id]? with _ | timer
      · rfl
      · exact hnone id timer htimer (hidle id timer htimer)
    rw [updateTimers_no_timers hempty] at h
    obtain ⟨rfl, rfl⟩ := EStateM.Result.ok.inj h
    exact ⟨rfl, rfl⟩

end

/-- A stop timer that runs for three seconds. -/
def lateTimer : Timer Unit := { id := 7, type := .stop, flagName := "late", duration := 3 }

/-- A new environment, after a scope has been entered with it at time `0`. -/
def timedEnv : Env Unit :=
  match (enterScopeTimed matchNode (some ()) lateTimer 0).run {} with
  | .ok _ s => s
  | .error _ s => s

/-- A sweep at time `4`: the only timer has expired, its flag is set, and its scope is left. -/
theorem updateTimers_actsOnlyOnExpired_iff_expired :
    Reachable matchNode timedEnv ∧ (timedEnv.getTimer 7).map Timer.hasFlag = some true ∧
      ∃ next s', (updateTimers matchNode 4).run timedEnv = .ok next s' ∧ s'.depth = 1 ∧
        (s'.getVariable "late").map s'.heap.value = some (.bool true) ∧
        ActsOnlyOnExpired 4 timedEnv next s' := by
  have hstep : Step matchNode {} timedEnv :=
    Step.op (.enterScopeTimed (some ()) lateTimer) 0 rfl
  have hrun : (updateTimers matchNode 4).run timedEnv = .ok _ _ := rfl
  refine ⟨Relation.ReflTransGen.single hstep, by decide, _, _, hrun, rfl, by decide,
    (updateTimers_actsOnlyOnExpired_iff hrun).mpr fun id timer htimer => ?_⟩
  have hone : timedEnv.timers = (∅ : ExtTreeMap ℤ (Timer Unit)).insert 7
      { lateTimer with scopeid := 1, expireTime := 3 } := rfl
  rw [Env.getTimer, hone, ExtTreeMap.getElem?_insert] at htimer
  split at htimer
  · obtain rfl := Option.some.inj htimer
    rfl
  · cases htimer

/-- A sweep at time `1`: the timer runs until `3`, and is gone; its flag is set, and its scope has
been left. -/
theorem updateTimers_running_fails :
    Reachable matchNode timedEnv ∧ timedEnv.depth = 2 ∧
      (timedEnv.getTimer 7).map (Timer.isExpired 1) = some false ∧
      ∃ next s', (updateTimers matchNode 1).run timedEnv = .ok next s' ∧
        s'.getTimer 7 = none ∧ s'.depth = 1 ∧
        (s'.getVariable "late").map s'.heap.value = some (.bool true) ∧
        ¬ ActsOnlyOnExpired 1 timedEnv next s' := by
  have hstep : Step matchNode {} timedEnv :=
    Step.op (.enterScopeTimed (some ()) lateTimer) 0 rfl
  refine ⟨Relation.ReflTransGen.single hstep, rfl, by decide, _, _, rfl, by decide, rfl,
    by decide, fun hacts => ?_⟩
  have hkept := hacts.kept 7 { lateTimer with scopeid := 1, expireTime := 3 } (by decide)
    (by decide)
  revert hkept
  decide

end SocialGaming
