import SocialGaming.Library.Collections
import SocialGaming.TimerMoves
import SocialGaming.LoopConsumption

/-!
# Timers of open scopes

A timer is found in the table by its id, and so is the timer a scope was entered with. Entering
another scope with the same id replaces it. `exitScope` erases it when it has no flag, and does so
before it knows whether the front scope is left or only an iteration of its loop has ended.

These are the only two ways in which a stop timer can be lost while its scope is on the stack and
the timers are not swept.

## Main definitions

* `Timer.entered` — the timer as it is put in the table
* `Event.Plain` — neither a forced exit nor a sweep
* `Disarms` — a step that loses the timer

## Main results

* `getTimer_checkTimer` — what leaving a scope does to a stop timer
* `EventStep.armed_iff` — one step
* `stopTimer_armed_iff` — a stop timer stays in the table exactly when no step loses it
-/

namespace SocialGaming

open Std (ExtTreeMap)

variable {ι : Type}

/-- The timer in the table, after a scope has been entered with it. -/
def Timer.entered (timer : Timer ι) (depth : ℕ) (now : ℤ) : Timer ι :=
  { timer.copy with scopeid := depth }.start now

/-- A call that is neither a forced exit nor a sweep. -/
def Event.Plain : Event ι → Prop
  | .call (.exitScope force) _ => force = false
  | .call .updateTimers _ => False
  | _ => True

/-- The step loses the timer, whose scope lies on `depth` others: a scope is entered with a timer of
the same id, or the timer has no flag and the front scope, which has its id, is not left or is not
the timer's. -/
inductive Disarms (nodes : ι → RuleNode ι) (timer : Timer ι) (depth : ℕ) : Env ι × Event ι → Prop
  | replaces {s : Env ι} {node : Option ι} {other : Timer ι} {now : ℤ} {scope : Scope ι}
      (hid : other.id = timer.id) (hnew : Scope.new nodes node s = .ok scope) :
      Disarms nodes timer depth (s, .call (.enterScopeTimed node other) now)
  | erases {s : Env ι} {force : Bool} {now : ℤ} {front : Scope ι} {rest : List (Scope ι)}
      (hflag : timer.hasFlag = false) (hs : s.scopes = front :: rest)
      (hid : front.timerId = timer.id)
      (hopen : depth + 1 < s.depth ∨ ∃ ctrl, front.ctrlFlow = some ctrl ∧ ctrl.exiting = false) :
      Disarms nodes timer depth (s, .call (.exitScope force) now)

/-- A call of `exitScope` that disarms the timer. -/
theorem Disarms.of_exitScope {nodes : ι → RuleNode ι} {timer : Timer ι} {depth : ℕ} {s : Env ι}
    {force : Bool} {now : ℤ} {front : Scope ι} {rest : List (Scope ι)}
    (h : Disarms nodes timer depth (s, .call (.exitScope force) now))
    (hs : s.scopes = front :: rest) : front.timerId = timer.id ∧ timer.hasFlag = false := by
  rcases h with _ | ⟨hflag, hs', hid, -⟩
  rw [hs] at hs'
  obtain ⟨rfl, rfl⟩ := List.cons.inj hs'
  exact ⟨hid, hflag⟩

/-- **What leaving a scope does to a stop timer.** -/
theorem getTimer_checkTimer {s : Env ι} {id : ℤ} {timer : Timer ι}
    (h : s.timers[id]? = some timer) (hstop : timer.type = .stop) (front : Scope ι) (now : ℤ) :
    (checkTimer s front now).2[id]?
      = if front.timerId = id ∧ timer.hasFlag = false then none else some timer := by
  rw [checkTimer]
  by_cases hid : front.timerId = id
  · rw [hid, h]
    cases hflag : timer.hasFlag with
    | false => simp [hstop, hflag]
    | true => simp [hstop, hflag, h]
  · rw [if_neg (fun hboth => hid hboth.1)]
    cases hother : s.timers[front.timerId]? with
    | none => exact h
    | some other =>
      by_cases hpad : other.type = .pad ∧ ¬ other.isExpired now
      · simp [hpad, h]
      · simp only [hpad, if_false]
        split
        · rw [ExtTreeMap.getElem?_erase, if_neg (by simpa using hid)]
          exact h
        · exact h

section

variable {nodes : ι → RuleNode ι} [DecidableEq ι] {timer : Timer ι} {depth : ℕ} {now : ℤ}

omit [DecidableEq ι] in
/-- A call of `exitScope`, when it is known that it disarms the timer if the front scope has its id
and it has no flag. -/
theorem armed_iff_of_exitScope {s s' : Env ι} {force : Bool} {now' : ℤ} {front : Scope ι}
    {rest : List (Scope ι)} (hs : s.scopes = front :: rest) (hstop : timer.type = .stop)
    (harmed : s.getTimer timer.id = some (timer.entered depth now))
    (htimers : s'.timers = (checkTimer s front now').2)
    (herases : front.timerId = timer.id → timer.hasFlag = false →
      Disarms nodes timer depth (s, .call (.exitScope force) now')) :
    s'.getTimer timer.id = some (timer.entered depth now) ↔
      ¬ Disarms nodes timer depth (s, .call (.exitScope force) now') := by
  have hcheck : (checkTimer s front now').2[timer.id]?
      = if front.timerId = timer.id ∧ timer.hasFlag = false then none
        else some (timer.entered depth now) := getTimer_checkTimer harmed hstop front now'
  rw [Env.getTimer, htimers, hcheck]
  by_cases herase : front.timerId = timer.id ∧ timer.hasFlag = false
  · rw [if_pos herase]
    exact iff_of_false (by rintro ⟨⟩) (not_not.mpr (herases herase.1 herase.2))
  · rw [if_neg herase]
    exact iff_of_true rfl fun hdisarms => herase (hdisarms.of_exitScope hs)

/-- **One step.** -/
theorem EventStep.armed_iff {s s' : Env ι} {e : Event ι} (h : EventStep nodes s e s')
    (hbased : s.Based) (hplain : e.Plain) (hstop : timer.type = .stop) (hpos : 0 < depth)
    (hopen : depth < s.depth) (hopen' : depth < s'.depth)
    (harmed : s.getTimer timer.id = some (timer.entered depth now)) :
    s'.getTimer timer.id = some (timer.entered depth now) ↔ ¬ Disarms nodes timer depth (s, e) := by
  cases h.timerMove with
  | same hsame hexit hsweep htimed =>
    refine iff_of_true (by rw [Env.getTimer, hsame.1]; exact harmed) ?_
    rintro (⟨-, hnew⟩ | ⟨-, hs, -, -⟩)
    · exact htimed _ _ _ rfl _ hnew
    · rw [hexit _ _ rfl] at hs
      cases hs
  | enter he henters htimers hids =>
    subst he
    refine iff_of_true (by rw [Env.getTimer, htimers]; exact harmed) ?_
    rintro ⟨⟩
  | @enterTimed node other now' scope he hnew htimers hids =>
    subst he
    rw [Env.getTimer, htimers]
    by_cases hid : other.id = timer.id
    · refine iff_of_false ?_ (not_not.mpr (Disarms.replaces hid hnew))
      rw [hid, ExtTreeMap.getElem?_insert_self]
      intro heq
      have hscopeid : (s.scopes.length : ℤ) = depth :=
        congrArg Timer.scopeid (Option.some.inj heq)
      have hlt : depth < s.scopes.length := hopen
      omega
    · refine iff_of_true ?_ ?_
      · rw [getElem?_insert_of_ne _ hid]
        exact harmed
      · rintro (⟨hid', -⟩ | _)
        exact hid hid'
  | @stay force now' front rest he hs hstay htimers hids =>
    subst he
    refine armed_iff_of_exitScope hs hstop harmed htimers fun hid hflag => ?_
    cases hc : front.ctrlFlow with
    | none =>
      rw [Env.depth, hs, hbased.eq_nil hs hc] at hopen
      simp at hopen
      omega
    | some ctrl => exact Disarms.erases hflag hs hid (Or.inr ⟨ctrl, hc, (hstay ctrl hc).2⟩)
  | @leave force now' front rest ctrl he hs hctrl hleave htimers hids =>
    subst he
    refine armed_iff_of_exitScope hs hstop harmed htimers fun hid hflag => ?_
    have hshorter : depth + 1 < s.depth := by
      have hlen := congrArg List.length hids
      rw [length_timerIds, timerIds, List.length_map] at hlen
      rw [Env.depth, hs, List.length_cons]
      omega
    exact Disarms.erases hflag hs hid (Or.inl hshorter)
  | sweep he htimers hdepth' =>
    subst he
    exact hplain.elim

/-- **When a stop timer stays armed.** Enter a scope with a stop timer, from any reachable state,
and take any run of calls without forced exits and sweeps in which the scope stays on the stack. The
table has the timer, with the depth of the scope, in every state of the run exactly when no step
enters a scope with a timer of the same id and, if the timer has no flag, no call of `exitScope`
finds a front scope with its id and leaves the timer's scope on the stack. -/
theorem stopTimer_armed_iff {s₀ s₁ s : Env ι} {node : Option ι} {t : List (Env ι × Event ι)}
    (h₀ : Reachable nodes s₀) (hstop : timer.type = .stop)
    (henter : (enterScopeTimed nodes node timer now).run s₀ = .ok () s₁)
    (hrun : Run (EventStep nodes) s₁ t s) (hplain : ∀ p ∈ t, p.2.Plain)
    (hopen : (∀ p ∈ t, s₀.depth < p.1.depth) ∧ s₀.depth < s.depth) :
    ((∀ p ∈ t, p.1.getTimer timer.id = some (timer.entered s₀.depth now)) ∧
      s.getTimer timer.id = some (timer.entered s₀.depth now)) ↔
      ∀ p ∈ t, ¬ Disarms nodes timer s₀.depth p := by
  have h₁ : Reachable nodes s₁ :=
    h₀.tail (Step.op (.enterScopeTimed node timer) now (congrArg Prog.after? henter))
  have hpos : 0 < s₀.depth := List.length_pos_of_ne_nil h₀.based.ne_nil
  induction hrun with
  | nil =>
    have harmed : s₁.getTimer timer.id = some (timer.entered s₀.depth now) := by
      cases hnew : Scope.new nodes node s₀ with
      | error f =>
        rw [enterScopeTimed_error nodes hnew] at henter
        cases henter
      | ok scope =>
        rw [enterScopeTimed_run nodes hnew] at henter
        rw [← (EStateM.Result.ok.inj henter).2]
        exact ExtTreeMap.getElem?_insert_self
    exact iff_of_true ⟨by simp, harmed⟩ (by simp)
  | @snoc t u s e hrun hstep ih =>
    rw [List.forall_mem_append] at hplain
    obtain ⟨hopen, hlast⟩ := hopen
    rw [List.forall_mem_append] at hopen
    have hu : s₀.depth < u.depth := hopen.2 (u, e) (List.mem_singleton_self _)
    have hbefore_iff := ih hplain.1 ⟨hopen.1, hu⟩
    have hstep_iff : u.getTimer timer.id = some (timer.entered s₀.depth now) →
        (s.getTimer timer.id = some (timer.entered s₀.depth now) ↔
          ¬ Disarms nodes timer s₀.depth (u, e)) := hstep.armed_iff (hrun.reachable h₁).based
      (hplain.2 (u, e) (List.mem_singleton_self _)) hstop hpos hu hlast
    simp only [List.forall_mem_append, List.mem_singleton, forall_eq]
    constructor
    · rintro ⟨⟨hbefore, harmed⟩, hafter⟩
      exact ⟨hbefore_iff.mp ⟨hbefore, harmed⟩, (hstep_iff harmed).mp hafter⟩
    · rintro ⟨hkeeps, hkeep⟩
      obtain ⟨hbefore, harmed⟩ := hbefore_iff.mpr hkeeps
      exact ⟨⟨hbefore, harmed⟩, (hstep_iff harmed).mpr hkeep⟩

end

/-- A stop timer without a flag. -/
def stopTimer : Timer Unit := { id := 7, type := .stop, duration := 3 }

/-- The loop over `1, 2`, entered with a timer. -/
def stopLoopEnv (timer : Timer Unit) : Env Unit :=
  match (enterScopeTimed forNode (some ()) timer 0).run listEnv with
  | .ok _ s => s
  | .error _ s => s

/-- The same, in the first iteration. -/
def stopLoopIn (timer : Timer Unit) : Env Unit :=
  match (enterScope forNode (some ())).run (stopLoopEnv timer) with
  | .ok _ s => s
  | .error _ s => s

/-- The same, when the first iteration has ended. -/
def stopLoopNext (timer : Timer Unit) : Env Unit :=
  match (exitScope forNode false 1).run (stopLoopIn timer) with
  | .ok _ s => s
  | .error _ s => s

/-- The first iteration of a loop ends, and the timer the loop was entered with is gone. -/
theorem stopTimer_lost_in_loop :
    Reachable forNode listEnv ∧ stopTimer.type = .stop ∧
      (enterScopeTimed forNode (some ()) stopTimer 0).run listEnv
        = .ok () (stopLoopEnv stopTimer) ∧
      (stopLoopEnv stopTimer).getTimer 7 = some (stopTimer.entered listEnv.depth 0) ∧
      ∃ t, Run (EventStep forNode) (stopLoopEnv stopTimer) t (stopLoopNext stopTimer) ∧
        (∀ p ∈ t, p.2.Plain) ∧ (∀ p ∈ t, listEnv.depth < p.1.depth) ∧
        listEnv.depth < (stopLoopNext stopTimer).depth ∧
        (stopLoopNext stopTimer).getTimer 7 = none := by
  have hin : EventStep forNode (stopLoopEnv stopTimer) (.call (.enterScope (some ())) 0)
      (stopLoopIn stopTimer) := EventStep.call rfl
  have hout : EventStep forNode (stopLoopIn stopTimer) (.call (.exitScope false) 1)
      (stopLoopNext stopTimer) := EventStep.call rfl
  refine ⟨reachable_listEnv, rfl, rfl, by decide, _, (Run.nil.snoc hin).snoc hout, ?_, ?_,
    by decide, by decide⟩
  · simp [Event.Plain]
  · decide

/-- A timer with a flag is still there. -/
theorem stopTimer_armed_iff_late :
    (stopLoopNext lateTimer).getTimer 7 = some (lateTimer.entered listEnv.depth 0) := by
  have hin : EventStep forNode (stopLoopEnv lateTimer) (.call (.enterScope (some ())) 0)
      (stopLoopIn lateTimer) := EventStep.call rfl
  have hout : EventStep forNode (stopLoopIn lateTimer) (.call (.exitScope false) 1)
      (stopLoopNext lateTimer) := EventStep.call rfl
  have henter : (enterScopeTimed forNode (some ()) lateTimer 0).run listEnv
      = .ok () (stopLoopEnv lateTimer) := rfl
  have hrun := (Run.nil.snoc hin).snoc hout
  refine ((stopTimer_armed_iff reachable_listEnv rfl henter hrun ?_ ⟨?_, by decide⟩).mpr ?_).2
  · simp [Event.Plain]
  · decide
  · intro p hp hdisarms
    cases hdisarms with
    | replaces hid hnew => simp at hp
    | erases hflag hs hid hopen => cases hflag

end SocialGaming
