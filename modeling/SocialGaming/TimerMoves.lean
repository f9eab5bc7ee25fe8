import SocialGaming.TimerSweep
import SocialGaming.Library.Runs

/-!
# Steps on the timers

Runs of the environment with their history, and what each step can do to the table of timers and to
the timer ids of the scopes. The invariants of the timers are read off from this.

## Main definitions

* `Event`, `EventStep` — a step of a client, by what the client does
* `timerIds` — the timer ids of the scopes
* `Enters` — entering a node enters a new scope
* `TimerMove` — what a step does to the timers and the timer ids

## Main results

* `EventStep.timerMove` — every step is such a move
-/

namespace SocialGaming

open Std (ExtTreeMap)

variable {ι : Type}

/-- What a client does: a call at a clock reading, or a change of values. -/
inductive Event (ι : Type) where
  | call (o : Op ι) (now : ℤ)
  | client (heap : Heap)

/-- The timer ids of the scopes. -/
def timerIds (scopes : List (Scope ι)) : List ℤ := scopes.map Scope.timerId

theorem SameScopes.timerIds_eq {a b : List (Scope ι)} (h : SameScopes a b) :
    timerIds a = timerIds b := by
  have hmap : ∀ l : List (Scope ι),
      (l.map fun scope => { scope with vars := ∅ }).map Scope.timerId = timerIds l := by
    intro l
    rw [List.map_map]
    rfl
  rw [← hmap a, ← hmap b, h]

theorem length_timerIds (s : Env ι) : (timerIds s.scopes).length = s.depth := List.length_map _

/-- Neither the timers nor the timer ids of the scopes are different. -/
def Env.SameTimers (s s' : Env ι) : Prop :=
  s'.timers = s.timers ∧ timerIds s'.scopes = timerIds s.scopes

instance : Std.Refl (Env.SameTimers (ι := ι)) := ⟨fun _ => ⟨rfl, rfl⟩⟩
instance : IsTrans (Env ι) Env.SameTimers :=
  ⟨fun _ _ _ h₁ h₂ => ⟨h₂.1.trans h₁.1, h₂.2.trans h₁.2⟩⟩

theorem Env.sameTimers_assign (s : Env ι) (name : String) (arg : SetArg) :
    s.SameTimers (s.assign name arg) :=
  ⟨s.timers_assign name arg, (s.sameScopes_assign name arg).timerIds_eq⟩

section

variable (nodes : ι → RuleNode ι)

theorem updateLoop_sameTimers (ctrl : ControlFlow ι) (s : Env ι) :
    Prog.Respects Env.SameTimers (updateLoop nodes ctrl) s :=
  updateLoop_respects nodes fun range p rest _ _ => by
    obtain ⟨htimers, hids⟩ := s.sameTimers_assign ctrl.loopVarName (.value (s.heap.value p))
    refine ⟨htimers, Eq.trans ?_ hids⟩
    show timerIds ((s.assign ctrl.loopVarName (.value (s.heap.value p))).scopes.modifyHead _) = _
    cases (s.assign ctrl.loopVarName (.value (s.heap.value p))).scopes with
    | nil => rfl
    | cons front rest => rfl

variable [DecidableEq ι]

/-- One step of a client, by what it does. -/
inductive EventStep : Env ι → Event ι → Env ι → Prop
  | call {o : Op ι} {now : ℤ} {s s' : Env ι}
      (h : Prog.after? ((o.call nodes now).run s) = some s') : EventStep s (.call o now) s'
  | client {s : Env ι} {heap : Heap} (h : s.heap.Evolves heap) :
      EventStep s (.client heap) { s with heap }

variable {nodes}

theorem EventStep.step {s s' : Env ι} {e : Event ι} (h : EventStep nodes s e s') :
    Step nodes s s' := by
  cases h with
  | call h => exact Step.op _ _ h
  | client h => exact Step.client h

/-- Runs are runs. -/
theorem Run.reachable {s₀ s : Env ι} {t : List (Env ι × Event ι)}
    (h : Run (EventStep nodes) s₀ t s) (h₀ : Reachable nodes s₀) : Reachable nodes s :=
  h.invariant h₀ fun _ _ _ hstep hs => hs.tail hstep.step

end

/-! ### Moves -/

/-- `enterScope` enters a new scope: the front one is not the node's, and nothing is thrown before
the new one is pushed. -/
def Enters [DecidableEq ι] (nodes : ι → RuleNode ι) (s : Env ι) (node : Option ι) : Prop :=
  s.frontBelongsTo node = false ∧ ∃ scope ctrl next, Scope.new nodes node s = .ok scope ∧
    scope.ctrlFlow = some ctrl ∧ ctrl.getNext nodes = .ok next

/-- What a step does to the timers and the timer ids. -/
inductive TimerMove [DecidableEq ι] (nodes : ι → RuleNode ι) (s : Env ι) (e : Event ι)
    (s' : Env ι) : Prop
  /-- Nothing. -/
  | same (h : s.SameTimers s')
      (hexit : ∀ force now, e = .call (.exitScope force) now → s.scopes = [])
      (hsweep : ∀ now, e ≠ .call .updateTimers now)
      (htimed : ∀ node timer now, e = .call (.enterScopeTimed node timer) now →
        ∀ scope, Scope.new nodes node s ≠ .ok scope)
  /-- A scope is entered without a timer. -/
  | enter {node : Option ι} {now : ℤ} (he : e = .call (.enterScope node) now)
      (henters : Enters nodes s node) (htimers : s'.timers = s.timers)
      (hids : timerIds s'.scopes = -1 :: timerIds s.scopes)
  /-- A scope is entered with a timer. -/
  | enterTimed {node : Option ι} {timer : Timer ι} {now : ℤ} {scope : Scope ι}
      (he : e = .call (.enterScopeTimed node timer) now) (hnew : Scope.new nodes node s = .ok scope)
      (htimers : s'.timers = s.timers.insert timer.id
        ({ timer.copy with scopeid := s.scopes.length }.start now))
      (hids : timerIds s'.scopes = timer.id :: timerIds s.scopes)
  /-- `exitScope` leaves the front scope where it is. -/
  | stay {force : Bool} {now : ℤ} {front : Scope ι} {rest : List (Scope ι)}
      (he : e = .call (.exitScope force) now) (hs : s.scopes = front :: rest)
      (hstay : ∀ ctrl, front.ctrlFlow = some ctrl → force = false ∧ ctrl.exiting = false)
      (htimers : s'.timers = (checkTimer s front now).2)
      (hids : timerIds s'.scopes = timerIds s.scopes)
  /-- `exitScope` leaves the front scope. -/
  | leave {force : Bool} {now : ℤ} {front : Scope ι} {rest : List (Scope ι)} {ctrl : ControlFlow ι}
      (he : e = .call (.exitScope force) now) (hs : s.scopes = front :: rest)
      (hctrl : front.ctrlFlow = some ctrl) (hleave : force = true ∨ ctrl.exiting = true)
      (htimers : s'.timers = (checkTimer s front now).2)
      (hids : timerIds s'.scopes = timerIds rest)
  /-- The timers are swept. -/
  | sweep {now : ℤ} (he : e = .call .updateTimers now) (htimers : s'.timers = ∅)
      (hdepth : s'.depth ≤ s.depth)

section

variable {nodes : ι → RuleNode ι} [DecidableEq ι]

theorem timerMove_of_timed {s s' : Env ι} {node : Option ι} {timer : Timer ι} {now : ℤ}
    (h : Prog.after? ((enterScopeTimed nodes node timer now).run s) = some s') :
    TimerMove nodes s (.call (.enterScopeTimed node timer) now) s' := by
  cases hnew : Scope.new nodes node s with
  | error f =>
    have hsame : s.SameTimers s' :=
      Prog.respects_error (enterScopeTimed_error nodes hnew) s' h
    refine TimerMove.same hsame (by rintro _ _ ⟨⟩) (by rintro _ ⟨⟩) ?_
    rintro node' timer' now' ⟨⟩ scope hscope
    rw [hnew] at hscope
    cases hscope
  | ok scope =>
    rw [enterScopeTimed_run nodes hnew, Prog.after?_ok, Option.some_inj] at h
    subst h
    have hflagged : s.SameTimers (if timer.hasFlag then
        s.assign timer.flagName (.value (.bool false)) else s) := by
      split
      · exact s.sameTimers_assign _ _
      · exact Std.Refl.refl s
    refine TimerMove.enterTimed rfl hnew ?_ ?_
    · show ExtTreeMap.insert _ _ _ = _
      rw [hflagged.1]
    · show timer.id :: timerIds _ = _
      rw [hflagged.2]

theorem timerMove_of_exit {s s' : Env ι} {force : Bool} {now : ℤ}
    (h : Prog.after? ((exitScope nodes force now).run s) = some s') :
    TimerMove nodes s (.call (.exitScope force) now) s' := by
  rcases after_exitScope nodes h with ⟨hnil, rfl⟩ | ⟨front, rest, hs, scopes', rfl, hcase⟩
  · exact TimerMove.same (Std.Refl.refl s') (fun _ _ _ => hnil) (by rintro _ ⟨⟩)
      (by rintro _ _ _ ⟨⟩)
  rcases hcase with ⟨hc, rfl⟩ | ⟨ctrl, hc, ⟨hforce, hexit, rfl⟩ | ⟨hleave, -, rfl⟩⟩
  · refine TimerMove.stay rfl hs (fun ctrl hctrl => ?_) rfl (by rw [hs])
    rw [hc] at hctrl
    cases hctrl
  · refine TimerMove.stay rfl hs (fun ctrl' hctrl => ?_) rfl (by rw [hs]; rfl)
    rw [hc] at hctrl
    obtain rfl := Option.some.inj hctrl
    exact ⟨hforce, hexit⟩
  · exact TimerMove.leave rfl hs hc hleave rfl rfl

theorem timerMove_of_enter {s s' : Env ι} {node : Option ι} {now : ℤ}
    (h : Prog.after? ((enterScope nodes node).run s) = some s') :
    TimerMove nodes s (.call (.enterScope node) now) s' := by
  have hsame : s.SameTimers s' → TimerMove nodes s (.call (.enterScope node) now) s' := fun hsame =>
    TimerMove.same hsame (by rintro _ _ ⟨⟩) (by rintro _ ⟨⟩) (by rintro _ _ _ ⟨⟩)
  have hpush : Enters nodes s node → ∀ scope, Scope.new nodes node s = .ok scope →
      (s.push scope).SameTimers s' → TimerMove nodes s (.call (.enterScope node) now) s' := by
    rintro henters scope hscope ⟨htimers, hids⟩
    refine TimerMove.enter rfl henters htimers (hids.trans ?_)
    show scope.timerId :: timerIds s.scopes = _
    rw [(Scope.new_eq_ok nodes hscope).2.1]
  rcases enterScope_cases nodes node s with ⟨ctrl, -, -, hrun⟩ | ⟨hfront, hrun⟩
  · rw [hrun] at h
    exact hsame (updateLoop_sameTimers nodes ctrl s s' h)
  rw [hrun] at h
  rcases enterNew_cases nodes node s with
    ⟨f, hrun⟩ | ⟨scope, ctrl, next, hscope, hctrl, hnext, hrun | hrun⟩
  · exact hsame (Prog.respects_error hrun s' h)
  · rw [hrun, Prog.after?_ok, Option.some_inj] at h
    exact hpush ⟨hfront, scope, ctrl, next, hscope, hctrl, hnext⟩ scope hscope (h ▸ Std.Refl.refl _)
  · rw [hrun] at h
    exact hpush ⟨hfront, scope, ctrl, next, hscope, hctrl, hnext⟩ scope hscope
      (updateLoop_sameTimers nodes ctrl _ s' h)

/-- **Every step is such a move.** -/
theorem EventStep.timerMove {s s' : Env ι} {e : Event ι} (h : EventStep nodes s e s') :
    TimerMove nodes s e s' := by
  cases h with
  | client h =>
    exact TimerMove.same ⟨rfl, rfl⟩ (by rintro _ _ ⟨⟩) (by rintro _ ⟨⟩) (by rintro _ _ _ ⟨⟩)
  | @call o now s s' h =>
    cases o with
    | setVariable name arg =>
      have hsame : s.SameTimers s' :=
        Prog.respects_ok (setVariable_run name arg s) (s.sameTimers_assign name arg) s' h
      exact TimerMove.same hsame (by rintro _ _ ⟨⟩) (by rintro _ ⟨⟩) (by rintro _ _ _ ⟨⟩)
    | enterScopeTimed node timer => exact timerMove_of_timed h
    | enterScope node => exact timerMove_of_enter (by rwa [Op.call, Prog.after?_run_map] at h)
    | exitScope force => exact timerMove_of_exit (by rwa [Op.call, Prog.after?_run_map] at h)
    | updateTimers =>
      rw [Op.call, Prog.after?_run_map] at h
      exact TimerMove.sweep rfl (timers_of_updateTimers h) (updateTimers_depthLe s s' h)

end

end SocialGaming
