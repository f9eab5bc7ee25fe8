import SocialGaming.LoopExecution

/-!
# Exits that are blocked

`exitScope` looks at the timer of the front scope first, and says through `shouldBlock` that a pad
timer still runs. It then goes on: it empties the scope of a loop that is not done, and leaves any
other scope. So a call that blocks can be repeated only when there is nothing to empty and nothing
to leave.

## Main definitions

* `PadRuns` — the pad timer of a scope is in the table and has not expired
* `Scope.Repeats` — leaving the scope without force neither empties it nor leaves it
* `retryExit` — calls of `exitScope` at successive clock readings

## Main results

* `checkTimer_fst_iff` — what blocks is a pad timer that runs
* `exitScope_retry_iff` — when a call blocks and changes nothing, and where repeating it leads
-/

namespace SocialGaming

variable {ι : Type}

/-- The timer of the scope is a pad timer that has not expired. -/
def PadRuns (s : Env ι) (scope : Scope ι) (now : ℤ) : Prop :=
  ∃ timer, s.getTimer scope.timerId = some timer ∧ timer.type = .pad ∧ timer.isExpired now = false

/-- Leaving the scope without force changes neither the stack nor what the scope binds: it is that
of a loop that is not done, and empty. The bottom scope is never left. -/
def Scope.Repeats (scope : Scope ι) : Prop :=
  ∀ ctrl, scope.ctrlFlow = some ctrl → ctrl.exiting = false ∧ scope.vars = ∅

/-- **What blocks.** -/
theorem checkTimer_fst_iff {s : Env ι} {scope : Scope ι} {now : ℤ} :
    (checkTimer s scope now).1 = true ↔ PadRuns s scope now := by
  rw [checkTimer, PadRuns, Env.getTimer]
  cases htimer : s.timers[scope.timerId]? with
  | none => simp [Scope.waitingInputs]
  | some timer =>
    constructor
    · intro h
      by_cases hpad : timer.type = .pad ∧ ¬ timer.isExpired now
      · exact ⟨timer, rfl, hpad.1, by simpa using hpad.2⟩
      · simp only [hpad, if_false] at h
        split at h <;> cases h
    · rintro ⟨timer', htimer', hpad, hruns⟩
      obtain rfl := Option.some.inj htimer'
      simp [hpad, hruns]

/-- A call that blocks leaves the table alone. -/
theorem checkTimer_snd {s : Env ι} {scope : Scope ι} {now : ℤ} (h : PadRuns s scope now) :
    (checkTimer s scope now).2 = s.timers := by
  obtain ⟨timer, htimer, hpad, hruns⟩ := h
  rw [Env.getTimer] at htimer
  simp [checkTimer, htimer, hpad, hruns]

variable (nodes : ι → RuleNode ι)

/-- Calls of `exitScope` without force, at successive clock readings. -/
def retryExit (clock : List ℤ) : Call (Env ι) Unit :=
  clock.forM fun now => do
    let _ ← exitScope nodes false now

variable {nodes} {s : Env ι} {front : Scope ι} {rest : List (Scope ι)}

/-- A scope that is neither emptied nor left. -/
theorem exitScope_of_repeats (h : s.scopes = front :: rest) (hrep : front.Repeats) (now : ℤ) :
    (exitScope nodes false now).run s
      = .ok ((checkTimer s front now).1, front.ctrlFlow.bind ControlFlow.node)
          { s with timers := (checkTimer s front now).2 } := by
  cases hc : front.ctrlFlow with
  | none => exact exitScope_base nodes h hc false now
  | some ctrl =>
    obtain ⟨hexit, hvars⟩ := hrep ctrl hc
    have hfront : ({ front with vars := ∅ } : Scope ι) = front := by rw [← hvars]
    rw [exitScope_again nodes h hc hexit now, hfront, ← h]
    rfl

/-- A call that blocks and changes nothing. -/
theorem exitScope_blocked_iff (h : s.scopes = front :: rest) (now : ℤ) :
    (∃ next, (exitScope nodes false now).run s = .ok (true, next) s) ↔
      PadRuns s front now ∧ front.Repeats := by
  constructor
  · rintro ⟨next, hrun⟩
    cases hc : front.ctrlFlow with
    | none =>
      rw [exitScope_base nodes h hc] at hrun
      have hblocks := congrArg Prod.fst (EStateM.Result.ok.inj hrun).1
      refine ⟨checkTimer_fst_iff.mp hblocks, fun ctrl hctrl => ?_⟩
      rw [hc] at hctrl
      cases hctrl
    | some ctrl =>
      cases hexit : ctrl.exiting with
      | false =>
        rw [exitScope_again nodes h hc hexit] at hrun
        obtain ⟨hresult, hstate⟩ := EStateM.Result.ok.inj hrun
        refine ⟨checkTimer_fst_iff.mp (congrArg Prod.fst hresult), fun ctrl' hctrl' => ?_⟩
        rw [hc] at hctrl'
        obtain rfl := Option.some.inj hctrl'
        have hscopes := congrArg Env.scopes hstate
        rw [h] at hscopes
        exact ⟨hexit, (congrArg Scope.vars (List.cons.inj hscopes).1).symm⟩
      | true =>
        cases hn : ctrl.node with
        | none =>
          rw [exitScope_null nodes h hc (Or.inr hexit) hn] at hrun
          cases hrun
        | some n =>
          rw [exitScope_pop nodes h hc (Or.inr hexit) hn] at hrun
          have hscopes := congrArg Env.scopes (EStateM.Result.ok.inj hrun).2
          rw [h] at hscopes
          exact absurd hscopes.symm (List.cons_ne_self front rest)
  · rintro ⟨hruns, hrep⟩
    refine ⟨front.ctrlFlow.bind ControlFlow.node, ?_⟩
    rw [exitScope_of_repeats h hrep, checkTimer_fst_iff.mpr hruns, checkTimer_snd hruns]

/-- As long as the timer runs, calls change nothing. -/
theorem retryExit_run (h : s.scopes = front :: rest) (hrep : front.Repeats) {clock : List ℤ}
    (hclock : ∀ now ∈ clock, PadRuns s front now) : (retryExit nodes clock).run s = .ok ⟨⟩ s := by
  induction clock with
  | nil => rfl
  | cons now clock ih =>
    rw [List.forall_mem_cons] at hclock
    obtain ⟨next, hrun⟩ : ∃ next, (exitScope nodes false now).run s = .ok (true, next) s :=
      (exitScope_blocked_iff h now).mpr ⟨hclock.1, hrep⟩
    show ((do let _ ← exitScope nodes false now) >>= fun _ => retryExit nodes clock).run s = _
    rw [EStateM.run_bind, EStateM.run_bind, hrun]
    exact ih hclock.2

/-- **Retrying a blocked exit.** Without force, `exitScope` sets `shouldBlock` and leaves the stack,
the variables and the timers as they were exactly when the timer of the front scope is a pad timer
that runs and the scope is the bottom one, or empty and that of a loop that is not done. Such a call
can be repeated as long as the timer runs, and the first call after that starts the next iteration
and leaves every scope where it is. -/
theorem exitScope_retry_iff (h : s.scopes = front :: rest) :
    (∀ now, (∃ next, (exitScope nodes false now).run s = .ok (true, next) s) ↔
      PadRuns s front now ∧ front.Repeats) ∧
    (front.Repeats → ∀ clock, (∀ now ∈ clock, PadRuns s front now) →
      ∀ later, ¬ PadRuns s front later → ∃ timers,
        (do retryExit nodes clock; exitScope nodes false later).run s
          = .ok (false, front.ctrlFlow.bind ControlFlow.node) { s with timers }) := by
  refine ⟨exitScope_blocked_iff h, fun hrep clock hclock later hlater => ?_⟩
  have hfalse : (checkTimer s front later).1 = false := by
    simpa using mt checkTimer_fst_iff.mp hlater
  refine ⟨(checkTimer s front later).2, ?_⟩
  rw [EStateM.run_bind, retryExit_run h hrep hclock]
  show (exitScope nodes false later).run s = _
  rw [exitScope_of_repeats h hrep, hfalse]

/-- A pad timer of three seconds. -/
def padTimer : Timer Unit := { id := 7, type := .pad, duration := 3 }

/-- A new environment, after a block has been entered, and in it one with the timer. -/
def paddedEnv : Env Unit :=
  match (do let _ ← enterScope matchNode (some ())
            enterScopeTimed matchNode (some ()) padTimer 0 : Call (Env Unit) Unit).run {} with
  | .ok _ s => s
  | .error _ s => s

/-- At time `1` the timer runs until `3`. Leaving the padded block says that it is blocked, and the
block is left; repeating the call leaves the block around it. -/
theorem exitScope_blocked_leaves :
    Reachable matchNode paddedEnv ∧ paddedEnv.depth = 3 ∧
      (∃ front rest, paddedEnv.scopes = front :: rest ∧ PadRuns paddedEnv front 1) ∧
      ∃ s s', (exitScope matchNode false 1).run paddedEnv = .ok (true, none) s ∧ s.depth = 2 ∧
        (exitScope matchNode false 1).run s = .ok (false, none) s' ∧ s'.depth = 1 := by
  have hblock : Step matchNode {} (({} : Env Unit).push { ctrlFlow := some { node := some () } }) :=
    Step.op (.enterScope (some ())) 0 rfl
  have htimed : Step matchNode (({} : Env Unit).push { ctrlFlow := some { node := some () } })
      paddedEnv := Step.op (.enterScopeTimed (some ()) padTimer) 0 rfl
  have hruns : PadRuns paddedEnv { timerId := 7, ctrlFlow := some { node := some () } } 1 :=
    ⟨{ padTimer with scopeid := 2, expireTime := 3 }, by decide, rfl, by decide⟩
  exact ⟨(Relation.ReflTransGen.single hblock).tail htimed, rfl, ⟨_, _, rfl, hruns⟩, _, _, rfl, rfl,
    rfl, rfl⟩

/-- The environment with a list, after a loop over it has been entered with the timer, and the first
round has come to its end. -/
def loopPaddedEnv : Env Unit :=
  match (do enterScopeTimed forNode (some ()) padTimer 0
            let _ ← enterScope forNode (some ())
            exitScope forNode false 1 : Call (Env Unit) (Bool × Option Unit)).run listEnv with
  | .ok _ s => s
  | .error _ s => s

theorem reachable_loopPaddedEnv : Reachable forNode loopPaddedEnv := by
  have htimed : Step forNode listEnv _ := Step.op (.enterScopeTimed (some ()) padTimer) 0 rfl
  have hround := (reachable_listEnv.tail htimed).tail (Step.op (.enterScope (some ())) 0 rfl)
  exact hround.tail (Step.op (.exitScope false) 1 rfl)

/-- Leaving the scope of the loop is blocked at the times `1` and `2`, and at `5` it starts the next
round. -/
theorem exitScope_retry_iff_loop :
    Reachable forNode loopPaddedEnv ∧
      (∃ next, (exitScope forNode false 1).run loopPaddedEnv = .ok (true, next) loopPaddedEnv) ∧
      ∃ timers, (do retryExit forNode [1, 2]; exitScope forNode false 5).run loopPaddedEnv
        = .ok (false, some ()) { loopPaddedEnv with timers } := by
  obtain ⟨front, rest, hscopes, hid, hrep, hnode⟩ : ∃ front rest,
      loopPaddedEnv.scopes = front :: rest ∧ front.timerId = 7 ∧ front.Repeats ∧
        front.ctrlFlow.bind ControlFlow.node = some () := by
    refine ⟨_, _, rfl, rfl, ?_, rfl⟩
    rintro ctrl hctrl
    obtain rfl := Option.some.inj hctrl
    exact ⟨rfl, rfl⟩
  have htimer : loopPaddedEnv.getTimer front.timerId
      = some { padTimer with scopeid := 1, expireTime := 3 } := by
    rw [hid]
    rfl
  have hruns : ∀ now ∈ [(1 : ℤ), 2], PadRuns loopPaddedEnv front now := by
    have hall : ∀ now ∈ [(1 : ℤ), 2],
        Timer.isExpired now { padTimer with scopeid := 1, expireTime := 3 } = false := by decide
    exact fun now hnow => ⟨_, htimer, rfl, hall now hnow⟩
  have hover : ¬ PadRuns loopPaddedEnv front 5 := by
    rintro ⟨timer, hsome, -, hruns⟩
    obtain rfl := Option.some.inj (htimer.symm.trans hsome)
    exact absurd hruns (by decide)
  refine ⟨reachable_loopPaddedEnv,
    ((exitScope_retry_iff hscopes).1 1).mpr ⟨hruns 1 (by decide), hrep⟩, ?_⟩
  rw [← hnode]
  exact (exitScope_retry_iff hscopes).2 hrep [1, 2] hruns 5 hover

end SocialGaming
