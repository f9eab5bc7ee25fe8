import Mathlib.Logic.Relation
import Mathlib.Data.List.Basic

/-!
# Runs

A system takes steps, each with an event that says what happened. A run is remembered as the list of
the states it went through, each with the event by which it was left, so that a condition on a step
can be a condition on the state before it.

## Main definitions

* `Run` — a run from a state, with its history
* `Reaches` — one state leads to another by steps of a kind

## Main results

* `Run.invariant` — what every step keeps holds at the end of every run
* `Run.invariant_of_forall` — the same when only the steps that meet a condition keep it
-/

namespace SocialGaming

variable {σ ε : Type*} {step : σ → ε → σ → Prop} {s₀ s : σ} {t : List (σ × ε)}

/-- A run from `s₀`, with the states it has left and the events, and the state it is in. -/
inductive Run (step : σ → ε → σ → Prop) (s₀ : σ) : List (σ × ε) → σ → Prop
  | nil : Run step s₀ [] s₀
  | snoc {t : List (σ × ε)} {s s' : σ} {e : ε} (h : Run step s₀ t s) (hs : step s e s') :
      Run step s₀ (t ++ [(s, e)]) s'

namespace Run

/-- **Invariants.** -/
theorem invariant {P : σ → Prop} (h : Run step s₀ t s) (h₀ : P s₀)
    (hstep : ∀ s e s', step s e s' → P s → P s') : P s := by
  induction h with
  | nil => exact h₀
  | snoc _ hs ih => exact hstep _ _ _ hs ih

/-- Invariants of the runs whose steps all meet a condition. -/
theorem invariant_of_forall {P : σ → Prop} {C : σ × ε → Prop} (h : Run step s₀ t s)
    (hC : ∀ p ∈ t, C p) (h₀ : P s₀) (hstep : ∀ s e s', step s e s' → C (s, e) → P s → P s') :
    P s := by
  induction h with
  | nil => exact h₀
  | @snoc t s s' e _ hs ih =>
    rw [List.forall_mem_append] at hC
    exact hstep s e s' hs (hC.2 (s, e) (List.mem_singleton_self _)) (ih hC.1)

/-- A run goes on where another ended. -/
theorem trans {s' : σ} {t' : List (σ × ε)} (h : Run step s₀ t s) (h' : Run step s t' s') :
    Run step s₀ (t ++ t') s' := by
  induction h' with
  | nil => rwa [List.append_nil]
  | snoc _ hs ih =>
    rw [← List.append_assoc]
    exact ih.snoc hs

/-- What is in the history was a step. -/
theorem exists_step (h : Run step s₀ t s) {p : σ × ε} (hp : p ∈ t) : ∃ s', step p.1 p.2 s' := by
  induction h with
  | nil => cases hp
  | @snoc t s s' e _ hs ih =>
    rcases List.mem_append.mp hp with hp | hp
    · exact ih hp
    · obtain rfl := List.mem_singleton.mp hp
      exact ⟨s', hs⟩

end Run

/-- One state leads to another by steps with such events. -/
def Reaches (step : σ → ε → σ → Prop) (C : ε → Prop) (s s' : σ) : Prop :=
  ∃ t, Run step s t s' ∧ ∀ p ∈ t, C p.2

namespace Reaches

variable {C : ε → Prop} {s' u : σ}

theorem refl (s : σ) : Reaches step C s s := ⟨[], Run.nil, List.forall_mem_nil _⟩

theorem trans (h : Reaches step C s s') (h' : Reaches step C s' u) : Reaches step C s u := by
  obtain ⟨t, hrun, hall⟩ := h
  obtain ⟨t', hrun', hall'⟩ := h'
  exact ⟨t ++ t', hrun.trans hrun', List.forall_mem_append.mpr ⟨hall, hall'⟩⟩

theorem single {e : ε} (h : step s e s') (he : C e) : Reaches step C s s' :=
  ⟨[(s, e)], Run.nil.snoc h, by simpa using he⟩

/-- What every step keeps is kept. -/
theorem invariant {P : σ → Prop} (h : Reaches step C s s') (hs : P s)
    (hstep : ∀ s e s', step s e s' → P s → P s') : P s' := by
  obtain ⟨t, hrun, -⟩ := h
  exact hrun.invariant hs hstep

end Reaches

end SocialGaming
