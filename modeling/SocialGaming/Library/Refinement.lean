import SocialGaming.Library.Runs

/-!
# Machines that follow a system

A machine that is told the events of a system follows it if a relation between their states is kept
by every step. What is known of the machine then, which is a fold over the events, is known of the
system at the end of every run.

## Main definitions

* `eventsOf` — the events of a run
* `Follows` — the machine keeps the relation when the system takes a step

## Main results

* `Follows.run` — it keeps the relation in every run
-/

namespace SocialGaming

variable {σ ε α : Type*}

/-- The events of a run. -/
def eventsOf (trace : List (σ × ε)) : List ε := trace.map Prod.snd

/-- The machine does with every event what keeps the relation. -/
def Follows (step : σ → ε → σ → Prop) (next : α → ε → α) (R : σ → α → Prop) : Prop :=
  ∀ s e s' a, step s e s' → R s a → R s' (next a e)

/-- **The machine follows every run.** -/
theorem Follows.run {step : σ → ε → σ → Prop} {next : α → ε → α} {R : σ → α → Prop}
    (hfollows : Follows step next R) {s₀ s : σ} {a₀ : α} {trace : List (σ × ε)}
    (h : Run step s₀ trace s) (h₀ : R s₀ a₀) : R s ((eventsOf trace).foldl next a₀) := by
  induction h with
  | nil => exact h₀
  | @snoc trace s s' e _ hstep ih =>
    rw [eventsOf, List.map_append, List.foldl_append]
    exact hfollows s e s' _ hstep ih

end SocialGaming
