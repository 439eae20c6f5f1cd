/-
**What is bound to happen.**

A run is not fair by itself, and a step need not be possible. `Inevitable goal state` says that a run from
`state` cannot avoid `goal`: wherever it stands it can go on, and whichever way it goes it comes to
`goal` after finitely many steps. So a deadlock before the goal is excluded, and so is a run that goes on
for ever without it. The steps are those of any labelled relation.

* `Inevitable.of_rank` — an invariant, a rank that every step lowers, and a possible step as long as the
  goal is not reached.
* `not_inevitable_of_stuck` — where no step is possible the goal is reached now or never.
* `total_fire_lt` — the rank of a bag of processes falls if that of the processes that act does.
-/

import Kubecc.Lib.Process

namespace Kubecc.Lib

section Relation

variable {σ ε : Type} {step : σ → ε → σ → Prop} {allowed : σ → ε → Prop} {goal : σ → Prop} {state : σ}

/-- **Whatever allowed steps are taken, `goal` is reached.** -/
inductive Inevitable (step : σ → ε → σ → Prop) (allowed : σ → ε → Prop) (goal : σ → Prop) : σ → Prop
  | now {state : σ} : goal state → Inevitable step allowed goal state
  | later {state : σ} : (∃ label next, allowed state label ∧ step state label next) →
      (∀ label next, allowed state label → step state label next →
        Inevitable step allowed goal next) →
      Inevitable step allowed goal state

/-- **The rank rule.** -/
theorem Inevitable.of_rank (inv : σ → Prop) (rank : σ → ℕ)
    (falls : ∀ {state label next}, inv state → ¬ goal state → allowed state label →
      step state label next → inv next ∧ rank next < rank state)
    (possible : ∀ {state}, inv state → ¬ goal state → ∃ label next, allowed state label ∧ step state label next)
    (holds : inv state) : Inevitable step allowed goal state := by
  -- by strong induction on the rank, for every state with the invariant
  induction measure : rank state using Nat.strong_induction_on generalizing state with
  | _ n ih =>
    by_cases reached : goal state
    · exact .now reached
    · refine .later (possible holds reached) fun label next ok steps => ?_
      obtain ⟨kept, lower⟩ := falls holds reached ok steps
      exact ih (rank next) (measure ▸ lower) kept rfl

/-- Where no step is possible, the goal is reached now or never. -/
theorem not_inevitable_of_stuck (missed : ¬ goal state)
    (stuck : ∀ label next, allowed state label → ¬ step state label next) :
    ¬ Inevitable step allowed goal state := by
  intro inevitable
  cases inevitable with
  | now reached => exact missed reached
  | later possible _ =>
    obtain ⟨label, next, ok, steps⟩ := possible
    exact stuck label next ok steps

/-- The states of the runs from `start` all of whose steps are allowed. -/
inductive Leads (step : σ → ε → σ → Prop) (allowed : σ → ε → Prop) (start : σ) : σ → Prop
  | start : Leads step allowed start start
  | step {state next : σ} {label : ε} : Leads step allowed start state → allowed state label →
      step state label next → Leads step allowed start next

/-- **The invariant rule.** -/
theorem Leads.invariant {start : σ} (inv : σ → Prop) (initial : inv start)
    (preserved : ∀ {state label next}, inv state → allowed state label → step state label next → inv next)
    (leads : Leads step allowed start state) : inv state := by
  induction leads with
  | start => exact initial
  | step _ ok steps ih => exact preserved ih ok steps

end Relation

theorem total_fire_lt {π : Type} {weight : π → ℕ} {acting left : List π}
    (lower : total weight (↑left : Multiset π) < total weight (↑acting : Multiset π))
    (rest : Multiset π) :
    total weight (↑left + rest) < total weight (↑acting + rest) := by
  rw [total_add, total_add]
  exact Nat.add_lt_add_right lower _

end Kubecc.Lib
