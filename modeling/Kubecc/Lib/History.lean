/-
**Runs with a record of the past.**

What is said of a run often speaks of what has happened before: which calls were made, what was posted.
`Noted rules note` are the rules with a list in the memory to which each step appends what `note` says of
it. The list has no influence on the steps, so every run has exactly one such record (`Reach.noted`), and
what is known of the plain runs holds of these (`Reach.forget`).

* `Reach.nextNoted`, `Reach.nextSilent` — one step of a concrete run.
-/

import Kubecc.Lib.Process

namespace Kubecc.Lib

variable {σ π ε β : Type}

/-- **The rules with a record.** What a step adds to it depends on the memory before the step, the
processes that act and those that they leave. -/
def Noted (rules : Rules σ π ε) (note : σ → List π → List π → List β) : Rules (σ × List β) π ε :=
  fun label mem acting mem' left =>
    rules label mem.1 acting mem'.1 left ∧ mem'.2 = mem.2 ++ note mem.1 acting left

/-- The configuration without its record. -/
def Config.forget (config : Config (σ × List β) π) : Config σ π := ⟨config.mem.1, config.procs⟩

/-- The configuration with a record of what has happened before. -/
def Config.noted (config : Config σ π) (log : List β) : Config (σ × List β) π :=
  ⟨(config.mem, log), config.procs⟩

section Runs

variable {rules : Rules σ π ε} {note : σ → List π → List π → List β}
  {allowed : Config σ π → ε → Prop} {start config : Config (σ × List β) π}

theorem Step.forget {next : Config (σ × List β) π} {label : ε}
    (step : Step (Noted rules note) config label next) : Step rules config.forget label next.forget := by
  cases step with
  | fire rest fires => exact .fire rest fires.1

theorem Reach.forget (reach : Reach (Noted rules note) (fun config => allowed config.forget) start config) :
    Reach rules allowed start.forget config.forget := by
  induction reach with
  | start => exact .start
  | step _ ok step ih => exact .step ih ok step.forget

/-- **Every run has a record.** -/
theorem Reach.noted {start config : Config σ π} (reach : Reach rules allowed start config) (log : List β) :
    ∃ more, Reach (Noted rules note) (fun config => allowed config.forget) (start.noted log)
      (config.noted (log ++ more)) := by
  induction reach with
  | start =>
    refine ⟨[], ?_⟩
    rw [List.append_nil]
    exact .start
  | step _ ok step ih =>
    obtain ⟨more, reach⟩ := ih
    cases step with
    | @fire _ mem mem' acting left rest fires =>
      refine ⟨more ++ note mem acting left, .step reach ok ?_⟩
      rw [← List.append_assoc]
      have noted : Noted rules note _ (mem, log ++ more) acting
          (mem', log ++ more ++ note mem acting left) left := ⟨fires, rfl⟩
      exact .fire rest noted

section Example

variable {allowed : Config (σ × List β) π → ε → Prop} {mem mem' : σ} {log : List β} {label : ε}
  {alive left : List π}

/-- One step of a concrete run, with what it adds to the record. -/
theorem Reach.nextNoted (reach : Reach (Noted rules note) allowed start (.ofList (mem, log) alive))
    (acting rest : List π) (fires : rules label mem acting mem' left)
    (ok : allowed (.ofList (mem, log) alive) label) (split : alive.Perm (acting ++ rest)) :
    Reach (Noted rules note) allowed start
      (.ofList (mem', log ++ note mem acting left) (left ++ rest)) :=
  have noted : Noted rules note label (mem, log) acting (mem', log ++ note mem acting left) left :=
    ⟨fires, rfl⟩
  reach.next acting rest noted ok split

/-- One step of a concrete run that adds nothing to the record. -/
theorem Reach.nextSilent (reach : Reach (Noted rules note) allowed start (.ofList (mem, log) alive))
    (acting rest : List π) (fires : rules label mem acting mem' left) (silent : note mem acting left = [])
    (ok : allowed (.ofList (mem, log) alive) label) (split : alive.Perm (acting ++ rest)) :
    Reach (Noted rules note) allowed start (.ofList (mem', log) (left ++ rest)) := by
  have run := reach.nextNoted acting rest fires ok split
  rwa [silent, List.append_nil] at run

end Example

end Runs

end Kubecc.Lib
