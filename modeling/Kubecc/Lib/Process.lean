/-
**Processes over a shared memory.**

A concurrent program is a memory and a bag of processes. A rule takes the memory and the processes
that act together (one, or the two sides of a rendezvous), and gives the memory and the processes
they leave; every other process stays in the bag. Rules are labelled, so that an assumption on the
environment, or on the steps of a run, is a predicate on labels (`allowed`).

* `Reach.invariant` — what holds at the start and is preserved by every allowed step holds in every
  configuration of every run.
* `total` — the sum of a weight over the bag: how many processes are at a place, hold a token, hold
  a message. A rule changes it by what its own processes weigh (`total_fire`), so an accounting
  invariant is checked on the rule alone.
* `Reach.next` — one step of a concrete run, the bag written as a list.
* `Acting` — the rules with the processes that act in the label, for an assumption on who acts where.
* `Run` — a run with the labels of its steps, for what is said about the past.
* `Reach.simulate` — the image of a run under a refinement map is a run.
* `Reach.view` — a part of the memory and some of the processes, taken by themselves: if every rule is
  a rule of the part, or leaves it alone, then a run of the whole is a run of the part.
-/

import Mathlib.Algebra.BigOperators.Group.Finset.Basic
import Mathlib.Algebra.BigOperators.Group.Multiset.Basic
import Mathlib.Data.Multiset.Basic
import Mathlib.Tactic

namespace Kubecc.Lib

variable {σ π ε : Type}

/-- The shared memory and the processes alive. -/
structure Config (σ π : Type) where
  mem : σ
  procs : Multiset π

/-- The configuration whose processes are those of the list. -/
def Config.ofList (mem : σ) (procs : List π) : Config σ π := ⟨mem, ↑procs⟩

/-- Rules: `rules label mem acting mem' left`. -/
abbrev Rules (σ π ε : Type) := ε → σ → List π → σ → List π → Prop

/-- One rule fires; the processes that do not act stay. -/
inductive Step (rules : Rules σ π ε) : Config σ π → ε → Config σ π → Prop
  | fire {label : ε} {mem mem' : σ} {acting left : List π} (rest : Multiset π) :
      rules label mem acting mem' left →
      Step rules ⟨mem, ↑acting + rest⟩ label ⟨mem', ↑left + rest⟩

/-- The configurations of the runs from `start` all of whose steps are allowed. -/
inductive Reach (rules : Rules σ π ε) (allowed : Config σ π → ε → Prop) (start : Config σ π) :
    Config σ π → Prop
  | start : Reach rules allowed start start
  | step {config next : Config σ π} {label : ε} : Reach rules allowed start config →
      allowed config label → Step rules config label next → Reach rules allowed start next

section Runs

variable {rules : Rules σ π ε} {allowed : Config σ π → ε → Prop} {start config : Config σ π}

/-- **The invariant rule.** -/
theorem Reach.invariant (inv : Config σ π → Prop) (initial : inv start)
    (preserved : ∀ {config label next}, inv config → allowed config label →
      Step rules config label next → inv next)
    (reach : Reach rules allowed start config) : inv config := by
  induction reach with
  | start => exact initial
  | step _ ok step ih => exact preserved ih ok step

/-- A run under a stronger assumption is a run. -/
theorem Reach.mono {weaker : Config σ π → ε → Prop}
    (implies : ∀ config label, allowed config label → weaker config label)
    (reach : Reach rules allowed start config) : Reach rules weaker start config := by
  induction reach with
  | start => exact .start
  | step _ ok step ih => exact .step ih (implies _ _ ok) step

theorem Reach.trans {middle : Config σ π} (first : Reach rules allowed start middle)
    (second : Reach rules allowed middle config) : Reach rules allowed start config := by
  induction second with
  | start => exact first
  | step _ ok step ih => exact .step ih ok step

variable {proc : π} {acting left : List π} {rest : Multiset π} {label : ε} {κ : Type} {name : π → Option κ}

/-- The processes of a step are those that act and the others. -/
theorem mem_fire : proc ∈ (↑acting + rest : Multiset π) ↔ proc ∈ acting ∨ proc ∈ rest := by
  rw [Multiset.mem_add, Multiset.mem_coe]

theorem mem_of_acting (member : proc ∈ acting) :
    proc ∈ (↑acting + rest : Multiset π) := mem_fire.mpr (.inl member)

theorem mem_of_rest (member : proc ∈ rest) :
    proc ∈ (↑acting + rest : Multiset π) := mem_fire.mpr (.inr member)

theorem mem_acting {more : List π} :
    proc ∈ (↑(proc :: more) + rest : Multiset π) := mem_of_acting List.mem_cons_self

/-- **What holds of every process**: a rule is checked on the processes it leaves, given those that act;
the others must not be disturbed. -/
theorem forall_mem_fire {good good' : π → Prop} (all : ∀ proc ∈ (↑acting + rest : Multiset π), good proc)
    (acted : (∀ proc ∈ acting, good proc) → ∀ proc ∈ left, good' proc)
    (others : ∀ proc ∈ rest, good proc → good' proc) :
    ∀ proc ∈ (↑left + rest : Multiset π), good' proc := by
  intro proc member
  rcases mem_fire.mp member with member | member
  · refine acted (fun proc member => all proc ?_) proc member
    exact mem_of_acting member
  · exact others proc member (all proc (mem_of_rest member))

theorem forall_named_of_none {P : κ → Prop} {procs : List π} (none : ∀ proc ∈ procs, name proc = none) :
    ∀ proc ∈ procs, ∀ key, name proc = some key → P key := fun proc member _ is =>
  absurd ((none proc member).symm.trans is) nofun

/-- A step that leaves only names that its own processes had invents none. -/
theorem forall_named_of_subset {left acting : List π}
    (kept : left.filterMap name ⊆ acting.filterMap name) :
    ∀ proc ∈ left, ∀ key, name proc = some key → ∃ proc ∈ acting, name proc = some key :=
  fun proc member _ is => List.mem_filterMap.mp (kept (List.mem_filterMap.mpr ⟨proc, member, is⟩))

/-- That no process names a key is seen by evaluation, if it is clear which processes there are. -/
theorem eq_none_of_all {procs : List π} (all : (procs.all fun proc => (name proc).isNone) = true) :
    ∀ proc ∈ procs, name proc = none := fun proc member =>
  Option.isNone_iff_eq_none.mp (List.all_eq_true.mp all proc member)

/-- **What holds of some process**: a rule is checked on its own processes, in case it is one of those
that act; otherwise it is still there. -/
theorem exists_mem_fire {good good' : π → Prop} (some : ∃ proc ∈ (↑acting + rest : Multiset π), good proc)
    (acted : ∀ proc ∈ acting, good proc → ∃ proc ∈ left, good' proc)
    (others : ∀ proc ∈ rest, good proc → good' proc) :
    ∃ proc ∈ (↑left + rest : Multiset π), good' proc := by
  obtain ⟨proc, member, holds⟩ := some
  rcases mem_fire.mp member with member | member
  · obtain ⟨after, member, holds⟩ := acted proc member holds
    exact ⟨after, mem_of_acting member, holds⟩
  · exact ⟨proc, mem_of_rest member, others proc member holds⟩

theorem Step.exists_rule {next : Config σ π} (step : Step rules config label next) :
    ∃ acting mem' left, (∀ proc ∈ acting, proc ∈ config.procs) ∧
      rules label config.mem acting mem' left := by
  cases step with
  | fire rest fires =>
    exact ⟨_, _, _, fun proc member => mem_of_acting member, fires⟩

theorem Step.exists_of_le {mem' : σ}
    (there : (↑acting : Multiset π) ≤ config.procs) (fires : rules label config.mem acting mem' left) :
    ∃ next, Step rules config label next := by
  obtain ⟨rest, split⟩ := Multiset.le_iff_exists_add.mp there
  obtain ⟨mem, procs⟩ := config
  obtain rfl : procs = ↑acting + rest := split
  exact ⟨_, .fire rest fires⟩

/-- A step between configurations written as lists. -/
theorem Step.ofList {mem mem' : σ} {alive left : List π} (acting rest : List π)
    (fires : rules label mem acting mem' left) (split : alive.Perm (acting ++ rest)) :
    Step rules (.ofList mem alive) label (.ofList mem' (left ++ rest)) := by
  have bag : Config.ofList mem alive = ⟨mem, ↑acting + ↑rest⟩ := by
    rw [Config.ofList, Multiset.coe_add, Multiset.coe_eq_coe.mpr split]
  rw [bag, Config.ofList, ← Multiset.coe_add]
  exact .fire _ fires

/-- **One step of a concrete run.** -/
theorem Reach.next {mem mem' : σ} {alive left : List π}
    (reach : Reach rules allowed start (.ofList mem alive)) (acting rest : List π)
    (fires : rules label mem acting mem' left) (ok : allowed (.ofList mem alive) label)
    (split : alive.Perm (acting ++ rest)) : Reach rules allowed start (.ofList mem' (left ++ rest)) :=
  .step reach ok (.ofList acting rest fires split)

end Runs

/-! ### Who acts -/

/-- The rules, labelled also with the processes that act. -/
def Acting (rules : Rules σ π ε) : Rules σ π (ε × List π) := fun label mem acting mem' left =>
  rules label.1 mem acting mem' left ∧ label.2 = acting

variable {rules : Rules σ π ε}

theorem Step.ofActing {config next : Config σ π} {label : ε × List π}
    (step : Step (Acting rules) config label next) : Step rules config label.1 next := by
  cases step with
  | fire rest fires => exact .fire rest fires.1

theorem Reach.ofActing {allowed : Config σ π → ε × List π → Prop}
    {start config : Config σ π} (reach : Reach (Acting rules) allowed start config) :
    Reach rules (fun _ _ => True) start config := by
  induction reach with
  | start => exact .start
  | step _ _ step ih => exact .step ih trivial step.ofActing

/-- One step of a concrete run, labelled with the processes that act. -/
theorem Reach.nextActing {allowed : Config σ π → ε × List π → Prop}
    {start : Config σ π} {mem mem' : σ} {label : ε} {alive left : List π}
    (reach : Reach (Acting rules) allowed start (.ofList mem alive)) (acting rest : List π)
    (fires : rules label mem acting mem' left) (ok : allowed (.ofList mem alive) (label, acting))
    (split : alive.Perm (acting ++ rest)) :
    Reach (Acting rules) allowed start (.ofList mem' (left ++ rest)) :=
  reach.next acting rest ⟨fires, rfl⟩ ok split

/-- The run with the processes that act. -/
theorem Reach.acting {allowed : Config σ π → ε → Prop} {start config : Config σ π}
    (reach : Reach rules allowed start config) :
    Reach (Acting rules) (fun config label => allowed config label.1) start config := by
  induction reach with
  | start => exact .start
  | @step config next label _ ok step ih =>
    cases step with
    | @fire _ _ _ acting _ rest fires =>
      have acts : Step (Acting rules) _ (label, acting) _ := .fire rest ⟨fires, rfl⟩
      exact ih.step ok acts

/-! ### What has happened -/

/-- The runs from `start` all of whose steps are allowed, with the labels of their steps, the last one
first. -/
inductive Run (rules : Rules σ π ε) (allowed : Config σ π → ε → Prop) (start : Config σ π) :
    List ε → Config σ π → Prop
  | start : Run rules allowed start [] start
  | step {trace : List ε} {config next : Config σ π} {label : ε} :
      Run rules allowed start trace config → allowed config label → Step rules config label next →
      Run rules allowed start (label :: trace) next

section Trace

variable {rules : Rules σ π ε} {allowed : Config σ π → ε → Prop} {start config : Config σ π}
  {trace : List ε}

/-- Every configuration that is reached is reached by some run. -/
theorem Reach.exists_run (reach : Reach rules allowed start config) :
    ∃ trace, Run rules allowed start trace config := by
  induction reach with
  | start => exact ⟨[], .start⟩
  | step _ ok step ih =>
    obtain ⟨trace, run⟩ := ih
    exact ⟨_, .step run ok step⟩

end Trace

/-! ### Parts -/

section Parts

variable {σ' π' ε' : Type}

/-- **The refinement rule**: if every step is a step of the image, or leaves it alone, then the image of
a run is a run. -/
theorem Reach.simulate {rules : Rules σ π ε} {allowed : Config σ π → ε → Prop}
    {start config : Config σ π} {rules' : Rules σ' π' ε'} {allowed' : Config σ' π' → ε' → Prop}
    (image : Config σ π → Config σ' π')
    (matched : ∀ {config label next}, Reach rules allowed start config → allowed config label →
      Step rules config label next → image next = image config ∨
        ∃ label', allowed' (image config) label' ∧ Step rules' (image config) label' (image next))
    (reach : Reach rules allowed start config) :
    Reach rules' allowed' (image start) (image config) := by
  induction reach with
  | start => exact .start
  | step reach ok step ih =>
    rcases matched reach ok step with same | ⟨label', ok', step'⟩
    · rw [same]
      exact ih
    · exact .step ih ok' step'

/-- What a configuration is for an observer who sees a part of the memory, and some processes. -/
def Config.view (memory : σ → σ') (process : π → Option π') (config : Config σ π) : Config σ' π' :=
  ⟨memory config.mem, config.procs.filterMap process⟩

theorem filterMap_fire (process : π → Option π') (acting : List π) (rest : Multiset π) :
    (↑acting + rest : Multiset π).filterMap process =
      ↑(acting.filterMap process) + rest.filterMap process := by
  rw [Multiset.filterMap_add, Multiset.filterMap_coe]

/-- Processes each of which is seen as before are seen as before. -/
theorem filterMap_congr {process other : π → Option π'} {procs : Multiset π}
    (same : ∀ proc ∈ procs, process proc = other proc) :
    procs.filterMap process = procs.filterMap other := by
  induction procs using Multiset.induction_on with
  | empty => rfl
  | cons proc procs ih =>
    rw [Multiset.forall_mem_cons] at same
    cases seen : process proc with
    | none =>
      rw [Multiset.filterMap_cons_none _ _ seen, ih same.2,
        Multiset.filterMap_cons_none _ _ (same.1 ▸ seen)]
    | some part =>
      rw [Multiset.filterMap_cons_some _ _ _ seen, ih same.2,
        Multiset.filterMap_cons_some _ _ _ (same.1 ▸ seen)]

/-- **A run of the whole is a run of the part.** -/
theorem Reach.view {rules : Rules σ π ε} {allowed : Config σ π → ε → Prop} {start config : Config σ π}
    {rules' : Rules σ' π' ε'} {allowed' : Config σ' π' → ε' → Prop} (memory : σ → σ')
    (process : π → Option π')
    (project : ∀ {label mem mem'} {acting left : List π} {rest : Multiset π},
      Reach rules allowed start ⟨mem, ↑acting + rest⟩ → allowed ⟨mem, ↑acting + rest⟩ label →
      rules label mem acting mem' left →
      memory mem' = memory mem ∧ left.filterMap process = acting.filterMap process ∨
        ∃ label', allowed' (Config.view memory process ⟨mem, ↑acting + rest⟩) label' ∧
          rules' label' (memory mem) (acting.filterMap process) (memory mem')
            (left.filterMap process))
    (reach : Reach rules allowed start config) :
    Reach rules' allowed' (start.view memory process) (config.view memory process) := by
  refine reach.simulate (Config.view memory process) fun reach ok step => ?_
  cases step with
  | fire rest fires =>
    rcases project reach ok fires with ⟨sameMem, sameProcs⟩ | ⟨label', ok', fires'⟩
    · refine .inl ?_
      simp only [Config.view, filterMap_fire]
      rw [sameMem, sameProcs]
    · refine .inr ⟨label', ok', ?_⟩
      simp only [Config.view, filterMap_fire]
      exact .fire _ fires'

end Parts

/-! ### Accounting -/

/-- **The sum of a weight over the processes.** -/
def total (weight : π → ℕ) (procs : Multiset π) : ℕ := (procs.map weight).sum

@[simp] theorem total_coe_nil (weight : π → ℕ) : total weight (↑([] : List π)) = 0 := rfl

@[simp] theorem total_zero (weight : π → ℕ) : total weight 0 = 0 := rfl

@[simp] theorem total_add (weight : π → ℕ) (procs more : Multiset π) :
    total weight (procs + more) = total weight procs + total weight more := by
  unfold total
  rw [Multiset.map_add, Multiset.sum_add]

@[simp] theorem total_coe_cons (weight : π → ℕ) (proc : π) (procs : List π) :
    total weight (↑(proc :: procs)) = weight proc + total weight ↑procs := by
  unfold total
  rw [← Multiset.cons_coe, Multiset.map_cons, Multiset.sum_cons]

@[simp] theorem total_cons (weight : π → ℕ) (proc : π) (procs : Multiset π) :
    total weight (proc ::ₘ procs) = weight proc + total weight procs := by
  unfold total
  rw [Multiset.map_cons, Multiset.sum_cons]

@[simp] theorem total_singleton (weight : π → ℕ) (proc : π) : total weight {proc} = weight proc := by
  unfold total
  rw [Multiset.map_singleton, Multiset.sum_singleton]

/-- The weights of processes that are images of others. -/
@[simp] theorem total_coe_map {ρ : Type} (weight : π → ℕ) (f : ρ → π) (procs : List ρ) :
    total weight ↑(procs.map f) = total (weight ∘ f) ↑procs := by
  unfold total
  rw [Multiset.map_coe, Multiset.map_coe, List.map_map]

theorem total_filterMap {ρ : Type} (weight : ρ → ℕ) (process : π → Option ρ) (procs : Multiset π) :
    total weight (procs.filterMap process) = total (fun proc => (process proc).elim 0 weight) procs := by
  induction procs using Multiset.induction_on with
  | empty => rfl
  | cons proc procs ih =>
    cases seen : process proc with
    | none => rw [Multiset.filterMap_cons_none _ _ seen, total_cons, seen, ih, Option.elim_none, zero_add]
    | some part =>
      rw [Multiset.filterMap_cons_some _ _ _ seen, total_cons, total_cons, seen, ih, Option.elim_some]

section Counts

variable {weight : π → ℕ} {procs : Multiset π} {proc : π} {κ : Type} {name : π → Option κ} {key : κ}

theorem total_pos_iff : 0 < total weight procs ↔ ∃ proc ∈ procs, 0 < weight proc := by
  unfold total
  rw [Nat.pos_iff_ne_zero, Ne, Multiset.sum_eq_zero_iff]
  simp [Nat.pos_iff_ne_zero]

theorem total_eq_zero (zero : ∀ proc ∈ procs, weight proc = 0) : total weight procs = 0 := by
  unfold total
  rw [Multiset.sum_eq_zero_iff]
  simpa using zero

theorem weight_le_total (member : proc ∈ procs) : weight proc ≤ total weight procs :=
  Multiset.single_le_sum (fun _ _ => Nat.zero_le _) _ (Multiset.mem_map_of_mem weight member)

theorem ite_one_le_ite_one {p q : Prop} [Decidable p] [Decidable q] (implies : p → q) :
    (if p then 1 else 0 : ℕ) ≤ if q then 1 else 0 := by
  by_cases holds : p
  · rw [if_pos holds, if_pos (implies holds)]
  · rw [if_neg holds]
    exact Nat.zero_le _

theorem total_le_total {weight other : π → ℕ} (le : ∀ proc, weight proc ≤ other proc)
    (procs : Multiset π) : total weight procs ≤ total other procs := by
  unfold total
  exact Multiset.sum_map_le_sum_map _ _ fun proc _ => le proc

theorem total_eq_add {weight first second : π → ℕ}
    (split : ∀ proc ∈ procs, weight proc = first proc + second proc) :
    total weight procs = total first procs + total second procs := by
  unfold total
  rw [← Multiset.sum_map_add]
  exact congrArg _ (Multiset.map_congr rfl split)

theorem total_congr {weight other : π → ℕ}
    (same : ∀ proc ∈ procs, weight proc = other proc) : total weight procs = total other procs := by
  unfold total
  exact congrArg _ (Multiset.map_congr rfl same)

/-- **Counts the processes that name this key.** -/
def tally {κ : Type} [DecidableEq κ] (name : π → Option κ) (key : κ) (proc : π) : ℕ :=
  if name proc = some key then 1 else 0

theorem tally_eq_zero [DecidableEq κ] (none : name proc = none) (key : κ) : tally name key proc = 0 := by
  rw [tally, none, if_neg nofun]

theorem tally_of_eq_some [DecidableEq κ] {named : κ} (some : name proc = some named) (key : κ) :
    tally name key proc = if named = key then 1 else 0 := by
  rw [tally, some]
  exact if_congr Option.some_inj rfl rfl

theorem total_tally_eq_zero [DecidableEq κ] {procs : List π}
    (none : ∀ proc ∈ procs, name proc = none) (key : κ) : total (tally name key) ↑procs = 0 :=
  total_eq_zero fun proc member => tally_eq_zero (none proc (Multiset.mem_coe.mp member)) key

/-- Counts the processes that name some key. -/
def named {κ : Type} (name : π → Option κ) (proc : π) : ℕ := if (name proc).isSome then 1 else 0

theorem total_named_eq_zero {procs : List π}
    (none : ∀ proc ∈ procs, name proc = none) : total (named name) ↑procs = 0 := by
  refine total_eq_zero fun proc member => ?_
  rw [named, none proc (Multiset.mem_coe.mp member)]
  rfl

theorem total_tally_eq_count [DecidableEq κ] [BEq κ] [LawfulBEq κ] (name : π → Option κ)
    (key : κ) (procs : List π) : total (tally name key) ↑procs = (procs.filterMap name).count key := by
  induction procs with
  | nil => rfl
  | cons proc procs ih =>
    rw [total_coe_cons, ih]
    cases is : name proc with
    | none => rw [List.filterMap_cons_none is, tally_eq_zero is, zero_add]
    | some other =>
      rw [List.filterMap_cons_some is, List.count_cons, tally_of_eq_some is, add_comm]
      simp only [beq_iff_eq]

theorem total_named_eq_length (name : π → Option κ) (procs : List π) :
    total (named name) ↑procs = (procs.filterMap name).length := by
  induction procs with
  | nil => rfl
  | cons proc procs ih =>
    rw [total_coe_cons, ih]
    cases is : name proc with
    | none =>
      rw [List.filterMap_cons_none is, named, is]
      exact zero_add _
    | some other =>
      rw [List.filterMap_cons_some is, named, is]
      exact add_comm _ _

theorem one_le_total_tally [DecidableEq κ] (member : proc ∈ procs) (is : name proc = some key) :
    1 ≤ total (tally name key) procs := by
  refine le_trans ?_ (weight_le_total member)
  rw [tally, if_pos is]

/-- Two processes that name the key are both counted. -/
theorem two_le_total_tally [DecidableEq κ] {proc other : π} (member : proc ∈ procs) (there : other ∈ procs)
    (differ : proc ≠ other) (is : name proc = some key) (same : name other = some key) :
    2 ≤ total (tally name key) procs := by
  obtain ⟨rest, rfl⟩ := Multiset.exists_cons_of_mem member
  have remains : other ∈ rest := (Multiset.mem_cons.mp there).resolve_left (Ne.symm differ)
  have second := one_le_total_tally remains same
  rw [total_cons, tally, if_pos is]
  omega

theorem exists_of_total_tally_pos [DecidableEq κ] (positive : 0 < total (tally name key) procs) :
    ∃ proc ∈ procs, name proc = some key := by
  obtain ⟨proc, member, counts⟩ := total_pos_iff.mp positive
  refine ⟨proc, member, ?_⟩
  by_contra other
  rw [tally, if_neg other] at counts
  exact Nat.lt_irrefl _ counts

theorem count_filterMap [DecidableEq κ] (name : π → Option κ) (key : κ)
    (procs : Multiset π) : (procs.filterMap name).count key = total (tally name key) procs := by
  induction procs using Multiset.induction_on with
  | empty => rfl
  | cons proc procs ih =>
    cases named : name proc with
    | none => rw [Multiset.filterMap_cons_none _ _ named, total_cons, tally_eq_zero named, ih, zero_add]
    | some first =>
      rw [Multiset.filterMap_cons_some _ _ _ named, total_cons, tally_of_eq_some named,
        Multiset.count_cons, ih, add_comm]
      simp only [eq_comm]

theorem card_filterMap (name : π → Option κ) (procs : Multiset π) :
    (procs.filterMap name).card = total (fun proc => (name proc).isSome.toNat) procs := by
  induction procs using Multiset.induction_on with
  | empty => rfl
  | cons proc procs ih =>
    cases named : name proc with
    | none => rw [Multiset.filterMap_cons_none _ _ named, total_cons, named, ih]; exact (zero_add _).symm
    | some first =>
      rw [Multiset.filterMap_cons_some _ _ _ named, total_cons, named, Multiset.card_cons, ih, add_comm]
      rfl

/-- **Processes that name different keys weigh no more than the keys they name.** -/
theorem total_le_sum [DecidableEq κ] {worth : κ → ℕ} (keys : Finset κ)
    (unnamed : ∀ proc ∈ procs, name proc = none → weight proc = 0)
    (covered : ∀ proc ∈ procs, ∀ key, name proc = some key → key ∈ keys ∧ weight proc ≤ worth key)
    (single : ∀ key, total (tally name key) procs ≤ 1) :
    total weight procs ≤ ∑ key ∈ keys, worth key := by
  induction procs using Multiset.induction_on generalizing keys with
  | empty => exact Nat.zero_le _
  | cons proc procs ih =>
    rw [Multiset.forall_mem_cons] at unnamed covered
    rw [total_cons]
    have rest : ∀ key, total (tally name key) procs ≤ 1 := fun key =>
      le_trans (by rw [total_cons]; exact Nat.le_add_left _ _) (single key)
    cases named : name proc with
    | none =>
      rw [unnamed.1 named, Nat.zero_add]
      exact ih keys unnamed.2 covered.2 rest
    | some key =>
      obtain ⟨member, le⟩ := covered.1 key named
      -- nobody else names this key, so the others are covered by the remaining ones
      have alone : total (tally name key) procs = 0 := by
        have once := single key
        rw [total_cons, tally_of_eq_some named, if_pos rfl] at once
        omega
      have others : total weight procs ≤ ∑ other ∈ keys.erase key, worth other := by
        refine ih (keys.erase key) unnamed.2 (fun proc there other is => ?_) rest
        obtain ⟨inside, bound⟩ := covered.2 proc there other is
        refine ⟨Finset.mem_erase.mpr ⟨?_, inside⟩, bound⟩
        rintro rfl
        have counted := @weight_le_total _ (tally name other) _ _ there
        rw [tally_of_eq_some is, if_pos rfl, alone] at counted
        omega
      rw [← Finset.add_sum_erase keys worth member]
      exact Nat.add_le_add le others

end Counts

/-! ### Maps -/

section Maps

variable {κ α : Type}

/-- Whether the map holds the key, as a number. -/
def present (map : κ → Option α) (key : κ) : ℕ := (map key).isSome.toNat

theorem present_eq_zero {map : κ → Option α} {key : κ} : present map key = 0 ↔ map key = none := by
  rw [present, Bool.toNat_eq_zero, Option.isSome_eq_false_iff, Option.isNone_iff_eq_none]

theorem present_of_eq_some {map : κ → Option α} {key : κ} {value : α}
    (there : map key = some value) : present map key = 1 := by
  rw [present, there]
  rfl

variable [DecidableEq κ] {map : κ → Option α} {key : κ}

theorem present_update_some (absent : map key = none) (value : α) (other : κ) :
    present (Function.update map key (some value)) other =
      present map other + if key = other then 1 else 0 := by
  unfold present
  by_cases same : key = other
  · subst same
    simp [absent]
  · simp [same, Function.update_of_ne (Ne.symm same)]

theorem present_update_none {value : α} (there : map key = some value) (other : κ) :
    present map other =
      present (Function.update map key none) other + if key = other then 1 else 0 := by
  unfold present
  by_cases same : key = other
  · subst same
    simp [there]
  · simp [same, Function.update_of_ne (Ne.symm same)]

/-- What a write changes of a sum over some keys. -/
theorem sum_update_le {β : Type} (weight : β → ℕ) (values : κ → β) (keys : Finset κ) (key : κ) (value : β) :
    ∑ other ∈ keys, weight (Function.update values key value other) + weight (values key) ≤
      ∑ other ∈ insert key keys, weight (values other) + weight value := by
  have within : ∑ other ∈ keys, weight (Function.update values key value other) ≤
      ∑ other ∈ insert key keys, weight (Function.update values key value other) :=
    Finset.sum_le_sum_of_subset (Finset.subset_insert key keys)
  have others : ∑ other ∈ (insert key keys).erase key, weight (Function.update values key value other) =
      ∑ other ∈ (insert key keys).erase key, weight (values other) := by
    refine Finset.sum_congr rfl fun other member => ?_
    rw [Function.update_of_ne (Finset.ne_of_mem_erase member)]
  rw [← Finset.add_sum_erase _ _ (Finset.mem_insert_self key keys), Function.update_self, others] at within
  rw [← Finset.add_sum_erase _ _ (Finset.mem_insert_self key keys)]
  omega

end Maps

end Kubecc.Lib
