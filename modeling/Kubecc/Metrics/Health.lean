/-
**The health is a function of the active conditions.**

A condition that was applied is active until its context is cancelled. The table of the controller follows
with a delay: it is set by `ApplyCondition`, and cleared by a goroutine of its own for each condition. The
loop of `health` keeps a running maximum, and leaves at the first pending condition, in whatever order the
map is iterated.

* `statusOf` — the status that is to be reported, given the active conditions.
* `status_healthLoop` — what the loop computes, for every order.
* `Cleared` — the invariant: what is in the table was applied and is still to be cleared, and what was
  applied is in the table, or is still to be set, or has been cancelled.
* `status_of_settled` — in every run, once all clear-up is done, the status of `GetHealth` is `statusOf` of
  the conditions that are active.
-/

import Kubecc.Lib.History
import Kubecc.Metrics.Status

namespace Kubecc.Metrics

open Kubecc.Go Kubecc.Lib

/-! ### What is to be reported -/

/-- A missing critical component, an invalid configuration or an internal error. -/
def StatusConditions.critical : StatusConditions → Bool
  | .missingCriticalComponent | .invalidConfiguration | .internalError => true
  | _ => false

/-- **The status, given the active conditions.** -/
def statusOf (active : List ActiveCondition) : OverallStatus :=
  if ∃ v ∈ active, v.condition = .pending then .initializing
  else if ∃ v ∈ active, v.condition.critical = true then .unavailable
  else if ∃ v ∈ active, v.condition = .missingOptionalComponent then .degraded
  else .ready

/-- The order and the number of the conditions do not matter. -/
theorem statusOf_congr {active other : List ActiveCondition} (same : ∀ v, v ∈ active ↔ v ∈ other) :
    statusOf active = statusOf other := by
  simp only [statusOf, same]

/-! ### What the loop computes -/

/-- The status that a condition which is not pending calls for. -/
def StatusConditions.level : StatusConditions → OverallStatus
  | .missingOptionalComponent => .degraded
  | .missingCriticalComponent | .invalidConfiguration | .internalError => .unavailable
  | .noConditions | .pending => .ready

theorem OverallStatus.raise_assoc (first second third : OverallStatus) :
    (first.raise second).raise third = first.raise (second.raise third) := by
  cases first <;> cases second <;> cases third <;> rfl

variable {overall : OverallStatus}

theorem OverallStatus.raise_ready (known : overall ≠ .unknownStatus) :
    overall.raise .ready = overall := by
  cases overall with
  | unknownStatus => exact absurd rfl known
  | ready | initializing | degraded | unavailable => rfl

theorem OverallStatus.raise_ne_unknown (known : overall ≠ .unknownStatus)
    (level : OverallStatus) : overall.raise level ≠ .unknownStatus := by
  cases overall <;> cases level <;> first | exact known | nofun

theorem StatusConditions.level_of_critical {condition : StatusConditions}
    (critical : condition.critical = true) : condition.level = .unavailable := by
  cases condition <;> first | rfl | exact absurd critical nofun

theorem StatusConditions.level_of_neither {condition : StatusConditions}
    (uncritical : ¬ condition.critical = true) (required : condition ≠ .missingOptionalComponent) :
    condition.level = .ready := by
  cases condition <;> first | rfl | exact absurd rfl uncritical | exact absurd rfl required

theorem statusOf_cons {v : ActiveCondition} {rest : List ActiveCondition}
    (unpending : ∀ u ∈ v :: rest, u.condition ≠ .pending) :
    statusOf (v :: rest) = v.condition.level.raise (statusOf rest) := by
  have none : ¬ ∃ u ∈ v :: rest, u.condition = .pending := fun ⟨u, member, is⟩ => unpending u member is
  have later : ¬ ∃ u ∈ rest, u.condition = .pending := fun ⟨u, member, is⟩ =>
    unpending u (List.mem_cons_of_mem v member) is
  rw [statusOf, if_neg none, statusOf, if_neg later]
  simp only [List.exists_mem_cons_iff]
  by_cases own : v.condition.critical = true
  · rw [if_pos (.inl own), StatusConditions.level_of_critical own]
    split_ifs <;> rfl
  · by_cases critical : ∃ u ∈ rest, u.condition.critical = true
    · rw [if_pos (.inr critical), if_pos critical]
      cases v.condition.level <;> rfl
    · rw [if_neg (not_or.mpr ⟨own, critical⟩), if_neg critical]
      by_cases optional : v.condition = .missingOptionalComponent
      · rw [if_pos (.inl optional), optional]
        split_ifs <;> rfl
      · rw [StatusConditions.level_of_neither own optional]
        simp only [optional, false_or]
        split_ifs <;> rfl

/-- **The loop**: initializing if a condition is pending, and otherwise the highest status called for. -/
theorem status_healthLoop (order : List ActiveCondition) (msgs : List GoString)
    (known : overall ≠ .unknownStatus) : (healthLoop order overall msgs).status
      = if ∃ v ∈ order, v.condition = .pending then .initializing else overall.raise (statusOf order) := by
  induction order generalizing overall msgs with
  | nil => exact (OverallStatus.raise_ready known).symm
  | cons v rest ih =>
    by_cases pending : v.condition = .pending
    · rw [if_pos ⟨v, List.mem_cons_self, pending⟩, healthLoop]
      simp only [pending]
    · have next : (healthLoop (v :: rest) overall msgs).status
          = (healthLoop rest (overall.raise v.condition.level)
              (msgs ++ v.condition.formatAll v.msgs)).status := by
        rw [healthLoop]
        cases is : v.condition with
        | pending => exact absurd is pending
        | noConditions => simp only [StatusConditions.level, OverallStatus.raise_ready known]
        | missingOptionalComponent | missingCriticalComponent | invalidConfiguration | internalError => rfl
      rw [next, ih _ (OverallStatus.raise_ne_unknown known _)]
      by_cases some : ∃ u ∈ rest, u.condition = .pending
      · obtain ⟨u, member, is⟩ := some
        rw [if_pos ⟨u, member, is⟩, if_pos ⟨u, List.mem_cons_of_mem v member, is⟩]
      · have none : ∀ u ∈ v :: rest, u.condition ≠ .pending := by
          intro u member is
          rcases List.mem_cons.mp member with rfl | member
          · exact pending is
          · exact some ⟨u, member, is⟩
        rw [if_neg some, if_neg fun ⟨u, member, is⟩ => none u member is, statusOf_cons none,
          OverallStatus.raise_assoc]

theorem status_health (order : List ActiveCondition) : (health false order).status = statusOf order := by
  show (healthLoop order .ready []).status = _
  rw [status_healthLoop order [] (show OverallStatus.ready ≠ .unknownStatus from nofun)]
  split
  · rename_i pending
    rw [statusOf, if_pos pending]
  · have ready : OverallStatus.ready.raise (statusOf order) = statusOf order := by
      cases is : statusOf order with
      | unknownStatus =>
        rw [statusOf] at is
        split_ifs at is
      | ready | initializing | degraded | unavailable => rfl
    exact ready

/-! ### The table and the contexts -/

def calls (_ : Mem) : List Proc → List Proc → List (ContextId × ActiveCondition)
  | [], [.change (.set while_ active) .lock] => [(while_, active)]
  | _, _ => []

/-- A state of the controller, with the calls of `ApplyCondition` so far. -/
abbrev Logged := Config (Mem × List (ContextId × ActiveCondition)) Proc

def created : Logged := Config.noted (.ofList ⟨.new, ∅, fun _ => false, false⟩ []) []

/-- **The active conditions**: those that were applied, and whose contexts are not cancelled. -/
def active (config : Logged) : List ActiveCondition :=
  (config.mem.2.filter fun entry => config.mem.1.done entry.1 = false).map Prod.snd

/-- The calls of `ApplyCondition` have returned, and the clear-up of the cancelled ones is done. -/
def Settled (config : Logged) : Prop :=
  ∀ proc ∈ config.procs, match proc with
    | .change _ _ => False
    | .conditionGoroutine while_ => config.mem.1.done while_ = false
    | _ => True

/-- The goroutine will delete this entry of the table. -/
def Proc.Clears (while_ : ContextId) : Proc → Prop
  | .change (.set own _) .changed | .change (.set own _) .unlocked => own = while_
  | .conditionGoroutine own => own = while_
  | .change (.delete own) .lock | .change (.delete own) .locked => own = while_
  | _ => False

/-- The goroutine will set this entry. -/
def Proc.Sets (while_ : ContextId) (active : ActiveCondition) : Proc → Prop
  | .change (.set own mine) .lock | .change (.set own mine) .locked => own = while_ ∧ mine = active
  | _ => False

/-- What is set was applied, and what is deleted is cancelled. -/
def Proc.Fine (mem : Mem) (log : List (ContextId × ActiveCondition)) : Proc → Prop
  | .change (.set while_ active) _ => (while_, active) ∈ log
  | .change (.delete while_) _ => mem.done while_ = true
  | _ => True

structure Cleared (config : Logged) : Prop where
  fine : ∀ proc ∈ config.procs, proc.Fine config.mem.1 config.mem.2
  applied : ∀ while_ active, config.mem.1.conditions.lookup while_ = some active →
    (while_, active) ∈ config.mem.2 ∧ ∃ proc ∈ config.procs, proc.Clears while_
  kept : ∀ while_ active, (while_, active) ∈ config.mem.2 →
    config.mem.1.conditions.lookup while_ = some active ∨
      (∃ proc ∈ config.procs, proc.Sets while_ active) ∨ config.mem.1.done while_ = true

section Steps

variable {mem mem' : Mem} {log : List (ContextId × ActiveCondition)} {acting left : List Proc}
  {rest : Multiset Proc} {proc : Proc} {while_ : ContextId}

theorem Proc.Fine.mono {log' : List (ContextId × ActiveCondition)}
    (done : ∀ while_, mem.done while_ = true → mem'.done while_ = true)
    (known : ∀ entry ∈ log, entry ∈ log') (fine : proc.Fine mem log) : proc.Fine mem' log' := by
  cases proc with
  | change change phase =>
    cases change with
    | set while_ active => exact known _ fine
    | delete while_ => exact done while_ fine
  | _ => trivial

theorem Cleared.move (cleared : Cleared ⟨(mem, log), ↑acting + rest⟩)
    (conditions : mem'.conditions = mem.conditions)
    (done : ∀ while_, mem.done while_ = true → mem'.done while_ = true)
    (fine : (∀ proc ∈ acting, proc.Fine mem log) → ∀ proc ∈ left, proc.Fine mem' log)
    (clears : ∀ while_, ∀ proc ∈ acting, proc.Clears while_ → ∃ proc ∈ left, proc.Clears while_)
    (sets : ∀ while_ active, ∀ proc ∈ acting, proc.Sets while_ active →
      ∃ proc ∈ left, proc.Sets while_ active) : Cleared ⟨(mem', log), ↑left + rest⟩ where
  fine := forall_mem_fire cleared.fine fine fun _ _ fine => fine.mono done fun _ => id
  applied while_ active there := by
    obtain ⟨known, clearing⟩ := cleared.applied while_ active (conditions ▸ there)
    exact ⟨known, exists_mem_fire clearing (clears while_) fun _ _ => id⟩
  kept while_ active known := by
    rcases cleared.kept while_ active known with there | setting | cancelled
    · exact .inl (conditions.symm ▸ there)
    · exact .inr (.inl (exists_mem_fire setting (sets while_ active) fun _ _ => id))
    · exact .inr (.inr (done while_ cancelled))

/-- The goroutine has nothing to do with the table. -/
def Proc.reads : Proc → Bool
  | .change _ _ | .conditionGoroutine _ => false
  | _ => true

theorem Proc.fine_of_reads (reads : proc.reads = true) : proc.Fine mem log := by
  cases proc <;> trivial

theorem Proc.not_clears_of_reads (reads : proc.reads = true) (while_ : ContextId) :
    ¬ proc.Clears while_ := by
  cases proc <;> first | exact id | exact absurd reads nofun

theorem Proc.not_sets_of_reads (reads : proc.reads = true) (while_ : ContextId)
    (active : ActiveCondition) : ¬ proc.Sets while_ active := by
  cases proc <;> first | exact id | exact absurd reads nofun

theorem Cleared.read (cleared : Cleared ⟨(mem, log), ↑acting + rest⟩)
    (conditions : mem'.conditions = mem.conditions)
    (done : ∀ while_, mem.done while_ = true → mem'.done while_ = true)
    (before : ∀ proc ∈ acting, proc.reads = true) (after : ∀ proc ∈ left, proc.reads = true) :
    Cleared ⟨(mem', log), ↑left + rest⟩ :=
  cleared.move conditions done (fun _ proc member => Proc.fine_of_reads (after proc member))
    (fun while_ proc member clears => absurd clears (Proc.not_clears_of_reads (before proc member) while_))
    fun while_ active proc member sets =>
      absurd sets (Proc.not_sets_of_reads (before proc member) while_ active)

theorem Cleared.pass {proc next : Proc} (cleared : Cleared ⟨(mem, log), ↑[proc] + rest⟩)
    (conditions : mem'.conditions = mem.conditions) (done : mem'.done = mem.done)
    (fine : proc.Fine mem log → next.Fine mem log)
    (clears : ∀ while_, proc.Clears while_ → next.Clears while_)
    (sets : ∀ while_ active, proc.Sets while_ active → next.Sets while_ active) :
    Cleared ⟨(mem', log), ↑[next] + rest⟩ := by
  refine cleared.move conditions (fun while_ cancelled => done ▸ cancelled)
    (fun all => List.forall_mem_singleton.mpr ?_) (fun while_ other member is => ?_)
    fun while_ active other member is => ?_
  · exact (fine (all proc List.mem_cons_self)).mono (fun while_ cancelled => done ▸ cancelled) fun _ => id
  · obtain rfl := List.mem_singleton.mp member
    exact ⟨next, List.mem_cons_self, clears while_ is⟩
  · obtain rfl := List.mem_singleton.mp member
    exact ⟨next, List.mem_cons_self, sets while_ active is⟩

theorem Cleared.call {active : ActiveCondition}
    (cleared : Cleared ⟨(mem, log), ↑([] : List Proc) + rest⟩) :
    Cleared ⟨(mem, log ++ [(while_, active)]), ↑[Proc.change (.set while_ active) .lock] + rest⟩ where
  fine := forall_mem_fire cleared.fine
    (fun _ => List.forall_mem_singleton.mpr (List.mem_append_right log List.mem_cons_self))
    fun _ _ fine => fine.mono (fun _ => id) fun _ => List.mem_append_left _
  applied own mine there := by
    obtain ⟨known, clearing⟩ := cleared.applied own mine there
    exact ⟨List.mem_append_left _ known, exists_mem_fire clearing nofun fun _ _ => id⟩
  kept own mine known := by
    rcases List.mem_append.mp known with known | new
    · rcases cleared.kept own mine known with there | setting | cancelled
      · exact .inl there
      · exact .inr (.inl (exists_mem_fire setting nofun fun _ _ => id))
      · exact .inr (.inr cancelled)
    · obtain ⟨rfl, rfl⟩ := Prod.mk.inj (List.mem_singleton.mp new)
      exact .inr (.inl ⟨_, mem_acting, rfl, rfl⟩)

/-- The entry of a condition is set. The contexts of the calls are distinct, so it is nobody else's. -/
theorem Cleared.set {active : ActiveCondition}
    (cleared : Cleared ⟨(mem, log), ↑[Proc.change (.set while_ active) .locked] + rest⟩)
    (distinct : (log.map Prod.fst).Nodup) :
    Cleared ⟨({ mem with conditions := mem.conditions.insert while_ active }, log),
      ↑[Proc.change (.set while_ active) .changed] + rest⟩ := by
  have known : (while_, active) ∈ log := cleared.fine _ mem_acting
  refine ⟨forall_mem_fire cleared.fine (fun _ => List.forall_mem_singleton.mpr known)
    fun _ _ fine => fine.mono (fun _ => id) fun _ => id, fun own mine there => ?_, fun own mine logged => ?_⟩
  · by_cases same : own = while_
    · subst same
      obtain rfl := Option.some.inj ((Finmap.lookup_insert mem.conditions).symm.trans there)
      exact ⟨known, _, mem_acting, rfl⟩
    · obtain ⟨logged, clearing⟩ := cleared.applied own mine
        ((Finmap.lookup_insert_of_ne mem.conditions same).symm.trans there)
      exact ⟨logged, exists_mem_fire clearing
        (List.forall_mem_singleton.mpr fun clears => False.elim clears) fun _ _ => id⟩
  · by_cases same : own = while_
    · subst same
      obtain rfl : mine = active :=
        congrArg Prod.snd (List.inj_on_of_nodup_map distinct logged known rfl)
      exact .inl (Finmap.lookup_insert mem.conditions)
    · rcases cleared.kept own mine logged with there | setting | cancelled
      · exact .inl ((Finmap.lookup_insert_of_ne mem.conditions same).trans there)
      · refine .inr (.inl (exists_mem_fire setting (fun proc member sets => ?_) fun _ _ => id))
        obtain rfl := List.mem_singleton.mp member
        exact absurd sets.1.symm same
      · exact .inr (.inr cancelled)

theorem Cleared.delete (cleared : Cleared ⟨(mem, log), ↑[Proc.change (.delete while_) .locked] + rest⟩) :
    Cleared ⟨({ mem with conditions := mem.conditions.erase while_ }, log),
      ↑[Proc.change (.delete while_) .changed] + rest⟩ := by
  have cancelled : mem.done while_ = true := cleared.fine _ mem_acting
  refine ⟨forall_mem_fire cleared.fine (fun _ => List.forall_mem_singleton.mpr cancelled)
    fun _ _ fine => fine.mono (fun _ => id) fun _ => id, fun own mine there => ?_, fun own mine logged => ?_⟩
  · have other : own ≠ while_ := by
      rintro rfl
      exact absurd ((Finmap.lookup_erase own mem.conditions).symm.trans there) nofun
    obtain ⟨logged, clearing⟩ := cleared.applied own mine
      ((Finmap.lookup_erase_ne other).symm.trans there)
    refine ⟨logged, exists_mem_fire clearing (fun proc member clears => ?_) fun _ _ => id⟩
    obtain rfl := List.mem_singleton.mp member
    exact absurd clears (Ne.symm other)
  · by_cases same : own = while_
    · exact .inr (.inr (same ▸ cancelled))
    · rcases cleared.kept own mine logged with there | setting | cancelled
      · exact .inl ((Finmap.lookup_erase_ne same).trans there)
      · exact .inr (.inl (exists_mem_fire setting
          (List.forall_mem_singleton.mpr fun sets => False.elim sets) fun _ _ => id))
      · exact .inr (.inr cancelled)

theorem cleared_act (cleared : Cleared ⟨(mem, log), ↑acting + rest⟩) (act : Act () mem acting mem' left)
    (alive : mem'.srvDone = false) (distinct : (log.map Prod.fst).Nodup)
    (uncalled : calls mem acting left = []) : Cleared ⟨(mem', log), ↑left + rest⟩ := by
  cases act with
  | applyCondition => exact absurd uncalled nofun
  | cancelServer => exact absurd alive nofun
  | cancel context =>
    refine cleared.read rfl (fun while_ cancelled => ?_) nofun nofun
    by_cases same : while_ = context
    · subst same
      exact Function.update_self while_ true mem.done
    · exact (Function.update_of_ne same true mem.done).trans cancelled
  | streamHealthUpdates | callWait | callGetHealth =>
    exact cleared.read rfl (fun _ => id) nofun (List.forall_mem_singleton.mpr rfl)
  | @change _ change =>
    cases change with
    | set while_ active => exact cleared.set distinct
    | delete while_ => exact cleared.delete
  | @lockChange _ change | @unlockChange _ change =>
    cases change <;> exact cleared.pass rfl rfl id (fun _ => id) fun _ _ => id
  | broadcastSet | broadcastDelete =>
    exact cleared.pass rfl rfl (fun _ => trivial) (fun _ => id) fun _ _ => id
  | contextDone done =>
    have cancelled := done.resolve_right fun ended => absurd (ended.symm.trans alive) nofun
    exact cleared.pass rfl rfl (fun _ => cancelled) (fun _ => id) fun _ _ => id
  | _ =>
    exact cleared.read rfl (fun _ => id) (List.forall_mem_singleton.mpr rfl)
      (List.forall_mem_singleton.mpr rfl)

end Steps

theorem cleared {config : Logged} (reach : Reach (Noted Act calls) (fun _ _ => True) created config)
    (alive : config.mem.1.srvDone = false) (distinct : (config.mem.2.map Prod.fst).Nodup) :
    Cleared config := by
  revert alive distinct
  refine reach.invariant (fun config => config.mem.1.srvDone = false →
    (config.mem.2.map Prod.fst).Nodup → Cleared config) ?_ ?_
  · exact fun _ _ => ⟨nofun, fun _ _ there => absurd there nofun, nofun⟩
  · intro config label next ih _ step alive distinct
    cases step with
    | @fire _ mem mem' acting left rest noted =>
      obtain ⟨before, log⟩ := mem
      obtain ⟨after, log'⟩ := mem'
      obtain ⟨act, logs⟩ := noted
      obtain rfl : log' = log ++ calls before acting left := logs
      have earlier := ih (alive_of_alive act alive)
        (distinct.sublist ((List.sublist_append_left _ _).map Prod.fst))
      by_cases uncalled : calls before acting left = []
      · rw [uncalled, List.append_nil] at distinct ⊢
        exact cleared_act earlier act alive distinct uncalled
      · cases act with
        | applyCondition => exact earlier.call
        | _ => exact absurd rfl uncalled

theorem Cleared.lookup {config : Logged} (cleared : Cleared config) (settled : Settled config)
    (while_ : ContextId) (active : ActiveCondition) :
    config.mem.1.conditions.lookup while_ = some active ↔
      (while_, active) ∈ config.mem.2 ∧ config.mem.1.done while_ = false := by
  refine ⟨fun there => ?_, fun ⟨known, alive⟩ => ?_⟩
  · obtain ⟨known, proc, member, clears⟩ := cleared.applied while_ active there
    refine ⟨known, ?_⟩
    have still := settled proc member
    cases proc with
    | conditionGoroutine own => exact (show own = while_ from clears) ▸ still
    | change => exact still.elim
    | _ => exact clears.elim
  · rcases cleared.kept while_ active known with there | ⟨proc, member, sets⟩ | cancelled
    · exact there
    · have still := settled proc member
      cases proc with
      | change => exact still.elim
      | _ => exact sets.elim
    · exact absurd (cancelled.symm.trans alive) nofun

/-- **The health is a function of the active conditions**: in every run in which the contexts of the calls
are distinct, while the server's context lives and once everything is settled, whatever the order of the
map. -/
theorem status_of_settled (config : Logged) (result : Health)
    (reach : Reach (Noted Act calls) (fun _ _ => True) created config)
    (alive : config.mem.1.srvDone = false) (distinct : (config.mem.2.map Prod.fst).Nodup)
    (settled : Settled config)
    (health : IsHealth config.mem.1.srvDone config.mem.1.conditions result) :
    result.status = statusOf (active config) := by
  obtain ⟨order, entries, rfl⟩ := health
  rw [alive, status_health]
  refine statusOf_congr fun v => ?_
  have lookup := (cleared reach alive distinct).lookup settled
  have listed : ∀ entry, entry ∈ order ↔ entry ∈ config.mem.1.conditions.entries := fun entry => by
    rw [← entries, Multiset.mem_coe]
  simp only [active, List.mem_map, List.mem_filter, decide_eq_true_eq]
  refine ⟨fun ⟨⟨while_, _⟩, member, is⟩ => ?_, fun ⟨⟨while_, _⟩, member, is⟩ => ?_⟩
  · subst is
    exact ⟨(while_, _), (lookup while_ _).mp (Finmap.lookup_eq_some_iff.mpr ((listed _).mp member)), rfl⟩
  · subst is
    exact ⟨⟨while_, _⟩, (listed _).mpr (Finmap.lookup_eq_some_iff.mp ((lookup while_ _).mpr member)), rfl⟩

/-! ### A run -/

section Example

variable {start : Logged} {mem : Mem} {log : List (ContextId × ActiveCondition)} {procs : List Proc}

theorem change_run {change : Change}
    (reach : Reach (Noted Act calls) (fun _ _ => True) start
      (.ofList (mem, log) (.change change .lock :: procs))) (free : mem.cond.locked = false) :
    Reach (Noted Act calls) (fun _ _ => True) start
      (.ofList ({ mem with cond := mem.cond.lock.unlock, conditions := change.apply mem.conditions }, log)
        (.change change .unlocked :: procs)) := by
  have run := reach.nextSilent [_] procs (.lockChange free) rfl trivial (.refl _)
  have run := run.nextSilent [_] procs .change rfl trivial (.refl _)
  exact run.nextSilent [_] procs .unlockChange rfl trivial (.refl _)

theorem apply_run (reach : Reach (Noted Act calls) (fun _ _ => True) start (.ofList (mem, log) procs))
    (free : mem.cond.locked = false) (while_ : ContextId) (active : ActiveCondition) :
    Reach (Noted Act calls) (fun _ _ => True) start
      (.ofList ({ mem with
        cond := mem.cond.lock.unlock.broadcast
        conditions := mem.conditions.insert while_ active }, log ++ [(while_, active)])
        (.conditionGoroutine while_ :: procs)) := by
  have run := reach.nextNoted [] procs (.applyCondition while_ active) trivial (.refl _)
  have run := change_run run free
  exact run.nextSilent [_] procs .broadcastSet rfl trivial (.refl _)

theorem clear_run {while_ : ContextId}
    (reach : Reach (Noted Act calls) (fun _ _ => True) start
      (.ofList (mem, log) (.conditionGoroutine while_ :: procs))) (free : mem.cond.locked = false) :
    Reach (Noted Act calls) (fun _ _ => True) start
      (.ofList ({ mem with
        cond := mem.cond.lock.unlock.broadcast
        conditions := mem.conditions.erase while_
        done := Function.update mem.done while_ true }, log) (.returned :: procs)) := by
  have run := reach.nextSilent [] _ (.cancel while_) rfl trivial (.refl _)
  have run := run.nextSilent [_] procs (.contextDone (.inl (Function.update_self while_ true mem.done)))
    rfl trivial (.refl _)
  have run := change_run run free
  exact run.nextSilent [_] procs .broadcastDelete rfl trivial (.refl _)

/-- An optional and a critical component are missing, and the critical one is found. -/
theorem status_of_settled_found :
    ∃ config result, Reach (Noted Act calls) (fun _ _ => True) created config ∧
      config.mem.1.srvDone = false ∧ (config.mem.2.map Prod.fst).Nodup ∧ Settled config ∧
      IsHealth config.mem.1.srvDone config.mem.1.conditions result ∧ result.status = .degraded := by
  have run := apply_run (.start : Reach _ _ created _) rfl 1 ⟨.missingOptionalComponent, [bytes "cache"]⟩
  have run := apply_run run rfl 2 ⟨.missingCriticalComponent, [bytes "scheduler"]⟩
  have run := clear_run run rfl
  have health : IsHealth false
      (((∅ : Conditions).insert 1 ⟨.missingOptionalComponent, [bytes "cache"]⟩).insert 2
        ⟨.missingCriticalComponent, [bytes "scheduler"]⟩ |>.erase 2)
      ⟨.degraded, [bytes "[Missing Optional] cache"]⟩ :=
    ⟨[⟨1, ⟨.missingOptionalComponent, [bytes "cache"]⟩⟩], rfl, rfl⟩
  refine ⟨_, _, run, rfl, by decide, ?settled, health,
    (status_of_settled _ _ run rfl (by decide) ?settled health).trans (by decide)⟩
  intro proc member
  simp only [Config.ofList, Multiset.mem_coe, List.mem_cons, List.not_mem_nil, or_false] at member
  rcases member with rfl | rfl
  · trivial
  · exact rfl

end Example

end Kubecc.Metrics
