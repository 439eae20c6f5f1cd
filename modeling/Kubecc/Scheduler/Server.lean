/-
**The scheduler's counters and its health condition.**

`StreamIncomingTasks` and `StreamOutgoingTasks` of `pkg/scheduler/server.go`, with what
`NewAgentTaskStream` and `NewConsumerdTaskStream` do on the broker's registry and `ApplyCondition` of
`pkg/metrics/status.go`. The two handlers are one, each with its own counter, registry and condition
(a `Side`): the agents, and the consumerds. Every stream has a UUID of its own.

A handler goes on after an error of the broker, and counts its stream. The counter is atomic; what
follows from its value (the condition is cancelled, or applied) is another step.

The context of the server itself, which lives as long as the process, is not cancelled.

* `countsMatch_of_noTimeout` — in every run in which no stream times out on its toolchains, at rest the
  counters are the numbers of registered components.
* `timeout_is_counted` — a stream that timed out is counted and not registered.
* `condition_of_apart` — in every run in which a counter changes only while no handler still owes the
  condition its update, the condition is applied exactly if nobody is counted.
* `crossed_condition_stays` — an arrival and a departure in crossed order leave the condition applied
  with one agent connected.
-/

import Kubecc.Lib.Process
import Kubecc.Go.Strings

namespace Kubecc.Scheduler.Server

open Kubecc.Lib Kubecc.Go

inductive Kind
  | agents
  | consumerds
deriving DecidableEq

abbrev Uuid := GoString

abbrev ContextId := Nat

/-- Where a handler stands. `locking` to `registered` are in `NewAgentTaskStream`: it wants the
registry's mutex, waits for the toolchains with it, or has stored its record. It has `returned` when
the broker has, with or without an error; `incremented` and `decremented` have the value of the counter
still to be acted on; `applied` has not yet stored the condition's cancel function. -/
inductive Phase
  | called
  | locking
  | waiting
  | registered
  | returned
  | incremented (count : Int)
  | serving
  | decremented (count : Int)
  | applied (context : ContextId)
deriving DecidableEq

/-- The goroutines: a handler, the clean-up the broker starts for a stream (before and after it has the
mutex), and the goroutine of `ApplyCondition`. -/
inductive Proc
  | rpc (uuid : Uuid) (phase : Phase)
  | cleanup (uuid : Uuid)
  | cleaning (uuid : Uuid)
  | condition (context : ContextId)
deriving DecidableEq

/-- What one kind of handler shares: the keys of the broker's registry and its mutex, the streams so far
and those whose context is done, the counter, and the conditions of this kind with their contexts;
`cancel` is the context that the stored cancel function cancels. -/
structure Side where
  registry : Finset Uuid
  mutex : Bool
  connected : Finset Uuid
  done : Uuid → Bool
  count : Int
  conditions : List ContextId
  canceled : List ContextId
  cancel : ContextId
  nextContext : ContextId

/-- The steps that are told apart: a stream that times out on its toolchains, and a change of the
counter. -/
inductive Event
  | timeout
  | count
  | other
deriving DecidableEq

/-- **The steps of the handlers of one kind.** -/
inductive SideRule : Rules Side Proc Event
  -- the outside
  | connect {side} (uuid : Uuid) : uuid ∉ side.connected →
      SideRule .other side [] { side with connected := insert uuid side.connected }
        [.rpc uuid .called]
  | disconnect {side} (uuid : Uuid) : uuid ∈ side.connected →
      SideRule .other side [] { side with done := Function.update side.done uuid true } []
  -- meta.CheckContext
  | checkError {side} {uuid : Uuid} : SideRule .other side [.rpc uuid .called] side []
  | check {side} {uuid : Uuid} :
      SideRule .other side [.rpc uuid .called] side [.rpc uuid .locking]
  -- NewAgentTaskStream, NewConsumerdTaskStream
  | lock {side} {uuid : Uuid} : side.mutex = false →
      SideRule .other side [.rpc uuid .locking] { side with mutex := true } [.rpc uuid .waiting]
  | timeout {side} {uuid : Uuid} :
      SideRule .timeout side [.rpc uuid .waiting] { side with mutex := false }
        [.rpc uuid .returned]
  | register {side} {uuid : Uuid} :
      SideRule .other side [.rpc uuid .waiting]
        { side with
          registry := insert uuid side.registry
          mutex := false }
        [.rpc uuid .registered]
  | start {side} {uuid : Uuid} : side.mutex = false →
      SideRule .other side [.rpc uuid .registered] side [.rpc uuid .returned, .cleanup uuid]
  -- the handler, after the broker has returned
  | inc {side} {uuid : Uuid} :
      SideRule .count side [.rpc uuid .returned] { side with count := side.count + 1 }
        [.rpc uuid (.incremented (side.count + 1))]
  | first {side} {uuid : Uuid} :
      SideRule .other side [.rpc uuid (.incremented 1)]
        { side with canceled := side.cancel :: side.canceled } [.rpc uuid .serving]
  | notFirst {side} {uuid : Uuid} {count : Int} : count ≠ 1 →
      SideRule .other side [.rpc uuid (.incremented count)] side [.rpc uuid .serving]
  | dec {side} {uuid : Uuid} : side.done uuid = true →
      SideRule .count side [.rpc uuid .serving] { side with count := side.count - 1 }
        [.rpc uuid (.decremented (side.count - 1))]
  | notLast {side} {uuid : Uuid} {count : Int} : count ≠ 0 →
      SideRule .other side [.rpc uuid (.decremented count)] side []
  -- applyNoAgentsCond, applyNoCdsCond
  | apply {side} {uuid : Uuid} :
      SideRule .other side [.rpc uuid (.decremented 0)]
        { side with
          conditions := side.nextContext :: side.conditions
          nextContext := side.nextContext + 1 }
        [.rpc uuid (.applied side.nextContext), .condition side.nextContext]
  | store {side} {uuid : Uuid} {context : ContextId} :
      SideRule .other side [.rpc uuid (.applied context)] { side with cancel := context } []
  | clear {side} {context : ContextId} : context ∈ side.canceled →
      SideRule .other side [.condition context]
        { side with conditions := side.conditions.erase context } []
  -- the broker's clean-up
  | cleanup {side} {uuid : Uuid} : side.done uuid = true → side.mutex = false →
      SideRule .other side [.cleanup uuid] { side with mutex := true } [.cleaning uuid]
  | delete {side} {uuid : Uuid} :
      SideRule .other side [.cleaning uuid]
        { side with
          registry := side.registry.erase uuid
          mutex := false }
        []

/-- `NewSchedulerServer`: nobody is connected, and the condition is applied. -/
def initialSide : Side :=
  { registry := ∅, mutex := false, connected := ∅, done := fun _ => false, count := 0
    conditions := [0], canceled := [], cancel := 0, nextContext := 1 }

inductive Act : Rules (Kind → Side) (Kind × Proc) (Kind × Event)
  | side {mem : Kind → Side} {kind : Kind} {event : Event} {acting left : List Proc} {after : Side} :
      SideRule event (mem kind) acting after left →
      Act (kind, event) mem (acting.map (kind, ·)) (Function.update mem kind after)
        (left.map (kind, ·))

abbrev State := Config (Kind → Side) (Kind × Proc)

def initial : State := .ofList (fun _ => initialSide) [(.agents, .condition 0), (.consumerds, .condition 0)]

/-! ### One side -/

def ofKind (kind : Kind) (proc : Kind × Proc) : Option Proc :=
  if proc.1 = kind then some proc.2 else none

def side (kind : Kind) (config : State) : Config Side Proc := config.view (· kind) (ofKind kind)

theorem filterMap_ofKind_self (kind : Kind) (procs : List Proc) :
    (procs.map (kind, ·)).filterMap (ofKind kind) = procs := by
  rw [List.filterMap_map]
  exact (List.filterMap_congr fun proc _ => if_pos rfl).trans List.filterMap_some

theorem filterMap_ofKind_ne {kind other : Kind} (differs : other ≠ kind) (procs : List Proc) :
    (procs.map (other, ·)).filterMap (ofKind kind) = [] := by
  rw [List.filterMap_map, List.filterMap_eq_nil_iff]
  exact fun proc _ => if_neg differs

theorem reach_side {allowed : State → Kind × Event → Prop} {allowed' : Config Side Proc → Event → Prop}
    {config : State} (kind : Kind)
    (implies : ∀ config event, allowed config (kind, event) → allowed' (side kind config) event)
    (reach : Reach Act allowed initial config) :
    Reach SideRule allowed' (.ofList initialSide [.condition 0]) (side kind config) := by
  have start : side kind initial = .ofList initialSide [.condition 0] := by
    cases kind <;> rfl
  rw [← start]
  refine reach.view (· kind) (ofKind kind) fun {label} mem _ acting left rest _ ok act => ?_
  cases act with
  | @side mem other event acting left after rule =>
    by_cases same : other = kind
    · subst same
      refine .inr ⟨event, implies _ _ ok, ?_⟩
      rw [filterMap_ofKind_self, filterMap_ofKind_self, Function.update_self]
      exact rule
    · refine .inl ⟨Function.update_of_ne (Ne.symm same) _ _, ?_⟩
      rw [filterMap_ofKind_ne same, filterMap_ofKind_ne same]

/-! ### The counters -/

def AtRest (side : Side) : Proc → Prop
  | .rpc uuid .serving => side.done uuid = false
  | .cleanup uuid => side.done uuid = false
  | .condition context => context ∉ side.canceled
  | _ => False

/-- **Quiescent**: every stream is being served. -/
def Quiescent (config : Config Side Proc) : Prop :=
  ∀ proc ∈ config.procs, AtRest config.mem proc

def counted : Proc → ℕ
  | .rpc _ (.incremented _) => 1
  | .rpc _ .serving => 1
  | _ => 0

/-- The stream whose record this process stores or will delete. -/
def stage : Proc → Option Uuid
  | .rpc uuid .called => some uuid
  | .rpc uuid .locking => some uuid
  | .rpc uuid .waiting => some uuid
  | .rpc uuid .registered => some uuid
  | .cleanup uuid => some uuid
  | .cleaning uuid => some uuid
  | _ => none

def entered : Proc → Option Uuid
  | .rpc uuid .registered => some uuid
  | .cleanup uuid => some uuid
  | .cleaning uuid => some uuid
  | _ => none

/-- The stream of a handler that the broker has returned to. -/
def past : Proc → Option Uuid
  | .rpc uuid .returned => some uuid
  | .rpc uuid (.incremented _) => some uuid
  | .rpc uuid .serving => some uuid
  | _ => none

/-- The stream whose end the clean-up waits for. -/
def watched : Proc → Option Uuid
  | .cleanup uuid => some uuid
  | _ => none

/-- **The counting invariant**: the counter counts the handlers that count, the registry has the
streams that stored their record, and a live stream that the broker has returned from has its clean-up
waiting. -/
structure Counts (config : Config Side Proc) : Prop where
  count : config.mem.count = total counted config.procs
  fresh : ∀ uuid, uuid ∉ config.mem.connected → total (tally stage uuid) config.procs = 0
  single : ∀ uuid, total (tally stage uuid) config.procs ≤ 1
  entries : config.mem.registry.val = config.procs.filterMap entered
  pairs : ∀ uuid, config.mem.done uuid = false →
    total (tally past uuid) config.procs = total (tally watched uuid) config.procs

def NoTimeout (event : Event) : Prop := event ≠ .timeout

section Counters

variable {config next : Config Side Proc} {event : Event} {acting left : List Proc} {side after : Side}

theorem count_step (count : config.mem.count = total counted config.procs)
    (step : Step SideRule config event next) : next.mem.count = total counted next.procs := by
  cases step with
  | fire rest rule => cases rule <;> simp [counted] at count ⊢ <;> omega

/-- A step gives no stream a second process that stands for its record, but for a new stream. -/
theorem stage_le (rule : SideRule event side acting after left) {uuid : Uuid}
    (old : uuid ∈ side.connected ∨ uuid ∉ after.connected) :
    total (tally stage uuid) ↑left ≤ total (tally stage uuid) ↑acting := by
  cases rule with
  | connect new unconnected =>
    have differs : new ≠ uuid := by
      rintro rfl
      exact old.elim unconnected fun unknown => unknown (Finset.mem_insert_self _ _)
    simp [tally, stage, differs]
  | _ => simp [tally, stage]

theorem stage_le_succ (rule : SideRule event side acting after left) (uuid : Uuid) :
    total (tally stage uuid) ↑left ≤ total (tally stage uuid) ↑acting + 1 := by
  cases rule with
  | connect new unconnected =>
    simp only [total_coe_cons, total_coe_nil, tally]
    split <;> omega
  | _ => simp [tally, stage]

theorem connected_subset
    (rule : SideRule event side acting after left) : side.connected ⊆ after.connected := by
  cases rule with
  | connect new unconnected => exact Finset.subset_insert _ _
  | _ => exact Finset.Subset.refl _

theorem fresh_step (counts : Counts config) (step : Step SideRule config event next) :
    ∀ uuid, uuid ∉ next.mem.connected → total (tally stage uuid) next.procs = 0 := by
  intro uuid unknown
  cases step with
  | fire rest rule =>
    have zero := counts.fresh uuid fun known => unknown (connected_subset rule known)
    have le := stage_le rule (.inr unknown)
    simp only [total_add] at zero ⊢
    omega

theorem single_step (counts : Counts config) (step : Step SideRule config event next) :
    ∀ uuid, total (tally stage uuid) next.procs ≤ 1 := by
  intro uuid
  cases step with
  | @fire _ side _ _ _ rest rule =>
    by_cases known : uuid ∈ side.connected
    · have single := counts.single uuid
      have le := stage_le rule (.inl known)
      simp only [total_add] at single ⊢
      omega
    · have zero := counts.fresh uuid known
      have le := stage_le_succ rule uuid
      simp only [total_add] at zero ⊢
      omega

theorem Counts.absent {side : Side} {uuid : Uuid} {rest : Multiset Proc}
    (counts : Counts ⟨side, ↑[Proc.rpc uuid .waiting] + rest⟩) : uuid ∉ side.registry := by
  intro there
  have member : uuid ∈ side.registry.val := there
  rw [counts.entries, filterMap_fire] at member
  obtain ⟨proc, member, is⟩ := (Multiset.mem_filterMap _ _).mp
    ((mem_fire.mp member).resolve_left List.not_mem_nil)
  have stands : stage proc = some uuid := by
    unfold entered at is
    split at is <;> first | exact is | exact absurd is nofun
  have single := counts.single uuid
  have counted := @weight_le_total _ (tally stage uuid) _ _ member
  rw [tally_of_eq_some stands, if_pos rfl] at counted
  rw [total_add, total_coe_cons, tally_of_eq_some (show stage (.rpc uuid .waiting) = _ from rfl),
    if_pos rfl] at single
  omega

theorem entries_step (counts : Counts config) (step : Step SideRule config event next) :
    next.mem.registry.val = next.procs.filterMap entered := by
  cases step with
  | @fire _ side _ _ _ rest rule =>
    have entries : side.registry.val = _ := counts.entries
    rw [filterMap_fire] at entries ⊢
    cases rule with
    | @register _ uuid =>
      show (insert uuid side.registry).val = _
      rw [Finset.insert_val_of_notMem counts.absent, entries]
      simp [entered]
    | @delete _ uuid =>
      show (side.registry.erase uuid).val = _
      rw [Finset.erase_val, entries]
      simp [entered]
    | _ => exact entries

theorem pairs_step (counts : Counts config) (ok : NoTimeout event)
    (step : Step SideRule config event next) : ∀ uuid, next.mem.done uuid = false →
      total (tally past uuid) next.procs = total (tally watched uuid) next.procs := by
  intro uuid live
  cases step with
  | @fire _ side _ _ _ rest rule =>
    cases rule with
    | timeout => exact absurd rfl ok
    | disconnect gone connected =>
      have differs : uuid ≠ gone := by
        rintro rfl
        exact absurd (live.symm.trans (Function.update_self _ _ _)) Bool.false_ne_true
      exact counts.pairs uuid ((Function.update_of_ne differs _ _).symm.trans live)
    | @dec _ leaving done | @cleanup _ leaving done _ =>
      have pairs := counts.pairs uuid live
      have differs : leaving ≠ uuid := by
        rintro rfl
        exact absurd (live.symm.trans done) Bool.false_ne_true
      simpa [tally, past, watched, differs] using pairs
    | _ =>
      have pairs := counts.pairs uuid live
      simpa [tally, past, watched] using pairs

theorem counts_step (counts : Counts config) (ok : NoTimeout event)
    (step : Step SideRule config event next) : Counts next :=
  ⟨count_step counts.count step, fresh_step counts step, single_step counts step, entries_step counts step,
    pairs_step counts ok step⟩

theorem counts_initial : Counts (.ofList initialSide [.condition 0]) where
  count := rfl
  fresh _ _ := rfl
  single _ := Nat.zero_le _
  entries := rfl
  pairs _ _ := rfl

/-- At rest, the streams counted are those whose clean-up waits. -/
theorem Counts.past_eq_watched (counts : Counts config) (rest : Quiescent config) :
    config.procs.filterMap past = config.procs.filterMap watched := by
  refine Multiset.ext.mpr fun uuid => ?_
  rw [count_filterMap, count_filterMap]
  by_cases live : config.mem.done uuid = false
  · exact counts.pairs uuid live
  · -- nothing of a stream whose context is done is left
    have none : ∀ name : Proc → Option Uuid, (∀ proc key, name proc = some key →
        AtRest config.mem proc → config.mem.done key = false) →
        total (tally name uuid) config.procs = 0 := fun name alive =>
      total_eq_zero fun proc member => if_neg fun is => live (alive proc uuid is (rest proc member))
    rw [none past, none watched]
    · intro proc key is atRest
      unfold watched at is
      split at is
      · rw [← Option.some.inj is]
        exact atRest
      · exact absurd is nofun
    · intro proc key is atRest
      unfold past at is
      split at is
      · exact atRest.elim
      · exact atRest.elim
      · rw [← Option.some.inj is]
        exact atRest
      · exact absurd is nofun

theorem Counts.count_eq_card (counts : Counts config) (rest : Quiescent config) :
    config.mem.count = config.mem.registry.card := by
  have handlers : total counted config.procs = (config.procs.filterMap past).card := by
    rw [card_filterMap]
    refine total_congr fun proc member => ?_
    have atRest := rest proc member
    unfold AtRest at atRest
    split at atRest <;> first | rfl | exact atRest.elim
  have records : (config.procs.filterMap entered).card = (config.procs.filterMap watched).card := by
    rw [card_filterMap, card_filterMap]
    refine total_congr fun proc member => ?_
    have atRest := rest proc member
    unfold AtRest at atRest
    split at atRest <;> first | rfl | exact atRest.elim
  rw [counts.count, handlers, counts.past_eq_watched rest, ← records, ← counts.entries]
  rfl

end Counters

def CountsMatch (config : State) : Prop :=
  (∀ kind, Quiescent (side kind config)) →
    ∀ kind, (config.mem kind).count = (config.mem kind).registry.card

/-- **The counters match the broker, if no stream times out on its toolchains.** -/
theorem countsMatch_of_noTimeout {config : State}
    (reach : Reach Act (fun _ label => NoTimeout label.2) initial config) : CountsMatch config := by
  intro rest kind
  have counts : Counts (side kind config) :=
    (reach_side kind (fun _ _ => id) reach).invariant Counts counts_initial
      fun counts ok step => counts_step counts ok step
  exact counts.count_eq_card (rest kind)

/-! ### The condition -/

/-- The handler has changed the counter and still owes the condition its update. -/
def between : Proc → ℕ
  | .rpc _ (.incremented _) => 1
  | .rpc _ (.decremented _) => 1
  | .rpc _ (.applied _) => 1
  | _ => 0

/-- The condition is applied and not cancelled; once it is cancelled, its goroutine takes it out. -/
def Live (side : Side) (context : ContextId) : Prop :=
  context ∈ side.conditions ∧ context ∉ side.canceled

/-- **The condition is right**: while no handler owes it an update, it is applied exactly if nobody is
counted. -/
def ConditionRight (config : State) : Prop :=
  ∀ kind, (∀ proc ∈ (side kind config).procs, between proc = 0) →
    ((∃ context, Live (config.mem kind) context) ↔ (config.mem kind).count = 0)

/-- The condition on a run: the counter changes only while no handler owes an update. -/
def Apart (config : Config Side Proc) : Event → Prop
  | .count => ∀ proc ∈ config.procs, between proc = 0
  | _ => True

def Only (side : Side) (context : ContextId) : Prop :=
  Live side context ∧ ∀ other, Live side other → other = context

def NoneLive (side : Side) : Prop := ∀ context, ¬ Live side context

def Owes (side : Side) : Proc → Prop
  | .rpc _ (.incremented count) => side.count = count ∧ count ≠ 0 ∧
      (count = 1 → Only side side.cancel) ∧ (count ≠ 1 → NoneLive side)
  | .rpc _ (.decremented count) => side.count = count ∧ NoneLive side
  | .rpc _ (.applied context) => side.count = 0 ∧ Only side context
  | _ => True

/-- What holds while nobody does. -/
structure Settled (side : Side) : Prop where
  nobody : side.count = 0 → Only side side.cancel
  somebody : side.count ≠ 0 → NoneLive side

structure Conditioned (config : Config Side Proc) : Prop where
  count : config.mem.count = total counted config.procs
  made : ∀ context ∈ config.mem.canceled, context < config.mem.nextContext
  cancel : config.mem.cancel < config.mem.nextContext
  applied : ∀ context ∈ config.mem.conditions, context < config.mem.nextContext
  settled : total between config.procs = 0 → Settled config.mem
  owes : ∀ proc ∈ config.procs, Owes config.mem proc
  single : total between config.procs ≤ 1

section Conditions

variable {config next : Config Side Proc} {event : Event} {side : Side}

theorem owes_of_between_eq_zero {proc : Proc} (zero : between proc = 0) : Owes side proc := by
  unfold Owes
  split
  · exact absurd zero one_ne_zero
  · exact absurd zero one_ne_zero
  · exact absurd zero one_ne_zero
  · trivial

theorem owes_of_total_eq_zero {procs : Multiset Proc} (zero : total between procs = 0) :
    ∀ proc ∈ procs, Owes side proc := fun _ member =>
  owes_of_between_eq_zero (Nat.le_zero.mp (zero ▸ weight_le_total member))

theorem noneLive_cancel (only : Only side side.cancel) :
    NoneLive { side with canceled := side.cancel :: side.canceled } := by
  rintro context ⟨there, live⟩
  refine live (List.mem_cons.mpr ?_)
  by_contra neither
  rw [not_or] at neither
  exact neither.1 (only.2 context ⟨there, neither.2⟩)

theorem only_apply (none : NoneLive side) (made : ∀ context ∈ side.canceled, context < side.nextContext) :
    Only { side with
      conditions := side.nextContext :: side.conditions
      nextContext := side.nextContext + 1 } side.nextContext := by
  refine ⟨⟨List.mem_cons_self, fun canceled => Nat.lt_irrefl _ (made _ canceled)⟩, ?_⟩
  rintro other ⟨there, live⟩
  rcases List.mem_cons.mp there with same | there
  · exact same
  · exact absurd ⟨there, live⟩ (none other)

theorem live_clear {context : ContextId} (canceled : context ∈ side.canceled) (other : ContextId) :
    Live { side with conditions := side.conditions.erase context } other ↔ Live side other := by
  constructor
  · rintro ⟨there, live⟩
    exact ⟨List.mem_of_mem_erase there, live⟩
  · rintro ⟨there, live⟩
    have differs : other ≠ context := by
      rintro rfl
      exact live canceled
    exact ⟨(List.mem_erase_of_ne differs).mpr there, live⟩

theorem Conditioned.move {side after : Side} {acting left : List Proc} {rest : Multiset Proc}
    (inv : Conditioned ⟨side, ↑acting + rest⟩) (count : after.count = total counted (↑left + rest))
    (sameCount : after.count = side.count) (sameCancel : after.cancel = side.cancel)
    (sameCanceled : after.canceled = side.canceled) (sameNext : after.nextContext = side.nextContext)
    (fewer : after.conditions ⊆ side.conditions) (live : ∀ context, Live after context ↔ Live side context)
    (acts : total between (↑acting : Multiset Proc) = 0) (leaves : total between (↑left : Multiset Proc) = 0) :
    Conditioned ⟨after, ↑left + rest⟩ := by
  have only : ∀ context, Only after context ↔ Only side context := fun context => by
    simp only [Only, live]
  have none : NoneLive after ↔ NoneLive side := by simp only [NoneLive, live]
  have same : ∀ proc, Owes side proc → Owes after proc := by
    intro proc owes
    unfold Owes at owes ⊢
    split at owes <;> simp_all
  constructor
  · exact count
  · rw [sameCanceled, sameNext]
    exact inv.made
  · rw [sameCancel, sameNext]
    exact inv.cancel
  · rw [sameNext]
    exact fun context there => inv.applied context (fewer there)
  · intro nobody
    have settled := inv.settled (by
      rw [total_add, leaves] at nobody
      rw [total_add, acts, nobody])
    refine ⟨fun zero => ?_, fun some => none.mpr (settled.somebody (sameCount ▸ some))⟩
    rw [sameCancel, only]
    exact settled.nobody (sameCount ▸ zero)
  · exact forall_mem_fire inv.owes (fun _ proc member => owes_of_total_eq_zero leaves proc
      (Multiset.mem_coe.mpr member)) fun proc _ => same proc
  · have single := inv.single
    rw [total_add, acts] at single
    rw [total_add, leaves]
    exact single

theorem Conditioned.alone {side after : Side} {acting left : List Proc} {rest : Multiset Proc}
    (inv : Conditioned ⟨side, ↑acting + rest⟩) (count : after.count = total counted (↑left + rest))
    (made : ∀ context ∈ after.canceled, context < after.nextContext)
    (cancel : after.cancel < after.nextContext)
    (applied : ∀ context ∈ after.conditions, context < after.nextContext)
    (others : total between rest = 0)
    (settled : total between (↑left : Multiset Proc) = 0 → Settled after)
    (owes : ∀ proc ∈ left, Owes after proc) (single : total between (↑left : Multiset Proc) ≤ 1) :
    Conditioned ⟨after, ↑left + rest⟩ := by
  refine ⟨count, made, cancel, applied, fun nobody => settled ?_, ?_, ?_⟩
  · rw [total_add, others] at nobody
    exact nobody
  · exact forall_mem_fire inv.owes (fun _ => owes) fun proc member _ =>
      owes_of_total_eq_zero others proc member
  · rw [total_add, others]
    exact single

theorem conditioned_step (inv : Conditioned config) (ok : Apart config event)
    (step : Step SideRule config event next) : Conditioned next := by
  have count := count_step inv.count step
  cases step with
  | @fire _ side _ acting _ rest rule =>
    -- a handler that owes an update is the only one
    have others : total between (↑acting : Multiset Proc) = 1 → total between rest = 0 := by
      intro one
      have single := inv.single
      rw [total_add, one] at single
      omega
    cases rule with
    | @inc _ uuid =>
      have none : total between (↑[Proc.rpc uuid .returned] + rest) = 0 := total_eq_zero ok
      have settled : Settled side := inv.settled none
      have counted : side.count = _ := inv.count
      refine inv.alone count inv.made inv.cancel inv.applied (by simpa [between] using none)
        (fun zero => absurd zero one_ne_zero) (List.forall_mem_singleton.mpr ?_) le_rfl
      refine ⟨rfl, by omega, fun one => settled.nobody (by omega), fun more => ?_⟩
      exact settled.somebody (by omega)
    | @first _ uuid =>
      obtain ⟨one, _, only, _⟩ : side.count = 1 ∧ _ := inv.owes _ mem_acting
      refine inv.alone count (List.forall_mem_cons.mpr ⟨inv.cancel, inv.made⟩) inv.cancel inv.applied
        (others rfl) (fun _ => ⟨fun zero => ?_, fun _ => noneLive_cancel (only rfl)⟩)
        (List.forall_mem_singleton.mpr trivial) (Nat.zero_le _)
      exact absurd (one.symm.trans zero) one_ne_zero
    | @notFirst _ uuid n differs =>
      obtain ⟨same, notZero, _, none⟩ : side.count = n ∧ _ := inv.owes _ mem_acting
      exact inv.alone count inv.made inv.cancel inv.applied (others rfl)
        (fun _ => ⟨fun zero => absurd (same.symm.trans zero) notZero, fun _ => none differs⟩)
        (List.forall_mem_singleton.mpr trivial) (Nat.zero_le _)
    | @dec _ uuid done =>
      have none : total between (↑[Proc.rpc uuid .serving] + rest) = 0 := total_eq_zero ok
      have settled : Settled side := inv.settled none
      have served : side.count ≠ 0 := by
        have counted : side.count = total counted (↑[Proc.rpc uuid .serving] + rest) := inv.count
        have one : 1 ≤ total Server.counted (↑[Proc.rpc uuid .serving] + rest) :=
          @weight_le_total _ Server.counted _ (.rpc uuid .serving) mem_acting
        omega
      exact inv.alone count inv.made inv.cancel inv.applied (by simpa [between] using none)
        (fun zero => absurd zero one_ne_zero)
        (List.forall_mem_singleton.mpr ⟨rfl, settled.somebody served⟩) le_rfl
    | @notLast _ uuid n differs =>
      obtain ⟨same, none⟩ : side.count = n ∧ _ := inv.owes _ mem_acting
      exact inv.alone count inv.made inv.cancel inv.applied (others rfl)
        (fun _ => ⟨fun zero => absurd (same.symm.trans zero) differs, fun _ => none⟩)
        (List.forall_mem_nil _) (Nat.zero_le _)
    | @apply _ uuid =>
      obtain ⟨zero, none⟩ : side.count = 0 ∧ _ := inv.owes _ mem_acting
      refine inv.alone count (fun context there => Nat.lt_succ_of_lt (inv.made context there))
        (Nat.lt_succ_of_lt inv.cancel) (List.forall_mem_cons.mpr ⟨Nat.lt_succ_self _, ?_⟩)
        (others rfl) (fun free => absurd free one_ne_zero) ?_ le_rfl
      · exact fun context there => Nat.lt_succ_of_lt (inv.applied context there)
      · exact List.forall_mem_cons.mpr ⟨⟨zero, only_apply none inv.made⟩,
          List.forall_mem_singleton.mpr trivial⟩
    | @store _ uuid context =>
      obtain ⟨zero, only⟩ : side.count = 0 ∧ Only side context := inv.owes _ mem_acting
      exact inv.alone count inv.made (inv.applied context only.1.1) inv.applied (others rfl)
        (fun _ => ⟨fun _ => only, fun some => absurd zero some⟩) (List.forall_mem_nil _)
        (Nat.zero_le _)
    | @clear _ context canceled =>
      exact inv.move count rfl rfl rfl rfl List.erase_subset (live_clear canceled) rfl rfl
    | _ => exact inv.move count rfl rfl rfl rfl (List.Subset.refl _) (fun _ => Iff.rfl) rfl rfl

theorem conditioned_initial : Conditioned (.ofList initialSide [.condition 0]) where
  count := rfl
  made := List.forall_mem_nil _
  cancel := Nat.one_pos
  applied := List.forall_mem_singleton.mpr Nat.one_pos
  settled _ := by
    refine ⟨fun _ => ⟨⟨List.mem_cons_self, List.not_mem_nil⟩, ?_⟩, fun some => absurd rfl some⟩
    exact fun other live => List.mem_singleton.mp live.1
  owes := owes_of_total_eq_zero rfl
  single := Nat.zero_le _

theorem Conditioned.live_iff (inv : Conditioned config)
    (free : ∀ proc ∈ config.procs, between proc = 0) :
    (∃ context, Live config.mem context) ↔ config.mem.count = 0 := by
  have settled := inv.settled (total_eq_zero free)
  constructor
  · rintro ⟨context, live⟩
    by_contra some
    exact settled.somebody some context live
  · exact fun zero => ⟨_, (settled.nobody zero).1⟩

end Conditions

/-- **The condition is right, if the counter changes only while no handler owes it an update.** -/
theorem condition_of_apart {config : State}
    (reach : Reach Act (fun config label => Apart (side label.1 config) label.2) initial config) :
    ConditionRight config := by
  intro kind free
  have inv : Conditioned (side kind config) :=
    (reach_side kind (fun _ _ => id) reach).invariant Conditioned conditioned_initial
      fun inv ok step => conditioned_step inv ok step
  exact inv.live_iff free

/-! ### Runs of the agents' side -/

def agentsAt (side : Side) : Kind → Side
  | .agents => side
  | .consumerds => initialSide

section Runs

variable {allowed : State → Kind × Event → Prop}

theorem reach_agents {side after : Side} {alive : List (Kind × Proc)} {event : Event}
    {acting left : List Proc} (reach : Reach Act allowed initial (.ofList (agentsAt side) alive))
    (rest : List (Kind × Proc)) (rule : SideRule event side acting after left)
    (ok : allowed (.ofList (agentsAt side) alive) (.agents, event))
    (split : alive.Perm (acting.map (.agents, ·) ++ rest)) :
    Reach Act allowed initial (.ofList (agentsAt after) (left.map (.agents, ·) ++ rest)) := by
  have same : Function.update (agentsAt side) .agents after = agentsAt after := by
    funext kind
    cases kind <;> rfl
  rw [← same]
  exact reach.next (acting.map (.agents, ·)) rest (.side rule) ok split

theorem waiting_run (plain : ∀ config kind, allowed config (kind, .other)) :
    Reach Act allowed initial
      (.ofList (agentsAt { initialSide with mutex := true, connected := {bytes "a"} })
        [(.agents, .rpc (bytes "a") .waiting), (.agents, .condition 0),
          (.consumerds, .condition 0)]) := by
  have start : (fun _ => initialSide) = agentsAt initialSide := by
    funext kind
    cases kind <;> rfl
  have h0 : Reach Act allowed initial (.ofList (agentsAt initialSide)
      [(.agents, .condition 0), (.consumerds, .condition 0)]) := by
    rw [← start]
    exact .start
  have h1 := reach_agents h0 _ (.connect (bytes "a") (Finset.notMem_empty _)) (plain _ _) (.refl _)
  have h2 := reach_agents h1 _ .check (plain _ _) (.refl _)
  exact reach_agents h2 _ (.lock rfl) (plain _ _) (.refl _)

def servingSide : Side :=
  { initialSide with
    registry := {bytes "a"}
    connected := {bytes "a"}
    count := 1
    conditions := []
    canceled := [0] }

theorem serving_run (plain : ∀ config kind, allowed config (kind, .other))
    (count : ∀ config : State, config.mem .agents = { servingSide with
        count := 0, conditions := [0], canceled := [] } →
      config.procs = ↑[(Kind.agents, Proc.rpc (bytes "a") .returned),
        (.agents, .cleanup (bytes "a")), (.agents, .condition 0), (.consumerds, .condition 0)] →
      allowed config (.agents, .count)) :
    Reach Act allowed initial (.ofList (agentsAt servingSide)
      [(.agents, .rpc (bytes "a") .serving), (.agents, .cleanup (bytes "a")),
        (.consumerds, .condition 0)]) := by
  have h0 := @waiting_run allowed plain
  have h1 := reach_agents h0 _ .register (plain _ _) (.refl _)
  have h2 := reach_agents h1 _ (.start rfl) (plain _ _) (.refl _)
  have h3 := reach_agents h2 [(.agents, .cleanup (bytes "a")), (.agents, .condition 0),
    (.consumerds, .condition 0)] .inc (count _ rfl rfl) (.refl _)
  have h4 := reach_agents h3 _ .first (plain _ _) (.refl _)
  have h5 := reach_agents h4 [(.agents, .rpc (bytes "a") .serving), (.agents, .cleanup (bytes "a")),
    (.consumerds, .condition 0)] (@SideRule.clear _ 0 List.mem_cons_self) (plain _ _) (by decide)
  exact h5

/-- **A stream that timed out is counted**: the agent gets no toolchains, its handler goes on, and the
counter is 1 while nobody is registered. -/
theorem timeout_is_counted :
    ∃ config, Reach Act (fun _ _ => True) initial config ∧ ¬ CountsMatch config := by
  have h0 := @waiting_run (fun _ _ => True) fun _ _ => trivial
  have h1 := reach_agents h0 _ .timeout trivial (.refl _)
  have h2 := reach_agents h1 _ .inc trivial (.refl _)
  have h3 := reach_agents h2 _ .first trivial (.refl _)
  have h4 := reach_agents h3 [(.agents, .rpc (bytes "a") .serving), (.consumerds, .condition 0)]
    (@SideRule.clear _ 0 List.mem_cons_self) trivial (by decide)
  refine ⟨_, h4, fun counts => ?_⟩
  refine absurd (counts (fun kind => ?_) .agents) (by decide)
  cases kind with
  | agents =>
    intro proc member
    obtain rfl : proc = .rpc (bytes "a") .serving := List.mem_singleton.mp (Multiset.mem_coe.mp member)
    rfl
  | consumerds =>
    intro proc member
    obtain rfl : proc = .condition 0 := List.mem_singleton.mp (Multiset.mem_coe.mp member)
    exact List.not_mem_nil

/-- An agent that gets its toolchains is counted and registered. -/
theorem countsMatch_serving :
    ∃ config, Reach Act (fun _ label => NoTimeout label.2) initial config ∧
      (config.mem .agents).count = 1 ∧ CountsMatch config := by
  have run := @serving_run (fun _ label => NoTimeout label.2) (fun _ _ => nofun)
    fun _ _ _ => nofun
  exact ⟨_, run, rfl, countsMatch_of_noTimeout run⟩

/-- **The condition stays applied**: an agent leaves, and before its handler applies the condition
another one arrives and cancels the condition applied before. -/
theorem crossed_condition_stays :
    ∃ config, Reach Act (fun _ _ => True) initial config ∧ ¬ ConditionRight config := by
  have h0 := @serving_run (fun _ _ => True) (fun _ _ => trivial) fun _ _ _ => trivial
  have h1 := reach_agents h0 _ (.disconnect (bytes "a") (by decide)) trivial (.refl _)
  have h2 := reach_agents h1 _ (.dec rfl) trivial (.refl _)
  have h3 := reach_agents h2 _ (.connect (bytes "b") (by decide)) trivial (.refl _)
  have h4 := reach_agents h3 _ .check trivial (.refl _)
  have h5 := reach_agents h4 _ (.lock rfl) trivial (.refl _)
  have h6 := reach_agents h5 _ .register trivial (.refl _)
  have h7 := reach_agents h6 _ (.start rfl) trivial (.refl _)
  have h8 := reach_agents h7 _ .inc trivial (.refl _)
  have h9 := reach_agents h8 _ .first trivial (.refl _)
  have h10 := reach_agents h9 [(.agents, .rpc (bytes "b") .serving), (.agents, .cleanup (bytes "b")),
    (.agents, .cleanup (bytes "a")), (.consumerds, .condition 0)]
    (@SideRule.apply _ (bytes "a")) trivial (by decide)
  have h11 := reach_agents h10 _ .store trivial (.refl _)
  refine ⟨_, h11, fun right => ?_⟩
  have zero := (right .agents (by decide)).mp ⟨1, by decide, by decide⟩
  exact absurd zero (by decide)

/-- One agent arrives, and the condition is cleared. -/
theorem condition_serving :
    ∃ config, Reach Act (fun config label => Apart (side label.1 config) label.2) initial config ∧
      (config.mem .agents).count = 1 ∧ ConditionRight config := by
  have run := @serving_run (fun config label => Apart (side label.1 config) label.2)
    (fun _ _ => trivial) fun config _ procs => by
      show ∀ proc ∈ config.procs.filterMap (ofKind .agents), between proc = 0
      rw [procs]
      decide
  exact ⟨_, run, rfl, condition_of_apart run⟩

end Runs

end Kubecc.Scheduler.Server
