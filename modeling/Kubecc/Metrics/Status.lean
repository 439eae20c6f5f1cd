/-
**The health of a component.**

`StatusController` of `pkg/metrics/status.go`: conditions are applied while a context lives, and
`StreamHealthUpdates` sends the health of the component whenever they change. The table of conditions
is changed under `statusLock`, and the broadcast on `changed` follows after the lock has been given
away; the watcher computes the health, sends it and begins to wait without giving the lock away in
between. `sync.Cond.Wait` takes its ticket before it unlocks.

Each goroutine is a process: the calls of `ApplyCondition` and the goroutine that each of them starts,
any number of watchers, and the calls of `WaitForStatusChanged` and `GetHealth`. The reader of a
watcher's channel takes every value.

* `health` — the health, if the map is iterated in this order.
* `NoMissedChange` — a watcher that waits has been woken, or its last value is right, whenever every
  change so far has been followed by its broadcast.
* `noMissedChange` — this holds in every state of every run, as long as the server's context lives.
-/

import Kubecc.Go.Strings
import Kubecc.Lib.Cond
import Mathlib.Data.Finmap

namespace Kubecc.Metrics

open Kubecc.Go Kubecc.Lib

/-! ### The health -/

inductive StatusConditions
  | noConditions
  | pending
  | missingOptionalComponent
  | missingCriticalComponent
  | invalidConfiguration
  | internalError
deriving DecidableEq

inductive OverallStatus
  | unknownStatus
  | ready
  | initializing
  | degraded
  | unavailable
deriving DecidableEq

def OverallStatus.number : OverallStatus → Nat
  | .unknownStatus => 0
  | .ready => 1
  | .initializing => 2
  | .degraded => 3
  | .unavailable => 4

/-- `if overall < status { overall = status }`. -/
def OverallStatus.raise (overall status : OverallStatus) : OverallStatus :=
  if overall.number < status.number then status else overall

def StatusConditions.format (msg : GoString) : StatusConditions → GoString
  | .noConditions => msg
  | .pending => bytes "[Pending] " ++ msg
  | .missingOptionalComponent => bytes "[Missing Optional] " ++ msg
  | .missingCriticalComponent => bytes "[Missing Critical] " ++ msg
  | .invalidConfiguration => bytes "[Invalid Config] " ++ msg
  | .internalError => bytes "[Internal Error] " ++ msg

def StatusConditions.formatAll (condition : StatusConditions) (msgs : List GoString) : List GoString :=
  msgs.map fun msg => condition.format msg

structure ActiveCondition where
  condition : StatusConditions
  msgs : List GoString
deriving DecidableEq

structure Health where
  status : OverallStatus
  messages : List GoString
deriving DecidableEq

/-- The loop of `health`, over the conditions that are left. -/
def healthLoop : List ActiveCondition → OverallStatus → List GoString → Health
  | [], overall, msgs => ⟨overall, msgs⟩
  | v :: rest, overall, msgs =>
    let msgs := msgs ++ v.condition.formatAll v.msgs
    match v.condition with
    | .pending => ⟨.initializing, v.msgs⟩
    | .missingOptionalComponent => healthLoop rest (overall.raise .degraded) msgs
    | .missingCriticalComponent | .invalidConfiguration | .internalError =>
      healthLoop rest (overall.raise .unavailable) msgs
    | .noConditions => healthLoop rest overall msgs

/-- **`health`**, if the map is iterated in this order; `srvDone` is that the server's context is done. -/
def health (srvDone : Bool) (order : List ActiveCondition) : Health :=
  healthLoop order (if srvDone then .unavailable else .ready) []

abbrev ContextId := Nat

/-- The conditions, by the context during which they apply. -/
abbrev Conditions := Finmap fun _ : ContextId => ActiveCondition

/-- The value is a result of `health`, for some order of the map. -/
def IsHealth (srvDone : Bool) (conditions : Conditions) (result : Health) : Prop :=
  ∃ order : List (Σ _ : ContextId, ActiveCondition), ↑order = conditions.entries ∧
    health srvDone (order.map Sigma.snd) = result

/-! ### The goroutines -/

/-- A change of the table: by `ApplyCondition`, or by the goroutine that it starts. -/
inductive Change
  | set (while_ : ContextId) (active : ActiveCondition)
  | delete (while_ : ContextId)
deriving DecidableEq

def Change.apply : Change → Conditions → Conditions
  | .set while_ active, conditions => conditions.insert while_ active
  | .delete while_, conditions => conditions.erase while_

/-- Where a goroutine that changes the table stands: before `Lock`, before the change, before `Unlock`,
and before `Broadcast`. -/
inductive ChangePhase
  | lock
  | locked
  | changed
  | unlocked
deriving DecidableEq

/-- Where a watcher stands outside `Wait`: at the top of its loop, before `Lock`, before it computes the
health, and before it sends it. -/
inductive WatchPhase
  | check
  | lock
  | locked
  | computed (health : Health)
deriving DecidableEq

/-- Who has called `Wait`: a watcher, with the health that it has sent last, or `WaitForStatusChanged`. -/
inductive Caller
  | watcher (last : Health)
  | statusChanged
deriving DecidableEq

/-- Where a call of `Wait` stands: before it takes its ticket, before it unlocks, parked, before it locks
again, and about to return with the lock. -/
inductive WaitPhase
  | add
  | unlock (ticket : ℕ)
  | parked (ticket : ℕ)
  | relock
  | relocked
deriving DecidableEq

inductive Proc
  | change (change : Change) (phase : ChangePhase)
  | conditionGoroutine (while_ : ContextId)
  | watcher (phase : WatchPhase)
  | wait (caller : Caller) (phase : WaitPhase)
  | waitForStatusChanged
  | getHealth (locked : Bool)
  | returned
deriving DecidableEq

/-- What the goroutines share: `statusLock` with `changed`, the table, and the contexts that are done. -/
structure Mem where
  cond : Cond
  conditions : Conditions
  done : ContextId → Bool
  srvDone : Bool

abbrev State := Config Mem Proc

inductive Act : Rules Mem Proc Unit
  -- the environment
  | applyCondition {mem} (while_ : ContextId) (active : ActiveCondition) :
      Act () mem [] mem [.change (.set while_ active) .lock]
  | cancel {mem} (context : ContextId) :
      Act () mem [] { mem with done := Function.update mem.done context true } []
  | cancelServer {mem} : Act () mem [] { mem with srvDone := true } []
  | streamHealthUpdates {mem} : Act () mem [] mem [.watcher .check]
  | callWait {mem} : Act () mem [] mem [.waitForStatusChanged]
  | callGetHealth {mem} : Act () mem [] mem [.getHealth false]
  -- ApplyCondition, and the goroutine that it starts
  | lockChange {mem} {change : Change} : mem.cond.locked = false →
      Act () mem [.change change .lock] { mem with cond := mem.cond.lock } [.change change .locked]
  | change {mem} {change : Change} :
      Act () mem [.change change .locked] { mem with conditions := change.apply mem.conditions }
        [.change change .changed]
  | unlockChange {mem} {change : Change} :
      Act () mem [.change change .changed] { mem with cond := mem.cond.unlock }
        [.change change .unlocked]
  | broadcastSet {mem} {while_ : ContextId} {active : ActiveCondition} :
      Act () mem [.change (.set while_ active) .unlocked] { mem with cond := mem.cond.broadcast }
        [.conditionGoroutine while_]
  | broadcastDelete {mem} {while_ : ContextId} :
      Act () mem [.change (.delete while_) .unlocked] { mem with cond := mem.cond.broadcast }
        [.returned]
  | contextDone {mem} {while_ : ContextId} : mem.done while_ = true ∨ mem.srvDone = true →
      Act () mem [.conditionGoroutine while_] mem [.change (.delete while_) .lock]
  -- StreamHealthUpdates
  | checkDone {mem} : mem.srvDone = true → Act () mem [.watcher .check] mem [.returned]
  | check {mem} : mem.srvDone = false → Act () mem [.watcher .check] mem [.watcher .lock]
  | lockWatcher {mem} : mem.cond.locked = false →
      Act () mem [.watcher .lock] { mem with cond := mem.cond.lock } [.watcher .locked]
  | compute {mem} {result : Health} : IsHealth mem.srvDone mem.conditions result →
      Act () mem [.watcher .locked] mem [.watcher (.computed result)]
  | send {mem} {result : Health} :
      Act () mem [.watcher (.computed result)] mem [.wait (.watcher result) .add]
  | unlockWatcher {mem} {last : Health} :
      Act () mem [.wait (.watcher last) .relocked] { mem with cond := mem.cond.unlock }
        [.watcher .check]
  -- WaitForStatusChanged and GetHealth
  | lockWait {mem} : mem.cond.locked = false →
      Act () mem [.waitForStatusChanged] { mem with cond := mem.cond.lock } [.wait .statusChanged .add]
  | unlockWait {mem} :
      Act () mem [.wait .statusChanged .relocked] { mem with cond := mem.cond.unlock } [.returned]
  | lockHealth {mem} : mem.cond.locked = false →
      Act () mem [.getHealth false] { mem with cond := mem.cond.lock } [.getHealth true]
  | unlockHealth {mem} :
      Act () mem [.getHealth true] { mem with cond := mem.cond.unlock } [.returned]
  -- Wait
  | add {mem} {caller : Caller} :
      Act () mem [.wait caller .add] { mem with cond := mem.cond.enqueue }
        [.wait caller (.unlock mem.cond.wait)]
  | park {mem} {caller : Caller} {ticket : ℕ} :
      Act () mem [.wait caller (.unlock ticket)] { mem with cond := mem.cond.unlock }
        [.wait caller (.parked ticket)]
  | wake {mem} {caller : Caller} {ticket : ℕ} : ticket < mem.cond.notify →
      Act () mem [.wait caller (.parked ticket)] mem [.wait caller .relock]
  | relock {mem} {caller : Caller} : mem.cond.locked = false →
      Act () mem [.wait caller .relock] { mem with cond := mem.cond.lock } [.wait caller .relocked]

/-- The controller in `BeginInitialize`, which applies the first condition. -/
def start : State :=
  .ofList ⟨.new, ∅, fun _ => false, false⟩
    [.change (.set 0 ⟨.pending, [bytes "Component is initializing"]⟩) .lock]

/-! ### The property -/

/-- The goroutine has changed the table, and the broadcast has still to follow. -/
def Proc.owes : Proc → Bool
  | .change _ .changed | .change _ .unlocked => true
  | _ => false

/-- **No change is missed**: while the server's context lives, and every change has been followed by its
broadcast, a watcher that waits has been woken, or the last health that it has sent is a result of
`health` on the table as it is. -/
def NoMissedChange (config : State) : Prop :=
  config.mem.srvDone = false → (∀ proc ∈ config.procs, proc.owes = false) →
    ∀ last ticket, Proc.wait (.watcher last) (.parked ticket) ∈ config.procs →
      ticket < config.mem.cond.notify ∨ IsHealth false config.mem.conditions last

/-! ### The watch -/

/-- Where a goroutine stands with `statusLock`. -/
def Proc.stand : Proc → Stand
  | .change _ .locked | .change _ .changed => .inside
  | .watcher .locked | .watcher (.computed _) => .inside
  | .wait _ .add | .wait _ .relocked => .inside
  | .wait _ (.unlock ticket) => .queued ticket
  | .wait _ (.parked ticket) => .parked ticket
  | .getHealth true => .inside
  | _ => .outside

/-- The health that a watcher has computed and not given up. -/
def Proc.known : Proc → Option Health
  | .watcher (.computed result) => some result
  | .wait (.watcher last) .add | .wait (.watcher last) (.unlock _)
  | .wait (.watcher last) (.parked _) => some last
  | _ => none

theorem stand_of_known {proc : Proc} (known : proc.known.isSome = true) :
    proc.stand.holds = 1 ∨ ∃ ticket, proc.stand = .parked ticket := by
  cases proc with
  | watcher phase =>
    cases phase with
    | computed => exact .inl rfl
    | check | lock | locked => exact absurd known nofun
  | wait caller phase =>
    cases phase with
    | add | unlock => exact .inl rfl
    | parked ticket => exact .inr ⟨ticket, rfl⟩
    | relock | relocked => cases caller <;> exact absurd known nofun
  | change | conditionGoroutine | waitForStatusChanged | getHealth | returned =>
    exact absurd known nofun

/-- The watchers know the health of the table. -/
def watch : Watch Conditions Proc where
  stand := Proc.stand
  knows proc := proc.known.isSome = true
  fresh conditions proc := ∀ result, proc.known = some result → IsHealth false conditions result
  owes proc := proc.owes = true
  knowing _ := stand_of_known

section Steps

variable {cond cond' : Cond} {conditions conditions' : Conditions} {proc after : Proc}

theorem obeys_move (move : cond.Move proc.stand cond' after.stand) (settled : proc.owes = false)
    (unknown : after.known = none) : watch.Obeys cond conditions [proc] cond' conditions [after] := by
  refine .turn move (.inl rfl) (fun owes => ?_) fun knows => ?_
  · exact absurd (settled.symm.trans owes) nofun
  · exact absurd (show after.known.isSome = true from knows) (by rw [unknown]; nofun)

theorem obeys_change (move : cond.Move proc.stand cond' after.stand)
    (changes : conditions' = conditions ∨ proc.stand = .inside ∧ after.owes = true)
    (settles : after.owes = true ∨ cond'.notify = cond'.wait) (unknown : after.known = none) :
    watch.Obeys cond conditions [proc] cond' conditions' [after] := by
  refine .turn move (changes.imp_right fun change => ⟨?_, change.2⟩) (fun _ => settles) fun knows => ?_
  · rw [Watch.holds]
    exact congrArg Stand.holds change.1
  · exact absurd (show after.known.isSome = true from knows) (by rw [unknown]; exact Bool.false_ne_true)

/-- A step of a watcher that keeps the lock, or only now begins to wait, with what it knows. -/
theorem obeys_keep (move : cond.Move proc.stand cond' after.stand) (settled : proc.owes = false)
    (holds : proc.stand.holds = 1) (same : after.known = proc.known) :
    watch.Obeys cond conditions [proc] cond' conditions [after] := by
  refine .turn move (.inl rfl) (fun owes => ?_) fun knows => .inr ⟨rfl, ?_, holds, ?_⟩
  · exact absurd (settled.symm.trans owes) nofun
  · show proc.known.isSome = true
    rw [← same]
    exact knows
  · exact fun fresh result is => fresh result (same ▸ is)

end Steps

theorem obeys_act {mem mem' : Mem} {acting left : List Proc} (act : Act () mem acting mem' left)
    (alive : mem'.srvDone = false) :
    watch.Obeys mem.cond mem.conditions acting mem'.cond mem'.conditions left := by
  cases act with
  | applyCondition | streamHealthUpdates | callWait | callGetHealth =>
    exact .spawn (List.forall_mem_singleton.mpr rfl)
  | cancel => exact .spawn (List.forall_mem_nil _)
  | cancelServer => exact absurd alive nofun
  | lockChange free | lockWatcher free | lockHealth free => exact obeys_move (.lock free) rfl rfl
  | lockWait free => exact obeys_move (.lock free) rfl rfl
  | @relock _ caller free => exact obeys_move (.lock free) rfl (by cases caller <;> rfl)
  | change => exact obeys_change .stay (.inr ⟨rfl, rfl⟩) (.inl rfl) rfl
  | unlockChange => exact obeys_change .unlock (.inl rfl) (.inl rfl) rfl
  | broadcastSet | broadcastDelete => exact obeys_change .broadcast (.inl rfl) (.inr rfl) rfl
  | contextDone | checkDone | check => exact obeys_move .stay rfl rfl
  | compute is =>
    refine .turn .stay (.inl rfl) (fun owes => absurd owes nofun) fun _ => .inl fun result known => ?_
    obtain rfl := Option.some.inj known
    exact alive ▸ is
  | send => exact obeys_keep .stay rfl rfl rfl
  | unlockWatcher | unlockWait | unlockHealth => exact obeys_move .unlock rfl rfl
  | @add _ caller => exact obeys_keep .enqueue rfl rfl (by cases caller <;> rfl)
  | @park _ caller => exact obeys_keep .park rfl rfl (by cases caller <;> rfl)
  | @wake _ caller _ called => exact obeys_move (.wake called) rfl (by cases caller <;> rfl)

theorem alive_of_alive {mem mem' : Mem} {acting left : List Proc} (act : Act () mem acting mem' left)
    (alive : mem'.srvDone = false) : mem.srvDone = false := by
  cases act <;> first | exact alive | exact absurd alive nofun

/-- **No health change is missed**, in every state of every run. -/
theorem noMissedChange {config : State} (reach : Reach Act (fun _ _ => True) start config) :
    NoMissedChange config := by
  have informed : config.mem.srvDone = false →
      watch.Informed config.mem.cond config.mem.conditions config.procs := by
    refine reach.invariant (fun config => config.mem.srvDone = false →
      watch.Informed config.mem.cond config.mem.conditions config.procs) ?_ ?_
    · refine fun _ => ⟨rfl, fun proc member => ?_, fun proc member knows => ?_⟩
      · obtain rfl := List.mem_singleton.mp (Multiset.mem_coe.mp member)
        exact fun _ => nofun
      · obtain rfl := List.mem_singleton.mp (Multiset.mem_coe.mp member)
        exact absurd knows nofun
    · intro config label next ih _ step alive
      cases step with
      | fire rest act => exact (ih (alive_of_alive act alive)).obeys (obeys_act act alive)
  intro alive settled last ticket member
  have settled : ∀ proc ∈ config.procs, ¬ watch.owes proc := fun proc there owes =>
    absurd ((settled proc there).symm.trans owes) nofun
  rcases (informed alive).called_or_fresh settled member rfl rfl with called | fresh
  · exact .inl called
  · exact .inr (fresh last rfl)

def initializing : Health := ⟨.initializing, [bytes "Component is initializing"]⟩

/-- The first condition is applied, and a watcher sends the health and waits. -/
theorem noMissedChange_initializing :
    ∃ config, Reach Act (fun _ _ => True) start config ∧
      Proc.wait (.watcher initializing) (.parked 0) ∈ config.procs ∧ config.mem.cond.notify = 0 ∧
      (∀ proc ∈ config.procs, proc.owes = false) ∧ NoMissedChange config := by
  have run : Reach Act (fun _ _ => True) start (.ofList _ [.change _ .lock]) := .start
  have run := run.next [_] [] (.lockChange rfl) trivial (.refl _)
  have run := run.next [_] [] .change trivial (.refl _)
  have run := run.next [_] [] .unlockChange trivial (.refl _)
  have run := run.next [_] [] .broadcastSet trivial (.refl _)
  have run := run.next [] _ .streamHealthUpdates trivial (.refl _)
  have run := run.next [_] [_] (.check rfl) trivial (.refl _)
  have run := run.next [_] [_] (.lockWatcher rfl) trivial (.refl _)
  have computes : IsHealth false (Finmap.insert 0 ⟨.pending, [bytes "Component is initializing"]⟩ ∅)
      initializing := ⟨[⟨0, ⟨.pending, [bytes "Component is initializing"]⟩⟩], rfl, rfl⟩
  have run := run.next [_] [_] (.compute computes) trivial (.refl _)
  have run := run.next [_] [_] .send trivial (.refl _)
  have run := run.next [_] [_] .add trivial (.refl _)
  have run := run.next [_] [_] .park trivial (.refl _)
  refine ⟨_, run, Multiset.mem_coe.mpr List.mem_cons_self, rfl, fun proc member => ?_, noMissedChange run⟩
  simp only [Config.ofList, Multiset.mem_coe, List.cons_append, List.nil_append, List.mem_cons,
    List.not_mem_nil, or_false] at member
  rcases member with rfl | rfl <;> rfl

end Kubecc.Metrics
