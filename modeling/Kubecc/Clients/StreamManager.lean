/-
**The stream manager.**

`StreamManager.Run` of `pkg/clients/stream.go`: it connects, handles the stream, and tries again, with a
status condition applied whenever there is no connection. The condition is applied by `applyCondition`,
which makes a context for it, and is given up by cancelling that context. `Run` has the latest context in
`condCtx` and its cancel function in `cancelCond`; it applies the condition anew only if the context of the
last one is cancelled, and a deferred call cancels the one that is there at the end.

Between any two statements the context of the manager can be cancelled, or reach its deadline. The error
of it decides whether `Run` goes on after `TryConnect` or `HandleStream` have failed.

* `Held` — all contexts made so far are cancelled but for the last one, of which it is said whether it is;
  `Phase.cancelled` says this for each place in `Run`.
* `Tracks` — the property: a condition is applied while there is no connection and at no other time, and
  `Run` does not return without a reason.
* `tracks` — it holds in every state of every run.
* `statusOf_conditions` — the status that a controller reports on account of the manager.
-/

import Kubecc.Lib.Liveness
import Kubecc.Metrics.Health

namespace Kubecc.Clients.StreamManager

open Kubecc.Go Kubecc.Lib Kubecc.Metrics

inductive StatusCtrlKind
  | optional
  | required
deriving DecidableEq

/-- What `Run` uses of the `StreamManager`: whether there is a status controller, the kind of its
conditions, and the target of the handler. -/
structure Options where
  statusCtrl : Bool
  statusKind : StatusCtrlKind
  target : GoString

/-- The condition that `applyCondition` applies. -/
def Options.condition (options : Options) : ActiveCondition :=
  ⟨match options.statusKind with
    | .optional => .missingOptionalComponent
    | .required => .missingCriticalComponent,
    [bytes "Attempting to connect to " ++ options.target]⟩

inductive ContextErr
  | canceled
  | deadlineExceeded
deriving DecidableEq

/-- What `TryConnect` or `HandleStream` has returned. -/
inductive Outcome
  | connectFailed
  | connected
  | streamFailed
  | streamFinished
deriving DecidableEq

/-- Where `Run` stands: before it applies the first condition, in `TryConnect`, before it looks at the
context and at `condCtx` after an error of it, in `waitBackoff`, before `cancelCond()`, in `HandleStream`,
before it looks at `condCtx` and at the error and the context after that, before the deferred call, and
after it. -/
inductive Phase
  | called
  | tryConnect
  | connectFailed
  | checkCondition
  | waitBackoff
  | connected
  | handleStream
  | handled (err : Bool)
  | lost (err : Bool)
  | returning
  | returned
deriving DecidableEq

/-- The state of `Run`. `contexts` says of each context made by `applyCondition` whether it is cancelled;
`condCtx` is the number of the latest one. `applied` are the calls of `ApplyCondition`, and `last` is what
`TryConnect` or `HandleStream` has returned last. -/
structure State where
  phase : Phase
  contexts : List Bool
  condCtx : Nat
  applied : List (Nat × ActiveCondition)
  ctxErr : Option ContextErr
  last : Option Outcome
deriving DecidableEq

/-- `condCtx, cancelCond = sm.applyCondition()`. -/
def applyCondition (options : Options) (state : State) : State :=
  { state with
    contexts := state.contexts ++ [false]
    condCtx := state.contexts.length
    applied := if options.statusCtrl then
        state.applied ++ [(state.contexts.length, options.condition)]
      else state.applied }

def cancelCond (state : State) : State :=
  { state with contexts := state.contexts.set state.condCtx true }

def condErr (state : State) : Bool := state.contexts.getD state.condCtx false

inductive Event
  | context (err : ContextErr)
  | tryConnect (err : Bool)
  | handleStream (err : Bool)
  | waited
  | internal
deriving DecidableEq

inductive Act (options : Options) : State → Event → State → Prop
  -- the context of the manager
  | context {state} (err : ContextErr) : state.ctxErr = none →
      Act options state (.context err) { state with ctxErr := some err }
  | apply {state} : state.phase = .called →
      Act options state .internal { applyCondition options state with phase := .tryConnect }
  -- TryConnect fails
  | connectFails {state} : state.phase = .tryConnect →
      Act options state (.tryConnect true)
        { state with phase := .connectFailed, last := some .connectFailed }
  | shutDown {state} : state.phase = .connectFailed → state.ctxErr = some .canceled →
      Act options state .internal { state with phase := .returning }
  | retry {state} : state.phase = .connectFailed → state.ctxErr ≠ some .canceled →
      Act options state .internal { state with phase := .checkCondition }
  | applyAgain {state} : state.phase = .checkCondition → condErr state = true →
      Act options state .internal { applyCondition options state with phase := .waitBackoff }
  | keep {state} : state.phase = .checkCondition → condErr state = false →
      Act options state .internal { state with phase := .waitBackoff }
  | waited {state} : state.phase = .waitBackoff →
      Act options state .waited { state with phase := .tryConnect }
  -- TryConnect succeeds
  | connects {state} : state.phase = .tryConnect →
      Act options state (.tryConnect false) { state with phase := .connected, last := some .connected }
  | cancelCond {state} : state.phase = .connected →
      Act options state .internal { cancelCond state with phase := .handleStream }
  | handles {state} (err : Bool) : state.phase = .handleStream →
      Act options state (.handleStream err)
        { state with
          phase := .handled err
          last := some (if err then .streamFailed else .streamFinished) }
  | lose {state} {err : Bool} : state.phase = .handled err → condErr state = true →
      Act options state .internal { applyCondition options state with phase := .lost err }
  | loseKeep {state} {err : Bool} : state.phase = .handled err → condErr state = false →
      Act options state .internal { state with phase := .lost err }
  | shutDownLost {state} : state.phase = .lost true → state.ctxErr = some .canceled →
      Act options state .internal { state with phase := .returning }
  | reconnect {state} : state.phase = .lost true → state.ctxErr ≠ some .canceled →
      Act options state .internal { state with phase := .waitBackoff }
  | finish {state} : state.phase = .lost false →
      Act options state .internal { state with phase := .returning }
  -- the deferred call
  | deferred {state} : state.phase = .returning →
      Act options state .internal { StreamManager.cancelCond state with phase := .returned }

def initial : State := ⟨.called, [], 0, [], none, none⟩

/-! ### The property -/

/-- What `Run` may return after. -/
def Ended (state : State) : Prop :=
  state.last = some .streamFinished ∨
    (state.last = some .connectFailed ∨ state.last = some .streamFailed) ∧ state.ctxErr = some .canceled

/-- **The condition tracks the connection**: never two condition contexts are alive; one is in `TryConnect`
and `waitBackoff`; none is in `HandleStream` and after the return; and `Run` returns when the stream has
finished, or after an error, with its context cancelled. -/
structure Tracks (state : State) : Prop where
  atMostOne : state.contexts.count false ≤ 1
  unconnected : state.phase = .tryConnect ∨ state.phase = .waitBackoff → state.contexts.count false = 1
  connected : state.phase = .handleStream ∨ state.phase = .returned → state.contexts.count false = 0
  returns : state.phase = .returned → Ended state

/-! ### The contexts -/

/-- All contexts but the latest are cancelled, and that one is as it is said. -/
def Held (state : State) (cancelled : Bool) : Prop :=
  state.contexts = List.replicate state.condCtx true ++ [cancelled]

section Contexts

variable {options : Options} {state : State} {cancelled : Bool}

theorem Held.applyCondition (held : Held state true) :
    Held (StreamManager.applyCondition options state) false := by
  show state.contexts ++ [false] = List.replicate state.contexts.length true ++ [false]
  rw [held, List.length_append, List.length_replicate, List.length_singleton, List.replicate_succ']

theorem Held.cancelCond (held : Held state cancelled) : Held (StreamManager.cancelCond state) true := by
  show state.contexts.set state.condCtx true = _
  rw [held, List.set_append_right _ _ (by rw [List.length_replicate]), List.length_replicate, Nat.sub_self]
  rfl

theorem Held.condErr (held : Held state cancelled) : condErr state = cancelled := by
  rw [StreamManager.condErr, held, List.getD_eq_getElem?_getD,
    List.getElem?_append_right (by rw [List.length_replicate]), List.length_replicate, Nat.sub_self]
  rfl

theorem Held.count (held : Held state cancelled) :
    state.contexts.count false = if cancelled then 0 else 1 := by
  rw [held, List.count_append, List.count_replicate]
  cases cancelled <;> rfl

end Contexts

/-! ### The invariant -/

/-- Whether `condCtx` is cancelled, at each place in `Run` but the first. -/
def Phase.cancelled : Phase → Bool
  | .handleStream | .handled _ | .returned => true
  | _ => false

/-- What has been returned before, at each place. -/
def After (state : State) : Prop :=
  match state.phase with
  | .connectFailed => state.last = some .connectFailed
  | .handled err | .lost err => state.last = some (if err then .streamFailed else .streamFinished)
  | .returning | .returned => Ended state
  | _ => True

/-- The calls of `ApplyCondition`: one for each context, if there is a status controller. -/
def Applied (options : Options) (state : State) : Prop :=
  state.applied = if options.statusCtrl then
    (List.range state.contexts.length).map (·, options.condition) else []

structure Tracked (options : Options) (state : State) : Prop where
  none : state.phase = .called → state.contexts = []
  held : state.phase ≠ .called → Held state state.phase.cancelled
  after : After state
  applied : Applied options state

section Steps

variable {options : Options} {state next : State} {event : Event}

theorem Applied.applyCondition (applied : Applied options state) :
    Applied options (StreamManager.applyCondition options state) := by
  show (if options.statusCtrl then _ else _) = if options.statusCtrl then
    (List.range (state.contexts ++ [false]).length).map (·, options.condition) else []
  rw [Applied] at applied
  split
  · rename_i set
    rw [applied, if_pos set, List.length_append, List.length_singleton, List.range_succ, List.map_append]
    rfl
  · rename_i unset
    rw [applied, if_neg unset]

theorem Applied.cancelCond (applied : Applied options state) :
    Applied options (StreamManager.cancelCond state) := by
  show state.applied = if options.statusCtrl then
    (List.range (state.contexts.set state.condCtx true).length).map (·, options.condition) else []
  rw [List.length_set]
  exact applied

theorem tracked_initial : Tracked options initial where
  none _ := rfl
  held started := absurd rfl started
  after := trivial
  applied := by
    rw [Applied]
    split <;> rfl

theorem Tracked.held_at {phase : Phase} (tracked : Tracked options state) (is : state.phase = phase)
    (started : phase ≠ .called) : Held state phase.cancelled := by
  subst is
  exact tracked.held started

theorem Tracked.after_at {phase : Phase} (tracked : Tracked options state) (is : state.phase = phase) :
    After { state with phase } := by
  subst is
  exact tracked.after

theorem Tracked.move {before phase : Phase} {last : Option Outcome} (tracked : Tracked options state)
    (is : state.phase = before) (started : before ≠ .called) (now : phase ≠ .called)
    (same : phase.cancelled = before.cancelled)
    (after : After { state with phase, last }) : Tracked options { state with phase, last } where
  none is := absurd is now
  held _ := by
    have held := tracked.held_at is started
    rwa [← same] at held
  after := after
  applied := tracked.applied

theorem Tracked.apply {phase : Phase} (tracked : Tracked options state)
    (given : state.contexts = [] ∨ Held state true) (now : phase ≠ .called) (alive : phase.cancelled = false)
    (after : After { state with phase }) :
    Tracked options { applyCondition options state with phase } where
  none is := absurd is now
  held _ := by
    rw [show State.phase _ = phase from rfl, alive]
    rcases given with none | held
    · show state.contexts ++ [false] = List.replicate state.contexts.length true ++ [false]
      rw [none]
      rfl
    · exact @Held.applyCondition options state held
  after := after
  applied := tracked.applied.applyCondition

theorem Tracked.cancel {before phase : Phase} (tracked : Tracked options state) (is : state.phase = before)
    (started : before ≠ .called) (now : phase ≠ .called) (gone : phase.cancelled = true)
    (after : After { state with phase }) : Tracked options { cancelCond state with phase } where
  none is := absurd is now
  held _ := by
    rw [show State.phase _ = phase from rfl, gone]
    exact (tracked.held_at is started).cancelCond
  after := after
  applied := tracked.applied.cancelCond

/-- The error of the context comes once, so it changes nothing of what `Run` has gone by. -/
theorem After.context (after : After state) (unset : state.ctxErr = none) (err : ContextErr) :
    After { state with ctxErr := some err } := by
  obtain ⟨phase, contexts, condCtx, applied, ctxErr, last⟩ := state
  obtain rfl : ctxErr = none := unset
  cases phase with
  | returning | returned => exact .inl (after.resolve_right fun case => absurd case.2 nofun)
  | _ => exact after

theorem tracked_act (tracked : Tracked options state) (act : Act options state event next) :
    Tracked options next := by
  cases act with
  | context err unset =>
    exact ⟨tracked.none, tracked.held, tracked.after.context unset err, tracked.applied⟩
  | apply is => exact tracked.apply (.inl (tracked.none is)) nofun rfl trivial
  | connectFails is | handles _ is => exact tracked.move is nofun nofun rfl rfl
  | shutDown is cancelled =>
    exact tracked.move is nofun nofun rfl (.inr ⟨.inl (tracked.after_at is), cancelled⟩)
  | applyAgain is cancelled =>
    exact absurd ((tracked.held_at is nofun).condErr.symm.trans cancelled) nofun
  | retry is | keep is | waited is | connects is | reconnect is =>
    exact tracked.move is nofun nofun rfl trivial
  | cancelCond is => exact tracked.cancel is nofun nofun rfl trivial
  | lose is =>
    have last : state.last = _ := tracked.after_at is
    exact tracked.apply (.inr (tracked.held_at is nofun)) nofun rfl last
  | loseKeep is alive => exact absurd ((tracked.held_at is nofun).condErr.symm.trans alive) nofun
  | shutDownLost is cancelled =>
    exact tracked.move is nofun nofun rfl (.inr ⟨.inr (tracked.after_at is), cancelled⟩)
  | finish is => exact tracked.move is nofun nofun rfl (.inl (tracked.after_at is))
  | deferred is =>
    have ended : Ended state := tracked.after_at is
    exact tracked.cancel is nofun nofun rfl ended

end Steps

section Runs

variable {options : Options} {state : State}

theorem tracked (leads : Leads (Act options) (fun _ _ => True) initial state) : Tracked options state :=
  leads.invariant (Tracked options) tracked_initial fun tracked _ act => tracked_act tracked act

theorem Tracked.count (tracked : Tracked options state) : state.contexts.count false
    = if state.phase = .called ∨ state.phase.cancelled = true then 0 else 1 := by
  by_cases called : state.phase = .called
  · rw [tracked.none called, if_pos (.inl called), List.count_nil]
  · rw [(tracked.held called).count]
    simp only [called, false_or]

/-- **The condition tracks the connection**, in every state of every run. -/
theorem tracks (options : Options) (state : State)
    (leads : Leads (Act options) (fun _ _ => True) initial state) : Tracks state := by
  have tracked := tracked leads
  have count := tracked.count
  refine ⟨?_, fun at_ => ?_, fun at_ => ?_, fun is => ?_⟩
  · rw [count]
    split <;> decide
  · rw [count]
    rcases at_ with is | is <;> rw [is] <;> rfl
  · rw [count]
    rcases at_ with is | is <;> rw [is] <;> rfl
  · exact tracked.after_at is

/-- The stream is lost once, and then finishes. -/
theorem tracks_reconnected : ∃ state,
    Leads (Act ⟨true, .required, bytes "scheduler"⟩) (fun _ _ => True) initial state ∧
      state.phase = .returned ∧ state.contexts = [true, true, true] ∧ Tracks state := by
  have run : Leads (Act ⟨true, .required, bytes "scheduler"⟩) (fun _ _ => True) initial initial := .start
  have run := run.step trivial (.apply rfl)
  have run := run.step trivial (.connects rfl)
  have run := run.step trivial (.cancelCond rfl)
  have run := run.step trivial (.handles true rfl)
  have run := run.step trivial (.lose rfl rfl)
  have run := run.step trivial (.reconnect rfl nofun)
  have run := run.step trivial (.waited rfl)
  have run := run.step trivial (.connects rfl)
  have run := run.step trivial (.cancelCond rfl)
  have run := run.step trivial (.handles false rfl)
  have run := run.step trivial (.lose rfl rfl)
  have run := run.step trivial (.finish rfl)
  have run := run.step trivial (.deferred rfl)
  exact ⟨_, run, rfl, rfl, tracks _ _ run⟩

def conditions (state : State) : List ActiveCondition :=
  (state.applied.filter fun entry => state.contexts.getD entry.1 false = false).map Prod.snd

theorem Held.getD_of_lt {cancelled : Bool} (held : Held state cancelled) {i : Nat} (older : i < state.condCtx) :
    state.contexts.getD i false = true := by
  rw [held, List.getD_eq_getElem?_getD, List.getElem?_append_left (by rwa [List.length_replicate]),
    List.getElem?_replicate, if_pos older]
  rfl

theorem Held.conditions {cancelled : Bool} (held : Held state cancelled)
    (applied : state.applied = (List.range state.contexts.length).map (·, options.condition)) :
    conditions state = if cancelled then [] else [options.condition] := by
  have length : state.contexts.length = state.condCtx + 1 := by
    rw [held, List.length_append, List.length_replicate, List.length_singleton]
  have older : ((List.range state.condCtx).map (·, options.condition)).filter
      (fun entry => state.contexts.getD entry.1 false = false) = [] := by
    rw [List.filter_eq_nil_iff]
    intro entry member
    obtain ⟨i, inside, rfl⟩ := List.mem_map.mp member
    rw [held.getD_of_lt (List.mem_range.mp inside)]
    decide
  have latest : state.contexts.getD state.condCtx false = cancelled := held.condErr
  rw [StreamManager.conditions, applied, length, List.range_succ, List.map_append, List.filter_append, older,
    List.nil_append, List.map_singleton]
  simp only [List.filter_cons, latest]
  cases cancelled <;> rfl

/-- **What the controller reports on account of the manager**: a missing component, of the kind that the
manager was given, while there is no connection, and nothing while there is one. -/
theorem statusOf_conditions (set : options.statusCtrl = true)
    (leads : Leads (Act options) (fun _ _ => True) initial state) (started : state.phase ≠ .called) :
    statusOf (conditions state) = if state.phase.cancelled then .ready else
      options.condition.condition.level := by
  have tracked := tracked leads
  have applied := tracked.applied
  rw [Applied, if_pos set] at applied
  rw [(tracked.held started).conditions applied]
  obtain ⟨statusCtrl, statusKind, target⟩ := options
  split <;> cases statusKind <;> rfl

theorem statusOf_conditions_started : ∃ state, state.contexts = [false] ∧
    statusOf (conditions state) = StatusConditions.level .missingCriticalComponent := by
  have run : Leads (Act ⟨true, .required, bytes "scheduler"⟩) (fun _ _ => True) initial initial := .start
  have run := run.step trivial (.apply rfl)
  exact ⟨_, rfl, statusOf_conditions rfl run (by decide)⟩

end Runs

end Kubecc.Clients.StreamManager
