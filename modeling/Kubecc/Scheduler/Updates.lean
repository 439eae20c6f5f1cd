/-
**Toolchain updates on their way to the router.**

The listener of `WatchToolchains` decodes every list that its stream delivers into one message object
and hands out the pointer to it; a stream that is opened again has an object of its own.
`NewConsumerdTaskStream` records the first pointer with the consumerd, and takes one more for
`UpdateSenderToolchains`, which compares what the two pointers show and records the second.

* `Rule` — the listener, the goroutines of `NewConsumerdTaskStream` and the router, on message objects.
* `Applied` — when nothing moves, the recorded toolchains of a consumerd are those delivered last, and it
  is attached to their routes and no others.
* `applied_of_steady` — this holds in every run in which the list delivered after the registration of a
  consumerd is the one before, or the first on a new stream while an update is still awaited, and
  the steps of the router are orderly.
* `alias_hides_update` — a list that arrives on the stream of the registration overwrites the recorded
  one, and the update finds no difference.
-/

import Kubecc.Scheduler.Withdrawal

namespace Kubecc.Scheduler.Updates

open Kubecc.Lib Kubecc.Go Kubecc.Types

/-- The toolchains of one consumerd on their way. `object` holds the messages, one for each stream of the
listener, and `stream` is the current one; `inbox` holds what the stream has delivered and the listener
has not received; `offering` says that the listener offers the pointer to the current message on its
channel; `record` is the pointer in the `Toolchains` field of the consumerd; and `latest` is the list
delivered last. -/
structure Watch where
  opened : Bool
  object : Nat → List Toolchain
  stream : Nat
  inbox : List (List Toolchain)
  offering : Bool
  record : Option Nat
  latest : Option (List Toolchain)

/-- What the recorded pointer shows. -/
def Watch.recorded (w : Watch) : List Toolchain :=
  match w.record with
  | some msg => w.object msg
  | none => []

structure Mem where
  shared : Routes.Shared
  watch : ConsumerdId → Watch

/-- Writes what there is of the toolchains of a consumerd; its record shows what it points to. -/
def Mem.put (mem : Mem) (cd : ConsumerdId) (w : Watch) : Mem :=
  { shared := { mem.shared with
      router := { mem.shared.router with
        toolchains := Function.update mem.shared.router.toolchains cd w.recorded } }
    watch := Function.update mem.watch cd w }

def Mem.connect (mem : Mem) (cd : ConsumerdId) : Mem :=
  { mem with shared := { mem.shared with
      connected := Function.update mem.shared.connected (.sender cd) true } }

def Mem.setRouter (mem : Mem) (router : Router) : Mem :=
  { mem with shared := { mem.shared with router := router } }

/-- The goroutines: those of the router, and for each consumerd that of `NewConsumerdTaskStream`, which
waits for its toolchains, calls `AddSender`, waits for an update and calls `UpdateSenderToolchains`. -/
inductive Proc
  | router (proc : RouterProc)
  | registering (cd : ConsumerdId)
  | adding (cd : ConsumerdId)
  | watching (cd : ConsumerdId)
  | updating (cd : ConsumerdId) (msg : Nat)
  | dropping (cd : ConsumerdId) (old : List Toolchain) (msg : Nat)
  | cancelling (cd : ConsumerdId) (rt : RouteId) (old : List Toolchain) (msg : Nat)
deriving DecidableEq

abbrev State := Config Mem Proc

inductive Event
  | opens (cd : ConsumerdId)
  | deliver (cd : ConsumerdId) (tcs : List Toolchain)
  | reconnect (cd : ConsumerdId)
  | timeout (cd : ConsumerdId)
  | connect (agent : AgentId) (tcs : List Toolchain)
  | disconnect (party : Party)
  | route (tc : Toolchain)
  | internal
deriving DecidableEq

/-- **The listener, and who waits for it.** A stream delivers in order, and ends after what it has
delivered. -/
inductive WatchAct : Rules Mem Proc Event
  | opens {mem} (cd : ConsumerdId) : (mem.watch cd).opened = false →
      WatchAct (.opens cd) mem [] (mem.put cd { mem.watch cd with opened := true })
        [.registering cd]
  -- changeListener
  | delivers {mem} (cd : ConsumerdId) (tcs : List Toolchain) : (mem.watch cd).opened = true →
      WatchAct (.deliver cd tcs) mem []
        (mem.put cd { mem.watch cd with
          inbox := (mem.watch cd).inbox ++ [tcs], latest := some tcs }) []
  | reconnects {mem} (cd : ConsumerdId) : (mem.watch cd).opened = true →
      (mem.watch cd).offering = false → (mem.watch cd).inbox = [] →
      WatchAct (.reconnect cd) mem []
        (mem.put cd { mem.watch cd with stream := (mem.watch cd).stream + 1 }) []
  | receives {mem} {cd : ConsumerdId} {tcs : List Toolchain} {more : List (List Toolchain)} :
      (mem.watch cd).offering = false → (mem.watch cd).inbox = tcs :: more →
      WatchAct .internal mem []
        (mem.put cd { mem.watch cd with
          inbox := more
          object := Function.update (mem.watch cd).object (mem.watch cd).stream tcs
          offering := true }) []
  -- NewConsumerdTaskStream
  | registers {mem} {cd : ConsumerdId} : (mem.watch cd).offering = true →
      WatchAct .internal mem [.registering cd]
        ((mem.put cd { mem.watch cd with
          offering := false, record := some (mem.watch cd).stream }).connect cd)
        [.adding cd]
  | timesOut {mem} (cd : ConsumerdId) : WatchAct (.timeout cd) mem [.registering cd] mem []
  | takes {mem} {cd : ConsumerdId} : (mem.watch cd).offering = true →
      WatchAct .internal mem [.watching cd] (mem.put cd { mem.watch cd with offering := false })
        [.updating cd (mem.watch cd).stream]
  | watchStops {mem} {cd : ConsumerdId} : mem.shared.done (.sender cd) = true →
      WatchAct .internal mem [.watching cd] mem []

/-- **`AddSender` and `UpdateSenderToolchains`, as far as they read the messages.** Each look at a message
reads what it holds then; a `range` keeps the list that it starts with. -/
inductive UpdateAct (md5 : GoString → GoString) : Rules Mem Proc Event
  | lockAdd {mem} {cd : ConsumerdId} : mem.shared.router.mutex (.sender cd) = false →
      UpdateAct md5 .internal mem [.adding cd]
        (mem.setRouter (mem.shared.router.setMutex true (.sender cd)))
        [.router (.attaching (.sender cd) (mem.shared.router.toolchains cd) true)]
  | updateLock {mem} {cd : ConsumerdId} {msg : Nat} :
      mem.shared.router.mutex (.sender cd) = false →
      UpdateAct md5 .internal mem [.updating cd msg]
        (mem.setRouter (mem.shared.router.setMutex true (.sender cd)))
        [.dropping cd (mem.shared.router.toolchains cd) msg]
  | keep {mem} {cd : ConsumerdId} {oldTc : Toolchain} {old : List Toolchain} {msg : Nat} :
      stillExists ((mem.watch cd).object msg) oldTc = true →
      UpdateAct md5 .internal mem [.dropping cd (oldTc :: old) msg] mem [.dropping cd old msg]
  | drop {mem} {cd : ConsumerdId} {oldTc : Toolchain} {old : List Toolchain} {msg : Nat} :
      stillExists ((mem.watch cd).object msg) oldTc = false →
      UpdateAct md5 .internal mem [.dropping cd (oldTc :: old) msg]
        (mem.setRouter (mem.shared.router.ensure (tcHash md5 oldTc)))
        (.cancelling cd (mem.shared.router.routeFor (tcHash md5 oldTc)) old msg ::
          (mem.shared.router.spawned (tcHash md5 oldTc)).map .router)
  | cancel {mem} {cd : ConsumerdId} {rt : RouteId} {old : List Toolchain} {msg : Nat} :
      UpdateAct md5 .internal mem [.cancelling cd rt old msg]
        (mem.setRouter (mem.shared.router.cancel rt)) [.dropping cd old msg]
  | update {mem} {cd : ConsumerdId} {msg : Nat} :
      UpdateAct md5 .internal mem [.dropping cd [] msg]
        (mem.put cd { mem.watch cd with record := some msg })
        [.router (.attaching (.sender cd)
          (deferred (mem.shared.router.toolchains cd) ((mem.watch cd).object msg)) false)]

inductive Rule (md5 : GoString → GoString) : Rules Mem Proc Event
  | watch {event mem acting mem' left} : WatchAct event mem acting mem' left →
      Rule md5 event mem acting mem' left
  | update {event mem acting mem' left} : UpdateAct md5 event mem acting mem' left →
      Rule md5 event mem acting mem' left
  | addedSender {mem} {cd : ConsumerdId} :
      Rule md5 .internal mem [.router (.attaching (.sender cd) [] true)]
        { mem with shared := { mem.shared with
            router := mem.shared.router.setMutex false (.sender cd)
            added := Function.update mem.shared.added (.sender cd) true } }
        [.watching cd]
  | addedReceiver {mem} {agent : AgentId} :
      Rule md5 .internal mem [.router (.attaching (.receiver agent) [] true)]
        { mem with shared := { mem.shared with
            router := mem.shared.router.setMutex false (.receiver agent)
            added := Function.update mem.shared.added (.receiver agent) true } } []
  | connectReceiver {mem} (agent : AgentId) (tcs : List Toolchain) :
      mem.shared.connected (.receiver agent) = false →
      Rule md5 (.connect agent tcs) mem []
        { mem with shared := { mem.shared with
            connected := Function.update mem.shared.connected (.receiver agent) true
            receivers := Function.update mem.shared.receivers agent tcs } }
        [.router (.add (.receiver agent) tcs)]
  | disconnect {mem} (party : Party) : mem.shared.connected party = true →
      Rule md5 (.disconnect party) mem []
        { mem with shared := { mem.shared with
            done := Function.update mem.shared.done party true } } []
  | route {mem} (tc : Toolchain) :
      Rule md5 (.route tc) mem [] (mem.setRouter (mem.shared.router.ensure (tcHash md5 tc)))
        ((mem.shared.router.spawned (tcHash md5 tc)).map .router)
  | router {mem label acting router left} :
      RouterAct md5 mem.shared.done label mem.shared.router acting router left →
      Rule md5 .internal mem (acting.map .router) (mem.setRouter router) (left.map .router)

def initial : State :=
  .ofList ⟨Routes.initial.mem, fun _ => ⟨false, fun _ => [], 0, [], false, none, none⟩⟩ []

def Quiet (md5 : GoString → GoString) (config : State) : Prop :=
  ∀ event next, Step (Rule md5) config event next → event ≠ .internal

/-- **Updates reach the router**: when nothing moves, the toolchains recorded for a consumerd are those
delivered last, and the routes in the table to which it is attached are those of these toolchains. -/
def Applied (md5 : GoString → GoString) (config : State) : Prop :=
  Quiet md5 config → ∀ cd, config.mem.shared.connected (.sender cd) = true →
    config.mem.shared.done (.sender cd) = false →
    ∃ tcs, (config.mem.watch cd).latest = some tcs ∧ config.mem.shared.router.toolchains cd = tcs ∧
      ∀ hash, (∃ rt, config.mem.shared.router.routes hash = some rt ∧
        .router (.attached (.sender cd) rt) ∈ config.procs) ↔ ∃ tc ∈ tcs, tcHash md5 tc = hash

/-! ### The router by itself -/

/-- What the router sees of a goroutine: the pointers are followed. -/
def Proc.seen (mem : Mem) : Proc → Option RouterProc
  | .router proc => some proc
  | .registering _ | .watching _ => none
  | .adding cd => some (.add (.sender cd) (mem.shared.router.toolchains cd))
  | .updating cd msg => some (.update cd ((mem.watch cd).object msg))
  | .dropping cd old msg => some (.dropping cd old ((mem.watch cd).object msg))
  | .cancelling cd rt old msg => some (.cancelling cd rt old ((mem.watch cd).object msg))

/-- **What the router sees.** -/
def seen (config : State) : Routes.State :=
  ⟨config.mem.shared, config.procs.filterMap (Proc.seen config.mem)⟩

/-- **The runs in which updates go well.** -/
structure Steady (md5 : GoString → GoString) (config : State) (label : Event × List Proc) :
    Prop where
  /-- A list is delivered that is the first one or the same as before, or one on a new stream while an
  update is awaited and none is on its way. -/
  delivers : ∀ cd tcs, label.1 = .deliver cd tcs →
    (config.mem.watch cd).latest = none ∨ (config.mem.watch cd).latest = some tcs ∨
      .watching cd ∈ config.procs ∧ (config.mem.watch cd).offering = false ∧
        (config.mem.watch cd).inbox = [] ∧
        (config.mem.watch cd).record ≠ some (config.mem.watch cd).stream
  /-- The router's steps are orderly. -/
  orderly : ∀ event,
    Routes.Orderly md5 (seen config) (event, label.2.filterMap (Proc.seen config.mem))

/-! ### The messages -/

/-- **What the messages hold**: the list delivered last is what is queued, what is offered, and what the
record shows if it points to the message of the current stream. -/
structure Consistent (w : Watch) : Prop where
  recorded : w.record = some w.stream → w.latest = some (w.object w.stream)
  older : ∀ msg, w.record = some msg → msg ≤ w.stream
  offered : w.offering = true → w.latest = some (w.object w.stream)
  queued : ∀ tcs ∈ w.inbox, w.latest = some tcs

namespace Consistent

variable {w : Watch} {tcs : List Toolchain} {more : List (List Toolchain)} {msg : Nat}

/-- A list is delivered that is the first one, the same as before, or one on a new stream. -/
theorem deliver (consistent : Consistent w)
    (steady : w.latest = none ∨ w.latest = some tcs ∨
      w.offering = false ∧ w.inbox = [] ∧ w.record ≠ some w.stream) :
    Consistent { w with inbox := w.inbox ++ [tcs], latest := some tcs } := by
  obtain ⟨recorded, older, offered, queued⟩ := consistent
  rcases steady with none | same | ⟨idle, empty, other⟩
  · rw [none] at recorded offered queued
    refine ⟨fun is => absurd (recorded is) nofun, older, fun is => absurd (offered is) nofun, ?_⟩
    intro other member
    rcases List.mem_append.mp member with old | new
    · exact absurd (queued other old) nofun
    · rw [List.mem_singleton.mp new]
  · rw [same] at recorded offered queued
    refine ⟨recorded, older, offered, fun other member => ?_⟩
    rcases List.mem_append.mp member with old | new
    · exact queued other old
    · rw [List.mem_singleton.mp new]
  · refine ⟨fun is => absurd is other, older, fun is => absurd (idle.symm.trans is) nofun, ?_⟩
    intro other member
    rw [empty] at member
    rw [List.mem_singleton.mp member]

theorem reconnect (consistent : Consistent w) (idle : w.offering = false) :
    Consistent { w with stream := w.stream + 1 } := by
  refine ⟨fun is => ?_, fun msg is => ?_, fun is => absurd (idle.symm.trans is) nofun,
    consistent.queued⟩
  · exact absurd (consistent.older _ is) (Nat.not_succ_le_self _)
  · exact Nat.le_succ_of_le (consistent.older msg is)

/-- What a message shows that the list delivered last is decoded into. -/
theorem object_receive (latest : w.latest = some tcs) (is : w.latest = some (w.object msg)) :
    Function.update w.object w.stream tcs msg = w.object msg := by
  by_cases here : msg = w.stream
  · subst here
    rw [Function.update_self]
    exact Option.some.inj (latest.symm.trans is)
  · exact Function.update_of_ne here _ _

theorem receive (consistent : Consistent w) (queue : w.inbox = tcs :: more) :
    Consistent { w with
      inbox := more, object := Function.update w.object w.stream tcs, offering := true } := by
  have latest : w.latest = some tcs := consistent.queued tcs (queue ▸ List.mem_cons_self)
  refine ⟨fun _ => ?_, consistent.older, fun _ => ?_, fun other member => ?_⟩
  · simpa using latest
  · simpa using latest
  · exact consistent.queued other (queue ▸ List.mem_cons_of_mem _ member)

theorem recorded_receive (consistent : Consistent w) (queue : w.inbox = tcs :: more) :
    ({ w with inbox := more, object := Function.update w.object w.stream tcs, offering := true } :
      Watch).recorded = w.recorded := by
  have latest : w.latest = some tcs := consistent.queued tcs (queue ▸ List.mem_cons_self)
  unfold Watch.recorded
  cases record : w.record with
  | none => rfl
  | some msg =>
    by_cases here : msg = w.stream
    · subst here
      exact object_receive latest (consistent.recorded record)
    · exact Function.update_of_ne here _ _

theorem take (consistent : Consistent w) : Consistent { w with offering := false } :=
  ⟨consistent.recorded, consistent.older, nofun, consistent.queued⟩

theorem setRecord (consistent : Consistent w) (older : msg ≤ w.stream)
    (latest : w.latest = some (w.object msg)) : Consistent { w with record := some msg } := by
  refine ⟨fun is => ?_, fun other is => ?_, consistent.offered, consistent.queued⟩
  · obtain rfl : msg = w.stream := Option.some.inj is
    exact latest
  · obtain rfl : msg = other := Option.some.inj is
    exact older

end Consistent

/-! ### The goroutine of a consumerd -/

/-- The consumerd whose goroutine this is. -/
def Proc.thread : Proc → Option ConsumerdId
  | .registering cd | .adding cd | .watching cd | .updating cd _ | .dropping cd _ _
  | .cancelling cd _ _ _ => some cd
  | .router (.add (.sender cd) _) | .router (.attaching (.sender cd) _ _)
  | .router (.found (.sender cd) _ _ _) => some cd
  | .router _ => none

/-- The goroutine is where a step of the router by itself leads. -/
def Plain : RouterProc → Prop
  | .update .. | .dropping .. | .cancelling .. => False
  | _ => True

/-- What holds of a goroutine: the message of an update holds the list delivered last. -/
def Good (mem : Mem) : Proc → Prop
  | .router proc => Plain proc
  | .registering cd => mem.shared.connected (.sender cd) = false
  | .adding _ => True
  | .watching cd => mem.shared.added (.sender cd) = true
  | .updating cd msg | .dropping cd _ msg | .cancelling cd _ _ msg =>
    (mem.watch cd).latest = some ((mem.watch cd).object msg) ∧ msg ≤ (mem.watch cd).stream

/-- The goroutine will record the list delivered last. -/
def Pends (w : Watch) (cd : ConsumerdId) : Proc → Prop
  | .watching other => other = cd ∧ w.record ≠ some w.stream ∧ (w.inbox ≠ [] ∨ w.offering = true)
  | .updating other _ | .dropping other _ _ | .cancelling other _ _ _ => other = cd
  | _ => False

/-- **The toolchains of the consumerds are on their way.** -/
structure Steered (config : State) : Prop where
  mirror : ∀ cd, config.mem.shared.router.toolchains cd = (config.mem.watch cd).recorded
  consistent : ∀ cd, Consistent (config.mem.watch cd)
  one : ∀ cd, total (tally Proc.thread cd) config.procs ≤ (config.mem.watch cd).opened.toNat
  fresh : ∀ cd, (config.mem.watch cd).opened = false →
    config.mem.shared.connected (.sender cd) = false
  registered : ∀ cd, config.mem.shared.connected (.sender cd) = true →
    (config.mem.watch cd).record ≠ none
  good : ∀ proc ∈ config.procs, Good config.mem proc
  current : ∀ cd, (config.mem.watch cd).record ≠ none →
    config.mem.shared.done (.sender cd) = false →
    (config.mem.watch cd).latest = some (config.mem.watch cd).recorded ∨
      ∃ proc ∈ config.procs, Pends (config.mem.watch cd) cd proc

section Steps

variable {md5 : GoString → GoString} {mem mem' : Mem} {acting left : List Proc}
  {rest : Multiset Proc} {cd : ConsumerdId} {proc : Proc} {w : Watch} {acts lefts : List RouterProc}
  {done : Party → Bool} {label : Option RouteId} {r r' : Router}

theorem Steered.alone (steered : Steered ⟨mem, ↑acting + rest⟩) {proc other : Proc}
    (member : proc ∈ acting) (is : proc.thread = some cd) (there : other ∈ rest) :
    other.thread ≠ some cd := by
  intro same
  have first := one_le_total_tally (Multiset.mem_coe.mpr member) is
  have second := one_le_total_tally there same
  have both : _ ≤ (mem.watch cd).opened.toNat := steered.one cd
  have most := Bool.toNat_le (mem.watch cd).opened
  rw [total_add] at both
  omega

theorem Steered.opened (steered : Steered ⟨mem, ↑acting + rest⟩)
    (member : proc ∈ acting) (is : proc.thread = some cd) : (mem.watch cd).opened = true := by
  have counted := one_le_total_tally (Multiset.mem_coe.mpr member) is
  have bound : _ ≤ (mem.watch cd).opened.toNat := steered.one cd
  rw [total_add] at bound
  cases isOpen : (mem.watch cd).opened with
  | true => rfl
  | false =>
    rw [isOpen, Bool.toNat_false] at bound
    omega

theorem Good.congr (good : Good mem proc)
    (watch : ∀ cd, proc.thread = some cd → mem'.watch cd = mem.watch cd)
    (connected : ∀ cd, proc.thread = some cd →
      mem'.shared.connected (.sender cd) = mem.shared.connected (.sender cd))
    (added : ∀ cd, mem.shared.added (.sender cd) = true → mem'.shared.added (.sender cd) = true) :
    Good mem' proc := by
  cases proc with
  | router proc => exact good
  | adding => trivial
  | watching cd => exact added cd good
  | registering cd => exact (connected cd rfl).trans good
  | updating cd msg | dropping cd _ msg | cancelling cd _ _ msg =>
    show (mem'.watch cd).latest = some ((mem'.watch cd).object msg) ∧ msg ≤ (mem'.watch cd).stream
    rw [watch cd rfl]
    exact good

theorem Steered.frame (steered : Steered ⟨mem, ↑acting + rest⟩) (watch : mem'.watch = mem.watch)
    (toolchains : mem'.shared.router.toolchains = mem.shared.router.toolchains)
    (connected : ∀ cd, mem'.shared.connected (.sender cd) = mem.shared.connected (.sender cd))
    (added : ∀ cd, mem.shared.added (.sender cd) = true → mem'.shared.added (.sender cd) = true)
    (done : ∀ cd, mem'.shared.done (.sender cd) = false → mem.shared.done (.sender cd) = false)
    (threads : ∀ cd, total (tally Proc.thread cd) ↑left ≤ total (tally Proc.thread cd) ↑acting)
    (good : (∀ proc ∈ acting, Good mem proc) → ∀ proc ∈ left, Good mem' proc)
    (pends : ∀ cd, mem'.shared.done (.sender cd) = false → ∀ proc ∈ acting,
      Pends (mem.watch cd) cd proc → ∃ proc ∈ left, Pends (mem.watch cd) cd proc) :
    Steered ⟨mem', ↑left + rest⟩ := by
  obtain ⟨shared', watch'⟩ := mem'
  obtain rfl : watch' = mem.watch := watch
  refine ⟨fun cd => ?_, steered.consistent, fun cd => ?_, fun cd isNew => ?_, fun cd is => ?_, ?_,
    fun cd recorded live => ?_⟩
  · exact (congrFun toolchains cd).trans (steered.mirror cd)
  · have before : _ ≤ (mem.watch cd).opened.toNat := steered.one cd
    have fewer := threads cd
    rw [total_add] at before ⊢
    exact le_trans (Nat.add_le_add_right fewer _) before
  · exact (connected cd).trans (steered.fresh cd isNew)
  · exact steered.registered cd ((connected cd).symm.trans is)
  · exact forall_mem_fire steered.good good fun proc _ old =>
      old.congr (fun _ _ => rfl) (fun cd _ => connected cd) added
  · rcases steered.current cd recorded (done cd live) with same | pending
    · exact .inl same
    · exact .inr (exists_mem_fire pending (pends cd live) fun _ _ pends => pends)

theorem Steered.put (steered : Steered ⟨mem, ↑acting + rest⟩)
    (watch : mem'.watch = Function.update mem.watch cd w)
    (toolchains : mem'.shared.router.toolchains =
      Function.update mem.shared.router.toolchains cd w.recorded)
    (connected : ∀ other, other ≠ cd →
      mem'.shared.connected (.sender other) = mem.shared.connected (.sender other))
    (added : mem'.shared.added = mem.shared.added) (done : mem'.shared.done = mem.shared.done)
    (consistent : Consistent w) (fresh : w.opened = false → mem'.shared.connected (.sender cd) = false)
    (registered : mem'.shared.connected (.sender cd) = true → w.record ≠ none)
    (threads : ∀ other, total (tally Proc.thread other) ↑left + (mem.watch other).opened.toNat ≤
      total (tally Proc.thread other) ↑acting + (mem'.watch other).opened.toNat)
    (good : ∀ proc ∈ left, Good mem' proc)
    (others : ∀ proc ∈ rest, proc.thread = some cd → Good mem proc → Good mem' proc)
    (mine : ∀ other, other ≠ cd → ∀ proc ∈ acting, ¬ Pends (mem.watch other) other proc)
    (current : w.record ≠ none → mem.shared.done (.sender cd) = false →
      w.latest = some w.recorded ∨ ∃ proc ∈ (↑left + rest : Multiset Proc), Pends w cd proc) :
    Steered ⟨mem', ↑left + rest⟩ := by
  have here : mem'.watch cd = w := by rw [watch, Function.update_self]
  have elsewhere : ∀ other, other ≠ cd → mem'.watch other = mem.watch other := fun other differs => by
    rw [watch, Function.update_of_ne differs]
  refine ⟨fun other => ?_, fun other => ?_, fun other => ?_, fun other => ?_, fun other => ?_, ?_,
    fun other recorded live => ?_⟩
  · show mem'.shared.router.toolchains other = (mem'.watch other).recorded
    by_cases same : other = cd
    · subst same
      rw [toolchains, Function.update_self, here]
    · rw [toolchains, Function.update_of_ne same, elsewhere other same]
      exact steered.mirror other
  · show Consistent (mem'.watch other)
    by_cases same : other = cd
    · subst same
      rwa [here]
    · rw [elsewhere other same]
      exact steered.consistent other
  · have before : _ ≤ (mem.watch other).opened.toNat := steered.one other
    have change := threads other
    show _ ≤ (mem'.watch other).opened.toNat
    rw [total_add] at before ⊢
    omega
  · show (mem'.watch other).opened = false → mem'.shared.connected (.sender other) = false
    by_cases same : other = cd
    · subst same
      rwa [here]
    · rw [elsewhere other same, connected other same]
      exact steered.fresh other
  · show mem'.shared.connected (.sender other) = true → (mem'.watch other).record ≠ none
    by_cases same : other = cd
    · subst same
      rwa [here]
    · rw [elsewhere other same, connected other same]
      exact steered.registered other
  · refine forall_mem_fire steered.good (fun _ => good) fun proc member old => ?_
    by_cases same : proc.thread = some cd
    · exact others proc member same old
    · have differs : ∀ other, proc.thread = some other → other ≠ cd := by
        rintro other is rfl
        exact same is
      refine old.congr (fun other is => elsewhere other (differs other is))
        (fun other is => connected other (differs other is)) fun other is => ?_
      exact (congrFun added _).trans is
  · have live : mem'.shared.done (.sender other) = false := live
    rw [done] at live
    by_cases same : other = cd
    · subst same
      have recorded : (mem'.watch other).record ≠ none := recorded
      show (mem'.watch other).latest = some (mem'.watch other).recorded ∨
        ∃ proc ∈ (↑left + rest : Multiset Proc), Pends (mem'.watch other) other proc
      rw [here] at recorded ⊢
      exact current recorded live
    · have recorded : (mem'.watch other).record ≠ none := recorded
      show (mem'.watch other).latest = some (mem'.watch other).recorded ∨
        ∃ proc ∈ (↑left + rest : Multiset Proc), Pends (mem'.watch other) other proc
      rw [elsewhere other same] at recorded ⊢
      rcases steered.current other recorded live with fits | pending
      · exact .inl fits
      · exact .inr (exists_mem_fire pending
          (fun proc member pends => absurd pends (mine other same proc member)) fun _ _ pends => pends)

theorem opened_put (opened : w.opened = (mem.watch cd).opened)
    (other : ConsumerdId) : (mem.watch other).opened.toNat ≤
      (Function.update mem.watch cd w other).opened.toNat := by
  by_cases same : other = cd
  · subst same
    rw [Function.update_self, opened]
  · rw [Function.update_of_ne same]

theorem Good.put (good : Good mem proc) (mine : proc.thread = some cd)
    (points : ∀ msg, (mem.watch cd).latest = some ((mem.watch cd).object msg) →
      msg ≤ (mem.watch cd).stream → w.latest = some (w.object msg) ∧ msg ≤ w.stream) :
    Good (mem.put cd w) proc := by
  cases proc with
  | router proc => exact good
  | adding => trivial
  | watching => exact good
  | registering => exact good
  | updating other msg | dropping other _ msg | cancelling other _ _ msg =>
    obtain rfl : other = cd := Option.some.inj mine
    show (Function.update mem.watch other w other).latest =
      some ((Function.update mem.watch other w other).object msg) ∧
      msg ≤ (Function.update mem.watch other w other).stream
    rw [Function.update_self]
    exact points msg good.1 good.2

theorem Pends.mono {w w' : Watch} (pends : Pends w cd proc)
    (awaits : w.record ≠ some w.stream → w.inbox ≠ [] ∨ w.offering = true →
      w'.record ≠ some w'.stream ∧ (w'.inbox ≠ [] ∨ w'.offering = true)) : Pends w' cd proc := by
  cases proc with
  | watching other => exact ⟨pends.1, awaits pends.2.1 pends.2.2⟩
  | updating | dropping | cancelling => exact pends
  | _ => exact pends.elim

theorem Steered.listen (steered : Steered ⟨mem, ↑([] : List Proc) + rest⟩) (consistent : Consistent w)
    (opened : w.opened = (mem.watch cd).opened) (record : w.record = (mem.watch cd).record)
    (points : ∀ proc ∈ rest, proc.thread = some cd → Good mem proc → Good (mem.put cd w) proc)
    (current : w.record ≠ none → mem.shared.done (.sender cd) = false →
      w.latest = some w.recorded ∨ ∃ proc ∈ rest, Pends w cd proc) :
    Steered ⟨mem.put cd w, ↑([] : List Proc) + rest⟩ := by
  refine steered.put rfl rfl (fun _ _ => rfl) rfl rfl consistent
    (fun isNew => steered.fresh cd (opened.symm.trans isNew))
    (fun is => record ▸ steered.registered cd is) (fun other => ?_) (List.forall_mem_nil _) points
    (fun _ _ => List.forall_mem_nil _) fun recorded live => ?_
  · exact Nat.add_le_add le_rfl (opened_put opened other)
  · rcases current recorded live with fits | ⟨proc, member, pends⟩
    · exact .inl fits
    · exact .inr ⟨proc, mem_of_rest member, pends⟩

theorem Steered.latest_ne_none {config : State} (steered : Steered config) (cd : ConsumerdId)
    (recorded : (config.mem.watch cd).record ≠ none)
    (live : config.mem.shared.done (.sender cd) = false) :
    (config.mem.watch cd).latest ≠ none := by
  intro none
  have consistent := steered.consistent cd
  rcases steered.current cd recorded live with fits | ⟨proc, member, pends⟩
  · exact absurd (none.symm.trans fits) nofun
  · have good := steered.good proc member
    cases proc with
    | watching other =>
      rcases pends.2.2 with queue | offers
      · obtain ⟨tcs, there⟩ := List.exists_mem_of_ne_nil _ queue
        exact absurd (none.symm.trans (consistent.queued tcs there)) nofun
      · exact absurd (none.symm.trans (consistent.offered offers)) nofun
    | updating other msg | dropping other _ msg | cancelling other _ _ msg =>
      obtain rfl : other = cd := pends
      exact absurd (none.symm.trans good.1) nofun
    | _ => exact pends.elim

theorem steered_watch {event : Event} (steered : Steered ⟨mem, ↑acting + rest⟩)
    (steady : ∀ cd tcs, event = .deliver cd tcs →
      (mem.watch cd).latest = none ∨ (mem.watch cd).latest = some tcs ∨
        .watching cd ∈ (↑acting + rest : Multiset Proc) ∧ (mem.watch cd).offering = false ∧
          (mem.watch cd).inbox = [] ∧ (mem.watch cd).record ≠ some (mem.watch cd).stream)
    (act : WatchAct event mem acting mem' left) : Steered ⟨mem', ↑left + rest⟩ := by
  cases act with
  | opens cd isNew =>
    have consistent := steered.consistent cd
    have closed := steered.fresh cd isNew
    refine steered.put rfl rfl (fun _ _ => rfl) rfl rfl
      ⟨consistent.recorded, consistent.older, consistent.offered, consistent.queued⟩ (by rintro ⟨⟩)
      (steered.registered cd) (fun other => ?_) (List.forall_mem_singleton.mpr closed)
      (fun proc _ mine good => good.put mine fun _ latest older => ⟨latest, older⟩)
      (fun _ _ => List.forall_mem_nil _) fun recorded live => ?_
    · show _ + (mem.watch other).opened.toNat ≤
        _ + (Function.update mem.watch cd _ other).opened.toNat
      by_cases same : other = cd
      · subst same
        rw [Function.update_self, isNew]
        simp [tally, Proc.thread]
      · rw [Function.update_of_ne same]
        simp [tally, Proc.thread, Ne.symm same]
    · rcases steered.current cd recorded live with fits | ⟨proc, member, pends⟩
      · exact .inl fits
      · have there := (mem_fire.mp member).resolve_left List.not_mem_nil
        exact .inr ⟨proc, mem_of_rest there, pends.mono fun other queue => ⟨other, queue⟩⟩
  | delivers cd tcs isOpen =>
    have latest_ne : (mem.watch cd).record ≠ none → mem.shared.done (.sender cd) = false →
        (mem.watch cd).latest ≠ none := steered.latest_ne_none cd
    have consistent : Consistent { mem.watch cd with
        inbox := (mem.watch cd).inbox ++ [tcs], latest := some tcs } := by
      refine (steered.consistent cd).deliver ?_
      rcases steady cd tcs rfl with none | same | ⟨-, awaits⟩
      · exact .inl none
      · exact .inr (.inl same)
      · exact .inr (.inr awaits)
    refine steered.listen consistent rfl rfl (fun proc member mine good => ?_) fun recorded live => ?_
    · rcases steady cd tcs rfl with none | same | ⟨waits, -⟩
      · exact good.put mine fun msg latest _ => by cases none.symm.trans latest
      · exact good.put mine fun msg latest older => ⟨same.symm.trans latest, older⟩
      · -- the goroutine of the consumerd awaits an update, so it is not in one
        by_cases here : proc = .watching cd
        · subst here
          exact good
        · have there := (mem_fire.mp waits).resolve_left List.not_mem_nil
          have both := two_le_total_tally member there here mine rfl
          have bound : _ ≤ (mem.watch cd).opened.toNat := steered.one cd
          have most := Bool.toNat_le (mem.watch cd).opened
          rw [total_add] at bound
          omega
    · rcases steady cd tcs rfl with none | same | ⟨waits, idle, empty, other⟩
      · exact absurd none (latest_ne recorded live)
      · rcases steered.current cd recorded live with fits | ⟨proc, member, pends⟩
        · exact .inl (same.symm.trans fits)
        · have there := (mem_fire.mp member).resolve_left List.not_mem_nil
          exact .inr ⟨proc, there, pends.mono fun other _ => ⟨other, .inl (by simp)⟩⟩
      · have there := (mem_fire.mp waits).resolve_left List.not_mem_nil
        exact .inr ⟨_, there, rfl, other, .inl (by simp)⟩
  | reconnects cd isOpen idle empty =>
    refine steered.listen ((steered.consistent cd).reconnect idle) rfl rfl
      (fun proc member mine good => good.put mine fun msg latest older =>
        ⟨latest, Nat.le_succ_of_le older⟩) fun recorded live => ?_
    rcases steered.current cd recorded live with fits | ⟨proc, member, pends⟩
    · exact .inl fits
    · have there := (mem_fire.mp member).resolve_left List.not_mem_nil
      refine .inr ⟨proc, there, pends.mono fun _ queue => ?_⟩
      rcases queue with queue | offers
      · exact absurd empty queue
      · cases idle.symm.trans offers
  | @receives _ cd tcs more idle queue =>
    have consistent := steered.consistent cd
    have latest := consistent.queued tcs (queue ▸ List.mem_cons_self)
    refine steered.listen (consistent.receive queue) rfl rfl
      (fun proc member mine good => good.put mine fun msg is older => ⟨?_, older⟩)
      fun recorded live => ?_
    · exact is.trans (congrArg some (Consistent.object_receive latest is).symm)
    · rw [consistent.recorded_receive queue]
      rcases steered.current cd recorded live with fits | ⟨proc, member, pends⟩
      · exact .inl fits
      · have there := (mem_fire.mp member).resolve_left List.not_mem_nil
        exact .inr ⟨proc, there, pends.mono fun other _ => ⟨other, .inr rfl⟩⟩
  | @registers _ cd offers =>
    have consistent := steered.consistent cd
    have isOpen := steered.opened List.mem_cons_self rfl
    refine steered.put rfl rfl (fun other differs => ?_) rfl rfl
      (consistent.take.setRecord le_rfl (consistent.offered offers))
      (fun isNew => by cases isOpen.symm.trans isNew) (by rintro _ ⟨⟩) (fun other => ?_)
      (List.forall_mem_singleton.mpr trivial)
      (fun proc member mine => absurd mine (steered.alone List.mem_cons_self rfl member))
      (fun _ _ => List.forall_mem_singleton.mpr id) fun _ _ => .inl (consistent.offered offers)
    · exact Function.update_of_ne (by simpa using differs) _ _
    · exact Nat.add_le_add le_rfl (opened_put (by rfl) other)
  | timesOut cd =>
    exact steered.frame rfl rfl (fun _ => rfl) (fun _ is => is) (fun _ is => is)
      (fun _ => Nat.zero_le _) (fun _ => List.forall_mem_nil _)
      fun _ _ => List.forall_mem_singleton.mpr fun pends => pends.elim
  | @takes _ cd offers =>
    have consistent := steered.consistent cd
    have isOpen := steered.opened List.mem_cons_self rfl
    have good : Good mem (.updating cd (mem.watch cd).stream) := ⟨consistent.offered offers, le_rfl⟩
    refine steered.put rfl rfl (fun _ _ => rfl) rfl rfl consistent.take
      (fun isNew => by cases isOpen.symm.trans isNew) (steered.registered cd) (fun other => ?_)
      (List.forall_mem_singleton.mpr (good.put rfl fun _ latest older => ⟨latest, older⟩))
      (fun proc member mine => absurd mine (steered.alone List.mem_cons_self rfl member))
      (fun other differs => List.forall_mem_singleton.mpr fun pends => differs pends.1.symm)
      fun _ _ => .inr ⟨_, mem_acting, rfl⟩
    exact Nat.add_le_add le_rfl (opened_put (by rfl) other)
  | @watchStops _ cd isDone =>
    refine steered.frame rfl rfl (fun _ => rfl) (fun _ is => is) (fun _ is => is)
      (fun _ => Nat.zero_le _) (fun _ => List.forall_mem_nil _) fun other live => ?_
    refine List.forall_mem_singleton.mpr fun pends => ?_
    rw [← pends.1] at live
    cases live.symm.trans isDone

theorem plain_act (act : RouterAct md5 done label r acts r' lefts)
    (plain : ∀ proc ∈ acts, Plain proc) : ∀ proc ∈ lefts, Plain proc := by
  cases act with
  | lookup =>
    exact List.forall_mem_cons.mpr ⟨trivial, Router.forall_mem_spawned (fun _ => trivial) _⟩
  | attach => exact List.forall_mem_cons.mpr ⟨trivial, List.forall_mem_singleton.mpr trivial⟩
  | lock | partyDone | channelClosed | decLast => exact List.forall_mem_singleton.mpr trivial
  | unlock | dec | cancelUnused | stillUsed | close => exact List.forall_mem_nil _
  | updateLock | keep | drop | cancel | update => exact (plain _ List.mem_cons_self).elim

theorem total_thread_spawned (r : Router) (hash : GoString) (cd : ConsumerdId) :
    total (tally Proc.thread cd) ↑((r.spawned hash).map Proc.router) = 0 :=
  total_tally_eq_zero (List.forall_mem_map.mpr (Router.forall_mem_spawned (fun _ => rfl) hash)) cd

theorem thread_act (act : RouterAct md5 done label r acts r' lefts)
    (plain : ∀ proc ∈ acts, Plain proc) (cd : ConsumerdId) :
    total (tally Proc.thread cd) ↑(lefts.map Proc.router) ≤
      total (tally Proc.thread cd) ↑(acts.map Proc.router) := by
  cases act with
  | @lookup _ party =>
    rw [List.map_cons, total_coe_cons, total_thread_spawned]
    cases party <;> exact Nat.le_refl _
  | @lock _ party => cases party <;> exact le_rfl
  | @attach _ party => cases party <;> simp [tally, Proc.thread]
  | partyDone | channelClosed | decLast => simp [tally, Proc.thread]
  | unlock | dec | cancelUnused | stillUsed | close => exact Nat.zero_le _
  | updateLock | keep | drop | cancel | update => exact (plain _ List.mem_cons_self).elim

theorem steered_update {event : Event} (steered : Steered ⟨mem, ↑acting + rest⟩)
    (act : UpdateAct md5 event mem acting mem' left) : Steered ⟨mem', ↑left + rest⟩ := by
  cases act with
  | lockAdd =>
    exact steered.frame rfl rfl (fun _ => rfl) (fun _ is => is) (fun _ is => is) (fun _ => le_rfl)
      (fun _ => List.forall_mem_singleton.mpr trivial)
      fun _ _ => List.forall_mem_singleton.mpr fun pends => pends.elim
  | updateLock | keep | cancel =>
    have good := steered.good _ mem_acting
    exact steered.frame rfl rfl (fun _ => rfl) (fun _ is => is) (fun _ is => is) (fun _ => le_rfl)
      (fun _ => List.forall_mem_singleton.mpr good)
      fun _ _ => List.forall_mem_singleton.mpr fun pends => ⟨_, List.mem_cons_self, pends⟩
  | drop =>
    have good := steered.good _ mem_acting
    refine steered.frame rfl (Router.ensure_toolchains _) (fun _ => rfl) (fun _ is => is)
      (fun _ is => is) (fun other => ?_)
      (fun _ => List.forall_mem_cons.mpr ⟨good,
        List.forall_mem_map.mpr (Router.forall_mem_spawned (fun _ => trivial) _)⟩)
      fun _ _ => List.forall_mem_singleton.mpr fun pends => ⟨_, List.mem_cons_self, pends⟩
    rw [total_coe_cons, total_thread_spawned]
    exact le_rfl
  | @update _ cd msg =>
    have isOpen := steered.opened List.mem_cons_self rfl
    obtain ⟨latest, older⟩ : Good mem (.dropping cd [] msg) := steered.good _ mem_acting
    refine steered.put rfl rfl (fun _ _ => rfl) rfl rfl
      ((steered.consistent cd).setRecord older latest)
      (fun isNew => absurd (isOpen.symm.trans isNew) nofun) (fun _ => nofun) (fun other => ?_)
      (List.forall_mem_singleton.mpr trivial)
      (fun proc member mine => absurd mine (steered.alone List.mem_cons_self rfl member))
      (fun other differs => List.forall_mem_singleton.mpr fun pends => differs pends.symm)
      fun _ _ => .inl latest
    exact Nat.add_le_add le_rfl (opened_put (by rfl) other)

theorem Steered.plain {acts : List RouterProc}
    (steered : Steered ⟨mem, ↑(acts.map Proc.router) + rest⟩) : ∀ proc ∈ acts, Plain proc :=
  fun proc member => steered.good (.router proc) (Multiset.mem_add.mpr
    (.inl (Multiset.mem_coe.mpr (List.mem_map_of_mem member))))

theorem toolchains_plain (act : RouterAct md5 done label r acts r' lefts)
    (plain : ∀ proc ∈ acts, Plain proc) : r'.toolchains = r.toolchains := by
  rcases Routes.toolchains_act act with ⟨same, -⟩ | ⟨cd, tcs, rfl, -⟩
  · exact same
  · exact (plain _ List.mem_cons_self).elim

theorem steered_step {config next : State} {label : Event × List Proc} (steered : Steered config)
    (steady : Steady md5 config label) (step : Step (Acting (Rule md5)) config label next) :
    Steered next := by
  cases step with
  | @fire label mem mem' acting left rest fires =>
    obtain ⟨event, acted⟩ := label
    obtain ⟨rule, -⟩ := fires
    cases rule with
    | watch act => exact steered_watch steered steady.delivers act
    | update act => exact steered_update steered act
    | @addedSender _ cd =>
      refine steered.frame rfl rfl (fun _ => rfl) (fun other is => ?_) (fun _ is => is)
        (fun _ => le_rfl) (fun _ => List.forall_mem_singleton.mpr (Function.update_self _ _ _))
        fun _ _ => List.forall_mem_singleton.mpr fun pends => pends.elim
      show Function.update mem.shared.added (.sender cd) true (.sender other) = true
      rw [Function.update_apply]
      split
      · rfl
      · exact is
    | addedReceiver =>
      exact steered.frame rfl rfl (fun _ => rfl) (fun _ is => by simpa using is) (fun _ is => is)
        (fun _ => Nat.zero_le _) (fun _ => List.forall_mem_nil _)
        fun _ _ => List.forall_mem_singleton.mpr fun pends => pends.elim
    | connectReceiver agent tcs =>
      exact steered.frame rfl rfl (fun _ => by simp) (fun _ is => is) (fun _ is => is)
        (fun _ => le_rfl) (fun _ => List.forall_mem_singleton.mpr trivial)
        fun _ _ => List.forall_mem_nil _
    | disconnect party =>
      refine steered.frame rfl rfl (fun _ => rfl) (fun _ is => is) (fun cd live => ?_)
        (fun _ => le_rfl) (fun _ => List.forall_mem_nil _) fun _ _ => List.forall_mem_nil _
      have live : Function.update mem.shared.done party true (.sender cd) = false := live
      by_cases same : Party.sender cd = party
      · rw [same, Function.update_self] at live
        exact absurd live nofun
      · rwa [Function.update_of_ne same] at live
    | route tc =>
      exact steered.frame rfl (Router.ensure_toolchains _) (fun _ => rfl) (fun _ is => is)
        (fun _ is => is) (fun cd => Nat.le_of_eq (total_thread_spawned _ _ cd))
        (fun _ => List.forall_mem_map.mpr (Router.forall_mem_spawned (fun _ => trivial) _))
        fun _ _ => List.forall_mem_nil _
    | router act =>
      exact steered.frame rfl (toolchains_plain act steered.plain) (fun _ => rfl) (fun _ is => is)
        (fun _ is => is) (thread_act act steered.plain)
        (fun _ => List.forall_mem_map.mpr (plain_act act steered.plain))
        fun _ _ => List.forall_mem_map.mpr fun _ _ pends => pends.elim

theorem steered_initial : Steered initial :=
  ⟨fun _ => rfl, fun _ => ⟨nofun, nofun, nofun, List.forall_mem_nil _⟩, fun _ => le_rfl,
    fun _ _ => rfl, fun _ is => absurd is Bool.false_ne_true,
    fun _ member => absurd member (Multiset.notMem_zero _), fun _ is => absurd rfl is⟩

/-! ### The run that the router sees -/

theorem seen_fire : seen ⟨mem, ↑acting + rest⟩ = ⟨mem.shared,
    ↑(acting.filterMap (Proc.seen mem)) + rest.filterMap (Proc.seen mem)⟩ := by
  rw [seen, filterMap_fire]

@[simp] theorem filterMap_seen_router (procs : List RouterProc) :
    (procs.map Proc.router).filterMap (Proc.seen mem) = procs := by
  rw [List.filterMap_map]
  exact List.filterMap_some

/-- A goroutine is seen as before if its record and the message of its update show the same. -/
theorem seen_congr (good : Good mem proc)
    (toolchains : ∀ cd, proc.thread = some cd →
      mem'.shared.router.toolchains cd = mem.shared.router.toolchains cd)
    (object : ∀ cd msg, proc.thread = some cd →
      (mem.watch cd).latest = some ((mem.watch cd).object msg) →
      (mem'.watch cd).object msg = (mem.watch cd).object msg) :
    proc.seen mem' = proc.seen mem := by
  cases proc with
  | router | registering | watching => rfl
  | adding cd =>
    show some (RouterProc.add _ (mem'.shared.router.toolchains cd)) = _
    rw [toolchains cd rfl]
    rfl
  | updating cd msg =>
    show some (RouterProc.update cd ((mem'.watch cd).object msg)) = _
    rw [object cd msg rfl good.1]
    rfl
  | dropping cd old msg =>
    show some (RouterProc.dropping cd old ((mem'.watch cd).object msg)) = _
    rw [object cd msg rfl good.1]
    rfl
  | cancelling cd rt old msg =>
    show some (RouterProc.cancelling cd rt old ((mem'.watch cd).object msg)) = _
    rw [object cd msg rfl good.1]
    rfl

theorem seen_eq (shared : mem'.shared = mem.shared)
    (acted : left.filterMap (Proc.seen mem') = acting.filterMap (Proc.seen mem))
    (same : ∀ proc ∈ rest, proc.seen mem' = proc.seen mem) :
    seen ⟨mem', ↑left + rest⟩ = seen ⟨mem, ↑acting + rest⟩ := by
  rw [seen_fire, seen_fire, shared, acted, filterMap_congr same]

theorem exists_seen_step {event : Routes.Event}
    (orderly : Routes.Orderly md5 (seen ⟨mem, ↑acting + rest⟩)
      (event, acting.filterMap (Proc.seen mem)))
    (same : ∀ proc ∈ rest, proc.seen mem' = proc.seen mem)
    (rule : Routes.Rule md5 event mem.shared (acting.filterMap (Proc.seen mem)) mem'.shared
      (left.filterMap (Proc.seen mem'))) :
    ∃ label', Routes.Orderly md5 (seen ⟨mem, ↑acting + rest⟩) label' ∧
      Step (Acting (Routes.Rule md5)) (seen ⟨mem, ↑acting + rest⟩) label'
        (seen ⟨mem', ↑left + rest⟩) := by
  refine ⟨_, orderly, ?_⟩
  rw [seen_fire, seen_fire, filterMap_congr same]
  exact .fire _ ⟨rule, rfl⟩

theorem Steered.seen_frame (steered : Steered ⟨mem, ↑acting + rest⟩)
    (watch : mem'.watch = mem.watch)
    (toolchains : mem'.shared.router.toolchains = mem.shared.router.toolchains) :
    ∀ proc ∈ rest, proc.seen mem' = proc.seen mem := fun proc member =>
  seen_congr (steered.good proc (mem_of_rest member))
    (fun cd _ => congrFun toolchains cd) fun cd _ _ _ => by rw [watch]

theorem Steered.seen_put (steered : Steered ⟨mem, ↑[proc] + rest⟩) (is : proc.thread = some cd)
    (watch : mem'.watch = Function.update mem.watch cd w)
    (toolchains : mem'.shared.router.toolchains =
      Function.update mem.shared.router.toolchains cd w.recorded) :
    ∀ proc ∈ rest, proc.seen mem' = proc.seen mem := by
  intro other member
  have differs : ∀ cd', other.thread = some cd' → cd' ≠ cd := by
    rintro cd' mine rfl
    exact steered.alone List.mem_cons_self is member mine
  refine seen_congr (steered.good other (mem_of_rest member))
    (fun cd' mine => ?_) fun cd' msg mine _ => ?_
  · rw [toolchains, Function.update_of_ne (differs cd' mine)]
  · rw [watch, Function.update_of_ne (differs cd' mine)]

theorem Steered.put_shared {config : State} (steered : Steered config)
    (same : w.recorded = (config.mem.watch cd).recorded) :
    (config.mem.put cd w).shared = config.mem.shared := by
  unfold Mem.put
  rw [same, ← steered.mirror cd, Function.update_eq_self]

theorem Steered.seen_listen (steered : Steered ⟨mem, ↑acting + rest⟩)
    (same : w.recorded = (mem.watch cd).recorded)
    (object : ∀ msg, (mem.watch cd).latest = some ((mem.watch cd).object msg) →
      w.object msg = (mem.watch cd).object msg)
    (acted : left.filterMap (Proc.seen (mem.put cd w)) = acting.filterMap (Proc.seen mem)) :
    seen ⟨mem.put cd w, ↑left + rest⟩ = seen ⟨mem, ↑acting + rest⟩ := by
  have shared : (mem.put cd w).shared = mem.shared := steered.put_shared same
  refine seen_eq shared acted fun proc member => ?_
  refine seen_congr (steered.good proc (mem_of_rest member))
    (fun other _ => by rw [shared]) fun other msg _ latest => ?_
  show (Function.update mem.watch cd w other).object msg = _
  by_cases here : other = cd
  · subst here
    rw [Function.update_self]
    exact object msg latest
  · rw [Function.update_of_ne here]

theorem seen_step {config next : State} {label : Event × List Proc} (steered : Steered config)
    (steady : Steady md5 config label) (step : Step (Acting (Rule md5)) config label next) :
    seen next = seen config ∨ ∃ label', Routes.Orderly md5 (seen config) label' ∧
      Step (Acting (Routes.Rule md5)) (seen config) label' (seen next) := by
  cases step with
  | @fire label mem mem' acting left rest fires =>
    obtain ⟨event, acted⟩ := label
    obtain ⟨rule, rfl⟩ := fires
    have orderly := steady.orderly
    cases rule with
    | watch act =>
      cases act with
      | opens | delivers | reconnects =>
        exact .inl (steered.seen_listen rfl (fun _ _ => rfl) rfl)
      | @receives _ cd tcs more _ queue =>
        have consistent := steered.consistent cd
        have latest := consistent.queued tcs (queue ▸ List.mem_cons_self)
        exact .inl (steered.seen_listen (consistent.recorded_receive queue)
          (fun _ => Consistent.object_receive latest) rfl)
      | @registers _ cd _ =>
        have isNew : mem.shared.connected (.sender cd) = false := steered.good _ mem_acting
        refine .inr (exists_seen_step
          (orderly (.connect (.sender cd) ((mem.watch cd).object (mem.watch cd).stream)))
          (steered.seen_put rfl rfl rfl) ?_)
        show Routes.Rule md5 _ mem.shared [] _
          [.add (.sender cd) (Function.update mem.shared.router.toolchains cd _ cd)]
        rw [Function.update_self]
        exact .connectSender cd _ isNew
      | timesOut | watchStops => exact .inl (seen_eq rfl rfl fun _ _ => rfl)
      | @takes _ cd _ =>
        have added : mem.shared.added (.sender cd) = true := steered.good _ mem_acting
        have shared : (mem.put cd { mem.watch cd with offering := false }).shared = mem.shared :=
          steered.put_shared rfl
        refine .inr (exists_seen_step
          (orderly (.update cd ((mem.watch cd).object (mem.watch cd).stream)))
          (steered.seen_put rfl rfl rfl) ?_)
        rw [shared]
        show Routes.Rule md5 _ mem.shared [] mem.shared
          [.update cd ((Function.update mem.watch cd _ cd).object (mem.watch cd).stream)]
        rw [Function.update_self]
        exact .update cd _ added
    | update act =>
      cases act with
      | lockAdd isFree =>
        exact .inr (exists_seen_step (orderly _) (steered.seen_frame rfl rfl)
          (.router (.lock isFree)))
      | updateLock isFree =>
        exact .inr (exists_seen_step (orderly _) (steered.seen_frame rfl rfl)
          (.router (.updateLock isFree)))
      | keep exists_ =>
        exact .inr (exists_seen_step (orderly _) (steered.seen_frame rfl rfl)
          (.router (.keep exists_)))
      | drop gone =>
        refine .inr (exists_seen_step (orderly .internal)
          (steered.seen_frame rfl (Router.ensure_toolchains _)) ?_)
        show Routes.Rule md5 _ _ _ _
          (.cancelling _ _ _ _ :: (List.map Proc.router _).filterMap (Proc.seen _))
        rw [filterMap_seen_router]
        exact .router (.drop gone)
      | cancel =>
        exact .inr (exists_seen_step (orderly _) (steered.seen_frame rfl rfl) (.router .cancel))
      | update =>
        exact .inr (exists_seen_step (orderly _) (steered.seen_put rfl rfl rfl) (.router .update))
    | addedSender | addedReceiver =>
      exact .inr (exists_seen_step (orderly _) (steered.seen_frame rfl rfl) .added)
    | connectReceiver agent tcs isNew =>
      exact .inr (exists_seen_step (orderly _) (steered.seen_frame rfl rfl)
        (.connectReceiver agent tcs isNew))
    | disconnect party there =>
      exact .inr (exists_seen_step (orderly _) (steered.seen_frame rfl rfl)
        (.disconnect party there))
    | route tc =>
      refine .inr (exists_seen_step (orderly (.route tc))
        (steered.seen_frame rfl (Router.ensure_toolchains _)) ?_)
      rw [filterMap_seen_router]
      exact .route tc
    | router act =>
      refine .inr (exists_seen_step (orderly .internal)
        (steered.seen_frame rfl (toolchains_plain act steered.plain)) ?_)
      rw [filterMap_seen_router, filterMap_seen_router]
      exact .router act

/-- What is enabled for the router is enabled for the goroutine that it sees. -/
theorem exists_rule_of_seen {part : RouterProc} {shared : Routes.Shared}
    {parts : List RouterProc} (is : proc.seen mem = some part)
    (rule : Routes.Rule md5 .internal mem.shared [part] shared parts) :
    ∃ mem' left, Rule md5 .internal mem [proc] mem' left := by
  cases proc with
  | router proc =>
    obtain rfl : proc = part := Option.some.inj is
    cases rule with
    | @added _ party =>
      cases party with
      | sender cd => exact ⟨_, _, .addedSender⟩
      | receiver agent => exact ⟨_, _, .addedReceiver⟩
    | router act => exact ⟨_, _, .router act⟩
  | registering | watching => exact absurd is nofun
  | adding cd =>
    obtain rfl := Option.some.inj is
    cases rule with
    | router act =>
      cases act with
      | lock isFree => exact ⟨_, _, .update (.lockAdd isFree)⟩
  | updating cd msg =>
    obtain rfl := Option.some.inj is
    cases rule with
    | router act =>
      cases act with
      | updateLock isFree => exact ⟨_, _, .update (.updateLock isFree)⟩
  | dropping cd old msg =>
    obtain rfl := Option.some.inj is
    cases rule with
    | router act =>
      cases act with
      | keep stays => exact ⟨_, _, .update (.keep stays)⟩
      | drop gone => exact ⟨_, _, .update (.drop gone)⟩
      | update => exact ⟨_, _, .update .update⟩
  | cancelling cd rt old msg => exact ⟨_, _, .update .cancel⟩

variable {config : State}

theorem Quiet.notMem (quiet : Quiet md5 config)
    (rule : Rule md5 .internal config.mem [proc] mem' left) : proc ∉ config.procs := by
  intro member
  obtain ⟨next, step⟩ := Step.exists_of_le (Multiset.singleton_le.mpr member) rule
  exact quiet _ _ step rfl

theorem Quiet.seen (quiet : Quiet md5 config) : Routes.Quiet md5 (seen config) := by
  rintro event next step rfl
  obtain ⟨acting, shared, parts, there, rule⟩ := step.exists_rule
  obtain ⟨part, rfl⟩ := Routes.exists_acting rule
  obtain ⟨proc, member, is⟩ := (Multiset.mem_filterMap _ _).mp (there part List.mem_cons_self)
  obtain ⟨mem', left, rule⟩ := exists_rule_of_seen is rule
  exact quiet.notMem rule member

theorem steered_of_reach (reach : Reach (Acting (Rule md5)) (Steady md5) initial config) :
    Steered config :=
  reach.invariant Steered steered_initial fun steered ok step => steered_step steered ok step

theorem reach_seen (reach : Reach (Acting (Rule md5)) (Steady md5) initial config) :
    Reach (Acting (Routes.Rule md5)) (Routes.Orderly md5) Routes.initial (seen config) :=
  reach.simulate seen fun reach ok step => seen_step (steered_of_reach reach) ok step

theorem Quiet.latest (quiet : Quiet md5 config) (steered : Steered config)
    (sound : Routes.Sound (Updates.seen config))
    (recorded : (config.mem.watch cd).record ≠ none)
    (live : config.mem.shared.done (.sender cd) = false) :
    (config.mem.watch cd).latest = some (config.mem.watch cd).recorded := by
  rcases steered.current cd recorded live with fits | ⟨proc, member, pends⟩
  · exact fits
  · have holds : ∀ part, proc.seen config.mem = some part → Routes.locks part = none :=
      fun part is => quiet.seen.locks_eq_none ((Multiset.mem_filterMap _ _).mpr ⟨proc, member, is⟩)
    cases proc with
    | watching other =>
      obtain ⟨rfl, -, queue⟩ := pends
      cases offers : (config.mem.watch other).offering with
      | true => exact absurd member (quiet.notMem (.watch (.takes offers)))
      | false =>
        rw [offers] at queue
        obtain ⟨tcs, more, is⟩ := List.exists_cons_of_ne_nil (queue.resolve_right nofun)
        obtain ⟨next, step⟩ := Step.exists_of_le (Multiset.zero_le _)
          (Rule.watch (.receives offers is) : Rule md5 _ _ [] _ _)
        exact absurd rfl (quiet _ _ step)
    | updating other msg =>
      have isFree := quiet.seen.mutex_eq_false sound (.sender other)
      exact absurd member (quiet.notMem (.update (.updateLock isFree)))
    | dropping | cancelling => exact absurd (holds _ rfl) nofun
    | _ => exact pends.elim

/-- **Updates reach the router**, in every run in which a list that is delivered after the registration
of a consumerd is the one before, or is the first on a new stream while the broker still awaits an
update, and the steps of the router are orderly. -/
theorem applied_of_steady (reach : Reach (Acting (Rule md5)) (Steady md5) initial config) :
    Applied md5 config := by
  intro quiet cd connected live
  have steered := steered_of_reach reach
  obtain ⟨sound, covered⟩ := Routes.sound_covered (reach_seen reach)
  have latest := quiet.latest steered sound (steered.registered cd connected) live
  refine ⟨_, latest, steered.mirror cd, fun hash => ⟨?_, ?_⟩⟩
  · rintro ⟨rt, entry, attached⟩
    rw [← steered.mirror cd]
    exact Routes.attached_within (reach_seen reach).ofActing quiet.seen
      ((Multiset.mem_filterMap _ _).mpr ⟨_, attached, rfl⟩) entry
  · rintro ⟨tc, has, rfl⟩
    rw [← steered.mirror cd] at has
    obtain ⟨rt, entry, -, attached⟩ := quiet.seen.keepsRoutes sound covered connected live has
    obtain ⟨proc, member, is⟩ := (Multiset.mem_filterMap _ _).mp attached
    cases proc with
    | router proc =>
      obtain rfl := Option.some.inj is
      exact ⟨rt, entry, member⟩
    | _ => exact absurd is nofun

/-- A goroutine that waits for somebody else. -/
def Waits (mem : Mem) : Proc → Prop
  | .router proc => Routes.Waits mem.shared proc
  | .registering cd => (mem.watch cd).offering = false
  | .watching cd => (mem.watch cd).offering = false ∧ mem.shared.done (.sender cd) = false
  | _ => False

theorem quiet_of_waits (waits : ∀ proc ∈ config.procs, Waits config.mem proc)
    (idle : ∀ cd, (config.mem.watch cd).inbox = []) : Quiet md5 config := by
  rintro event next step rfl
  obtain ⟨acting, mem', left, there, rule⟩ := step.exists_rule
  have waits : ∀ proc ∈ acting, Waits config.mem proc := fun proc member =>
    waits proc (there proc member)
  cases rule with
  | watch act =>
    cases act with
    | @receives _ cd _ _ _ queue => exact absurd ((idle cd).symm.trans queue) nofun
    | registers offers => exact absurd ((waits _ List.mem_cons_self).symm.trans offers) nofun
    | takes offers => exact absurd ((waits _ List.mem_cons_self).1.symm.trans offers) nofun
    | watchStops isDone => exact absurd ((waits _ List.mem_cons_self).2.symm.trans isDone) nofun
  | update act => cases act <;> exact waits _ List.mem_cons_self
  | addedSender | addedReceiver => exact waits _ List.mem_cons_self
  | router act =>
    exact Routes.not_rule_of_waits
      (fun proc member => waits (.router proc) (List.mem_map_of_mem member)) (.router act)

end Steps

/-! ### Two runs -/

open Routes (clang)

theorem steady_of_plain {config : State} {event : Event} {acting : List Proc}
    (undelivered : ∀ cd tcs, event ≠ .deliver cd tcs)
    (all : (acting.filterMap (Proc.seen config.mem)).all Routes.plain = true) :
    Steady id config (event, acting) :=
  ⟨fun cd tcs is => absurd is (undelivered cd tcs), fun _ => Routes.orderly_of_plain all⟩

theorem steady_deliver {config : State} {cd : ConsumerdId} {tcs : List Toolchain}
    (steady : (config.mem.watch cd).latest = none ∨ (config.mem.watch cd).latest = some tcs ∨
      .watching cd ∈ config.procs ∧ (config.mem.watch cd).offering = false ∧
        (config.mem.watch cd).inbox = [] ∧
        (config.mem.watch cd).record ≠ some (config.mem.watch cd).stream) :
    Steady id config (.deliver cd tcs, []) := by
  refine ⟨fun other others is => ?_, fun _ => Routes.orderly_of_plain rfl⟩
  cases is
  exact steady

@[simp] theorem Mem.put_watch (mem : Mem) (cd : ConsumerdId) (w : Watch) :
    (mem.put cd w).watch cd = w := Function.update_self _ _ _

@[simp] theorem Mem.put_put (mem : Mem) (cd : ConsumerdId) (w w' : Watch) :
    (mem.put cd w).put cd w' = mem.put cd w' := by
  unfold Mem.put
  rw [Function.update_idem, Function.update_idem]

/-- A consumerd is registered and added, whatever its toolchains are. -/
def registered : Mem :=
  { initial.mem with shared := { initial.mem.shared with
      connected := Function.update initial.mem.shared.connected (.sender 0) true
      added := Function.update initial.mem.shared.added (.sender 0) true } }

theorem idle_put {mem : Mem} {cd : ConsumerdId} {w : Watch} (idle : ∀ cd, (mem.watch cd).inbox = [])
    (empty : w.inbox = []) (other : ConsumerdId) : ((mem.put cd w).watch other).inbox = [] := by
  show (Function.update mem.watch cd w other).inbox = []
  by_cases here : other = cd
  · subst here
    rwa [Function.update_self]
  · rw [Function.update_of_ne here]
    exact idle other

/-- The consumerd has registered with the empty list, and the broker awaits an update. -/
theorem registered_run {allowed : State → Event × List Proc → Prop}
    (steady : ∀ config label, Steady id config label → allowed config label) :
    Reach (Acting (Rule id)) allowed initial (.ofList
      (registered.put 0 ⟨true, Function.update (fun _ => []) 0 [], 0, [], false, some 0, some []⟩)
      [.watching 0]) := by
  have nobody : Reach (Acting (Rule id)) allowed initial (.ofList initial.mem []) := .start
  have opens := nobody.nextActing [] [] (.watch (.opens 0 rfl))
    (steady _ _ (steady_of_plain nofun rfl)) (.refl _)
  have delivers := opens.nextActing [] _ (.watch (.delivers 0 [] rfl))
    (steady _ _ (steady_deliver (.inl rfl))) (.refl _)
  rw [Mem.put_put, Mem.put_watch] at delivers
  have receives := delivers.nextActing [] _ (.watch (@WatchAct.receives _ 0 [] [] rfl rfl))
    (steady _ _ (steady_of_plain nofun rfl)) (.refl _)
  rw [Mem.put_put, Mem.put_watch] at receives
  have registers := receives.nextActing [.registering 0] _ (.watch (.registers rfl))
    (steady _ _ (steady_of_plain nofun rfl)) (.refl _)
  rw [Mem.put_put, Mem.put_watch] at registers
  have locks := registers.nextActing [.adding 0] _ (.update (.lockAdd rfl))
    (steady _ _ (steady_of_plain nofun rfl)) (.refl _)
  exact locks.nextActing [.router (.attaching (.sender 0) [] true)] [] .addedSender
    (steady _ _ (steady_of_plain nofun rfl)) (.refl _)

/-- **The second list is decoded over the first.** The record of the consumerd shows the new list before
the update starts, which finds it among the old ones and attaches the consumerd to nothing. -/
theorem alias_hides_update : ∃ config,
    Reach (Acting (Rule id)) (fun _ _ => True) initial config ∧ ¬ Applied id config := by
  have awaits := @registered_run (fun _ _ => True) fun _ _ _ => trivial
  have delivers := awaits.nextActing [] _ (.watch (.delivers 0 [clang] rfl)) trivial (.refl _)
  rw [Mem.put_put, Mem.put_watch] at delivers
  have receives := delivers.nextActing [] _ (.watch (@WatchAct.receives _ 0 [clang] [] rfl rfl))
    trivial (.refl _)
  rw [Mem.put_put, Mem.put_watch] at receives
  have takes := receives.nextActing [.watching 0] _ (.watch (.takes rfl)) trivial (.refl _)
  rw [Mem.put_put, Mem.put_watch] at takes
  have locks := takes.nextActing [.updating 0 0] _ (.update (.updateLock rfl)) trivial (.refl _)
  have keeps := locks.nextActing [.dropping 0 [clang] 0] _ (.update (.keep rfl)) trivial (.refl _)
  have updates := keeps.nextActing [.dropping 0 [] 0] _ (.update .update) trivial (.refl _)
  have unlocks := updates.nextActing [.router (.attaching (.sender 0) [] false)] []
    (.router .unlock) trivial (.refl _)
  refine ⟨_, unlocks, fun applied => ?_⟩
  obtain ⟨tcs, latest, -, attached⟩ := applied
    (quiet_of_waits (fun _ member => absurd member (Multiset.notMem_zero _))
      (idle_put (idle_put (fun _ => rfl) rfl) rfl)) 0 rfl rfl
  obtain rfl : [clang] = tcs := Option.some.inj latest
  obtain ⟨rt, entry, -⟩ := (attached (tcHash id clang)).mpr ⟨clang, List.mem_cons_self, rfl⟩
  exact absurd entry nofun

/-- A consumerd that has registered with the empty list is attached to the route of the toolchain that
is delivered on the next stream. -/
theorem applied_update : ∃ config, Reach (Acting (Rule id)) (Steady id) initial config ∧
    Quiet id config ∧ config.mem.shared.connected (.sender 0) = true ∧
    (config.mem.watch 0).latest = some [clang] ∧ Applied id config := by
  have awaits := @registered_run (Steady id) fun _ _ steady => steady
  have reconnects := awaits.nextActing [] _ (.watch (.reconnects 0 rfl rfl rfl))
    (steady_of_plain nofun rfl) (.refl _)
  rw [Mem.put_put, Mem.put_watch] at reconnects
  have delivers := reconnects.nextActing [] _ (.watch (.delivers 0 [clang] rfl))
    (steady_deliver (.inr (.inr ⟨Multiset.mem_coe.mpr List.mem_cons_self, rfl, rfl, nofun⟩)))
    (.refl _)
  rw [Mem.put_put, Mem.put_watch] at delivers
  have receives := delivers.nextActing [] _ (.watch (@WatchAct.receives _ 0 [clang] [] rfl rfl))
    (steady_of_plain nofun rfl) (.refl _)
  rw [Mem.put_put, Mem.put_watch] at receives
  have takes := receives.nextActing [.watching 0] _ (.watch (.takes rfl))
    (steady_of_plain nofun rfl) (.refl _)
  rw [Mem.put_put, Mem.put_watch] at takes
  have locks := takes.nextActing [.updating 0 1] _ (.update (.updateLock rfl))
    (steady_of_plain nofun rfl) (.refl _)
  have updates := locks.nextActing [.dropping 0 [] 1] _ (.update .update)
    ⟨nofun, fun _ => ⟨nofun, fun proc member rt is => by
      obtain rfl := List.mem_singleton.mp member
      exact absurd is nofun, fun cd tcs is => by
      cases is
      exact fun tc member => ⟨tc, member, rfl⟩⟩⟩ (.refl _)
  have looks := updates.nextActing [.router (.attaching (.sender 0) [clang] false)] []
    (.router .lookup) ⟨nofun, fun _ => Routes.orderly_lookup nofun⟩ (.refl _)
  have attaches := looks.nextActing [.router (.found (.sender 0) 0 [] false)] [.router (.closer 0)]
    (.router .attach) (steady_of_plain nofun rfl) (.refl _)
  have unlocks := attaches.nextActing [.router (.attaching (.sender 0) [] false)]
    [.router (.attached (.sender 0) 0), .router (.closer 0)]
    (.router .unlock) (steady_of_plain nofun rfl) (.refl _)
  refine ⟨_, unlocks, quiet_of_waits ?_ (idle_put (idle_put (fun _ => rfl) rfl) rfl), rfl,
    rfl, applied_of_steady unlocks⟩
  exact List.forall_mem_cons.mpr ⟨rfl, List.forall_mem_singleton.mpr rfl⟩

end Kubecc.Scheduler.Updates
