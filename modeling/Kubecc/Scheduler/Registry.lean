/-
**The broker's registries.**

`NewAgentTaskStream`, `NewConsumerdTaskStream`, the handlers they start and `cleanupAgent` of
`pkg/scheduler/broker.go`, with regard to `Broker.agents` and `Broker.consumerds`. A registry is a map
from the UUID of a component to the record of its stream. A stream writes its record, reads it back
when its handlers start, and deletes what is stored under its UUID when it is cleaned up. All three are
keyed by the UUID, and a component that connects again has the same one.

The two registries differ in the clean-up: that of an agent's stream reports the requests in flight on
the UUID as defunct before it deletes the entry.

* `Rule` — the steps, for either registry.
* `FollowsStreams` — the property: the registry is that of the live streams, every handler has its own
  record, and no clean-up reports the requests of a newer stream.
* `followsStreams_of_successive` — it holds in every run in which a UUID connects only when no earlier
  stream of it is left to be cleaned up.
* `early_reconnection_runs` — the three runs that go wrong without this.
-/

import Kubecc.Lib.Process
import Kubecc.Go.Strings

namespace Kubecc.Scheduler.Registry

open Kubecc.Lib Kubecc.Go

/-- `Broker.agents` or `Broker.consumerds`. -/
inductive Kind
  | agents
  | consumerds
deriving DecidableEq

/-- The record of a stream, an `Agent` or a `Consumerd`: the UUID of the component, and which of the
streams it is, in the order of the connections. -/
structure Record where
  uuid : GoString
  serial : Nat
deriving DecidableEq

/-- Where a stream stands. It waits for its toolchains with the registry locked; it is `registered` when
its record is stored and its handlers are still to be started; it is `serving` when its clean-up
goroutine waits for the end of the context; `ranging` and `sending` are in `cleanupAgent`, with the keys
still to be visited. -/
inductive Phase
  | called
  | waiting
  | registered
  | serving
  | ranging (keys : List GoString)
  | sending (id : GoString) (keys : List GoString)
deriving DecidableEq

/-- The goroutines: that of a stream, and the handlers of a stream with the record that they found. -/
inductive Proc
  | stream (record : Record) (phase : Phase)
  | handler (owner : Record) (found : Option Record)
deriving DecidableEq

/-- What they share. `connected` records the streams so far, `inflight` the record in each entry of
`inflightRequests`, `done` the streams whose context is done. -/
structure Mem where
  registry : GoString → Option Record
  mutex : Bool
  inflight : GoString → Option Record
  connected : List Record
  done : Record → Bool
  crashed : Bool

abbrev State := Config Mem Proc

inductive Event
  | connect (uuid : GoString)
  | internal

/-- The record of the next stream of a component. -/
def Mem.fresh (mem : Mem) (uuid : GoString) : Record := ⟨uuid, mem.connected.length⟩

/-- **The steps.** A component may connect again at any time. `Range` visits the keys it finds at its
start, in any order, and reads each value when it gets there. -/
inductive Rule (kind : Kind) : Rules Mem Proc Event
  -- the outside
  | connect {mem} (uuid : GoString) :
      Rule kind (.connect uuid) mem []
        { mem with connected := mem.fresh uuid :: mem.connected } [.stream (mem.fresh uuid) .called]
  | disconnect {mem} (record : Record) :
      Rule kind .internal mem [] { mem with done := Function.update mem.done record true } []
  | respond {mem} (id : GoString) :
      Rule kind .internal mem [] { mem with inflight := Function.update mem.inflight id none } []
  -- NewAgentTaskStream, NewConsumerdTaskStream
  | lock {mem} {record : Record} : mem.mutex = false →
      Rule kind .internal mem [.stream record .called] { mem with mutex := true }
        [.stream record .waiting]
  | timeout {mem} {record : Record} :
      Rule kind .internal mem [.stream record .waiting] { mem with mutex := false } []
  | register {mem} {record : Record} :
      Rule kind .internal mem [.stream record .waiting]
        { mem with
          registry := Function.update mem.registry record.uuid (some record)
          mutex := false }
        [.stream record .registered]
  -- handleAgentStream, handleConsumerdStream: an agent's record is written to at once
  | handle {mem} {record found : Record} : mem.mutex = false →
      mem.registry record.uuid = some found →
      Rule kind .internal mem [.stream record .registered] mem
        [.stream record .serving, .handler record (some found)]
  | handleNil {mem} {record : Record} : mem.mutex = false → mem.registry record.uuid = none →
      Rule kind .internal mem [.stream record .registered]
        { mem with crashed := decide (kind = .agents) }
        [.stream record .serving, .handler record none]
  | send {mem} {owner found : Record} (id : GoString) : kind = .agents →
      Rule kind .internal mem [.handler owner (some found)]
        { mem with inflight := Function.update mem.inflight id (some found) }
        [.handler owner (some found)]
  | handlerStops {mem} {owner : Record} {found : Option Record} : mem.done owner = true →
      Rule kind .internal mem [.handler owner found] mem []
  -- the clean-up
  | cleanup {mem} {record : Record} {keys : List GoString} : mem.done record = true →
      mem.mutex = false →
      (kind = .agents → keys.Nodup ∧ ∀ id, (mem.inflight id).isSome = true → id ∈ keys) →
      (kind = .consumerds → keys = []) →
      Rule kind .internal mem [.stream record .serving] { mem with mutex := true }
        [.stream record (.ranging keys)]
  | visit {mem} {record found : Record} {id : GoString} {keys : List GoString} :
      mem.inflight id = some found → found.uuid = record.uuid →
      Rule kind .internal mem [.stream record (.ranging (id :: keys))] mem
        [.stream record (.sending id keys)]
  | pass {mem} {record : Record} {id : GoString} {keys : List GoString} :
      (∀ found, mem.inflight id = some found → found.uuid ≠ record.uuid) →
      Rule kind .internal mem [.stream record (.ranging (id :: keys))] mem
        [.stream record (.ranging keys)]
  | defunct {mem} {record : Record} {id : GoString} {keys : List GoString} :
      Rule kind .internal mem [.stream record (.sending id keys)] mem
        [.stream record (.ranging keys)]
  | delete {mem} {record : Record} :
      Rule kind .internal mem [.stream record (.ranging [])]
        { mem with
          registry := Function.update mem.registry record.uuid none
          mutex := false } []

def Act (kind : Kind) : Rules Mem Proc Event := fun event mem acting mem' left =>
  mem.crashed = false ∧ Rule kind event mem acting mem' left

def initial : State := .ofList ⟨fun _ => none, false, fun _ => none, [], fun _ => false, false⟩ []

/-! ### The property -/

def Quiescent (config : State) : Prop :=
  ∀ record phase, .stream record phase ∈ config.procs →
    phase = .serving ∧ config.mem.done record = false

structure FollowsStreams (config : State) : Prop where
  registry : Quiescent config → ∀ uuid record, config.mem.registry uuid = some record ↔
    .stream record .serving ∈ config.procs ∧ config.mem.done record = false ∧ record.uuid = uuid
  handlers : ∀ owner found, .handler owner found ∈ config.procs → found = some owner
  defunct : ∀ record id keys, .stream record (.sending id keys) ∈ config.procs →
    ∀ found, config.mem.inflight id = some found → found.uuid = record.uuid →
      ¬ record.serial < found.serial

/-- The condition: a UUID connects only when no earlier stream of it is being registered, served or
cleaned up. -/
def Successive (config : State) : Event → Prop
  | .connect uuid => ∀ record phase, .stream record phase ∈ config.procs → record.uuid ≠ uuid
  | .internal => True

/-! ### The invariant -/

def Phase.entered : Phase → Bool
  | .called | .waiting => false
  | _ => true

def Proc.uuid : Proc → Option GoString
  | .stream record _ => some record.uuid
  | .handler _ _ => none

/-- The goroutine is that of the stream that stored the record. -/
def Proc.Owns (record : Record) : Proc → Prop
  | .stream own phase => own = record ∧ phase.entered = true
  | .handler _ _ => False

/-- What holds of a goroutine: a stream finds its own record in the registry and is the newest of its
UUID; a handler has the record of its stream. -/
def Proc.Fine (registry : GoString → Option Record) (connected : List Record) : Proc → Prop
  | .stream record phase => record ∈ connected ∧
      (phase.entered = true → registry record.uuid = some record) ∧
      ∀ other ∈ connected, other.uuid = record.uuid → other.serial ≤ record.serial
  | .handler owner found => found = some owner ∧ owner ∈ connected

structure Kept (config : State) : Prop where
  single : ∀ uuid, total (tally Proc.uuid uuid) config.procs ≤ 1
  fine : ∀ proc ∈ config.procs, proc.Fine config.mem.registry config.mem.connected
  owned : ∀ uuid record, config.mem.registry uuid = some record →
    record.uuid = uuid ∧ ∃ proc ∈ config.procs, proc.Owns record
  inflight : ∀ id record, config.mem.inflight id = some record → record ∈ config.mem.connected
  serials : ∀ record ∈ config.mem.connected, record.serial < config.mem.connected.length

section Kept

variable {kind : Kind} {mem mem' : Mem} {acting left : List Proc} {rest : Multiset Proc}
  {record : Record} {phase : Phase}

theorem Kept.apart (kept : Kept ⟨mem, ↑[Proc.stream record phase] + rest⟩) {proc : Proc}
    (member : proc ∈ rest) : proc.uuid ≠ some record.uuid := by
  intro same
  have once := kept.single record.uuid
  have counted := @weight_le_total _ (tally Proc.uuid record.uuid) _ _ member
  simp only [total_add, total_coe_cons, total_coe_nil] at once
  rw [tally_of_eq_some same, if_pos rfl] at counted
  rw [tally_of_eq_some (show (Proc.stream record phase).uuid = _ from rfl), if_pos rfl] at once
  omega

theorem Kept.move (kept : Kept ⟨mem, ↑acting + rest⟩) (registry : mem'.registry = mem.registry)
    (connected : mem'.connected = mem.connected)
    (inflight : ∀ id record, mem'.inflight id = some record → record ∈ mem.connected)
    (single : ∀ uuid, total (tally Proc.uuid uuid) ↑left ≤ total (tally Proc.uuid uuid) ↑acting)
    (fine : (∀ proc ∈ acting, proc.Fine mem.registry mem.connected) →
      ∀ proc ∈ left, proc.Fine mem.registry mem.connected)
    (owned : ∀ record, ∀ proc ∈ acting, proc.Owns record → ∃ proc ∈ left, proc.Owns record) :
    Kept ⟨mem', ↑left + rest⟩ where
  single uuid := by
    have once := kept.single uuid
    have le := single uuid
    simp only [total_add] at once ⊢
    omega
  fine := by
    simp only [registry, connected]
    exact forall_mem_fire kept.fine fine fun _ _ => id
  owned := by
    simp only [registry]
    intro uuid record stored
    obtain ⟨same, some⟩ := kept.owned uuid record stored
    exact ⟨same, exists_mem_fire some (owned record) fun _ _ => id⟩
  inflight := by
    simp only [connected]
    exact inflight
  serials := by
    simp only [connected]
    exact kept.serials

theorem Kept.advance {next : Phase} (kept : Kept ⟨mem, ↑[Proc.stream record phase] + rest⟩)
    (registry : mem'.registry = mem.registry) (connected : mem'.connected = mem.connected)
    (inflight : mem'.inflight = mem.inflight) (same : next.entered = phase.entered) :
    Kept ⟨mem', ↑[Proc.stream record next] + rest⟩ := by
  refine kept.move registry connected (inflight ▸ kept.inflight) (fun _ => le_rfl) ?_ ?_
  · intro fine
    obtain ⟨known, entry, newest⟩ := fine _ List.mem_cons_self
    exact List.forall_mem_singleton.mpr ⟨known, fun entered => entry (same ▸ entered), newest⟩
  · intro stored proc member owns
    obtain rfl := List.mem_singleton.mp member
    exact ⟨_, List.mem_cons_self, owns.1, same ▸ owns.2⟩

theorem Proc.Fine.update {proc : Proc} {registry : GoString → Option Record}
    {connected : List Record} {uuid : GoString} (fine : proc.Fine registry connected)
    (other : proc.uuid ≠ some uuid) (value : Option Record) :
    proc.Fine (Function.update registry uuid value) connected := by
  cases proc with
  | handler => exact fine
  | stream record phase =>
    refine ⟨fine.1, fun entered => ?_, fine.2.2⟩
    rw [Function.update_of_ne fun same => other (congrArg some same)]
    exact fine.2.1 entered

theorem Kept.connect {procs : Multiset Proc} {uuid : GoString} (kept : Kept ⟨mem, procs⟩)
    (successive : Successive ⟨mem, procs⟩ (.connect uuid)) :
    Kept ⟨{ mem with connected := mem.fresh uuid :: mem.connected },
      ↑[Proc.stream (mem.fresh uuid) .called] + procs⟩ := by
  have none : ∀ proc ∈ procs, proc.uuid ≠ some uuid := by
    intro proc member is
    cases proc with
    | handler => cases is
    | stream record phase => exact successive record phase member (Option.some.inj is)
  refine ⟨fun other => ?_, ?_, ?_, ?_, ?_⟩
  · have once := kept.single other
    rw [total_add, total_coe_cons, total_coe_nil,
      tally_of_eq_some (show (Proc.stream (mem.fresh uuid) .called).uuid = some uuid from rfl)]
    by_cases same : uuid = other
    · have absent : total (tally Proc.uuid other) procs = 0 :=
        total_eq_zero fun proc member => if_neg (same ▸ none proc member)
      rw [if_pos same, absent]
    · rw [if_neg same]
      simpa using once
  · intro proc member
    rcases mem_fire.mp member with member | member
    · obtain rfl := List.mem_singleton.mp member
      refine ⟨List.mem_cons_self, by rintro ⟨⟩, fun other there _ => ?_⟩
      rcases List.mem_cons.mp there with rfl | there
      · exact le_rfl
      · exact (kept.serials other there).le
    · have fine := kept.fine proc member
      cases proc with
      | handler => exact ⟨fine.1, List.mem_cons_of_mem _ fine.2⟩
      | stream record phase =>
        refine ⟨List.mem_cons_of_mem _ fine.1, fine.2.1, fun other there same => ?_⟩
        rcases List.mem_cons.mp there with rfl | there
        · exact absurd (congrArg some same.symm) (none _ member)
        · exact fine.2.2 other there same
  · intro other record stored
    obtain ⟨same, proc, member, owns⟩ := kept.owned other record stored
    exact ⟨same, proc, mem_of_rest member, owns⟩
  · exact fun id record there => List.mem_cons_of_mem _ (kept.inflight id record there)
  · intro record there
    rcases List.mem_cons.mp there with rfl | there
    · exact Nat.lt_succ_self _
    · exact (kept.serials record there).trans (Nat.lt_succ_self _)

theorem Kept.register (kept : Kept ⟨mem, ↑[Proc.stream record .waiting] + rest⟩) :
    Kept ⟨{ mem with
        registry := Function.update mem.registry record.uuid (some record)
        mutex := false },
      ↑[Proc.stream record .registered] + rest⟩ := by
  refine ⟨fun uuid => ?_, ?_, fun uuid other stored => ?_, kept.inflight, kept.serials⟩
  · simpa [tally, Proc.uuid] using kept.single uuid
  · refine forall_mem_fire kept.fine (fun fine => ?_) fun proc member fine =>
      fine.update (kept.apart member) _
    obtain ⟨known, _, newest⟩ := fine _ List.mem_cons_self
    exact List.forall_mem_singleton.mpr ⟨known, fun _ => Function.update_self _ _ _, newest⟩
  · by_cases here : uuid = record.uuid
    · subst here
      obtain rfl : record = other := by simpa using stored
      exact ⟨rfl, _, mem_acting, rfl, rfl⟩
    · obtain ⟨same, some⟩ := kept.owned uuid other
        (by simpa [Function.update_of_ne here] using stored)
      refine ⟨same, exists_mem_fire some (fun proc member owns => ?_) fun _ _ => id⟩
      obtain rfl := List.mem_singleton.mp member
      cases owns.2

theorem Kept.delete (kept : Kept ⟨mem, ↑[Proc.stream record (.ranging [])] + rest⟩) :
    Kept ⟨{ mem with
        registry := Function.update mem.registry record.uuid none
        mutex := false }, ↑([] : List Proc) + rest⟩ := by
  refine ⟨fun uuid => ?_, ?_, fun uuid other stored => ?_, kept.inflight, kept.serials⟩
  · have once := kept.single uuid
    simp only [total_add] at once ⊢
    exact (Nat.add_le_add_right (Nat.zero_le _) _).trans once
  · exact forall_mem_fire kept.fine (fun _ => List.forall_mem_nil _) fun proc member fine =>
      fine.update (kept.apart member) _
  · by_cases here : uuid = record.uuid
    · subst here
      simp at stored
    · obtain ⟨same, some⟩ := kept.owned uuid other
        (by simpa [Function.update_of_ne here] using stored)
      refine ⟨same, exists_mem_fire some (fun proc member owns => ?_) fun _ _ => id⟩
      obtain rfl := List.mem_singleton.mp member
      exact absurd (owns.1 ▸ same.symm) here

theorem kept_rule {event : Event} (rule : Rule kind event mem acting mem' left)
    (ok : Successive ⟨mem, ↑acting + rest⟩ event) (kept : Kept ⟨mem, ↑acting + rest⟩) :
    Kept ⟨mem', ↑left + rest⟩ := by
  cases rule with
  | connect uuid =>
    have bag : (↑([] : List Proc) + rest : Multiset Proc) = rest := zero_add rest
    rw [bag] at kept ok
    exact kept.connect ok
  | register => exact kept.register
  | delete => exact kept.delete
  | lock | cleanup | visit | pass | defunct => exact kept.advance rfl rfl rfl rfl
  | disconnect =>
    exact kept.move rfl rfl kept.inflight (fun _ => le_rfl) (by rintro _ _ ⟨⟩) (by rintro _ _ ⟨⟩)
  | respond id =>
    refine kept.move rfl rfl (fun id' record there => ?_) (fun _ => le_rfl)
      (by rintro _ _ ⟨⟩) (by rintro _ _ ⟨⟩)
    by_cases same : id' = id
    · subst same
      simp at there
    · exact kept.inflight id' record (by simpa [Function.update_of_ne same] using there)
  | timeout =>
    refine kept.move rfl rfl kept.inflight (fun _ => Nat.zero_le _) (by rintro _ _ ⟨⟩) ?_
    intro record proc member owns
    obtain rfl := List.mem_singleton.mp member
    cases owns.2
  | @handle _ record found _ stored =>
    refine kept.move rfl rfl kept.inflight (by simp [tally, Proc.uuid]) (fun fine => ?_) ?_
    · obtain ⟨known, entry, newest⟩ := fine _ List.mem_cons_self
      have own : found = record := Option.some.inj (stored.symm.trans (entry rfl))
      refine List.forall_mem_cons.mpr ⟨⟨known, fun _ => entry rfl, newest⟩, ?_⟩
      exact List.forall_mem_singleton.mpr ⟨congrArg some own, known⟩
    · intro record proc member owns
      obtain rfl := List.mem_singleton.mp member
      exact ⟨_, List.mem_cons_self, owns.1, rfl⟩
  | @handleNil _ record _ stored =>
    obtain ⟨_, entry, _⟩ := kept.fine (.stream record .registered)
      mem_acting
    cases stored.symm.trans (entry rfl)
  | @send _ owner found id _ =>
    obtain ⟨own, known⟩ := kept.fine (.handler owner (some found))
      mem_acting
    obtain rfl := Option.some.inj own
    refine kept.move rfl rfl (fun id' record there => ?_) (fun _ => le_rfl) (fun fine => fine)
      fun _ proc member owns => ⟨proc, member, owns⟩
    by_cases same : id' = id
    · subst same
      obtain rfl : found = record := by simpa using there
      exact known
    · exact kept.inflight id' record (by simpa [Function.update_of_ne same] using there)
  | handlerStops =>
    refine kept.move rfl rfl kept.inflight (fun _ => Nat.zero_le _) (by rintro _ _ ⟨⟩) ?_
    intro record proc member owns
    obtain rfl := List.mem_singleton.mp member
    cases owns

end Kept

theorem Kept.followsStreams {config : State} (kept : Kept config) : FollowsStreams config := by
  refine ⟨fun quiescent uuid record => ⟨fun stored => ?_, ?_⟩, ?_, ?_⟩
  · obtain ⟨same, proc, member, owns⟩ := kept.owned uuid record stored
    cases proc with
    | handler => exact absurd owns nofun
    | stream own phase =>
      obtain ⟨rfl, _⟩ := owns
      obtain ⟨rfl, live⟩ := quiescent own phase member
      exact ⟨member, live, same⟩
  · rintro ⟨member, _, rfl⟩
    exact (kept.fine _ member).2.1 rfl
  · exact fun owner found member => (kept.fine _ member).1
  · intro record id keys member found stored same
    exact Nat.not_lt.mpr ((kept.fine _ member).2.2 found (kept.inflight id found stored) same)

/-- **The registry follows the live streams**, in every run in which a UUID connects only when no
earlier stream of it is left. -/
theorem followsStreams_of_successive {kind : Kind} {config : State}
    (reach : Reach (Act kind) Successive initial config) : FollowsStreams config := by
  refine Kept.followsStreams (reach.invariant Kept ?_ fun kept ok step => ?_)
  · exact ⟨fun _ => Nat.zero_le _, nofun, nofun, nofun, nofun⟩
  · cases step with
    | fire rest fires => exact kept_rule fires.2 ok kept

/-! ### Runs -/

section Runs

variable {kind : Kind} {allowed : State → Event → Prop} {mem : Mem} {alive : List Proc}

theorem register_run (plain : ∀ config, allowed config .internal)
    (reach : Reach (Act kind) allowed initial (.ofList mem alive)) (uuid : GoString)
    (free : mem.mutex = false) (running : mem.crashed = false)
    (ok : allowed (.ofList mem alive) (.connect uuid)) :
    Reach (Act kind) allowed initial
      (.ofList
        { mem with
          connected := mem.fresh uuid :: mem.connected
          registry := Function.update mem.registry uuid (some (mem.fresh uuid))
          mutex := false }
        (.stream (mem.fresh uuid) .registered :: alive)) := by
  have run := reach.next [] alive ⟨running, .connect uuid⟩ ok (.refl _)
  have run := run.next [.stream (mem.fresh uuid) .called] alive ⟨running, .lock free⟩ (plain _) (.refl _)
  exact run.next [.stream (mem.fresh uuid) .waiting] alive ⟨running, .register⟩ (plain _) (.refl _)

theorem serve_run (plain : ∀ config, allowed config .internal)
    (reach : Reach (Act kind) allowed initial (.ofList mem alive)) (uuid : GoString)
    (free : mem.mutex = false) (running : mem.crashed = false)
    (ok : allowed (.ofList mem alive) (.connect uuid)) :
    Reach (Act kind) allowed initial
      (.ofList
        { mem with
          connected := mem.fresh uuid :: mem.connected
          registry := Function.update mem.registry uuid (some (mem.fresh uuid))
          mutex := false }
        (.stream (mem.fresh uuid) .serving :: .handler (mem.fresh uuid) (some (mem.fresh uuid)) ::
          alive)) :=
  (register_run plain reach uuid free running ok).next [.stream (mem.fresh uuid) .registered] alive
    ⟨running, .handle rfl (Function.update_self _ _ _)⟩ (plain _) (.refl _)

def first : Record := ⟨[1], 0⟩

def second : Record := ⟨[1], 1⟩

/-- A component connects, is cleaned up, and connects again. -/
theorem followsStreams_again : ∃ config, Reach (Act .agents) Successive initial config ∧
    config.mem.registry [1] = some second ∧ FollowsStreams config := by
  have begins : Reach (Act .agents) Successive initial (.ofList initial.mem []) := .start
  have run := serve_run (fun _ => trivial) begins [1] rfl rfl (by simp [Successive, Config.ofList])
  have run := run.next [] _ ⟨rfl, .disconnect first⟩ trivial (.refl _)
  have run := run.next [.handler first (some first)] [.stream first .serving]
    ⟨rfl, .handlerStops rfl⟩ trivial (by decide)
  have run := run.next [.stream first .serving] []
    ⟨rfl, @Rule.cleanup .agents _ _ [] rfl rfl (fun _ => ⟨List.nodup_nil, by rintro _ ⟨⟩⟩) (by rintro ⟨⟩)⟩ trivial (.refl _)
  have run := run.next [.stream first (.ranging [])] [] ⟨rfl, .delete⟩ trivial (.refl _)
  have run := serve_run (fun _ => trivial) run [1] rfl rfl (by simp [Successive, Config.ofList])
  exact ⟨_, run, rfl, followsStreams_of_successive run⟩

/-- The component has connected again, and the clean-up of its first stream is still to come. -/
theorem reconnected_run (kind : Kind) : ∃ mem, Reach (Act kind) (fun _ _ => True) initial
      (.ofList mem [.stream second .serving, .handler second (some second), .stream first .serving,
        .handler first (some first)]) ∧
    mem.mutex = false ∧ mem.crashed = false ∧ mem.done first = true ∧ mem.done second = false ∧
    mem.inflight = fun _ => none := by
  have begins : Reach (Act kind) (fun _ _ => True) initial (.ofList initial.mem []) := .start
  have run := serve_run (fun _ => trivial) begins [1] rfl rfl trivial
  have run := run.next [] _ ⟨rfl, .disconnect first⟩ trivial (.refl _)
  have run := serve_run (fun _ => trivial) run [1] rfl rfl trivial
  exact ⟨_, run, rfl, rfl, rfl, rfl, rfl⟩

/-- The clean-up of the first stream deletes the entry of the second. -/
theorem late_cleanup_run (kind : Kind) : ∃ config,
    Reach (Act kind) (fun _ _ => True) initial config ∧ Quiescent config ∧
      .stream second .serving ∈ config.procs ∧ config.mem.done second = false ∧
      config.mem.registry [1] = none := by
  obtain ⟨mem, run, free, running, firstDone, secondLive, none⟩ := reconnected_run kind
  have run := run.next [.stream first .serving]
    [.stream second .serving, .handler second (some second), .handler first (some first)]
    ⟨running, @Rule.cleanup kind _ _ [] firstDone free
      (fun _ => ⟨List.nodup_nil, by simp [none]⟩) fun _ => rfl⟩ trivial (by decide)
  have run := run.next [.stream first (.ranging [])] _ ⟨running, .delete⟩ trivial (.refl _)
  refine ⟨_, run, ?_, by simp [Config.ofList], secondLive,
    show Function.update mem.registry first.uuid Option.none first.uuid = _ from
      Function.update_self _ _ _⟩
  intro record phase member
  obtain ⟨rfl, rfl⟩ : record = second ∧ phase = .serving := by
    simpa [Config.ofList] using member
  exact ⟨rfl, secondLive⟩

/-- **Three runs that go wrong.** A component connects again while the clean-up of its first stream is
still to come. The clean-up deletes the entry of the second stream, of either kind; or it does so
before the second stream's handlers are started, and these get nil; or it reports a request that is in
flight on the second stream as defunct. -/
theorem early_reconnection_runs :
    (∃ config, Reach (Act .agents) (fun _ _ => True) initial config ∧ Quiescent config ∧
      config.mem.registry [1] = none ∧ ¬ FollowsStreams config) ∧
    (∃ config, Reach (Act .consumerds) (fun _ _ => True) initial config ∧ Quiescent config ∧
      config.mem.registry [1] = none ∧ ¬ FollowsStreams config) ∧
    (∃ config, Reach (Act .agents) (fun _ _ => True) initial config ∧
      .handler second none ∈ config.procs ∧ ¬ FollowsStreams config) ∧
    ∃ config, Reach (Act .agents) (fun _ _ => True) initial config ∧
      .stream first (.sending [5] []) ∈ config.procs ∧ config.mem.inflight [5] = some second ∧
      ¬ FollowsStreams config := by
  have deleted : ∀ kind, ∃ config, Reach (Act kind) (fun _ _ => True) initial config ∧
      Quiescent config ∧ config.mem.registry [1] = none ∧ ¬ FollowsStreams config := by
    intro kind
    obtain ⟨config, run, quiescent, member, live, none⟩ := late_cleanup_run kind
    refine ⟨config, run, quiescent, none, fun follows => ?_⟩
    have stored := (follows.registry quiescent [1] second).mpr ⟨member, live, rfl⟩
    exact absurd (none.symm.trans stored) nofun
  refine ⟨deleted .agents, deleted .consumerds, ?_, ?_⟩
  · have begins : Reach (Act .agents) (fun _ _ => True) initial (.ofList initial.mem []) := .start
    have run := serve_run (fun _ => trivial) begins [1] rfl rfl trivial
    have run := run.next [] _ ⟨rfl, .disconnect first⟩ trivial (.refl _)
    have run := register_run (fun _ => trivial) run [1] rfl rfl trivial
    have run := run.next [.stream first .serving]
      [.stream second .registered, .handler first (some first)]
      ⟨rfl, @Rule.cleanup .agents _ _ [] rfl rfl (fun _ => ⟨List.nodup_nil, nofun⟩) nofun⟩ trivial
      (by decide)
    have run := run.next [.stream first (.ranging [])] _ ⟨rfl, .delete⟩ trivial (.refl _)
    have run := run.next [.stream second .registered] [.handler first (some first)]
      ⟨rfl, .handleNil rfl rfl⟩ trivial (.refl _)
    refine ⟨_, run, by simp [Config.ofList], fun follows => ?_⟩
    exact absurd (follows.handlers second none (by simp [Config.ofList])) nofun
  · obtain ⟨mem, run, free, running, firstDone, secondLive, none⟩ := reconnected_run .agents
    have run := run.next [.handler second (some second)]
      [.stream first .serving, .stream second .serving, .handler first (some first)]
      ⟨running, .send [5] rfl⟩ trivial (by decide)
    have run := run.next [.stream first .serving]
      [.handler second (some second), .stream second .serving, .handler first (some first)]
      ⟨running, @Rule.cleanup .agents _ _ [[5]] firstDone free
        (fun _ => ⟨List.nodup_singleton _, fun id there => by
          by_cases same : id = [5]
          · exact List.mem_singleton.mpr same
          · simp [Function.update_of_ne same, none] at there⟩) nofun⟩ trivial (by decide)
    have stored : Function.update mem.inflight [5] (some second) [5] = some second :=
      Function.update_self _ _ _
    have run := run.next [.stream first (.ranging [[5]])] _
      ⟨running, @Rule.visit _ _ first second _ _ stored rfl⟩ trivial (.refl _)
    refine ⟨_, run, by simp [Config.ofList], stored, fun follows => ?_⟩
    exact follows.defunct first [5] [] (by simp [Config.ofList]) second stored rfl (by decide)

end Runs

end Kubecc.Scheduler.Registry
