/-
**The provider directory.**

The monitor publishes its provider table under a key of the meta bucket. `Stream` changes the table and
the buckets, posts the new table and notifies the listeners of that key with `providerMutex` locked for
writing; `Listen` registers its stream and does its late join with the mutex locked for reading. So a
listener of the meta key sees every table, in order. What breaks this is `Key.Canonical`: the receivers
of a post are looked up by it, and a provider whose UUID is `meta.type` can post, in its own bucket, a
metric with the canonical form of the meta key.

* `Consistent` — the property: while `providerMutex` is not locked for writing, the buckets are those of
  the connected providers and the meta bucket, the published table is the current one, and it is the last
  value sent to each listener of the meta key that has joined.
* `Delivering` — the steps in which every `Send` succeeds; `PostsOwn` — what is assumed of the posts.
* `Distinct` — the condition: no value is swapped in under another key with the canonical form of the
  meta key.
* `tables`, `registered` — the buckets, the providers and the listeners are those of the handlers, in
  every run.
* `Directory` — the invariant: the stored table is the current one unless a handler with the write lock
  is about to post it; a listener has got the stored table unless such a handler is about to send it.
* `consistent_of_distinct` — the property holds in every run all of whose swaps meet the condition, so in
  every run in which no UUID has a dot (`consistent_of_undotted`).
* `foreign_table_sent` — a run after which a listener of the meta key has got something else.
-/

import Kubecc.Monitor.Listeners

set_option linter.unusedSectionVars false

namespace Kubecc.Monitor

open Kubecc.Lib Kubecc.Go

section Property

variable {Value : Type}

def Setup.metaKey (setup : Setup Value) : Key := ⟨metaBucket, setup.typeUrl⟩

/-- The call and the value of the `Send` that a handler does next. -/
def Proc.sends (proc : Proc Value) : Option (Nat × Value) :=
  match proc.phase with
  | .sending _ value (receiver :: _) _ => some (receiver, value)
  | .read value => some (proc.id, value)
  | _ => none

/-- What is assumed of the posts: a provider posts into the bucket of its own UUID, and what the monitor
posts in its own bucket is no provider table. -/
def Proc.PostsOwn (setup : Setup Value) (proc : Proc Value) : Prop :=
  match proc.handler, proc.phase with
  | .stream info, .received metric => metric.key.bucket = info.uuid
  | .internal _ typeUrl _, _ => typeUrl ≠ setup.typeUrl
  | _, _ => True

/-- What is assumed in every state. -/
def PostsOwn (setup : Setup Value) (config : State Value) : Prop :=
  ∀ proc ∈ config.procs, proc.PostsOwn setup

/-- The condition: what has the canonical form of the meta key is swapped in under the meta key. -/
def Distinct (setup : Setup Value) : Event Value → Prop
  | .cas key _ => key.canonical = setup.metaKey.canonical → key = setup.metaKey
  | _ => True

/-- Whether the provider is still registered where `post` returns to. -/
def After.isConnected : After → Bool
  | .connected | .received => true
  | .disconnected _ | .internal => false

/-- Whether a `Stream` has registered its provider and not yet removed it. -/
def Phase.isConnected : Phase Value → Bool
  | .receiving | .received _ | .leaving _ | .disconnecting _ => true
  | .posting _ after | .notifying _ _ after | .sending _ _ _ after | .posted _ after => after.isConnected
  | _ => false

/-- The UUID of the provider, for the `Stream` of a connected one. -/
def Proc.connected (proc : Proc Value) : Option GoString :=
  match proc.handler with
  | .stream info => if proc.phase.isConnected then some info.uuid else none
  | _ => none

/-- Whether a `Listen` has done its late join, and its stream is still registered. -/
def Phase.lateJoined : Phase Value → Bool
  | .joined | .listening | .removing _ | .removeLocked _ | .removeBoth _ => true
  | _ => false

/-- **The directory is right.** The monitor is a provider of its own, from the start. -/
structure Published (setup : Setup Value) (config : State Value) : Prop where
  buckets : ∀ name, (config.mem.buckets name).isSome = true ↔
    (config.mem.providers name).isSome = true ∨ name = metaBucket
  providers : ∀ name, (config.mem.providers name).isSome = true ↔
    (∃ proc ∈ config.procs, proc.connected = some name) ∨ name = setup.uuid
  table : config.mem.stored setup.metaKey = some (setup.table config.mem.providers)
  listeners : ∀ id, (id, setup.metaKey) ∈ config.mem.listeners →
    ∀ proc ∈ config.procs, proc.id = id → proc.phase.lateJoined = true →
      (config.mem.sent id).head? = some (setup.table config.mem.providers)

/-- **The directory is right whenever `providerMutex` is not locked for writing.** -/
def Consistent (setup : Setup Value) (config : State Value) : Prop :=
  config.mem.providerMutex.writer = none → Published setup config

/-- The steps in which every `Send` succeeds. -/
def Delivering [DecidableEq Value] (setup : Setup Value) : Rules (Mem Value) (Proc Value) (Event Value) :=
  fun event mem acting mem' left => Rule setup event mem acting mem' left ∧
    ∀ proc ∈ acting, ∀ send, proc.sends = some send → mem'.sent send.1 = send.2 :: mem.sent send.1

end Property

variable {Value : Type} [DecidableEq Value] {setup : Setup Value} {event : Event Value}
  {mem mem' : Mem Value} {proc next : Proc Value} {acting left : List (Proc Value)}
  {rest : Multiset (Proc Value)} {config : State Value} {id : Nat} {key : Key} {after : After}
  {handler : Handler Value}

theorem reach_of_delivering {allowed : State Value → Event Value → Prop}
    (reach : Reach (Delivering setup) allowed (initial setup) config) :
    Reach (Rule setup) (fun _ _ => True) (initial setup) config := by
  induction reach with
  | start => exact .start
  | step _ _ step ih =>
    obtain ⟨rest, fires⟩ := step
    exact .step ih trivial (.fire rest fires.1)

/-! ### The buckets and the providers -/

/-- **What a step does to the tables**: it registers a provider, removes one, or leaves them alone. -/
theorem rule_tables (rule : Rule setup event mem acting mem' left) :
    (mem'.buckets = mem.buckets ∧ mem'.providers = mem.providers ∧ mem'.created = mem.created ∧
      left.filterMap Proc.connected = acting.filterMap Proc.connected) ∨
    (∃ info : ProviderInfo, mem.buckets info.uuid = none ∧
      mem'.buckets = Function.update mem.buckets info.uuid (some mem.created) ∧
      mem'.providers = Function.update mem.providers info.uuid (some info) ∧
      mem'.created = mem.created + 1 ∧
      acting.filterMap Proc.connected = [] ∧ left.filterMap Proc.connected = [info.uuid]) ∨
    (∃ info : ProviderInfo, mem'.buckets = Function.update mem.buckets info.uuid none ∧
      mem'.providers = Function.update mem.providers info.uuid none ∧ mem'.created = mem.created ∧
      acting.filterMap Proc.connected = [info.uuid] ∧ left.filterMap Proc.connected = []) := by
  cases rule with
  | @register _ _ _ info absent => exact .inr (.inl ⟨info, absent, rfl, rfl, rfl, rfl, rfl⟩)
  | @unregister _ _ _ info => exact .inr (.inr ⟨info, rfl, rfl, rfl, rfl, rfl⟩)
  | receiveUnlock =>
    refine .inl ⟨rfl, rfl, rfl, ?_⟩
    split <;> rfl
  | @call _ handler | @turnAway _ _ _ handler =>
    refine .inl ⟨rfl, rfl, rfl, ?_⟩
    cases handler <;> rfl
  | _ => exact .inl ⟨rfl, rfl, rfl, rfl⟩

/-- **The tables are those of the handlers**, and the meta bucket is nobody's. -/
structure Tables (setup : Setup Value) (config : State Value) : Prop where
  separate : Separate config.mem
  buckets : ∀ name, (config.mem.buckets name).isSome = true ↔
    (config.mem.providers name).isSome = true ∨ name = metaBucket
  connected : ∀ name, total (tally Proc.connected name) config.procs +
    (if setup.uuid = name then 1 else 0) = present config.mem.providers name
  streams : total (tally Proc.connected metaBucket) config.procs = 0

theorem Tables.metaStore (tables : Tables setup config) :
    ∃ store, config.mem.buckets metaBucket = some store :=
  Option.isSome_iff_exists.mp ((tables.buckets metaBucket).mpr (.inr rfl))

theorem Tables.ne_metaBucket (tables : Tables setup config) {uuid : GoString}
    (member : proc ∈ config.procs) (is : proc.connected = some uuid) : uuid ≠ metaBucket := by
  rintro rfl
  have counted := one_le_total_tally member is
  rw [tables.streams] at counted
  exact absurd counted (Nat.not_succ_le_zero 0)

theorem Tables.provider (tables : Tables setup config) {uuid : GoString} (member : proc ∈ config.procs)
    (is : proc.connected = some uuid) : ∃ info, config.mem.providers uuid = some info := by
  refine Option.ne_none_iff_exists'.mp fun absent => ?_
  have account := tables.connected uuid
  have counted := one_le_total_tally member is
  rw [present_eq_zero.mpr absent] at account
  omega

theorem Tables.providers (tables : Tables setup config) (name : GoString) :
    (config.mem.providers name).isSome = true ↔
      (∃ proc ∈ config.procs, proc.connected = some name) ∨ name = setup.uuid := by
  have account := tables.connected name
  refine ⟨fun known => ?_, fun either => ?_⟩
  · obtain ⟨info, is⟩ := Option.isSome_iff_exists.mp known
    rw [present_of_eq_some is] at account
    by_cases own : setup.uuid = name
    · exact .inr own.symm
    · rw [if_neg own] at account
      exact .inl (exists_of_total_tally_pos (by omega))
  · rcases either with ⟨proc, member, is⟩ | rfl
    · exact Option.isSome_iff_exists.mpr (tables.provider member is)
    · rw [if_pos rfl] at account
      by_contra unknown
      rw [present_eq_zero.mpr (Option.not_isSome_iff_eq_none.mp unknown)] at account
      omega

theorem total_connected (name : GoString) (procs : List (Proc Value)) :
    total (tally (@Proc.connected Value) name) (↑procs + rest) =
      (procs.filterMap Proc.connected).count name + total (tally Proc.connected name) rest := by
  rw [total_add, total_tally_eq_count]

theorem Tables.register {info : ProviderInfo} (tables : Tables setup ⟨mem, ↑acting + rest⟩)
    (absent : mem.buckets info.uuid = none)
    (buckets : mem'.buckets = Function.update mem.buckets info.uuid (some mem.created))
    (providers : mem'.providers = Function.update mem.providers info.uuid (some info))
    (created : mem'.created = mem.created + 1)
    (before : acting.filterMap Proc.connected = [])
    (after : left.filterMap Proc.connected = [info.uuid]) : Tables setup ⟨mem', ↑left + rest⟩ := by
  have unknown : ¬ ((mem.providers info.uuid).isSome = true ∨ info.uuid = metaBucket) := by
    rw [← tables.buckets info.uuid, absent]
    exact Bool.false_ne_true
  rw [not_or] at unknown
  have fresh : mem.providers info.uuid = none := Option.not_isSome_iff_eq_none.mp unknown.1
  refine ⟨tables.separate.register buckets created, fun name => ?_, fun name => ?_, ?_⟩
  · show (mem'.buckets name).isSome = true ↔ (mem'.providers name).isSome = true ∨ name = metaBucket
    rw [buckets, providers]
    by_cases same : name = info.uuid
    · rw [same, Function.update_self, Function.update_self]
      exact ⟨fun _ => .inl rfl, fun _ => rfl⟩
    · rw [Function.update_of_ne same, Function.update_of_ne same]
      exact tables.buckets name
  · have account : _ = present mem.providers name := tables.connected name
    rw [total_connected, before, List.count_nil] at account
    show _ = present mem'.providers name
    rw [total_connected, after, providers, present_update_some fresh, List.count_singleton]
    simp only [beq_iff_eq]
    omega
  · have nobody := tables.streams
    rw [total_connected, before, List.count_nil] at nobody
    rw [total_connected, after, List.count_singleton, if_neg (by simpa using unknown.2)]
    exact nobody

theorem Tables.unregister {info : ProviderInfo} (tables : Tables setup ⟨mem, ↑acting + rest⟩)
    (buckets : mem'.buckets = Function.update mem.buckets info.uuid none)
    (providers : mem'.providers = Function.update mem.providers info.uuid none)
    (created : mem'.created = mem.created)
    (before : acting.filterMap Proc.connected = [info.uuid])
    (after : left.filterMap Proc.connected = []) : Tables setup ⟨mem', ↑left + rest⟩ := by
  obtain ⟨proc, member, is⟩ := List.mem_filterMap.mp (before ▸ List.mem_singleton.mpr rfl)
  have inside : proc ∈ (↑acting + rest : Multiset (Proc Value)) :=
    mem_of_acting member
  obtain ⟨known, there⟩ := tables.provider inside is
  have other := tables.ne_metaBucket inside is
  refine ⟨tables.separate.unregister buckets created, fun name => ?_, fun name => ?_, ?_⟩
  · show (mem'.buckets name).isSome = true ↔ (mem'.providers name).isSome = true ∨ name = metaBucket
    rw [buckets, providers]
    by_cases same : name = info.uuid
    · rw [same, Function.update_self, Function.update_self]
      exact ⟨fun some => absurd some Bool.false_ne_true,
        fun either => either.elim id fun is => absurd is other⟩
    · rw [Function.update_of_ne same, Function.update_of_ne same]
      exact tables.buckets name
  · have account := tables.connected name
    rw [total_connected, before, List.count_singleton, present_update_none there] at account
    show _ = present mem'.providers name
    rw [total_connected, after, providers, List.count_nil]
    simp only [beq_iff_eq] at account
    omega
  · have nobody := tables.streams
    rw [total_connected, before] at nobody
    rw [total_connected, after, List.count_nil]
    omega

theorem tables_rule (rule : Rule setup event mem acting mem' left)
    (tables : Tables setup ⟨mem, ↑acting + rest⟩) : Tables setup ⟨mem', ↑left + rest⟩ := by
  rcases rule_tables rule with ⟨buckets, providers, created, same⟩ |
    ⟨info, absent, buckets, providers, created, before, after⟩ |
    ⟨info, buckets, providers, created, before, after⟩
  · have kept : ∀ name, total (tally (@Proc.connected Value) name) (↑left + rest) =
        total (tally (@Proc.connected Value) name) (↑acting + rest) := by
      intro name
      rw [total_connected, total_connected, same]
    refine ⟨⟨fun name store there => ?_, ?_⟩, fun name => ?_, fun name => ?_, ?_⟩
    · show store < mem'.created
      rw [created]
      exact tables.separate.created name store (buckets ▸ there)
    · show ∀ name other store, mem'.buckets name = some store → mem'.buckets other = some store →
        name = other
      rw [buckets]
      exact tables.separate.apart
    · show (mem'.buckets name).isSome = true ↔ (mem'.providers name).isSome = true ∨ name = metaBucket
      rw [buckets, providers]
      exact tables.buckets name
    · show _ = present mem'.providers name
      rw [kept, providers]
      exact tables.connected name
    · rw [kept]
      exact tables.streams
  · exact tables.register absent buckets providers created before after
  · exact tables.unregister buckets providers created before after

theorem tables (reach : Reach (Rule setup) (fun _ _ => True) (initial setup) config) :
    Tables setup config := by
  refine reach.invariant (Tables setup)
    ⟨(kept_initial setup).separate, fun name => ?_, fun name => ?_, rfl⟩ ?_
  · by_cases first : name = metaBucket
    · subst first
      exact ⟨fun _ => .inr rfl, fun _ => by simp [initial, Config.ofList]⟩
    · by_cases second : name = setup.uuid
      · subst second
        simp [initial, Config.ofList, Function.update_of_ne first]
      · simp [initial, Config.ofList, Function.update_of_ne second, first]
  · show 0 + _ = present (Function.update (fun _ => none) setup.uuid (some _)) name
    rw [present_update_some rfl]
    rfl
  · rintro _ _ _ tables _ ⟨rest, rule⟩
    exact tables_rule rule tables

/-! ### The listeners -/

/-- The entry of a `Listen` whose stream is registered. -/
def Proc.entry (proc : Proc Value) : Option (Nat × Key) :=
  match proc.phase.registered, proc.handler with
  | true, .listen key => some (proc.id, key)
  | _, _ => none

theorem Proc.entry_eq_some : proc.entry = some (id, key) ↔ proc.Owns id key := by
  obtain ⟨call, handler, store, phase⟩ := proc
  unfold Proc.entry Proc.Owns
  cases registered : phase.registered <;> cases handler <;> simp

theorem Numbered.other_id (numbered : Numbered ⟨mem, ↑[proc] + rest⟩) {other : Proc Value}
    (member : other ∈ rest) : other.id ≠ proc.id := by
  intro same
  have account := numbered proc.id
  have counted := one_le_total_tally member (show other.call = some proc.id from congrArg some same)
  simp only [total_add, total_coe_cons, total_coe_nil, tally_call, if_pos] at account
  split_ifs at account <;> omega

/-- **What a step does to the listeners**: it registers one, removes one, or leaves them alone. -/
theorem rule_listeners (rule : Rule setup event mem acting mem' left) :
    (mem'.listeners = mem.listeners ∧ left.filterMap Proc.entry = acting.filterMap Proc.entry) ∨
    (∃ entry, mem'.listeners = entry :: mem.listeners ∧ acting.filterMap Proc.entry = [] ∧
      left.filterMap Proc.entry = [entry]) ∨
    (∃ proc, acting = [proc] ∧ left.filterMap Proc.entry = [] ∧
      mem'.listeners = mem.listeners.filter fun listener => listener.1 ≠ proc.id) := by
  cases rule with
  | insert => exact .inr (.inl ⟨_, rfl, rfl, rfl⟩)
  | remove => exact .inr (.inr ⟨_, rfl, rfl, rfl⟩)
  | receiveUnlock =>
    refine .inl ⟨rfl, ?_⟩
    split <;> rfl
  | _ => exact .inl ⟨rfl, rfl⟩

def Registered (config : State Value) : Prop :=
  ∀ entry, entry ∈ config.mem.listeners ↔ ∃ proc ∈ config.procs, proc.entry = some entry

theorem exists_entry (entry : Nat × Key) (procs : List (Proc Value)) :
    (∃ proc ∈ (↑procs + rest : Multiset (Proc Value)), proc.entry = some entry) ↔
      entry ∈ procs.filterMap Proc.entry ∨ ∃ proc ∈ rest, proc.entry = some entry := by
  simp only [Multiset.mem_add, Multiset.mem_coe, or_and_right, exists_or, List.mem_filterMap]

theorem registered_rule (rule : Rule setup event mem acting mem' left)
    (numbered : Numbered ⟨mem, ↑acting + rest⟩) (registered : Registered ⟨mem, ↑acting + rest⟩) :
    Registered ⟨mem', ↑left + rest⟩ := by
  intro entry
  have known := registered entry
  rw [exists_entry] at known
  rw [exists_entry]
  show entry ∈ mem'.listeners ↔ _
  rcases rule_listeners rule with ⟨listeners, same⟩ | ⟨other, listeners, before, after⟩ |
    ⟨proc, rfl, after, listeners⟩
  · rw [listeners, same]
    exact known
  · rw [before] at known
    rw [listeners, after, List.mem_cons, List.mem_singleton, known]
    simp only [List.not_mem_nil, false_or]
  · obtain ⟨id, key⟩ := entry
    rw [listeners, after, List.mem_filter, known]
    simp only [List.mem_filterMap, List.mem_singleton, exists_eq_left, List.not_mem_nil, false_or,
      ne_eq, decide_not, Bool.not_eq_true', decide_eq_false_iff_not]
    refine ⟨fun ⟨either, other⟩ => either.resolve_left fun is => ?_, fun elsewhere => ⟨.inr elsewhere, ?_⟩⟩
    · exact other (Proc.entry_eq_some.mp is).1.symm
    · obtain ⟨holder, member, is⟩ := elsewhere
      rw [← (Proc.entry_eq_some.mp is).1]
      exact numbered.other_id member

theorem registered (reach : Reach (Rule setup) (fun _ _ => True) (initial setup) config) :
    Registered config := by
  induction reach with
  | start =>
    intro entry
    refine ⟨fun there => absurd there List.not_mem_nil, fun ⟨_, member, _⟩ => ?_⟩
    exact absurd member (Multiset.notMem_zero _)
  | step reach _ step ih =>
    have numbered := numbered reach
    obtain ⟨rest, rule⟩ := step
    exact registered_rule rule numbered ih

theorem Registered.key_eq (registered : Registered config) (numbered : Numbered config)
    {key other : Key} (here : (id, key) ∈ config.mem.listeners)
    (there : (id, other) ∈ config.mem.listeners) : key = other := by
  obtain ⟨proc, member, is⟩ := (registered _).mp here
  obtain ⟨proc', member', is'⟩ := (registered _).mp there
  obtain ⟨first, listens, _⟩ := Proc.entry_eq_some.mp is
  obtain ⟨second, listens', _⟩ := Proc.entry_eq_some.mp is'
  obtain rfl := numbered.unique member member' (second.trans first.symm)
  exact Handler.listen.inj (listens.symm.trans listens')

/-! ### The published table -/

/-- What holds of a handler. With the write lock, what it posts is the current table, and what it announces
is the stored one. With the read lock, it posts under another key, and sends to no listener of the meta key
but the one it is. -/
def Proc.Proper (setup : Setup Value) (mem : Mem Value) (proc : Proc Value) : Prop :=
  match proc.phase, proc.handler with
  | .posting metric after, _ =>
    (after.mode = .write → metric = setup.providersUpdated mem.providers) ∧
      (after.mode = .read → metric.key ≠ setup.metaKey)
  | .notifying key value after, _ =>
    (after.mode = .write → key = setup.metaKey ∧ mem.stored setup.metaKey = some value) ∧
      (after.mode = .read → key.canonical ≠ setup.metaKey.canonical)
  | .sending _ value todo after, _ =>
    (after.mode = .write → mem.stored setup.metaKey = some value) ∧
      (after.mode = .read → ∀ id ∈ todo, ∃ key, key ≠ setup.metaKey ∧ (id, key) ∈ mem.listeners)
  | .inserting, .listen key | .insertLocked, .listen key | .joining, .listen key =>
    mem.buckets key.bucket = some proc.store
  | .read value, .listen key => key = setup.metaKey → mem.stored setup.metaKey = some value
  | _, _ => True

/-- A handler that is about to post the table. -/
def Proc.updates (proc : Proc Value) : Bool :=
  match proc.phase with
  | .posting _ after => after.mode = .write
  | _ => false

/-- A handler that is about to send the stored table to this listener. -/
def Proc.informs (id : Nat) (proc : Proc Value) : Bool :=
  match proc.phase with
  | .notifying _ _ after => after.mode = .write
  | .sending _ _ todo after => after.mode = .write && todo.contains id
  | _ => false

/-- A listener of the meta key that has joined. -/
def Proc.Joined (setup : Setup Value) (proc : Proc Value) : Prop :=
  proc.handler = .listen setup.metaKey ∧ proc.phase.lateJoined = true

/-- The listener has got the stored table, or is about to be sent it. -/
def Told (setup : Setup Value) (config : State Value) (proc : Proc Value) : Prop :=
  (config.mem.sent proc.id).head? = config.mem.stored setup.metaKey ∨
    ∃ writer ∈ config.procs, writer.informs proc.id = true

structure Directory (setup : Setup Value) (config : State Value) : Prop where
  proper : ∀ proc ∈ config.procs, proc.Proper setup config.mem
  published : config.mem.stored setup.metaKey = some (setup.table config.mem.providers) ∨
    ∃ proc ∈ config.procs, proc.updates = true
  told : ∀ proc ∈ config.procs, proc.Joined setup → Told setup config proc

theorem Proc.proper_of_provider (free : proc.provider = none) : proc.Proper setup mem := by
  obtain ⟨id, handler, store, phase⟩ := proc
  cases phase with
  | posting | notifying | sending | inserting | insertLocked | joining | read => exact absurd free nofun
  | _ => trivial

/-- The memory is the same as far as a handler is concerned; listeners may come. -/
structure Mem.Keeps (setup : Setup Value) (mem mem' : Mem Value) : Prop where
  buckets : mem'.buckets = mem.buckets
  providers : mem'.providers = mem.providers
  stored : mem'.stored setup.metaKey = mem.stored setup.metaKey
  listeners : ∀ entry ∈ mem.listeners, entry ∈ mem'.listeners

theorem Proc.Proper.mono (proper : proc.Proper setup mem) (keeps : mem.Keeps setup mem') :
    proc.Proper setup mem' := by
  obtain ⟨buckets, providers, stored, listeners⟩ := keeps
  obtain ⟨id, handler, store, phase⟩ := proc
  cases phase with
  | posting metric after =>
    refine ⟨fun writes => ?_, proper.2⟩
    rw [providers]
    exact proper.1 writes
  | notifying key value after =>
    exact ⟨fun writes => ⟨(proper.1 writes).1, stored.trans (proper.1 writes).2⟩, proper.2⟩
  | sending key value todo after =>
    refine ⟨fun writes => stored.trans (proper.1 writes), fun reads receiver member => ?_⟩
    obtain ⟨key, other, there⟩ := proper.2 reads receiver member
    exact ⟨key, other, listeners _ there⟩
  | inserting | insertLocked | joining =>
    cases handler with
    | listen key => exact (congrFun buckets key.bucket).trans proper
    | _ => trivial
  | read value =>
    cases handler with
    | listen key => exact fun is => stored.trans (proper is)
    | _ => trivial
  | _ => trivial

theorem Mem.keeps_of_posting {id store found : Nat} {metric : Metric Value} {data : Data Value}
    (separate : Separate mem)
    (proper : (Proc.mk id handler store (.posting metric after)).Proper setup mem)
    (there : mem.buckets metric.key.bucket = some found)
    (elsewhere : ∀ name, name ≠ metric.key.name → data name = mem.stores found name) :
    (Proc.mk id handler store (.posting metric after)).provider = some (.write, id) ∨
      mem.Keeps setup (mem.setStore found data) := by
  cases mode : after.mode with
  | write => exact .inl (by rw [Proc.provider, Phase.provider, mode]; rfl)
  | read =>
    refine .inr ⟨rfl, rfl, ?_, fun _ member => member⟩
    rw [Mem.stored_setStore separate there elsewhere, if_neg (Ne.symm (proper.2 mode))]

/-- **What a step does without the write lock**: the directory is left alone. -/
theorem rule_keeps (rule : Rule setup event mem acting mem' left) (separate : Separate mem)
    (proper : ∀ proc ∈ acting, proc.Proper setup mem) :
    (∃ proc, acting = [proc] ∧ proc.provider = some (.write, proc.id)) ∨ mem.Keeps setup mem' := by
  cases rule with
  | register | unregister | remove => exact .inl ⟨_, rfl, rfl⟩
  | postNil there =>
    refine .imp_left (⟨_, rfl, ·⟩)
      (Mem.keeps_of_posting separate (proper _ List.mem_cons_self) there fun name ne => ?_)
    exact Function.update_of_ne ne _ _
  | @postSwap _ _ _ _ _ _ value _ there =>
    refine .imp_left (⟨_, rfl, ·⟩)
      (Mem.keeps_of_posting separate (proper _ List.mem_cons_self) there fun name ne => ?_)
    exact InMemoryStore.cas_apply_of_ne ne value
  | insert => exact .inr ⟨rfl, rfl, rfl, fun _ => List.mem_cons_of_mem _⟩
  | _ => exact .inr ⟨rfl, rfl, rfl, fun _ => id⟩

theorem Mem.stored_cas (separate : Separate mem) {found : Nat}
    (there : mem.buckets key.bucket = some found) (value : Value) :
    (mem.setStore found (InMemoryStore.cas (mem.stores found) key.name value).1).stored key =
      some value := by
  rw [Mem.stored_setStore separate there fun name ne => InMemoryStore.cas_apply_of_ne ne value, if_pos rfl]
  exact InMemoryStore.cas_apply_self _ _ value

theorem Proc.Proper.posting {id store : Nat} {payload : Payload Value}
    (proper : (Proc.mk id handler store (.posting ⟨key, payload⟩ after)).Proper setup mem)
    (writes : after.mode = .write) :
    key = setup.metaKey ∧ payload = .message (setup.table mem.providers) := by
  have is := proper.1 writes
  exact ⟨congrArg Metric.key is, congrArg Metric.value is⟩

theorem proper_left (rule : Rule setup event mem acting mem' left)
    (tables : Tables setup ⟨mem, ↑acting + rest⟩) (own : PostsOwn setup ⟨mem, ↑acting + rest⟩)
    (distinct : Distinct setup event) (proper : ∀ proc ∈ acting, proc.Proper setup mem) :
    ∀ proc ∈ left, proc.Proper setup mem' := by
  cases rule with
  | register | unregister => exact List.forall_mem_singleton.mpr ⟨fun _ => rfl, nofun⟩
  | receiveLock =>
    refine List.forall_mem_singleton.mpr ⟨nofun, fun _ same => ?_⟩
    have bucket := own _ mem_acting
    exact tables.ne_metaBucket mem_acting rfl (bucket.symm.trans (congrArg Key.bucket same))
  | internalLock =>
    refine List.forall_mem_singleton.mpr ⟨nofun, fun _ same => ?_⟩
    exact own _ mem_acting (congrArg Key.name same)
  | @postSwap _ _ _ _ _ key value after there =>
    have posting := proper _ List.mem_cons_self
    refine List.forall_mem_singleton.mpr
      ⟨fun writes => ⟨(posting.posting writes).1, ?_⟩, fun reads same => ?_⟩
    · obtain ⟨rfl, is⟩ := posting.posting writes
      exact Mem.stored_cas tables.separate there value
    · exact posting.2 reads (distinct same)
  | @notify _ _ _ _ key value after todo _ visits =>
    have notifying := proper _ List.mem_cons_self
    refine List.forall_mem_singleton.mpr ⟨fun writes => (notifying.1 writes).2, fun reads id member => ?_⟩
    obtain ⟨other, listens, same⟩ := Mem.mem_receivers.mp (visits.mem_iff.mp member)
    refine ⟨other, fun is => notifying.2 reads ?_, listens⟩
    rw [← same, is]
  | send | sendFails =>
    have sending := proper _ List.mem_cons_self
    exact List.forall_mem_singleton.mpr
      ⟨sending.1, fun reads id member => sending.2 reads id (List.mem_cons_of_mem _ member)⟩
  | listenBucket bucket => exact List.forall_mem_singleton.mpr bucket
  | insertLock | insert => exact List.forall_mem_singleton.mpr (proper _ List.mem_cons_self)
  | joinRead there =>
    refine List.forall_mem_singleton.mpr fun is => ?_
    subst is
    exact (Mem.stored_of_bucket (proper _ List.mem_cons_self)).trans there
  | receiveUnlock =>
    refine List.forall_mem_singleton.mpr ?_
    split <;> trivial
  | cancel | turnAway | duplicate | disconnected | listenNoBucket | removeUnlock | queryUnlock
  | internalUnlock => exact List.forall_mem_nil _
  | _ => exact List.forall_mem_singleton.mpr trivial

/-- **What a step does to the stored table**: a handler that is to announce it stores the current one, or it
stays. -/
theorem rule_stored (rule : Rule setup event mem acting mem' left)
    (tables : Tables setup ⟨mem, ↑acting + rest⟩) (proper : ∀ proc ∈ acting, proc.Proper setup mem) :
    mem'.stored setup.metaKey = mem.stored setup.metaKey ∨
      mem'.stored setup.metaKey = some (setup.table mem'.providers) ∧
        ∃ next ∈ left, ∀ id, next.informs id = true := by
  obtain ⟨store, bucket⟩ := tables.metaStore
  rcases rule_keeps rule tables.separate proper with ⟨proc, rfl, writes⟩ | keeps
  · cases rule with
    | @register _ _ _ info absent =>
      have other : metaBucket ≠ info.uuid := by
        intro same
        rw [← same] at absent
        exact absurd (absent.symm.trans bucket) nofun
      have old := (tables.separate.created _ _ bucket).ne
      refine .inl ?_
      rw [Mem.stored_of_bucket (show mem.buckets setup.metaKey.bucket = some store from bucket)]
      refine (Mem.stored_of_bucket ((Function.update_of_ne other _ _).trans bucket)).trans ?_
      exact congrFun (Function.update_of_ne old _ _) _
    | @unregister _ _ _ info =>
      have other := tables.ne_metaBucket mem_acting rfl
      refine .inl ?_
      rw [Mem.stored_of_bucket (show mem.buckets setup.metaKey.bucket = some store from bucket)]
      exact Mem.stored_of_bucket ((Function.update_of_ne other.symm _ _).trans bucket)
    | postNil =>
      have mode := (Prod.mk.inj (Option.some.inj writes)).1
      exact absurd ((proper _ List.mem_cons_self).posting mode).2 nofun
    | @postSwap _ _ _ _ _ key value after there =>
      have mode : after.mode = .write := (Prod.mk.inj (Option.some.inj writes)).1
      obtain ⟨rfl, is⟩ := (proper _ List.mem_cons_self).posting mode
      obtain rfl := Payload.message.inj is
      refine .inr ⟨?_, _, List.mem_cons_self, fun _ => decide_eq_true mode⟩
      exact Mem.stored_cas tables.separate there _
    | _ => exact .inl rfl
  · exact .inl keeps.stored

theorem Directory.published_keep (directory : Directory setup ⟨mem, ↑acting + rest⟩)
    (stored : mem'.stored setup.metaKey = mem.stored setup.metaKey)
    (providers : mem'.providers = mem.providers) (idle : ∀ proc ∈ acting, proc.updates = false) :
    mem'.stored setup.metaKey = some (setup.table mem'.providers) ∨
      ∃ proc ∈ (↑left + rest : Multiset (Proc Value)), proc.updates = true := by
  rw [stored, providers]
  refine directory.published.imp id fun updating => exists_mem_fire updating (fun proc member is => ?_)
    fun _ _ is => is
  exact absurd ((idle proc member).symm.trans is) Bool.false_ne_true

/-- **What is posted with the write lock** is the current table, in the meta bucket. -/
theorem Directory.posted {id store : Nat} {metric : Metric Value}
    (directory : Directory setup ⟨mem, ↑[Proc.mk id handler store (.posting metric after)] + rest⟩)
    (providers : mem'.providers = mem.providers)
    (stored : mem'.stored setup.metaKey = mem.stored setup.metaKey)
    (current : after.mode = .write → mem'.stored setup.metaKey = some (setup.table mem.providers)) :
    mem'.stored setup.metaKey = some (setup.table mem'.providers) ∨
      ∃ proc ∈ (↑left + rest : Multiset (Proc Value)), proc.updates = true := by
  cases mode : after.mode with
  | write =>
    rw [providers]
    exact .inl (current mode)
  | read =>
    refine directory.published_keep stored providers (List.forall_mem_singleton.mpr ?_)
    exact decide_eq_false fun writes => absurd (mode.symm.trans writes) nofun

theorem published_rule (rule : Rule setup event mem acting mem' left)
    (tables : Tables setup ⟨mem, ↑acting + rest⟩) (directory : Directory setup ⟨mem, ↑acting + rest⟩) :
    mem'.stored setup.metaKey = some (setup.table mem'.providers) ∨
      ∃ proc ∈ (↑left + rest : Multiset (Proc Value)), proc.updates = true := by
  have proper : ∀ proc ∈ acting, proc.Proper setup mem := fun proc member =>
    directory.proper proc (mem_of_acting member)
  rcases rule_stored rule tables proper with stored | ⟨current, _⟩
  · obtain ⟨found, bucket⟩ := tables.metaStore
    cases rule with
    | register | unregister => exact .inr ⟨_, mem_acting, rfl⟩
    | postNoBucket absent =>
      refine directory.posted rfl stored fun writes => ?_
      obtain ⟨same, _⟩ := (proper _ List.mem_cons_self).posting writes
      rw [same] at absent
      exact absurd (absent.symm.trans bucket) nofun
    | postNil | postUnknown =>
      refine directory.posted rfl stored fun writes => ?_
      exact absurd ((proper _ List.mem_cons_self).posting writes).2 nofun
    | postSwap there =>
      refine directory.posted rfl stored fun writes => ?_
      obtain ⟨rfl, is⟩ := (proper _ List.mem_cons_self).posting writes
      obtain rfl := Payload.message.inj is
      exact Mem.stored_cas tables.separate there _
    | postSame there same =>
      refine directory.posted rfl stored fun writes => ?_
      obtain ⟨rfl, is⟩ := (proper _ List.mem_cons_self).posting writes
      obtain rfl := Payload.message.inj is
      rw [Mem.stored_of_bucket there, ← InMemoryStore.cas_fst_of_not_swapped same]
      exact InMemoryStore.cas_apply_self _ _ _
    | call | cancel => exact directory.published_keep stored rfl (List.forall_mem_nil _)
    | _ => exact directory.published_keep stored rfl (List.forall_mem_singleton.mpr rfl)
  · exact .inl current

theorem Directory.told_others (directory : Directory setup ⟨mem, ↑acting + rest⟩)
    (stored : mem'.stored setup.metaKey = mem.stored setup.metaKey)
    (sent : ∀ proc ∈ rest, proc.Joined setup →
      mem'.sent proc.id = mem.sent proc.id ∨ (mem'.sent proc.id).head? = mem.stored setup.metaKey)
    (informs : ∀ writer ∈ acting, ∀ proc ∈ rest, proc.Joined setup → writer.informs proc.id = true →
      (mem'.sent proc.id).head? = mem.stored setup.metaKey ∨ ∃ next ∈ left, next.informs proc.id = true) :
    ∀ proc ∈ rest, proc.Joined setup → Told setup ⟨mem', ↑left + rest⟩ proc := by
  intro proc member joined
  unfold Told
  simp only [stored]
  rcases sent proc member joined with same | current
  · rcases directory.told proc (mem_of_rest member) joined with
      has | ⟨writer, there, informing⟩
    · exact .inl (same ▸ has)
    · rcases mem_fire.mp there with there | there
      · rcases informs writer there proc member joined informing with
          has | ⟨next, there, informing⟩
        · exact .inl has
        · exact .inr ⟨next, mem_of_acting there, informing⟩
      · exact .inr ⟨writer, mem_of_rest there, informing⟩
  · exact .inl current

theorem Proc.Joined.listens (joined : proc.Joined setup) (registered : Registered config)
    (member : proc ∈ config.procs) : (proc.id, setup.metaKey) ∈ config.mem.listeners := by
  refine (registered _).mpr ⟨proc, member, Proc.entry_eq_some.mpr ⟨rfl, joined.1, ?_⟩⟩
  obtain ⟨id, handler, store, phase⟩ := proc
  cases phase with
  | joined | listening | removing | removeLocked | removeBoth => rfl
  | _ => exact absurd joined.2 Bool.false_ne_true

theorem not_delivered {value : Value} (same : mem.sent id = value :: mem.sent id) : False :=
  absurd (congrArg List.length same) (Nat.succ_ne_self _).symm

theorem Directory.told_send {id store receiver : Nat} {value : Value} {todo : List Nat}
    (directory : Directory setup
      ⟨mem, ↑[Proc.mk id handler store (.sending key value (receiver :: todo) after)] + rest⟩)
    (numbered : Numbered
      ⟨mem, ↑[Proc.mk id handler store (.sending key value (receiver :: todo) after)] + rest⟩)
    (registered : Registered
      ⟨mem, ↑[Proc.mk id handler store (.sending key value (receiver :: todo) after)] + rest⟩) :
    ∀ proc ∈ rest, proc.Joined setup → Told setup
      ⟨mem.send receiver value, ↑[Proc.mk id handler store (.sending key value todo after)] + rest⟩
      proc := by
  have sending := directory.proper _ mem_acting
  have gets : ∀ proc ∈ rest, proc.Joined setup → proc.id = receiver →
      ((mem.send receiver value).sent proc.id).head? = mem.stored setup.metaKey := by
    rintro proc member joined rfl
    rw [Mem.sent_send_self, List.head?_cons]
    cases mode : after.mode with
    | write => exact (sending.1 mode).symm
    | read =>
      obtain ⟨other, foreign, there⟩ := sending.2 mode proc.id List.mem_cons_self
      have listens := joined.listens registered (mem_of_rest member)
      exact absurd (registered.key_eq numbered there listens) foreign
  refine directory.told_others rfl (fun proc member joined => ?_)
    (List.forall_mem_singleton.mpr fun proc member joined informing => ?_)
  · by_cases same : proc.id = receiver
    · exact .inr (gets proc member joined same)
    · exact .inl (Mem.sent_send_of_ne same value)
  · obtain ⟨writes, visited⟩ := Bool.and_eq_true_iff.mp informing
    rcases List.mem_cons.mp (List.contains_iff_mem.mp visited) with same | visited
    · exact .inl (gets proc member joined same)
    · exact .inr ⟨_, List.mem_cons_self,
        Bool.and_eq_true_iff.mpr ⟨writes, List.contains_iff_mem.mpr visited⟩⟩

/-- The listeners that do not act, after a step by which the stored table stays. -/
theorem told_rest (rule : Rule setup event mem acting mem' left)
    (delivers : ∀ proc ∈ acting, ∀ send, proc.sends = some send →
      mem'.sent send.1 = send.2 :: mem.sent send.1)
    (numbered : Numbered ⟨mem, ↑acting + rest⟩) (registered : Registered ⟨mem, ↑acting + rest⟩)
    (directory : Directory setup ⟨mem, ↑acting + rest⟩)
    (stored : mem'.stored setup.metaKey = mem.stored setup.metaKey) :
    ∀ proc ∈ rest, proc.Joined setup → Told setup ⟨mem', ↑left + rest⟩ proc := by
  have silent : ∀ writer : Proc Value, (∀ id, writer.informs id = false) → ∀ other ∈ [writer],
      ∀ proc ∈ rest, proc.Joined setup → other.informs proc.id = true →
      (mem'.sent proc.id).head? = mem.stored setup.metaKey ∨
        ∃ next ∈ left, next.informs proc.id = true := by
    intro writer quiet other member proc _ _ informing
    obtain rfl := List.mem_singleton.mp member
    exact absurd ((quiet proc.id).symm.trans informing) Bool.false_ne_true
  cases rule with
  | @notify _ _ _ _ key value after todo _ visits =>
    have notifying := directory.proper _ mem_acting
    refine directory.told_others stored (fun _ _ _ => .inl rfl)
      (List.forall_mem_singleton.mpr fun proc member joined informing => .inr ⟨_, List.mem_cons_self, ?_⟩)
    have writes : after.mode = .write := of_decide_eq_true informing
    obtain ⟨rfl, _⟩ := notifying.1 writes
    have listens := joined.listens registered (mem_of_rest member)
    have visited := visits.mem_iff.mpr (Mem.mem_receivers.mpr ⟨_, listens, rfl⟩)
    exact Bool.and_eq_true_iff.mpr ⟨decide_eq_true writes, List.contains_iff_mem.mpr visited⟩
  | send => exact directory.told_send numbered registered
  | sendFails => exact (not_delivered (delivers _ List.mem_cons_self _ rfl)).elim
  | @notified _ _ _ _ _ _ after =>
    refine directory.told_others stored (fun _ _ _ => .inl rfl) (silent _ fun id => ?_)
    exact Bool.and_false _
  | joinSend =>
    refine directory.told_others stored (fun proc member _ => .inl ?_) (silent _ fun _ => rfl)
    exact Mem.sent_send_of_ne (numbered.other_id member) _
  | call | cancel => exact directory.told_others stored (fun _ _ _ => .inl rfl) (List.forall_mem_nil _)
  | _ => exact directory.told_others stored (fun _ _ _ => .inl rfl) (silent _ fun _ => rfl)

theorem Proc.provider_of_updates (is : proc.updates = true) : proc.provider = some (.write, proc.id) := by
  obtain ⟨id, handler, store, phase⟩ := proc
  cases phase with
  | posting metric after =>
    have writes : after.mode = .write := of_decide_eq_true is
    rw [Proc.provider, Phase.provider, writes]
    rfl
  | _ => exact absurd is Bool.false_ne_true

theorem Proc.provider_of_informs (is : proc.informs id = true) :
    proc.provider = some (.write, proc.id) := by
  obtain ⟨call, handler, store, phase⟩ := proc
  cases phase with
  | notifying key value after =>
    have writes : after.mode = .write := of_decide_eq_true is
    rw [Proc.provider, Phase.provider, writes]
    rfl
  | sending key value todo after =>
    have writes : after.mode = .write := of_decide_eq_true (Bool.and_eq_true_iff.mp is).1
    rw [Proc.provider, Phase.provider, writes]
    rfl
  | _ => exact absurd is Bool.false_ne_true

theorem Directory.current (directory : Directory setup config)
    (provider : Guarded Proc.provider config.mem.providerMutex config.procs)
    (unwritten : config.mem.providerMutex.writer = none) :
    config.mem.stored setup.metaKey = some (setup.table config.mem.providers) := by
  refine directory.published.resolve_right fun ⟨proc, member, updates⟩ => ?_
  have writer := provider.writer member (Proc.provider_of_updates updates)
  exact absurd (unwritten.symm.trans writer) nofun

/-- A listener that has joined goes on. -/
theorem Directory.told_next (directory : Directory setup ⟨mem, ↑[proc] + rest⟩)
    (stored : mem'.stored setup.metaKey = mem.stored setup.metaKey) (sent : mem'.sent = mem.sent)
    (joined : proc.Joined setup) (same : next.id = proc.id) : Told setup ⟨mem', ↑[next] + rest⟩ next := by
  unfold Told
  simp only [stored, sent, same]
  refine (directory.told proc mem_acting joined).imp id fun informed => ?_
  refine exists_mem_fire informed (fun writer member informing => ?_) fun _ _ informing => informing
  obtain rfl := List.mem_singleton.mp member
  obtain ⟨id, handler, store, phase⟩ := writer
  cases phase with
  | notifying | sending => exact absurd joined.2 Bool.false_ne_true
  | _ => exact absurd informing Bool.false_ne_true

theorem told_left (rule : Rule setup event mem acting mem' left)
    (delivers : ∀ proc ∈ acting, ∀ send, proc.sends = some send →
      mem'.sent send.1 = send.2 :: mem.sent send.1)
    (provider : Guarded (@Proc.provider Value) mem.providerMutex (↑acting + rest))
    (directory : Directory setup ⟨mem, ↑acting + rest⟩)
    (stored : mem'.stored setup.metaKey = mem.stored setup.metaKey) :
    ∀ proc ∈ left, proc.Joined setup → Told setup ⟨mem', ↑left + rest⟩ proc := by
  cases rule with
  | joinNothing nothing =>
    refine List.forall_mem_singleton.mpr fun joined => ?_
    obtain rfl := Handler.listen.inj joined.1
    have current := directory.current provider (provider.unwritten mem_acting rfl)
    have empty := (Mem.stored_of_bucket (directory.proper _ mem_acting)).trans nothing
    exact absurd (current.symm.trans empty) nofun
  | joinSend =>
    refine List.forall_mem_singleton.mpr fun joined => .inl ?_
    obtain rfl := Handler.listen.inj joined.1
    show ((Mem.send _ _ _).sent _).head? = _
    rw [Mem.sent_send_self, List.head?_cons, ← directory.proper _ mem_acting rfl]
    rfl
  | joinSendFails => exact (not_delivered (delivers _ List.mem_cons_self _ rfl)).elim
  | joinUnlock | listenDone | listenClosed | removeLock | removeLockBoth =>
    exact List.forall_mem_singleton.mpr fun joined =>
      directory.told_next stored rfl ⟨joined.1, rfl⟩ rfl
  | receiveUnlock => exact List.forall_mem_singleton.mpr fun joined => absurd joined.1 nofun
  | cancel | turnAway | duplicate | disconnected | listenNoBucket | removeUnlock | queryUnlock
  | internalUnlock => exact List.forall_mem_nil _
  | _ => exact List.forall_mem_singleton.mpr fun joined => absurd joined.2 Bool.false_ne_true

theorem directory_rule (fires : Delivering setup event mem acting mem' left)
    (numbered : Numbered ⟨mem, ↑acting + rest⟩)
    (provider : Guarded (@Proc.provider Value) mem.providerMutex (↑acting + rest))
    (tables : Tables setup ⟨mem, ↑acting + rest⟩) (registered : Registered ⟨mem, ↑acting + rest⟩)
    (own : PostsOwn setup ⟨mem, ↑acting + rest⟩) (distinct : Distinct setup event)
    (directory : Directory setup ⟨mem, ↑acting + rest⟩) : Directory setup ⟨mem', ↑left + rest⟩ := by
  obtain ⟨rule, delivers⟩ := fires
  have proper : ∀ proc ∈ acting, proc.Proper setup mem := fun proc member =>
    directory.proper proc (mem_of_acting member)
  refine ⟨?_, published_rule rule tables directory, fun proc member joined => ?_⟩
  · refine forall_mem_fire directory.proper (proper_left rule tables own distinct)
      fun proc member good => ?_
    rcases rule_keeps rule tables.separate proper with ⟨writer, rfl, writes⟩ | keeps
    · exact Proc.proper_of_provider (provider.alone writes member)
    · exact good.mono keeps
  · rcases rule_stored rule tables proper with stored | ⟨_, next, there, informs⟩
    · rcases mem_fire.mp member with member | member
      · exact told_left rule delivers provider directory stored proc member joined
      · exact told_rest rule delivers numbered registered directory stored proc member joined
    · exact .inr ⟨next, mem_of_acting there, informs proc.id⟩

theorem directory (reach : Reach (Delivering setup)
      (fun config event => PostsOwn setup config ∧ Distinct setup event) (initial setup) config) :
    Directory setup config := by
  induction reach with
  | start =>
    refine ⟨fun _ member => absurd member (Multiset.notMem_zero _), .inl ?_,
      fun _ member => absurd member (Multiset.notMem_zero _)⟩
    simp [initial, Config.ofList, Mem.stored, Setup.metaKey]
  | step reach ok step ih =>
    have reach := reach_of_delivering reach
    have provider := (guarded reach).1
    have numbered := numbered reach
    have tables := tables reach
    have registered := registered reach
    obtain ⟨rest, fires⟩ := step
    exact directory_rule fires numbered provider tables registered ok.1 ok.2 ih

theorem Directory.consistent (directory : Directory setup config)
    (reach : Reach (Rule setup) (fun _ _ => True) (initial setup) config) : Consistent setup config := by
  intro unwritten
  have provider := (guarded reach).1
  have tables := tables reach
  have current := directory.current provider unwritten
  refine ⟨tables.buckets, tables.providers, current, fun id there proc member same late => ?_⟩
  obtain ⟨owner, here, is⟩ := (registered reach _).mp there
  obtain ⟨first, listens, _⟩ := Proc.entry_eq_some.mp is
  obtain rfl := (numbered reach).unique here member (same.trans first.symm)
  rcases directory.told proc member ⟨listens, late⟩ with has | ⟨writer, inside, informs⟩
  · rw [← same, has, current]
  · have writes := provider.writer inside (Proc.provider_of_informs informs)
    exact absurd (unwritten.symm.trans writes) nofun

/-- **The provider directory is consistent**, in every run in which every `Send` succeeds, the providers
post into their own buckets, and no other key with the canonical form of the meta key is posted to. -/
theorem consistent_of_distinct (setup : Setup Value) (config : State Value)
    (reach : Reach (Delivering setup)
      (fun config event => PostsOwn setup config ∧ Distinct setup event) (initial setup) config) :
    Consistent setup config :=
  (directory reach).consistent (reach_of_delivering reach)

/-! ### Runs -/

section Runs

theorem delivering_of_silent (rule : Rule setup event mem acting mem' left)
    (silent : ∀ proc ∈ acting, proc.sends = none) : Delivering setup event mem acting mem' left :=
  ⟨rule, forall_named_of_none silent⟩

variable {alive : List (Proc Value)} {info : ProviderInfo} {key : Key} {value : Value}
  {id store found receiver : Nat} {after : After} {P : Event Value → Prop}

theorem postsOwn_cons (own : proc.PostsOwn setup) (others : ∀ proc ∈ alive, proc.PostsOwn setup) :
    PostsOwn setup (.ofList mem (proc :: alive)) :=
  List.forall_mem_cons.mpr ⟨own, others⟩

theorem quiet_next {left : List (Proc Value)}
    (run : Reach (Delivering setup) (fun config event => PostsOwn setup config ∧ P event) (initial setup)
      (.ofList mem (proc :: alive)))
    (others : ∀ proc ∈ alive, proc.PostsOwn setup) (ok : P event)
    (rule : Rule setup event mem [proc] mem' left) (silent : proc.sends = none)
    (own : proc.PostsOwn setup) :
    Reach (Delivering setup) (fun config event => PostsOwn setup config ∧ P event) (initial setup)
      (.ofList mem' (left ++ alive)) :=
  run.next [proc] alive (delivering_of_silent rule (List.forall_mem_singleton.mpr silent))
    ⟨postsOwn_cons own others, ok⟩ (.refl _)

theorem post_run
    (run : Reach (Delivering setup) (fun config event => PostsOwn setup config ∧ P event) (initial setup)
      (.ofList mem (⟨id, .stream info, store, .posting ⟨key, .message value⟩ after⟩ :: alive)))
    (others : ∀ proc ∈ alive, proc.PostsOwn setup) (internal : P .internal) (swap : P (.cas key value))
    (bucket : mem.buckets key.bucket = some found)
    (swaps : (InMemoryStore.cas (mem.stores found) key.name value).2 = true)
    (free : mem.listenerMutex.Free) (receivers : mem.receivers key = [receiver]) :
    ∃ mem' : Mem Value, Reach (Delivering setup) (fun config event => PostsOwn setup config ∧ P event)
        (initial setup) (.ofList mem' (⟨id, .stream info, store, .posted none after⟩ :: alive)) ∧
      mem'.sent receiver = value :: mem.sent receiver ∧ mem'.listenerMutex.Free ∧
      mem'.providerMutex = mem.providerMutex ∧ mem'.buckets = mem.buckets ∧
      mem'.stores = Function.update mem.stores found
        (InMemoryStore.cas (mem.stores found) key.name value).1 ∧
      mem'.providers = mem.providers ∧ mem'.listeners = mem.listeners := by
  have run := quiet_next run others swap (.postSwap bucket swaps) rfl trivial
  have visits : [receiver].Perm (mem.receivers key) := List.Perm.of_eq receivers.symm
  have run := quiet_next run others internal (.notify (by exact free.1) (by exact visits)) rfl trivial
  have run := run.next [_] alive ⟨.send, List.forall_mem_singleton.mpr fun send is => by
      obtain rfl := Option.some.inj is
      exact Mem.sent_send_self receiver value⟩ ⟨postsOwn_cons trivial others, internal⟩ (.refl _)
  have run := quiet_next run others internal .notified rfl trivial
  refine ⟨_, run, Mem.sent_send_self receiver value, ⟨free.1, ?_⟩, rfl, rfl, rfl, rfl, rfl⟩
  exact (Multiset.erase_cons_head id _).trans free.2

theorem listen_run
    (run : Reach (Delivering setup) (fun config event => PostsOwn setup config ∧ P event) (initial setup)
      (.ofList mem alive))
    (others : ∀ proc ∈ alive, proc.PostsOwn setup) (internal : P .internal) (insert : P (.insert key))
    (provider : mem.providerMutex.Free) (listener : mem.listenerMutex.Free)
    (bucket : mem.buckets key.bucket = some store) (there : mem.stores store key.name = some value) :
    ∃ mem' : Mem Value, Reach (Delivering setup) (fun config event => PostsOwn setup config ∧ P event)
        (initial setup) (.ofList mem' (⟨mem.calls, .listen key, store, .listening⟩ :: alive)) ∧
      mem'.calls = mem.calls + 1 ∧ mem'.listeners = (mem.calls, key) :: mem.listeners ∧
      mem'.providerMutex.Free ∧ mem'.listenerMutex.Free ∧ mem'.buckets = mem.buckets ∧
      mem'.stores = mem.stores ∧ mem'.created = mem.created ∧ mem'.providers = mem.providers := by
  have run := run.next [] alive (delivering_of_silent (.call (.listen key)) (List.forall_mem_nil _))
    ⟨others, internal⟩ (.refl _)
  have run := quiet_next run others internal (.listenLock (by exact provider.1)) rfl trivial
  have run := quiet_next run others internal (.listenBucket (by exact bucket)) rfl trivial
  have run := quiet_next run others internal (.insertLock (by exact listener)) rfl trivial
  have run := quiet_next run others insert .insert rfl trivial
  have run := quiet_next run others internal (.joinRead (by exact there)) rfl trivial
  have run := run.next [_] alive ⟨.joinSend, List.forall_mem_singleton.mpr fun send is => by
      obtain rfl := Option.some.inj is
      exact Mem.sent_send_self _ value⟩ ⟨postsOwn_cons trivial others, internal⟩ (.refl _)
  have run := quiet_next run others internal .joinUnlock rfl trivial
  refine ⟨_, run, rfl, rfl, ⟨provider.1, ?_⟩, ⟨rfl, listener.2⟩, rfl, rfl, rfl, rfl⟩
  exact (Multiset.erase_cons_head mem.calls _).trans provider.2

theorem connect_run
    (run : Reach (Delivering setup) (fun config event => PostsOwn setup config ∧ P event) (initial setup)
      (.ofList mem alive))
    (others : ∀ proc ∈ alive, proc.PostsOwn setup) (internal : P .internal)
    (identify : P (.identify info.uuid true))
    (swap : P (.cas setup.metaKey (setup.table (Function.update mem.providers info.uuid (some info)))))
    (provider : mem.providerMutex.Free) (listener : mem.listenerMutex.Free)
    (absent : mem.buckets info.uuid = none) (bucket : mem.buckets metaBucket = some found)
    (old : found < mem.created)
    (swaps : (InMemoryStore.cas (mem.stores found) setup.typeUrl
      (setup.table (Function.update mem.providers info.uuid (some info)))).2 = true)
    (listeners : mem.listeners = [(receiver, setup.metaKey)]) :
    ∃ mem' : Mem Value, Reach (Delivering setup) (fun config event => PostsOwn setup config ∧ P event)
        (initial setup) (.ofList mem' (⟨mem.calls, .stream info, mem.created, .receiving⟩ :: alive)) ∧
      mem'.listeners = mem.listeners ∧ mem'.providerMutex.Free ∧ mem'.listenerMutex.Free ∧
      mem'.buckets info.uuid = some mem.created ∧ mem'.stores mem.created = (fun _ => none) ∧
      mem'.providers = Function.update mem.providers info.uuid (some info) := by
  have run := run.next [] alive (delivering_of_silent (.call (.stream info)) (List.forall_mem_nil _))
    ⟨others, internal⟩ (.refl _)
  have run := quiet_next run others internal (.connect (by exact provider)) rfl trivial
  have run := quiet_next run others identify (.register (by exact absent)) rfl trivial
  have other : metaBucket ≠ info.uuid := by
    intro same
    rw [← same] at absent
    exact absurd (absent.symm.trans bucket) nofun
  have receivers : mem.receivers setup.metaKey = [receiver] := by
    rw [Mem.receivers, listeners]
    simp
  rw [← @Function.update_of_ne _ _ _ _ _ old.ne (fun _ => none) mem.stores] at swaps
  obtain ⟨mem', run, -, free, lock, buckets, stores, providers, same⟩ := post_run run others internal swap
    ((Function.update_of_ne other _ _).trans bucket) swaps listener receivers
  have run := quiet_next run others internal .connected rfl trivial
  refine ⟨_, run, same, ⟨rfl, ?_⟩, free, ?_, ?_, providers⟩
  · show mem'.providerMutex.readers = 0
    rw [lock]
    exact provider.2
  · show mem'.buckets info.uuid = _
    rw [buckets]
    exact Function.update_self _ _ _
  · show mem'.stores mem.created = _
    rw [stores, Function.update_of_ne old.ne']
    exact Function.update_self _ _ _

end Runs

/-- A monitor whose published table says whether the provider `meta.type` is connected. -/
def dotted : Setup Nat :=
  ⟨bytes "m", bytes "type.googleapis.com/metrics.Providers",
    fun providers => if (providers (bytes "meta.type")).isSome then 1 else 0⟩

def impostor : ProviderInfo := ⟨bytes "meta.type", 3, bytes "a"⟩

/-- A key in its own bucket that has the canonical form of the meta key. -/
def impostorKey : Key := ⟨impostor.uuid, bytes "googleapis.com/metrics.Providers"⟩

theorem impostorKey_canonical : impostorKey.canonical = dotted.metaKey.canonical := by decide +kernel

theorem connected_run : ∃ mem : Mem Nat,
    Reach (Delivering dotted) (fun config event => PostsOwn dotted config ∧ Distinct dotted event)
      (initial dotted) (.ofList mem
        [⟨1, .stream impostor, 2, .receiving⟩, ⟨0, .listen dotted.metaKey, 1, .listening⟩]) ∧
      mem.providerMutex.Free ∧ mem.listenerMutex.Free ∧ mem.buckets impostor.uuid = some 2 ∧
      mem.stores 2 = (fun _ => none) ∧ mem.listeners = [(0, dotted.metaKey)] ∧
      dotted.table mem.providers = 1 := by
  have begun : Reach (Delivering dotted)
      (fun config event => PostsOwn dotted config ∧ Distinct dotted event) (initial dotted)
      (.ofList (initial dotted).mem []) := .start
  have bucket : (initial dotted).mem.buckets metaBucket = some 1 := by decide +kernel
  have there : (initial dotted).mem.stores 1 dotted.typeUrl = some 0 := by decide +kernel
  have absent : (initial dotted).mem.buckets impostor.uuid = none := by decide +kernel
  obtain ⟨mem, run, calls, listeners, provider, listener, buckets, stores, created, providers⟩ :=
    @listen_run _ _ _ _ _ dotted.metaKey _ _ _ begun (List.forall_mem_nil _) trivial trivial
      ⟨rfl, rfl⟩ ⟨rfl, rfl⟩ bucket there
  have table : ∀ providers, dotted.table (Function.update providers impostor.uuid (some impostor)) = 1 := by
    intro providers
    have known := Function.update_self impostor.uuid (some impostor) providers
    exact (if_pos (Option.isSome_iff_exists.mpr ⟨impostor, known⟩) : (if _ then 1 else 0) = 1)
  have swaps : (InMemoryStore.cas (mem.stores 1) dotted.typeUrl
      (dotted.table (Function.update mem.providers impostor.uuid (some impostor)))).2 = true := by
    rw [InMemoryStore.cas, stores, there, table]
    rfl
  rw [← buckets] at bucket absent
  have old : 1 < mem.created := by
    rw [created]
    exact Nat.one_lt_two
  obtain ⟨mem', run, same, provider, listener, own, empty, connected⟩ :=
    connect_run run (List.forall_mem_singleton.mpr trivial) trivial trivial (fun _ => rfl) provider listener
      absent bucket old swaps listeners
  rw [calls, created] at run
  rw [created] at own empty
  refine ⟨mem', run, provider, listener, own, empty, same.trans listeners, ?_⟩
  rw [connected]
  exact table _

/-- The listener has the table with the provider. -/
theorem consistent_connected :
    ∃ config, Reach (Delivering dotted) (fun config event => PostsOwn dotted config ∧ Distinct dotted event)
        (initial dotted) config ∧
      config.mem.providerMutex.writer = none ∧ (0, dotted.metaKey) ∈ config.mem.listeners ∧
      config.mem.stored dotted.metaKey = some 1 ∧ (config.mem.sent 0).head? = some 1 := by
  obtain ⟨mem, run, provider, _, _, _, listeners, table⟩ := connected_run
  have published := consistent_of_distinct dotted _ run provider.1
  have there : (0, dotted.metaKey) ∈ mem.listeners := listeners ▸ List.mem_cons_self
  have last := published.listeners 0 there _ (List.mem_cons_of_mem _ List.mem_cons_self) rfl rfl
  refine ⟨_, run, provider.1, there, ?_, ?_⟩
  · exact published.table.trans (congrArg some table)
  · exact last.trans (congrArg some table)

/-- **A provider that posts under the canonical form of the meta key**: it posts `7` in the bucket of its
own UUID, and the listener of the meta key is sent it. -/
theorem foreign_table_sent :
    ∃ config, Reach (Delivering dotted) (fun config _ => PostsOwn dotted config) (initial dotted) config ∧
      (config.mem.sent 0).head? = some 7 ∧ ¬ Consistent dotted config := by
  obtain ⟨mem, run, provider, listener, bucket, empty, listeners, table⟩ := connected_run
  have run := run.mono fun _ _ ok => (⟨ok.1, trivial⟩ : PostsOwn dotted _ ∧ True)
  have others : ∀ proc ∈ [Proc.mk 0 (.listen dotted.metaKey) 1 .listening], proc.PostsOwn dotted :=
    List.forall_mem_singleton.mpr trivial
  have run := quiet_next run others trivial (.receive ⟨impostorKey, .message 7⟩) rfl trivial
  have run := quiet_next run others trivial (.receiveLock provider.1) rfl rfl
  have swaps : (InMemoryStore.cas (mem.stores 2) impostorKey.name 7).2 = true := by
    rw [InMemoryStore.cas, empty]
  have receivers : mem.receivers impostorKey = [0] := by
    rw [Mem.receivers, listeners, impostorKey_canonical]
    simp
  obtain ⟨mem', run, sent, _, lock, _, _, providers, same⟩ :=
    post_run run others trivial trivial bucket swaps listener receivers
  have run := quiet_next run others trivial .receiveUnlock rfl trivial
  have head : (mem'.sent 0).head? = some 7 := by
    rw [sent, List.head?_cons]
  refine ⟨_, run.mono fun _ _ ok => ok.1, head, fun consistent => ?_⟩
  have free : mem'.providerMutex.writer = none := by
    rw [lock]
    exact provider.1
  have there : (0, dotted.metaKey) ∈ mem'.listeners := by
    rw [same]
    exact listeners ▸ List.mem_cons_self
  have last := (consistent free).listeners 0 there _ (List.mem_cons_of_mem _ List.mem_cons_self) rfl rfl
  have seven : 7 = dotted.table mem'.providers := Option.some.inj (head.symm.trans last)
  rw [providers] at seven
  exact absurd (seven.trans table) (by decide)

/-! ### UUIDs without dots -/

theorem Key.takeWhile_canonical (plain : byte '.' ∉ key.bucket) :
    key.canonical.takeWhile (· ≠ byte '.') = key.bucket := by
  have before : ∀ other ∈ key.bucket, decide (other ≠ byte '.') = true := by
    intro other member
    refine decide_eq_true fun same => plain ?_
    rw [← same]
    exact member
  rw [Key.canonical, List.append_assoc, List.takeWhile_append_of_pos before]
  exact List.append_nil key.bucket

theorem Key.canonical_inj {key other : Key} (plain : byte '.' ∉ key.bucket)
    (plain' : byte '.' ∉ other.bucket) (same : key.canonical = other.canonical) : key = other := by
  obtain ⟨bucket, name⟩ := key
  obtain ⟨bucket', name'⟩ := other
  obtain rfl : bucket = bucket' := by
    have before := Key.takeWhile_canonical plain
    rw [same] at before
    exact before.symm.trans (Key.takeWhile_canonical plain')
  exact congrArg (Key.mk bucket) (List.append_cancel_left same)

def Proc.Undotted (proc : Proc Value) : Prop :=
  ∀ metric after, proc.phase = .posting metric after → byte '.' ∉ metric.key.bucket

def Undotted (config : State Value) : Prop :=
  ∀ proc ∈ config.procs, ∀ info, proc.handler = .stream info → byte '.' ∉ info.uuid

theorem undotted_left (rule : Rule setup event mem acting mem' left) (monitor : byte '.' ∉ setup.uuid)
    (own : PostsOwn setup ⟨mem, ↑acting + rest⟩) (undotted : Undotted ⟨mem, ↑acting + rest⟩) :
    ∀ proc ∈ left, proc.Undotted := by
  cases rule with
  | register | unregister =>
    refine List.forall_mem_singleton.mpr ?_
    rintro _ _ ⟨⟩
    exact (by decide : byte '.' ∉ metaBucket)
  | receiveLock =>
    refine List.forall_mem_singleton.mpr ?_
    rintro _ _ ⟨⟩
    have bucket := own _ mem_acting
    rw [bucket]
    exact undotted _ mem_acting _ rfl
  | internalLock =>
    refine List.forall_mem_singleton.mpr ?_
    rintro _ _ ⟨⟩
    exact monitor
  | receiveUnlock =>
    refine List.forall_mem_singleton.mpr ?_
    split <;> exact nofun
  | cancel | turnAway | duplicate | disconnected | listenNoBucket | removeUnlock | queryUnlock
  | internalUnlock => exact List.forall_mem_nil _
  | _ => exact List.forall_mem_singleton.mpr nofun

theorem distinct_of_undotted (monitor : byte '.' ∉ setup.uuid)
    (reach : Reach (Delivering setup) (fun config _ => PostsOwn setup config ∧ Undotted config)
      (initial setup) config) :
    Reach (Delivering setup) (fun config event => PostsOwn setup config ∧ Distinct setup event)
      (initial setup) config ∧ ∀ proc ∈ config.procs, proc.Undotted := by
  induction reach with
  | start => exact ⟨.start, fun _ member => absurd member (Multiset.notMem_zero _)⟩
  | @step _ _ event _ ok step ih =>
    obtain ⟨reach, posts⟩ := ih
    have distinct : Distinct setup event := by
      obtain ⟨rest, rule, _⟩ := step
      cases rule with
      | postSwap =>
        have plain := posts _ mem_acting _ _ rfl
        exact Key.canonical_inj plain (by decide : byte '.' ∉ metaBucket)
      | _ => trivial
    refine ⟨reach.step ⟨ok.1, distinct⟩ step, ?_⟩
    obtain ⟨rest, rule, _⟩ := step
    exact forall_mem_fire posts (fun _ => undotted_left rule monitor ok.1 ok.2) fun _ _ post => post

/-- **With UUIDs without dots the provider directory is consistent.** -/
theorem consistent_of_undotted (monitor : byte '.' ∉ setup.uuid)
    (reach : Reach (Delivering setup) (fun config _ => PostsOwn setup config ∧ Undotted config)
      (initial setup) config) : Consistent setup config :=
  (directory (distinct_of_undotted monitor reach).1).consistent (reach_of_delivering reach)

end Kubecc.Monitor
