/-
**A listener is sent the changes of its key.**

`post` compares what it is given with what the store has, and calls `notify` only on a change; a metric
without a value deletes the key. So a listener of a key that one provider stream writes is sent the posted
values, in order, without those that repeat the one before. `notify` looks its receivers up by
`Key.Canonical`, which tells the keys apart as long as no bucket name has a dot.

* `writes` — the posts and deletions of a key, as a record of the run; `changes` — what is left of them
  without the repeats.
* `Fit` — what holds in every run without dotted buckets: `notify` visits each of its receivers once, and
  they listen to its key; the store that a `Listen` has found is that of its bucket, or is closed.
* `Unposted` — before the first post nothing is stored or sent; `Served` — after it, with one stream that
  writes, the listener has been sent the changes, but for one value that is about to be.
* `sent_eq_changes` — the property, in every run.

A post that overlaps the late join of a listener is not one of those that the listener was there for: both
run with `providerMutex` locked for reading, and the value may be sent by both.
-/

import Kubecc.Monitor.Directory
import Kubecc.Lib.History

set_option linter.unusedSectionVars false

namespace Kubecc.Monitor

open Kubecc.Lib Kubecc.Go

/-! ### Posts, deletions and changes -/

section Property

variable {Value : Type} [DecidableEq Value]

/-- What a post does to its key. -/
inductive Write (Value : Type)
  | post (value : Value)
  | delete
deriving DecidableEq

def Write.stored : Write Value → Option Value
  | .post value => some value
  | .delete => none

/-- The posts and deletions of a key, each with the call that makes it. There is none for the table that
`NewMonitorServer` posts. -/
abbrev Log (Value : Type) := List (Option Nat × Write Value)

/-- What the handler is about to do to this key. A post into a bucket that does not exist, or of a value of
unknown type, is an error. -/
def Proc.write (key : Key) (mem : Mem Value) (proc : Proc Value) : Option (Option Nat × Write Value) :=
  match proc.phase with
  | .posting ⟨posted, payload⟩ _ =>
    if posted = key ∧ (mem.buckets key.bucket).isSome = true then
      match payload with
      | .nil => some (some proc.id, .delete)
      | .unknown => none
      | .message value => some (some proc.id, .post value)
    else none
  | _ => none

def writes (key : Key) (mem : Mem Value) (acting _left : List (Proc Value)) : Log Value :=
  acting.filterMap (Proc.write key mem)

/-- What `NewMonitorServer` has posted. -/
def firstWrites (setup : Setup Value) (key : Key) : Log Value :=
  if key = setup.metaKey then [(none, .post (setup.table (initial setup).mem.providers))] else []

/-- **The values that change the key**: the posted ones without those that are stored already. -/
def changes (stored : Option Value) : List (Write Value) → List Value
  | [] => []
  | .delete :: later => changes none later
  | .post value :: later =>
    if stored = some value then changes stored later else value :: changes (some value) later

def current (stored : Option Value) (log : List (Write Value)) : Option Value :=
  log.foldl (fun _ write => write.stored) stored

theorem current_append (stored : Option Value) (log : List (Write Value)) (write : Write Value) :
    current stored (log ++ [write]) = write.stored := by
  rw [current, List.foldl_append]
  rfl

theorem changes_append (stored : Option Value) (log : List (Write Value)) (write : Write Value) :
    changes stored (log ++ [write]) = changes stored log ++ changes (current stored log) [write] := by
  induction log generalizing stored with
  | nil => rfl
  | cons first later ih =>
    cases first with
    | delete => exact ih none
    | post value =>
      by_cases same : stored = some value
      · subst same
        simp only [List.cons_append, changes, if_true]
        exact ih (some value)
      · simp only [List.cons_append, changes, if_neg same]
        exact congrArg (value :: ·) (ih (some value))

def Log.values (log : Log Value) : List Value := changes none (log.map Prod.snd)

def Log.current (log : Log Value) : Option Value := Monitor.current none (log.map Prod.snd)

abbrev Logged (Value : Type) := Config (Mem Value × Log Value) (Proc Value)

/-- No bucket name has a dot. -/
def Mem.Plain (mem : Mem Value) : Prop := ∀ name store, mem.buckets name = some store → byte '.' ∉ name

/-- A `Listen` that is registered, with its late join behind it, and that nobody has told to end. -/
def Phase.attends : Phase Value → Bool
  | .joined | .listening => true
  | _ => false

def Proc.Attends (id : Nat) (key : Key) (store : Nat) (proc : Proc Value) : Prop :=
  proc.id = id ∧ proc.handler = .listen key ∧ proc.store = store ∧ proc.phase.attends = true

/-- **The listener has been sent the changes**: at most the value that is being announced is lacking. -/
def Received (key : Key) (id : Nat) (config : Logged Value) : Prop :=
  (config.mem.1.sent id).reverse <+: config.mem.2.values ∧
    ((∀ proc ∈ config.procs, proc.announcing ≠ some key) →
      (config.mem.1.sent id).reverse = config.mem.2.values)

end Property

variable {Value : Type} [DecidableEq Value] {setup : Setup Value} {event : Event Value}
  {mem mem' : Mem Value} {proc next : Proc Value} {acting left : List (Proc Value)}
  {rest : Multiset (Proc Value)} {config : State Value} {key : Key} {log log' : Log Value}
  {id store writer : Nat} {value : Value} {after : After} {handler : Handler Value}

/-! ### Runs without dotted buckets -/

/-- What holds of a handler: `notify` visits each listener of the canonical form once; the store that a
`Listen` has found is that of its bucket. -/
def Proc.Fit (mem : Mem Value) (proc : Proc Value) : Prop :=
  match proc.phase, proc.handler with
  | .notifying key _ _, _ => byte '.' ∉ key.bucket
  | .sending key _ todo _, _ => byte '.' ∉ key.bucket ∧ todo.Nodup ∧
      ∀ id ∈ todo, ∃ other, (id, other) ∈ mem.listeners ∧ other.canonical = key.canonical
  | .inserting, .listen key | .insertLocked, .listen key | .joining, .listen key
  | .read _, .listen key => mem.buckets key.bucket = some proc.store
  | _, _ => True

/-- The bucket of a connected provider, with the store that its `Stream` has made. -/
def Proc.lease (proc : Proc Value) : Option (GoString × Nat) := proc.connected.map (·, proc.store)

structure Fit (config : State Value) : Prop where
  procs : ∀ proc ∈ config.procs, proc.Fit config.mem
  once : (config.mem.listeners.map Prod.fst).Nodup
  plain : ∀ entry ∈ config.mem.listeners, byte '.' ∉ entry.2.bucket
  leases : ∀ proc ∈ config.procs, ∀ lease, proc.lease = some lease →
    config.mem.buckets lease.1 = some lease.2
  joined : ∀ proc ∈ config.procs, ∀ key, proc.handler = .listen key → proc.phase.lateJoined = true →
    config.mem.closed proc.store = true ∨ config.mem.buckets key.bucket = some proc.store
  unsent : ∀ id, config.mem.calls ≤ id → config.mem.sent id = []

/-- What is known of a state, with the invariants of the other runs. -/
structure Known (setup : Setup Value) (config : State Value) : Prop where
  numbered : Numbered config
  provider : Guarded Proc.provider config.mem.providerMutex config.procs
  tables : Tables setup config
  registered : Registered config
  fit : Fit config

theorem Proc.fit_of_provider (free : proc.provider = none) : proc.Fit mem := by
  obtain ⟨id, handler, store, phase⟩ := proc
  cases phase with
  | notifying | sending | inserting | insertLocked | joining | read => exact absurd free nofun
  | _ => trivial

theorem Proc.Fit.mono (fit : proc.Fit mem) (buckets : mem'.buckets = mem.buckets)
    (listeners : ∀ entry ∈ mem.listeners, entry ∈ mem'.listeners) : proc.Fit mem' := by
  obtain ⟨id, handler, store, phase⟩ := proc
  cases phase with
  | notifying key value after => exact fit
  | sending key value todo after =>
    refine ⟨fit.1, fit.2.1, fun receiver member => ?_⟩
    obtain ⟨other, there, same⟩ := fit.2.2 receiver member
    exact ⟨other, listeners _ there, same⟩
  | inserting | insertLocked | joining | read =>
    cases handler with
    | listen key => exact (congrFun buckets key.bucket).trans fit
    | _ => trivial
  | _ => trivial

/-- **What a step does without the write lock**: the buckets stay, and listeners only come. -/
theorem rule_extends (rule : Rule setup event mem acting mem' left) :
    (∃ proc, acting = [proc] ∧ proc.provider = some (.write, proc.id)) ∨
      mem'.buckets = mem.buckets ∧ ∀ entry ∈ mem.listeners, entry ∈ mem'.listeners := by
  cases rule with
  | register | unregister | remove => exact .inl ⟨_, rfl, rfl⟩
  | insert => exact .inr ⟨rfl, fun _ => List.mem_cons_of_mem _⟩
  | _ => exact .inr ⟨rfl, fun _ => id⟩

theorem Fit.receivers (fit : Fit config) (key : Key) : (config.mem.receivers key).Nodup :=
  fit.once.sublist (List.filter_sublist.map Prod.fst)

theorem fit_left (rule : Rule setup event mem acting mem' left) (plain : mem.Plain)
    (fit : Fit ⟨mem, ↑acting + rest⟩) : ∀ proc ∈ left, proc.Fit mem' := by
  cases rule with
  | postSwap there => exact List.forall_mem_singleton.mpr (plain _ _ there)
  | @notify _ _ _ _ key value after todo _ visits =>
    refine List.forall_mem_singleton.mpr ⟨fit.procs _ mem_acting, ?_, fun id member => ?_⟩
    · exact visits.nodup_iff.mpr (fit.receivers key)
    · exact Mem.mem_receivers.mp (visits.mem_iff.mp member)
  | send | sendFails =>
    obtain ⟨undotted, once, listens⟩ := fit.procs _ mem_acting
    exact List.forall_mem_singleton.mpr ⟨undotted, once.of_cons,
      fun id member => listens id (List.mem_cons_of_mem _ member)⟩
  | listenBucket bucket => exact List.forall_mem_singleton.mpr bucket
  | insertLock | insert | joinRead =>
    have found := fit.procs _ mem_acting
    exact List.forall_mem_singleton.mpr found
  | receiveUnlock =>
    refine List.forall_mem_singleton.mpr ?_
    split <;> trivial
  | cancel | turnAway | duplicate | disconnected | listenNoBucket | removeUnlock | queryUnlock
  | internalUnlock => exact List.forall_mem_nil _
  | _ => exact List.forall_mem_singleton.mpr trivial

theorem once_rule (rule : Rule setup event mem acting mem' left)
    (known : Known setup ⟨mem, ↑acting + rest⟩) : (mem'.listeners.map Prod.fst).Nodup := by
  cases rule with
  | insert =>
    refine List.nodup_cons.mpr ⟨fun twice => ?_, known.fit.once⟩
    obtain ⟨entry, there, same⟩ := List.mem_map.mp twice
    obtain ⟨holder, member, is⟩ := (known.registered entry).mp there
    have owns := Proc.entry_eq_some.mp is
    obtain rfl := known.numbered.unique mem_acting member (owns.1.trans same)
    exact absurd owns.2.2 Bool.false_ne_true
  | remove => exact known.fit.once.sublist (List.filter_sublist.map Prod.fst)
  | _ => exact known.fit.once

theorem plain_rule (rule : Rule setup event mem acting mem' left) (plain : mem.Plain)
    (fit : Fit ⟨mem, ↑acting + rest⟩) : ∀ entry ∈ mem'.listeners, byte '.' ∉ entry.2.bucket := by
  cases rule with
  | insert =>
    have bucket := fit.procs _ mem_acting
    exact List.forall_mem_cons.mpr ⟨plain _ _ bucket, fit.plain⟩
  | remove => exact fun entry member => fit.plain entry (List.mem_of_mem_filter member)
  | _ => exact fit.plain

/-- **What a step does to the buckets**: a `Stream` makes its own with a new store, or removes it and closes
the store, or they stay. -/
theorem rule_leases (rule : Rule setup event mem acting mem' left) :
    (mem'.buckets = mem.buckets ∧ mem'.closed = mem.closed ∧
      left.filterMap Proc.lease = acting.filterMap Proc.lease) ∨
    (∃ uuid, mem.buckets uuid = none ∧
      mem'.buckets = Function.update mem.buckets uuid (some mem.created) ∧ mem'.closed = mem.closed ∧
      left.filterMap Proc.lease = [(uuid, mem.created)]) ∨
    (∃ proc uuid, acting = [proc] ∧ proc.lease = some (uuid, proc.store) ∧
      mem'.buckets = Function.update mem.buckets uuid none ∧
      mem'.closed = Function.update mem.closed proc.store true ∧
      left.filterMap Proc.lease = []) := by
  cases rule with
  | register absent => exact .inr (.inl ⟨_, absent, rfl, rfl, rfl⟩)
  | unregister => exact .inr (.inr ⟨_, _, rfl, rfl, rfl, rfl, rfl⟩)
  | receiveUnlock =>
    refine .inl ⟨rfl, rfl, ?_⟩
    split <;> rfl
  | @call _ handler | @turnAway _ _ _ handler =>
    refine .inl ⟨rfl, rfl, ?_⟩
    cases handler <;> rfl
  | _ => exact .inl ⟨rfl, rfl, rfl⟩

theorem Proc.connected_of_lease {uuid : GoString} (is : proc.lease = some (uuid, store)) :
    proc.connected = some uuid := by
  obtain ⟨_, connected, same⟩ := Option.map_eq_some_iff.mp is
  rw [connected, (Prod.mk.inj same).1]

theorem Tables.connected_unique {uuid : GoString} (tables : Tables setup ⟨mem, ↑[proc] + rest⟩)
    {other : Proc Value} (member : other ∈ rest) (is : proc.connected = some uuid) :
    other.connected ≠ some uuid := by
  intro same
  have account := tables.connected uuid
  have second := one_le_total_tally member same
  rw [total_add, total_coe_cons, tally_of_eq_some is, if_pos rfl] at account
  have bound : present mem.providers uuid ≤ 1 := Bool.toNat_le _
  change _ = present mem.providers uuid at account
  omega

theorem leases_rule (rule : Rule setup event mem acting mem' left)
    (known : Known setup ⟨mem, ↑acting + rest⟩) :
    ∀ proc ∈ (↑left + rest : Multiset (Proc Value)), ∀ lease, proc.lease = some lease →
      mem'.buckets lease.1 = some lease.2 := by
  have leased : ∀ next ∈ left, ∀ lease, next.lease = some lease → lease ∈ left.filterMap Proc.lease :=
    fun next member lease is => List.mem_filterMap.mpr ⟨next, member, is⟩
  rcases rule_leases rule with ⟨buckets, _, same⟩ | ⟨uuid, absent, buckets, _, makes⟩ |
    ⟨owner, uuid, rfl, owns, buckets, _, none⟩
  · rw [same] at leased
    rw [buckets]
    refine forall_mem_fire known.fit.leases (fun all next member lease is => ?_) fun _ _ leased => leased
    obtain ⟨old, member, is⟩ := List.mem_filterMap.mp (leased next member lease is)
    exact all old member lease is
  · rw [makes] at leased
    rw [buckets]
    refine forall_mem_fire known.fit.leases (fun _ next member lease is => ?_) fun proc _ leased lease is => ?_
    · obtain rfl := List.mem_singleton.mp (leased next member lease is)
      exact Function.update_self _ _ _
    · have there := leased lease is
      have other : lease.1 ≠ uuid := by
        rintro rfl
        exact absurd (absent.symm.trans there) nofun
      rwa [Function.update_of_ne other]
  · rw [none] at leased
    rw [buckets]
    refine forall_mem_fire known.fit.leases (fun _ next member lease is => ?_)
      fun proc member leased lease is => ?_
    · exact absurd (leased next member lease is) List.not_mem_nil
    · have other : lease.1 ≠ uuid := by
        rintro rfl
        exact known.tables.connected_unique member (Proc.connected_of_lease owns)
          (Proc.connected_of_lease is)
      rw [Function.update_of_ne other]
      exact leased lease is

theorem found_rule (rule : Rule setup event mem acting mem' left) (fit : Fit ⟨mem, ↑acting + rest⟩)
    {name : GoString} (found : mem.closed store = true ∨ mem.buckets name = some store) :
    mem'.closed store = true ∨ mem'.buckets name = some store := by
  rcases rule_leases rule with ⟨buckets, closed, _⟩ | ⟨uuid, absent, buckets, closed, _⟩ |
    ⟨owner, uuid, rfl, owns, buckets, closed, _⟩
  · rwa [buckets, closed]
  · rw [buckets, closed]
    refine found.imp id fun bucket => ?_
    have other : name ≠ uuid := by
      rintro rfl
      exact absurd (absent.symm.trans bucket) nofun
    rwa [Function.update_of_ne other]
  · rw [buckets, closed]
    by_cases same : store = owner.store
    · subst same
      exact .inl (Function.update_self _ _ _)
    · rw [Function.update_of_ne same]
      refine found.imp id fun bucket => ?_
      have other : name ≠ uuid := by
        rintro rfl
        exact same (Option.some.inj (bucket.symm.trans (fit.leases _ mem_acting _ owns)))
      rwa [Function.update_of_ne other]

theorem joined_left (rule : Rule setup event mem acting mem' left) (fit : Fit ⟨mem, ↑acting + rest⟩) :
    ∀ proc ∈ left, ∀ key, proc.handler = .listen key → proc.phase.lateJoined = true →
      mem'.closed proc.store = true ∨ mem'.buckets key.bucket = some proc.store := by
  cases rule with
  | joinNothing | joinSend | joinSendFails =>
    refine List.forall_mem_singleton.mpr fun key listens _ => ?_
    obtain rfl := Handler.listen.inj listens
    exact .inr (fit.procs _ mem_acting)
  | joinUnlock | listenDone | listenClosed | removeLock | removeLockBoth =>
    exact List.forall_mem_singleton.mpr fun key listens _ => fit.joined _ mem_acting key listens rfl
  | receiveUnlock => exact List.forall_mem_singleton.mpr fun key listens => absurd listens nofun
  | cancel | turnAway | duplicate | disconnected | listenNoBucket | removeUnlock | queryUnlock
  | internalUnlock => exact List.forall_mem_nil _
  | _ => exact List.forall_mem_singleton.mpr fun key _ late => absurd late Bool.false_ne_true

theorem rule_sent (rule : Rule setup event mem acting mem' left) :
    mem'.sent = mem.sent ∨ ∃ proc receiver value, acting = [proc] ∧
      proc.sends = some (receiver, value) ∧ mem'.sent = (mem.send receiver value).sent := by
  cases rule with
  | send | joinSend => exact .inr ⟨_, _, _, rfl, rfl, rfl⟩
  | _ => exact .inl rfl

theorem Numbered.lt_calls (numbered : Numbered config) (member : proc ∈ config.procs) :
    proc.id < config.mem.calls := by
  by_contra beyond
  have account := numbered proc.id
  have counted := one_le_total_tally member (show proc.call = some proc.id from rfl)
  rw [if_neg beyond] at account
  omega

theorem Proc.Fit.sends_to {receiver : Nat} (fit : proc.Fit mem)
    (sends : proc.sends = some (receiver, value)) :
    (receiver = proc.id ∧ proc.phase = .read value) ∨ ∃ shown other, proc.announcing = some shown ∧
      byte '.' ∉ shown.bucket ∧ (receiver, other) ∈ mem.listeners ∧ other.canonical = shown.canonical := by
  obtain ⟨id, handler, store, phase⟩ := proc
  cases phase with
  | sending shown announced todo after =>
    cases todo with
    | nil => exact absurd sends nofun
    | cons first later =>
      obtain ⟨rfl, rfl⟩ := Prod.mk.inj (Option.some.inj sends)
      obtain ⟨other, there, same⟩ := fit.2.2 first List.mem_cons_self
      exact .inr ⟨shown, other, rfl, fit.1, there, same⟩
  | read late =>
    obtain ⟨rfl, rfl⟩ := Prod.mk.inj (Option.some.inj sends)
    exact .inl ⟨rfl, rfl⟩
  | _ => exact absurd sends nofun

theorem rule_calls (rule : Rule setup event mem acting mem' left) : mem.calls ≤ mem'.calls := by
  rcases rule_lifetime rule with ⟨_, _, _, calls, _⟩ | ⟨_, _, _, calls, _⟩ | ⟨_, calls, _⟩
  · exact calls ▸ Nat.le_succ _
  · exact calls.ge
  · exact calls.ge

theorem unsent_rule (rule : Rule setup event mem acting mem' left)
    (known : Known setup ⟨mem, ↑acting + rest⟩) : ∀ id, mem'.calls ≤ id → mem'.sent id = [] := by
  intro id beyond
  have before : mem.calls ≤ id := (rule_calls rule).trans beyond
  rcases rule_sent rule with sent | ⟨proc, receiver, value, rfl, sends, sent⟩
  · rw [sent]
    exact known.fit.unsent id before
  · have made : receiver < mem.calls := by
      rcases (known.fit.procs _ mem_acting).sends_to sends with ⟨rfl, _⟩ | ⟨_, other, _, _, there, _⟩
      · exact known.numbered.lt_calls mem_acting
      · obtain ⟨owner, here, is⟩ := (known.registered _).mp there
        rw [← (Proc.entry_eq_some.mp is).1]
        exact known.numbered.lt_calls here
    rw [sent, Mem.sent_send_of_ne (made.trans_le before).ne']
    exact known.fit.unsent id before

theorem fit_rule (rule : Rule setup event mem acting mem' left)
    (known : Known setup ⟨mem, ↑acting + rest⟩) (plain : mem.Plain) : Fit ⟨mem', ↑left + rest⟩ where
  procs := by
    refine forall_mem_fire known.fit.procs (fun _ => fit_left rule plain known.fit) fun proc member good => ?_
    rcases rule_extends rule with ⟨writer, rfl, writes⟩ | ⟨buckets, listeners⟩
    · exact Proc.fit_of_provider (known.provider.alone writes member)
    · exact good.mono buckets listeners
  once := once_rule rule known
  plain := plain_rule rule plain known.fit
  leases := leases_rule rule known
  joined := forall_mem_fire known.fit.joined (fun _ => joined_left rule known.fit)
    fun proc _ found key listens late => found_rule rule known.fit (found key listens late)
  unsent := unsent_rule rule known

theorem known (reach : Reach (Rule setup) (fun config _ => config.mem.Plain) (initial setup) config) :
    Known setup config := by
  have every := reach.mono fun _ _ _ => trivial
  refine ⟨numbered every, (guarded every).1, tables every, registered every, ?_⟩
  induction reach with
  | start =>
    exact ⟨fun _ member => absurd member (Multiset.notMem_zero _), List.nodup_nil,
      List.forall_mem_nil _, fun _ member => absurd member (Multiset.notMem_zero _),
      fun _ member => absurd member (Multiset.notMem_zero _), fun _ _ => rfl⟩
  | step reach ok step ih =>
    have every := reach.mono fun _ _ _ => trivial
    have known := Known.mk (numbered every) (guarded every).1 (tables every) (registered every) (ih every)
    obtain ⟨rest, rule⟩ := step
    exact fit_rule rule known ok

theorem Known.sends_own {receiver : Proc Value} (known : Known setup config) (member : proc ∈ config.procs)
    (sends : proc.sends = some (receiver.id, value)) (there : receiver ∈ config.procs)
    (listens : receiver.handler = .listen key) :
    proc.announcing = some key ∨ proc.lateJoin = some key := by
  rcases (known.fit.procs proc member).sends_to sends with ⟨same, reads⟩ |
    ⟨shown, other, announcing, undotted, entry, same⟩
  · obtain rfl := known.numbered.unique member there same
    rw [Proc.lateJoin, reads, listens]
    exact .inr rfl
  · obtain ⟨owner, here, is⟩ := (known.registered _).mp entry
    obtain ⟨first, owns, _⟩ := Proc.entry_eq_some.mp is
    obtain rfl := known.numbered.unique here there first.symm
    obtain rfl := Handler.listen.inj (owns.symm.trans listens)
    rw [announcing, Key.canonical_inj undotted (known.fit.plain _ entry) same.symm]
    exact .inl rfl

/-! ### The stored value -/

theorem Proc.write_of_ne {metric : Metric Value} (other : metric.key ≠ key) :
    (Proc.mk id handler store (.posting metric after)).write key mem = none :=
  if_neg fun both => other both.1

theorem Proc.write_of_absent {metric : Metric Value} (absent : mem.buckets metric.key.bucket = none) :
    (Proc.mk id handler store (.posting metric after)).write key mem = none := by
  refine if_neg fun both => ?_
  rw [← both.1, absent] at both
  exact Bool.false_ne_true both.2

theorem Proc.write_of_unknown {posted : Key} :
    (Proc.mk id handler store (.posting ⟨posted, .unknown⟩ after)).write key mem = none :=
  ite_self _

theorem Proc.write_of_bucket {found : Nat} {payload : Payload Value}
    (there : mem.buckets key.bucket = some found) :
    (Proc.mk id handler store (.posting ⟨key, payload⟩ after)).write key mem =
      match payload with
      | .nil => some (some id, .delete)
      | .unknown => none
      | .message value => some (some id, .post value) :=
  if_pos ⟨rfl, Option.isSome_iff_exists.mpr ⟨found, there⟩⟩

theorem writes_one (left : List (Proc Value)) {entry : Option Nat × Write Value}
    (is : proc.write key mem = some entry) : writes key mem [proc] left = [entry] := by
  rw [writes, List.filterMap_cons_some is, List.filterMap_nil]

theorem writes_none (left : List (Proc Value)) (is : proc.write key mem = none) :
    writes key mem [proc] left = [] := by
  rw [writes, List.filterMap_cons_none is, List.filterMap_nil]

theorem Mem.stored_of_same {found : Nat} (there : mem.buckets key.bucket = some found)
    (same : (InMemoryStore.cas (mem.stores found) key.name value).2 = false) :
    mem.stored key = some value := by
  rw [Mem.stored_of_bucket there]
  nth_rewrite 1 [← InMemoryStore.cas_fst_of_not_swapped same]
  exact InMemoryStore.cas_apply_self _ _ value

theorem Mem.stored_of_swap {found : Nat} (there : mem.buckets key.bucket = some found)
    (swaps : (InMemoryStore.cas (mem.stores found) key.name value).2 = true) :
    mem.stored key ≠ some value := by
  intro is
  rw [Mem.stored_of_bucket there] at is
  rw [InMemoryStore.cas, is] at swaps
  simp at swaps

theorem Mem.stored_register {uuid : GoString} (separate : Separate mem) (absent : mem.buckets uuid = none)
    (buckets : mem'.buckets = Function.update mem.buckets uuid (some mem.created))
    (stores : mem'.stores = Function.update mem.stores mem.created fun _ => none) (key : Key) :
    mem'.stored key = mem.stored key := by
  by_cases same : key.bucket = uuid
  · have bucket : mem'.buckets key.bucket = some mem.created := by
      rw [buckets, same, Function.update_self]
    rw [Mem.stored_of_bucket bucket, stores, Function.update_self, Mem.stored, same, absent]
    rfl
  · rw [Mem.stored, Mem.stored, buckets, stores, Function.update_of_ne same]
    refine Option.bind_congr fun store there => ?_
    rw [Function.update_of_ne (separate.created _ _ there).ne]

/-- **What a step does to the key.** A post or a deletion determines what is stored; otherwise it stays, as
long as the bucket does. -/
theorem rule_written (rule : Rule setup event mem acting mem' left) (separate : Separate mem) (key : Key) :
    (writes key mem acting left = [] ∧
      (mem'.stored key = mem.stored key ∨ mem'.buckets key.bucket = none)) ∨
    ∃ entry, writes key mem acting left = [entry] ∧ mem'.stored key = entry.2.stored := by
  cases rule with
  | register absent => exact .inl ⟨rfl, .inl (Mem.stored_register separate absent rfl rfl key)⟩
  | @unregister _ _ _ info =>
    by_cases same : key.bucket = info.uuid
    · refine .inl ⟨rfl, .inr ?_⟩
      rw [same]
      exact Function.update_self _ _ _
    · refine .inl ⟨rfl, .inl ?_⟩
      show (Function.update mem.buckets info.uuid none key.bucket).bind _ = _
      rw [Function.update_of_ne same]
      rfl
  | postNoBucket absent => exact .inl ⟨writes_none _ (Proc.write_of_absent absent), .inl rfl⟩
  | postUnknown => exact .inl ⟨writes_none _ Proc.write_of_unknown, .inl rfl⟩
  | @postNil _ _ _ found _ posted _ there =>
    have stored := @Mem.stored_setStore _ _ _ separate _ there
      (InMemoryStore.delete (mem.stores found) posted.name) (fun name ne => Function.update_of_ne ne _ _) key
    by_cases same : posted = key
    · subst same
      refine .inr ⟨_, writes_one _ (Proc.write_of_bucket there), stored.trans ?_⟩
      rw [if_pos rfl]
      exact Function.update_self _ _ _
    · exact .inl ⟨writes_none _ (Proc.write_of_ne same), .inl (stored.trans (if_neg (Ne.symm same)))⟩
  | @postSwap _ _ _ _ _ posted value _ there =>
    by_cases same : posted = key
    · subst same
      exact .inr ⟨_, writes_one _ (Proc.write_of_bucket there), Mem.stored_cas separate there value⟩
    · have stored := Mem.stored_setStore separate there
        (fun name ne => InMemoryStore.cas_apply_of_ne ne value) key
      exact .inl ⟨writes_none _ (Proc.write_of_ne same), .inl (stored.trans (if_neg (Ne.symm same)))⟩
  | @postSame _ _ _ _ _ posted _ _ there keeps =>
    by_cases same : posted = key
    · subst same
      exact .inr ⟨_, writes_one _ (Proc.write_of_bucket there), Mem.stored_of_same there keeps⟩
    · exact .inl ⟨writes_none _ (Proc.write_of_ne same), .inl rfl⟩
  | _ => exact .inl ⟨rfl, .inl rfl⟩

theorem rule_announcing (rule : Rule setup event mem acting mem' left) :
    ∀ next ∈ left, next.announcing = some key →
      (∃ proc ∈ acting, proc.announcing = some key ∧ proc.id = next.id) ∨
        ∃ value, (some next.id, Write.post value) ∈ writes key mem acting left := by
  cases rule with
  | @postSwap _ _ _ _ _ posted value _ there =>
    refine List.forall_mem_singleton.mpr fun is => .inr ⟨value, ?_⟩
    obtain rfl := Option.some.inj is
    rw [writes_one _ (Proc.write_of_bucket there)]
    exact List.mem_cons_self
  | notify | send | sendFails =>
    exact List.forall_mem_singleton.mpr fun is => .inl ⟨_, List.mem_cons_self, is, rfl⟩
  | receiveUnlock =>
    refine List.forall_mem_singleton.mpr ?_
    split <;> exact nofun
  | cancel | turnAway | duplicate | disconnected | listenNoBucket | removeUnlock | queryUnlock
  | internalUnlock => exact List.forall_mem_nil _
  | _ => exact List.forall_mem_singleton.mpr nofun

theorem Log.current_append (log : Log Value) (entry : Option Nat × Write Value) :
    Log.current (log ++ [entry]) = entry.2.stored := by
  rw [Log.current, List.map_append]
  exact Monitor.current_append none _ entry.2

theorem Log.values_append (log : Log Value) (entry : Option Nat × Write Value) :
    Log.values (log ++ [entry]) = log.values ++ changes log.current [entry.2] := by
  rw [Log.values, List.map_append]
  exact changes_append none _ entry.2

/-! ### Before the first post -/

/-- **Before the first post**: nothing is stored, announced or sent. -/
structure Unposted (key : Key) (config : State Value) : Prop where
  stored : config.mem.stored key = none
  silent : ∀ proc ∈ config.procs, proc.announcing ≠ some key
  unread : ∀ proc ∈ config.procs, proc.lateJoin ≠ some key
  unsent : ∀ proc ∈ config.procs, proc.handler = .listen key → config.mem.sent proc.id = []

/-- A handler stays what it is, and a new one has been sent nothing. -/
theorem rule_origin (rule : Rule setup event mem acting mem' left) :
    ∀ next ∈ left, (next.id = mem.calls ∧ mem'.sent = mem.sent) ∨
      ∃ proc ∈ acting, proc.id = next.id ∧ proc.handler = next.handler := by
  cases rule with
  | call => exact List.forall_mem_singleton.mpr (.inl ⟨rfl, rfl⟩)
  | cancel | turnAway | duplicate | disconnected | listenNoBucket | removeUnlock | queryUnlock
  | internalUnlock => exact List.forall_mem_nil _
  | _ => exact List.forall_mem_singleton.mpr (.inr ⟨_, List.mem_cons_self, rfl, rfl⟩)

theorem Unposted.sent (unposted : Unposted key ⟨mem, ↑acting + rest⟩)
    (rule : Rule setup event mem acting mem' left) (known : Known setup ⟨mem, ↑acting + rest⟩)
    (member : proc ∈ (↑acting + rest : Multiset (Proc Value))) (listens : proc.handler = .listen key) :
    mem'.sent proc.id = [] := by
  have unsent := unposted.unsent proc member listens
  rcases rule_sent rule with sent | ⟨sender, receiver, value, rfl, sends, sent⟩
  · rw [sent]
    exact unsent
  · have other : proc.id ≠ receiver := by
      rintro rfl
      rcases known.sends_own mem_acting sends member listens with announcing | late
      · exact unposted.silent _ mem_acting announcing
      · exact unposted.unread _ mem_acting late
    rw [sent, Mem.sent_send_of_ne other]
    exact unsent

theorem unread_left (rule : Rule setup event mem acting mem' left) (fit : Fit ⟨mem, ↑acting + rest⟩)
    (stored : mem.stored key = none) : ∀ next ∈ left, next.lateJoin ≠ some key := by
  cases rule with
  | joinRead there =>
    refine List.forall_mem_singleton.mpr fun is => ?_
    obtain rfl := Option.some.inj is
    have bucket := fit.procs _ mem_acting
    exact absurd (stored.symm.trans ((Mem.stored_of_bucket bucket).trans there)) nofun
  | receiveUnlock =>
    refine List.forall_mem_singleton.mpr ?_
    split <;> exact nofun
  | cancel | turnAway | duplicate | disconnected | listenNoBucket | removeUnlock | queryUnlock
  | internalUnlock => exact List.forall_mem_nil _
  | _ => exact List.forall_mem_singleton.mpr nofun

theorem unposted_rule (rule : Rule setup event mem acting mem' left)
    (known : Known setup ⟨mem, ↑acting + rest⟩)
    (deletes : ∀ entry ∈ writes key mem acting left, entry.2 = .delete)
    (unposted : Unposted key ⟨mem, ↑acting + rest⟩) : Unposted key ⟨mem', ↑left + rest⟩ where
  stored := by
    rcases rule_written rule known.tables.separate key with ⟨_, same | gone⟩ | ⟨entry, is, stored⟩
    · exact same.trans unposted.stored
    · show (mem'.buckets key.bucket).bind _ = none
      rw [gone]
      rfl
    · rw [is] at deletes
      refine stored.trans ?_
      rw [deletes entry List.mem_cons_self]
      rfl
  silent := by
    refine forall_mem_fire unposted.silent (fun silent next member is => ?_) fun _ _ silent => silent
    rcases rule_announcing rule next member is with ⟨proc, there, announcing, _⟩ | ⟨value, posts⟩
    · exact silent proc there announcing
    · exact absurd (deletes _ posts) nofun
  unread := forall_mem_fire unposted.unread (fun _ => unread_left rule known.fit unposted.stored)
    fun _ _ unread => unread
  unsent := by
    intro next member listens
    rcases mem_fire.mp member with member | member
    · rcases rule_origin rule next member with ⟨fresh, sent⟩ | ⟨proc, there, same, is⟩
      · show mem'.sent next.id = []
        rw [sent, fresh]
        exact known.fit.unsent _ le_rfl
      · rw [← same]
        exact unposted.sent rule known (mem_of_acting there) (is.trans listens)
    · exact unposted.sent rule known (mem_of_rest member) listens

abbrev Logging (setup : Setup Value) (key : Key) : Rules (Mem Value × Log Value) (Proc Value) (Event Value) :=
  Noted (Rule setup) (writes key)

abbrev Undotting (config : Logged Value) (_ : Event Value) : Prop := config.mem.1.Plain

/-- A monitor that `NewMonitorServer` has made, with the record of what it has posted. -/
abbrev opened (setup : Setup Value) (key : Key) : Logged Value :=
  (initial setup).noted (firstWrites setup key)

theorem known_forget {config : Logged Value}
    (reach : Reach (Logging setup key) Undotting (opened setup key) config) :
    Known setup config.forget :=
  known (@Reach.forget _ _ _ _ (Rule setup) (writes key) (fun config _ => config.mem.Plain) _ _ reach)

theorem stored_initial (other : key ≠ setup.metaKey) : (initial setup).mem.stored key = none := by
  obtain ⟨bucket, name⟩ := key
  show ((initial setup).mem.buckets bucket).bind _ = none
  by_cases first : bucket = metaBucket
  · subst first
    have ne : name ≠ setup.typeUrl := fun same => other (congrArg (Key.mk metaBucket) same)
    simp [initial, Config.ofList, Function.update_of_ne ne]
  · by_cases second : bucket = setup.uuid
    · subst second
      simp [initial, Config.ofList, Function.update_of_ne first]
    · simp [initial, Config.ofList, Function.update_of_ne first, Function.update_of_ne second]

theorem unposted {config : Logged Value}
    (reach : Reach (Logging setup key) Undotting (opened setup key) config)
    (deletes : ∀ entry ∈ config.mem.2, entry.2 = .delete) : Unposted key config.forget := by
  induction reach with
  | start =>
    have other : key ≠ setup.metaKey := by
      rintro rfl
      have first : ∀ entry ∈ firstWrites setup setup.metaKey, entry.2 = .delete := deletes
      rw [firstWrites, if_pos rfl] at first
      exact absurd (first _ List.mem_cons_self) nofun
    exact ⟨stored_initial other, fun _ member => absurd member (Multiset.notMem_zero _),
      fun _ member => absurd member (Multiset.notMem_zero _),
      fun _ member => absurd member (Multiset.notMem_zero _)⟩
  | step reach ok step ih =>
    have known := known_forget reach
    obtain ⟨rest, rule, log⟩ := step
    rw [log, List.forall_mem_append] at deletes
    exact unposted_rule rule known deletes.2 (ih deletes.1)

/-! ### From the first post on -/

/-- The handler will send this value to this listener. -/
def Proc.Delivers (id : Nat) (key : Key) (value : Value) (proc : Proc Value) : Prop :=
  match proc.phase with
  | .notifying other announced _ => other = key ∧ announced = value
  | .sending other announced todo _ => other = key ∧ announced = value ∧ id ∈ todo
  | _ => False

/-- **The account of a listener**: it has been sent the changes, or lacks the last one and is about to be
sent it. -/
def Account (key : Key) (id : Nat) (config : Logged Value) : Prop :=
  (config.mem.1.sent id).reverse = config.mem.2.values ∧
      (∀ proc ∈ config.procs, ∀ value, ¬ proc.Delivers id key value) ∨
    ∃ value, (∃ proc ∈ config.procs, proc.Delivers id key value) ∧
      (config.mem.1.sent id).reverse ++ [value] = config.mem.2.values

/-- **The invariant** from the first post on. -/
structure Served (key : Key) (id store : Nat) (config : Logged Value) : Prop where
  listener : ∃ proc ∈ config.procs, proc.Attends id key store
  stored : config.mem.1.stored key = config.mem.2.current
  authors : ∀ proc ∈ config.procs, proc.announcing = some key →
    ∃ entry ∈ config.mem.2, entry.1 = some proc.id
  account : Account key id config

theorem Proc.Delivers.announcing (delivers : proc.Delivers id key value) :
    proc.announcing = some key := by
  obtain ⟨call, handler, store, phase⟩ := proc
  cases phase with
  | notifying => exact congrArg some delivers.1
  | sending => exact congrArg some delivers.1
  | _ => exact delivers.elim

theorem Account.received {config : Logged Value} (account : Account key id config) :
    Received key id config := by
  rcases account with ⟨all, _⟩ | ⟨value, ⟨proc, member, delivers⟩, lacks⟩
  · exact ⟨all ▸ List.prefix_rfl, fun _ => all⟩
  · refine ⟨lacks ▸ List.prefix_append _ _, fun silent => ?_⟩
    exact absurd delivers.announcing (silent proc member)

theorem Account.keep (account : Account key id ⟨(mem, log), ↑acting + rest⟩)
    (sent : mem'.sent id = mem.sent id) (values : log'.values = log.values)
    (delivers : ∀ value, (∃ proc ∈ acting, proc.Delivers id key value) ↔
      ∃ proc ∈ left, proc.Delivers id key value) :
    Account key id ⟨(mem', log'), ↑left + rest⟩ := by
  unfold Account
  simp only [sent, values]
  refine account.imp (fun ⟨all, nobody⟩ => ⟨all, ?_⟩) fun ⟨value, somebody, lacks⟩ => ⟨value, ?_, lacks⟩
  · refine forall_mem_fire nobody (fun before next member value is => ?_) fun _ _ nothing => nothing
    obtain ⟨proc, there, was⟩ := (delivers value).mpr ⟨next, member, is⟩
    exact before proc there value was
  · exact exists_mem_fire somebody (fun proc member is => (delivers value).mp ⟨proc, member, is⟩)
      fun _ _ is => is

theorem Account.idle (account : Account key id ⟨(mem, log), ↑acting + rest⟩)
    (sent : mem'.sent id = mem.sent id) (values : log'.values = log.values)
    (before : ∀ proc ∈ acting, proc.announcing ≠ some key)
    (after : ∀ proc ∈ left, proc.announcing ≠ some key) :
    Account key id ⟨(mem', log'), ↑left + rest⟩ :=
  account.keep sent values fun _ =>
    ⟨fun ⟨proc, member, is⟩ => absurd is.announcing (before proc member),
      fun ⟨proc, member, is⟩ => absurd is.announcing (after proc member)⟩

theorem Account.move (account : Account key id ⟨(mem, log), ↑[proc] + rest⟩)
    (sent : mem'.sent id = mem.sent id) (values : log'.values = log.values)
    (delivers : ∀ value, proc.Delivers id key value ↔ next.Delivers id key value) :
    Account key id ⟨(mem', log'), ↑[next] + rest⟩ := by
  refine account.keep sent values fun value => ?_
  simp only [List.mem_singleton, exists_eq_left]
  exact delivers value

theorem Account.silent (account : Account key id ⟨(mem, log), ↑acting + rest⟩)
    (sent : mem'.sent id = mem.sent id) (posts : writes key mem acting left = [])
    (before : (acting.all fun proc => proc.announcing.isNone) = true)
    (after : (left.all fun proc => proc.announcing.isNone) = true) :
    Account key id ⟨(mem', log ++ writes key mem acting left), ↑left + rest⟩ := by
  rw [posts, List.append_nil]
  refine account.idle sent rfl (fun proc member => ?_) fun proc member => ?_
  · rw [eq_none_of_all before proc member]
    exact nofun
  · rw [eq_none_of_all after proc member]
    exact nofun

theorem Account.pass {call own receiver : Nat} {shown : Key} {todo : List Nat}
    (account : Account key id
      ⟨(mem, log), ↑[Proc.mk call handler own (.sending shown value (receiver :: todo) after)] + rest⟩)
    (other : id ≠ receiver) (sent : mem'.sent id = mem.sent id) (values : log'.values = log.values) :
    Account key id
      ⟨(mem', log'), ↑[Proc.mk call handler own (.sending shown value todo after)] + rest⟩ := by
  refine account.move sent values fun _ => ⟨fun ⟨is, shows, visited⟩ => ?_, fun ⟨is, shows, visited⟩ => ?_⟩
  · exact ⟨is, shows, (List.mem_cons.mp visited).resolve_left other⟩
  · exact ⟨is, shows, List.mem_cons_of_mem _ visited⟩

theorem Served.author {config : Logged Value} (served : Served key id store config)
    (single : ∀ entry ∈ config.mem.2, entry.1 = some writer) (member : proc ∈ config.procs)
    (announcing : proc.announcing = some key) : proc.id = writer := by
  obtain ⟨entry, there, author⟩ := served.authors proc member announcing
  exact Option.some.inj (author.symm.trans (single entry there))

/-- While the one writer is at work, the account is about what it announces. -/
theorem Served.alone (served : Served key id store ⟨(mem, log), ↑[proc] + rest⟩)
    (numbered : Numbered ⟨mem, ↑[proc] + rest⟩) (single : ∀ entry ∈ log, entry.1 = some writer)
    (is : proc.id = writer) :
    (∀ other ∈ rest, other.announcing ≠ some key) ∧
      ((mem.sent id).reverse = log.values ∧ (∀ value, ¬ proc.Delivers id key value) ∨
        ∃ value, proc.Delivers id key value ∧ (mem.sent id).reverse ++ [value] = log.values) := by
  have alone : ∀ other ∈ rest, other.announcing ≠ some key := fun other member announcing =>
    numbered.other_id member ((served.author single (mem_of_rest member) announcing).trans is.symm)
  refine ⟨alone, served.account.imp (fun ⟨all, nobody⟩ => ⟨all, nobody _ mem_acting⟩) ?_⟩
  rintro ⟨value, ⟨other, member, delivers⟩, lacks⟩
  rcases mem_fire.mp member with member | member
  · obtain rfl := List.mem_singleton.mp member
    exact ⟨value, delivers, lacks⟩
  · exact absurd delivers.announcing (alone other member)

theorem Proc.Attends.entry (attends : proc.Attends id key store) :
    proc.entry = some (id, key) ∧ proc.phase.lateJoined = true := by
  obtain ⟨call, handler, own, phase⟩ := proc
  obtain ⟨rfl, rfl, rfl, waits⟩ := attends
  cases phase with
  | joined | listening => exact ⟨rfl, rfl⟩
  | _ => exact absurd waits Bool.false_ne_true

theorem account_rule (rule : Rule setup event mem acting mem' left)
    (known : Known setup ⟨mem, ↑acting + rest⟩)
    (single : ∀ entry ∈ log ++ writes key mem acting left, entry.1 = some writer)
    (alive : mem'.done id = false) (served : Served key id store ⟨(mem, log), ↑acting + rest⟩) :
    Account key id ⟨(mem', log ++ writes key mem acting left), ↑left + rest⟩ := by
  obtain ⟨before, now⟩ := List.forall_mem_append.mp single
  obtain ⟨listener, inside, attends⟩ := served.listener
  have account := served.account
  have nothing : Log.values (log ++ []) = log.values := congrArg Log.values (List.append_nil log)
  cases rule with
  | postNoBucket absent => exact account.silent rfl (writes_none _ (Proc.write_of_absent absent)) rfl rfl
  | postUnknown => exact account.silent rfl (writes_none _ Proc.write_of_unknown) rfl rfl
  | @postNil _ _ _ _ _ posted _ there =>
    by_cases same : posted = key
    · subst same
      rw [writes_one _ (Proc.write_of_bucket there)]
      refine account.idle rfl ?_ (List.forall_mem_singleton.mpr nofun) (List.forall_mem_singleton.mpr nofun)
      exact (Log.values_append _ _).trans (List.append_nil _)
    · exact account.silent rfl (writes_none _ (Proc.write_of_ne same)) rfl rfl
  | @postSame _ _ _ _ _ posted value _ there keeps =>
    by_cases same : posted = key
    · subst same
      rw [writes_one _ (Proc.write_of_bucket there)]
      refine account.idle rfl ?_ (List.forall_mem_singleton.mpr nofun) (List.forall_mem_singleton.mpr nofun)
      have has : log.current = some value := served.stored.symm.trans (Mem.stored_of_same there keeps)
      rw [Log.values_append, changes, if_pos has]
      exact List.append_nil _
    · exact account.silent rfl (writes_none _ (Proc.write_of_ne same)) rfl rfl
  | @postSwap _ _ _ _ _ posted value _ there swaps =>
    by_cases same : posted = key
    · subst same
      rw [writes_one _ (Proc.write_of_bucket there)] at now ⊢
      have new : log.current ≠ some value := fun has =>
        Mem.stored_of_swap there swaps (served.stored.trans has)
      obtain ⟨-, ⟨all, _⟩ | ⟨_, delivers, _⟩⟩ :=
        served.alone known.numbered before (Option.some.inj (now _ List.mem_cons_self))
      · refine .inr ⟨value, ⟨_, mem_acting, rfl, rfl⟩, ?_⟩
        rw [Log.values_append, changes, if_neg new]
        exact congrArg (· ++ [value]) all
      · exact delivers.elim
    · rw [writes_none _ (Proc.write_of_ne same), List.append_nil]
      exact account.idle rfl rfl (List.forall_mem_singleton.mpr nofun)
        (List.forall_mem_singleton.mpr fun is => same (Option.some.inj is))
  | @notify _ _ _ _ shown _ _ todo _ visits =>
    refine account.move rfl nothing fun _ =>
      ⟨fun ⟨is, shows⟩ => ⟨is, shows, visits.mem_iff.mpr ?_⟩, fun ⟨is, shows, _⟩ => ⟨is, shows⟩⟩
    subst is
    exact Mem.mem_receivers.mpr ⟨_, (known.registered _).mpr ⟨listener, inside, attends.entry.1⟩, rfl⟩
  | @send _ _ _ receiver _ shown value _ todo =>
    by_cases same : id = receiver
    · subst same
      obtain ⟨rfl, listens, _⟩ := attends
      have own := known.sends_own mem_acting rfl inside listens
      obtain rfl : shown = key := Option.some.inj (own.resolve_right nofun)
      have once := (List.nodup_cons.mp (known.fit.procs _ mem_acting).2.1).1
      obtain ⟨alone, ⟨_, nobody⟩ | ⟨other, delivers, lacks⟩⟩ :=
        served.alone known.numbered before (served.author before mem_acting rfl)
      · exact absurd ⟨rfl, rfl, List.mem_cons_self⟩ (nobody value)
      · refine .inl ⟨?_, fun proc member _ delivers => ?_⟩
        · obtain ⟨_, rfl, _⟩ := delivers
          show ((mem.send listener.id value).sent listener.id).reverse = Log.values (log ++ [])
          rw [Mem.sent_send_self, List.reverse_cons, nothing]
          exact lacks
        · rcases mem_fire.mp member with member | member
          · obtain rfl := List.mem_singleton.mp member
            exact once delivers.2.2
          · exact alone proc member delivers.announcing
    · exact account.pass same (Mem.sent_send_of_ne same value) nothing
  | @sendFails _ _ _ receiver _ _ _ _ _ ended =>
    have other : id ≠ receiver := by
      rintro rfl
      exact absurd (ended.symm.trans alive) nofun
    exact account.pass other rfl nothing
  | notified =>
    refine account.move rfl nothing fun _ => ⟨fun is => ?_, False.elim⟩
    exact absurd is.2.2 List.not_mem_nil
  | @joinSend _ call _ _ value =>
    have other : id ≠ call := by
      rintro rfl
      obtain rfl := known.numbered.unique mem_acting inside attends.1
      exact absurd attends.2.2.2 Bool.false_ne_true
    exact account.silent (Mem.sent_send_of_ne other value) rfl rfl rfl
  | receiveUnlock =>
    split
    · exact account.silent rfl rfl rfl rfl
    · exact account.silent rfl rfl rfl rfl
  | _ => exact account.silent rfl rfl rfl rfl

theorem listener_rule (rule : Rule setup event mem acting mem' left) (alive : mem'.done id = false)
    (opened : mem'.closed store = false)
    (listener : ∃ proc ∈ (↑acting + rest : Multiset (Proc Value)), proc.Attends id key store) :
    ∃ proc ∈ (↑left + rest : Multiset (Proc Value)), proc.Attends id key store := by
  refine exists_mem_fire listener (fun proc member attends => ?_) fun _ _ attends => attends
  cases rule with
  | joinUnlock =>
    obtain rfl := List.mem_singleton.mp member
    exact ⟨_, List.mem_cons_self, attends.1, attends.2.1, attends.2.2.1, rfl⟩
  | listenDone ended =>
    obtain rfl := List.mem_singleton.mp member
    obtain ⟨rfl, _⟩ := attends
    exact absurd (ended.symm.trans alive) nofun
  | listenClosed ended =>
    obtain rfl := List.mem_singleton.mp member
    obtain ⟨_, _, rfl, _⟩ := attends
    exact absurd (ended.symm.trans opened) nofun
  | call | cancel => exact absurd member List.not_mem_nil
  | _ =>
    obtain rfl := List.mem_singleton.mp member
    exact absurd attends.2.2.2 Bool.false_ne_true

theorem rule_ended (rule : Rule setup event mem acting mem' left) :
    (∀ id, mem'.done id = false → mem.done id = false) ∧
      ∀ store, mem'.closed store = false → mem.closed store = false := by
  have update : ∀ (map : Nat → Bool) (key other : Nat),
      Function.update map key true other = false → map other = false := by
    intro map key other is
    by_cases same : other = key
    · subst same
      rw [Function.update_self] at is
      exact absurd is nofun
    · rwa [Function.update_of_ne same] at is
  cases rule with
  | cancel => exact ⟨update _ _, fun _ => id⟩
  | unregister => exact ⟨fun _ => id, update _ _⟩
  | _ => exact ⟨fun _ => id, fun _ => id⟩

theorem served_rule (rule : Rule setup event mem acting mem' left)
    (known : Known setup ⟨mem, ↑acting + rest⟩) (next : Known setup ⟨mem', ↑left + rest⟩)
    (single : ∀ entry ∈ log ++ writes key mem acting left, entry.1 = some writer)
    (alive : mem'.done id = false) (opened : mem'.closed store = false)
    (served : Served key id store ⟨(mem, log), ↑acting + rest⟩) :
    Served key id store ⟨(mem', log ++ writes key mem acting left), ↑left + rest⟩ := by
  have listener := listener_rule rule alive opened served.listener
  refine ⟨listener, ?_, ?_, account_rule rule known single alive served⟩
  · rcases rule_written rule known.tables.separate key with ⟨is, same | gone⟩ | ⟨entry, is, stored⟩
    · simp only [is, List.append_nil]
      exact same.trans served.stored
    · -- The bucket of a listener that waits is there.
      obtain ⟨proc, member, attends⟩ := listener
      rcases next.fit.joined proc member key attends.2.1 attends.entry.2 with closed | bucket
      · rw [attends.2.2.1] at closed
        exact absurd (closed.symm.trans opened) nofun
      · exact absurd (gone.symm.trans bucket) nofun
    · simp only [is, Log.current_append]
      exact stored
  · refine forall_mem_fire served.authors (fun authors next member announcing => ?_)
      fun _ _ authors announcing => ?_
    · rcases rule_announcing rule next member announcing with ⟨proc, there, was, same⟩ | ⟨value, posts⟩
      · obtain ⟨entry, known, author⟩ := authors proc there was
        exact ⟨entry, List.mem_append_left _ known, author.trans (congrArg some same)⟩
      · exact ⟨_, List.mem_append_right _ posts, rfl⟩
    · obtain ⟨entry, known, author⟩ := authors announcing
      exact ⟨entry, List.mem_append_left _ known, author⟩

theorem changes_deletes {log : List (Write Value)} (deletes : ∀ write ∈ log, write = .delete) :
    changes none log = [] ∧ current none log = none := by
  induction log with
  | nil => exact ⟨rfl, rfl⟩
  | cons first later ih =>
    obtain ⟨rfl, others⟩ := List.forall_mem_cons.mp deletes
    exact ih others

/-- A listener that is there before the first post. -/
theorem Unposted.served {config : Logged Value} (unposted : Unposted key config.forget)
    (deletes : ∀ entry ∈ config.mem.2, entry.2 = .delete)
    (listener : ∃ proc ∈ config.procs, proc.Attends id key store) : Served key id store config := by
  have nothing := changes_deletes (List.forall_mem_map.mpr deletes)
  refine ⟨listener, unposted.stored.trans nothing.2.symm, fun proc member announcing => ?_, .inl ⟨?_, ?_⟩⟩
  · exact absurd announcing (unposted.silent proc member)
  · obtain ⟨proc, member, rfl, listens, _⟩ := listener
    have unsent : config.mem.1.sent proc.id = [] := unposted.unsent proc member listens
    rw [unsent]
    exact nothing.1.symm
  · exact fun proc member value delivers => unposted.silent proc member delivers.announcing

theorem served {joined config : Logged Value}
    (before : Reach (Logging setup key) Undotting (opened setup key) joined)
    (after : Reach (Logging setup key) Undotting joined config) (served : Served key id store joined)
    (single : ∀ entry ∈ config.mem.2, entry.1 = some writer)
    (alive : config.mem.1.done id = false) (unclosed : config.mem.1.closed store = false) :
    Served key id store config := by
  induction after with
  | start => exact served
  | step reach ok step ih =>
    have here := known_forget (before.trans reach)
    have there := known_forget (before.trans (reach.step ok step))
    obtain ⟨rest, rule, log⟩ := step
    rw [log] at single
    obtain ⟨done, closed⟩ := rule_ended rule
    have served := ih (List.forall_mem_append.mp single).1 (done id alive) (closed store unclosed)
    have next := served_rule rule here there single alive unclosed served
    rwa [← log] at next

/-- **A listener is sent the changes of its key**, in every run in which no bucket name has a dot. The
listener has joined before the key is posted to, and is still connected to its bucket; one call has made
all the posts and deletions of the key. -/
theorem sent_eq_changes (setup : Setup Value) (key : Key) (id store writer : Nat)
    (joined config : Logged Value)
    (before : Reach (Logging setup key) Undotting (opened setup key) joined)
    (listener : ∃ proc ∈ joined.procs, proc.Attends id key store)
    (deletes : ∀ entry ∈ joined.mem.2, entry.2 = .delete)
    (after : Reach (Logging setup key) Undotting joined config)
    (single : ∀ entry ∈ config.mem.2, entry.1 = some writer)
    (alive : config.mem.1.done id = false) (unclosed : config.mem.1.closed store = false) :
    Received key id config := by
  have first := (unposted before deletes).served deletes listener
  exact (served before after first single alive unclosed).account.received

/-! ### A run -/

def steady : Setup Nat := ⟨bytes "m", bytes "t", fun _ => 0⟩

def reported : Key := ⟨provider.uuid, bytes "k"⟩

def pair : List (Proc Nat) := [⟨0, .stream provider, 2, .receiving⟩, ⟨1, .listen reported, 2, .listening⟩]

structure Ready (mem : Mem Nat) (stored : Option Nat) : Prop where
  plain : mem.Plain
  provider : mem.providerMutex.Free
  listener : mem.listenerMutex.Free
  listeners : mem.listeners = [(1, reported)]
  bucket : mem.buckets reported.bucket = some 2
  value : mem.stores 2 reported.name = stored
  alive : mem.done 1 = false
  unclosed : mem.closed 2 = false

theorem joined_run : ∃ mem, Ready mem none ∧
    Reach (Logging steady reported) Undotting (opened steady reported)
      (.ofList (mem, []) pair.reverse) := by
  have begins : (initial steady).mem.Plain := by
    intro name store is
    by_cases first : name = metaBucket
    · subst first
      decide +kernel
    by_cases second : name = steady.uuid
    · subst second
      decide +kernel
    · simp [initial, Config.ofList, Function.update_of_ne first, Function.update_of_ne second] at is
  have plain : ({ (initial steady).mem with
      buckets := Function.update (initial steady).mem.buckets provider.uuid (some 2) } : Mem Nat).Plain := by
    intro name store is
    by_cases same : name = provider.uuid
    · subst same
      decide +kernel
    · exact begins name store ((Function.update_of_ne same _ _).symm.trans is)
  have run : Reach (Logging steady reported) Undotting (opened steady reported)
      (.ofList ((initial steady).mem, []) []) := .start
  have run := run.nextSilent [] [] (.call (.stream provider)) rfl begins (.refl _)
  have run := run.nextSilent [_] [] (.connect ⟨rfl, rfl⟩) rfl begins (.refl _)
  have run := run.nextSilent [_] [] (.register (by decide +kernel)) rfl begins (.refl _)
  have run := run.nextSilent [_] []
    (.postSame rfl rfl) rfl plain (.refl _)
  have run := run.nextSilent [_] [] .connected rfl plain (.refl _)
  have run := run.nextSilent [] [_] (.call (.listen reported)) rfl plain (.refl _)
  have run := run.nextSilent [_] [_] (.listenLock rfl) rfl plain (.refl _)
  have run := run.nextSilent [_] [_] (.listenBucket rfl) rfl plain (.refl _)
  have run := run.nextSilent [_] [_] (.insertLock ⟨rfl, rfl⟩) rfl plain (.refl _)
  have run := run.nextSilent [_] [_] .insert rfl plain (.refl _)
  have run := run.nextSilent [_] [_] (.joinNothing rfl) rfl plain (.refl _)
  have run := run.nextSilent [_] [_] .joinUnlock rfl plain (.refl _)
  refine ⟨_, ?_, run⟩
  exact ⟨plain, ⟨rfl, rfl⟩, ⟨rfl, rfl⟩, rfl, rfl, rfl, rfl, rfl⟩

theorem reported_run {mem : Mem Nat} {stored : Option Nat} {alive : List (Proc Nat)}
    (ready : Ready mem stored) (order : alive.Perm pair) (log : Log Nat) (value : Nat) :
    ∃ mem', Ready mem' (some value) ∧ Reach (Logging steady reported) Undotting
      (.ofList (mem, log) alive) (.ofList (mem', log ++ [(some 0, .post value)]) pair) := by
  obtain ⟨plain, provider, listener, listeners, bucket, -, connected, unclosed⟩ := ready
  have wrote : ∀ left, writes reported { mem with providerMutex := mem.providerMutex.rlock 0 provider.1 }
      [⟨0, .stream Monitor.provider, 2, .posting ⟨reported, .message value⟩ .received⟩] left =
        [(some 0, .post value)] := by
    simp [writes, Proc.write, bucket]
  have free : (mem.providerMutex.rlock 0 provider.1).runlock 0 |>.Free :=
    ⟨provider.1, (Multiset.erase_cons_head 0 _).trans provider.2⟩
  have receivers : [1].Perm (mem.receivers reported) := by
    simp [Mem.receivers, listeners]
  have has := InMemoryStore.cas_apply_self (mem.stores 2) reported.name value
  have run := @Reach.start _ _ _ (Logging steady reported) Undotting (.ofList (mem, log) alive)
  have run := run.nextSilent [_] [_] (.receive ⟨reported, .message value⟩) rfl plain order
  have run := run.nextSilent [_] [_] (.receiveLock provider.1) rfl plain (.refl _)
  cases swaps : (InMemoryStore.cas (mem.stores 2) reported.name value).2 with
  | false =>
    have run := run.nextNoted [_] [_] (.postSame bucket swaps) plain (.refl _)
    rw [wrote] at run
    have run := run.nextSilent [_] [_] .receiveUnlock rfl plain (.refl _)
    rw [InMemoryStore.cas_fst_of_not_swapped swaps] at has
    refine ⟨_, ?_, run⟩
    exact ⟨plain, free, listener, listeners, bucket, has, connected, unclosed⟩
  | true =>
    have run := run.nextNoted [_] [_] (.postSwap bucket swaps) plain (.refl _)
    rw [wrote] at run
    have run := run.nextSilent [_] [_] (.notify (by exact listener.1) (by exact receivers)) rfl plain
      (.refl _)
    have run := run.nextSilent [_] [_] .send rfl plain (.refl _)
    have run := run.nextSilent [_] [_] .notified rfl plain (.refl _)
    have run := run.nextSilent [_] [_] .receiveUnlock rfl plain (.refl _)
    have stored : Function.update mem.stores 2 (InMemoryStore.cas (mem.stores 2) reported.name value).1 2
        reported.name = some value := by
      rw [Function.update_self]
      exact has
    have unlocked : (mem.listenerMutex.rlock 0 listener.1).runlock 0 |>.Free :=
      ⟨listener.1, (Multiset.erase_cons_head 0 _).trans listener.2⟩
    refine ⟨_, ?_, run⟩
    exact ⟨plain, free, unlocked, listeners, bucket, stored, connected, unclosed⟩

/-- **A value that is posted twice**, and another one: the listener is sent both once. -/
theorem sent_posted_twice : ∃ joined config,
    Reach (Logging steady reported) Undotting (opened steady reported) joined ∧
      (∃ proc ∈ joined.procs, proc.Attends 1 reported 2) ∧ joined.mem.2 = [] ∧
      Reach (Logging steady reported) Undotting joined config ∧
      config.mem.2 = [(some 0, .post 1), (some 0, .post 1), (some 0, .post 2)] ∧
      (config.mem.1.sent 1).reverse = [1, 2] := by
  obtain ⟨mem, ready, before⟩ := joined_run
  obtain ⟨mem₁, ready₁, first⟩ := reported_run ready (List.reverse_perm pair) [] 1
  obtain ⟨mem₂, ready₂, second⟩ := reported_run ready₁ (.refl _) _ 1
  obtain ⟨mem₃, ready₃, third⟩ := reported_run ready₂ (.refl _) _ 2
  have after := (first.trans second).trans third
  have listener : ∃ proc ∈ pair.reverse, proc.Attends 1 reported 2 :=
    ⟨_, List.mem_cons_self, rfl, rfl, rfl, rfl⟩
  have single : ∀ entry ∈ [(some 0, Write.post 1), (some 0, .post 1), (some 0, .post 2)],
      entry.1 = some 0 := by decide
  have received := sent_eq_changes steady reported 1 2 0 _ _ before listener (List.forall_mem_nil _) after
    single ready₃.alive ready₃.unclosed
  refine ⟨_, _, before, listener, rfl, after, rfl, received.2 ?_⟩
  exact (by decide : ∀ proc ∈ pair, proc.announcing ≠ some reported)

end Kubecc.Monitor
