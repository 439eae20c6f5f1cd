/-
**The monitor's server.**

`MonitorServer` of `pkg/monitor/server.go` and `InMemoryStore` of `pkg/monitor/store.go`: the handlers
`Stream`, `Listen`, `Whois`, `GetMetric`, `GetBuckets` and `GetKeys`, and the monitor's own posts, as
processes over the buckets, the provider table and the listeners. A step is what a handler does between
two operations on a mutex, or one operation on a store, or one send; so any two handlers interleave at
these points.

* `Rule` — the steps, handler by handler.
* `Proc.provider`, `Proc.listener` — what access a handler has to `providerMutex` and `listenerMutex`
  where it stands; `rule_change` — every step but one changes the mutexes as it changes this.
* `Guarded` holds of both in every run (`guarded`); a handler with the write lock is alone (`writes_alone`).
* `Released` — the property: a handler that has returned holds neither mutex. A `Stream` whose UUID
  already has a bucket returns with `providerMutex` locked (`duplicate_keeps_providerMutex`); with no
  such connection the property holds in every run (`released_of_unconnected`).
-/

import Kubecc.Lib.RWMutex
import Kubecc.Go.Strings

set_option linter.unusedSectionVars false

namespace Kubecc.Monitor

open Kubecc.Lib Kubecc.Go

/-! ### Keys, metrics, stores -/

structure Key where
  bucket : GoString
  name : GoString
deriving DecidableEq

/-- `Key.Canonical()`. -/
def Key.canonical (key : Key) : GoString := key.bucket ++ bytes "." ++ key.name

/-- `ParseKey`, which splits at the first dot; without one it returns `ErrInvalidFormat`. -/
def parseKey : GoString → Option Key
  | [] => none
  | b :: rest =>
    if b = byte '.' then some ⟨[], rest⟩
    else (parseKey rest).map fun key => ⟨b :: key.bucket, key.name⟩

/-- **`ParseKey` is the inverse of `Canonical`** on the keys whose bucket has no dot, and returns no other. -/
theorem parseKey_eq_some_iff (canonical : GoString) (key : Key) :
    parseKey canonical = some key ↔ key.canonical = canonical ∧ byte '.' ∉ key.bucket := by
  have joined : ∀ bucket name, (⟨bucket, name⟩ : Key).canonical = bucket ++ byte '.' :: name :=
    fun _ _ => List.append_assoc _ _ _
  induction canonical generalizing key with
  | nil => simp [parseKey, joined]
  | cons b rest ih =>
    obtain ⟨bucket, name⟩ := key
    rw [parseKey, joined]
    split
    · cases bucket <;> grind
    · simp only [Option.map_eq_some_iff, ih]
      cases bucket with
      | nil => grind
      | cons c bucket =>
        rw [List.cons_append, List.cons.injEq, List.mem_cons]
        constructor
        · rintro ⟨⟨_, _⟩, ⟨rfl, undotted⟩, ⟨⟩⟩
          grind
        · rintro ⟨⟨rfl, rfl⟩, undotted⟩
          exact ⟨⟨bucket, name⟩, ⟨joined _ _, fun member => undotted (.inr member)⟩, rfl⟩

def metaBucket : GoString := bytes "meta"

/-- The value of a metric: absent, of a type that `UnmarshalNew` does not know, or a message. -/
inductive Payload (Value : Type)
  | nil
  | unknown
  | message (value : Value)
deriving DecidableEq

structure Metric (Value : Type) where
  key : Key
  value : Payload Value
deriving DecidableEq

structure ProviderInfo where
  uuid : GoString
  component : Int
  address : GoString
deriving DecidableEq

abbrev Providers := GoString → Option ProviderInfo

abbrev Data (Value : Type) := GoString → Option Value

namespace InMemoryStore

variable {Value : Type} [DecidableEq Value]

def delete (data : Data Value) (key : GoString) : Data Value := Function.update data key none

/-- `InMemoryStore.CAS`: the new data, and whether the value was stored. -/
def cas (data : Data Value) (key : GoString) (value : Value) : Data Value × Bool :=
  match data key with
  | none => (Function.update data key (some value), true)
  | some stored =>
    if stored ≠ value then (Function.update data key (some value), true) else (data, false)

theorem cas_apply_self (data : Data Value) (key : GoString) (value : Value) :
    (cas data key value).1 key = some value := by
  unfold cas
  split
  · exact Function.update_self key _ data
  · split
    · exact Function.update_self key _ data
    · rename_i stored there same
      exact there.trans (congrArg some (not_not.mp same))

theorem cas_apply_of_ne {data : Data Value} {key other : GoString} (ne : other ≠ key)
    (value : Value) : (cas data key value).1 other = data other := by
  unfold cas
  split
  · exact Function.update_of_ne ne _ data
  · split
    · exact Function.update_of_ne ne _ data
    · rfl

theorem cas_fst_of_not_swapped {data : Data Value} {key : GoString} {value : Value}
    (same : (cas data key value).2 = false) : (cas data key value).1 = data := by
  unfold cas at same ⊢
  split
  · simp_all
  · split
    · simp_all
    · rfl

end InMemoryStore

/-! ### Handlers -/

inductive Code
  | invalidArgument
  | alreadyExists
  | failedPrecondition
  | canceled
  | aborted
  | notFound
  | unmarshal
deriving DecidableEq

/-- The handlers that only read. -/
inductive Query
  | whois (uuid : GoString)
  | getMetric (key : Key)
  | getBuckets
  | getKeys (bucket : GoString)
deriving DecidableEq

/-- What one of the monitor's own posts counts first, with the mutex of it locked for reading. -/
inductive Counts
  | nothing
  | listeners
  | providers
deriving DecidableEq

/-- A call: of `Stream` by a provider, of `Listen`, of one of the queries, or of `postInternal`,
`postTotals`, `postListeners`, `postProviders`. -/
inductive Handler (Value : Type)
  | stream (info : ProviderInfo)
  | listen (key : Key)
  | query (query : Query)
  | internal (counts : Counts) (typeUrl : GoString) (value : Value)
deriving DecidableEq

/-- What `post` returns to: `Stream` when it has registered the provider, in its receive loop, and when
it has removed the provider; `postInternal`. -/
inductive After
  | connected
  | received
  | disconnected (err : Option Code)
  | internal
deriving DecidableEq

inductive Phase (Value : Type)
  | called
  -- postListeners, postProviders
  | countingListeners
  | countingProviders
  | counted
  -- Stream
  | connecting
  | receiving
  | received (metric : Metric Value)
  | leaving (err : Option Code)
  | disconnecting (err : Option Code)
  -- post and notify, with the listeners still to be sent to
  | posting (metric : Metric Value) (after : After)
  | notifying (key : Key) (value : Value) (after : After)
  | sending (key : Key) (value : Value) (todo : List Nat) (after : After)
  | posted (err : Option Code) (after : After)
  -- Listen
  | checking
  | inserting
  | insertLocked
  | joining
  | read (value : Value)
  | joined
  | listening
  | removing (err : Code)
  | removeLocked (err : Code)
  | removeBoth (err : Code)
  | removed (err : Code)
  -- Whois, GetMetric, GetBuckets, GetKeys
  | reading
deriving DecidableEq

/-- A call in progress: its number, the handler, the store that a `Stream` has made or a `Listen` has
found, and where it stands. -/
structure Proc (Value : Type) where
  id : Nat
  handler : Handler Value
  store : Nat
  phase : Phase Value
deriving DecidableEq

/-- What they share. The stores are numbered: `buckets` says which one has a name, `closed` which
context is cancelled. A listener is the number of its call, in place of the pair of a listener UUID and a
nonce, with the key it listens to. `returned`, `done` and `sent` are about calls: those that have
returned, those whose context is done, and what was sent on their streams, the last value first. -/
structure Mem (Value : Type) where
  buckets : GoString → Option Nat
  stores : Nat → Data Value
  created : Nat
  closed : Nat → Bool
  providers : Providers
  listeners : List (Nat × Key)
  providerMutex : RWMutex Nat
  listenerMutex : RWMutex Nat
  calls : Nat
  returned : List Nat
  done : Nat → Bool
  sent : Nat → List Value

abbrev State (Value : Type) := Config (Mem Value) (Proc Value)

/-- What a monitor is given: its own UUID, and the `Providers` message with its type URL. -/
structure Setup (Value : Type) where
  uuid : GoString
  typeUrl : GoString
  table : Providers → Value

/-- The steps that are told apart: whether a `Stream` is accepted, compare-and-swaps, registrations of
listeners, and returns. -/
inductive Event (Value : Type)
  | identify (uuid : GoString) (accepted : Bool)
  | cas (key : Key) (value : Value)
  | insert (key : Key)
  | returns (id : Nat) (err : Option Code)
  | internal

section Rules

variable {Value : Type} [DecidableEq Value]

/-- The metric of `providersUpdated`. -/
def Setup.providersUpdated (setup : Setup Value) (providers : Providers) : Metric Value :=
  ⟨⟨metaBucket, setup.typeUrl⟩, .message (setup.table providers)⟩

/-- The handlers that begin with `meta.CheckContext`. -/
def Handler.checksContext : Handler Value → Bool
  | .stream _ | .listen _ => true
  | .query _ | .internal _ _ _ => false

def Mem.queryError (mem : Mem Value) : Query → Option Code
  | .whois uuid => if (mem.providers uuid).isSome then none else some .notFound
  | .getMetric key =>
    match mem.buckets key.bucket with
    | none => some .notFound
    | some store => if (mem.stores store key.name).isSome then none else some .notFound
  | .getBuckets => none
  | .getKeys bucket => if (mem.buckets bucket).isSome then none else some .notFound

def Mem.finish (mem : Mem Value) (id : Nat) : Mem Value := { mem with returned := id :: mem.returned }

/-- A value is sent on the stream of a call. -/
def Mem.send (mem : Mem Value) (id : Nat) (value : Value) : Mem Value :=
  { mem with sent := Function.update mem.sent id (value :: mem.sent id) }

/-- The data of a store is replaced. -/
def Mem.setStore (mem : Mem Value) (store : Nat) (data : Data Value) : Mem Value :=
  { mem with stores := Function.update mem.stores store data }

def Mem.receivers (mem : Mem Value) (key : Key) : List Nat :=
  (mem.listeners.filter fun listener => listener.2.canonical = key.canonical).map Prod.fst

/-- **The steps.** `notify` ranges over a map, so it sends in any order. A send fails only on a stream
whose context is done. -/
inductive Rule (setup : Setup Value) : Rules (Mem Value) (Proc Value) (Event Value)
  -- the outside
  | call {mem} (handler : Handler Value) :
      Rule setup .internal mem [] { mem with calls := mem.calls + 1 }
        [⟨mem.calls, handler, 0, .called⟩]
  | cancel {mem} (id : Nat) :
      Rule setup .internal mem [] { mem with done := Function.update mem.done id true } []
  -- meta.CheckContext, providerIP
  | turnAway {mem} {id store : Nat} {handler : Handler Value} : handler.checksContext = true →
      Rule setup (.returns id (some .invalidArgument)) mem [⟨id, handler, store, .called⟩]
        (mem.finish id) []
  -- Stream; a duplicate returns with the mutex locked
  | connect {mem} {id store : Nat} {info : ProviderInfo} (free : mem.providerMutex.Free) :
      Rule setup .internal mem [⟨id, .stream info, store, .called⟩]
        { mem with providerMutex := mem.providerMutex.lock id free }
        [⟨id, .stream info, store, .connecting⟩]
  | duplicate {mem} {id store found : Nat} {info : ProviderInfo} :
      mem.buckets info.uuid = some found →
      Rule setup (.identify info.uuid false) mem [⟨id, .stream info, store, .connecting⟩]
        (mem.finish id) []
  | register {mem} {id store : Nat} {info : ProviderInfo} : mem.buckets info.uuid = none →
      Rule setup (.identify info.uuid true) mem [⟨id, .stream info, store, .connecting⟩]
        { mem with
          buckets := Function.update mem.buckets info.uuid (some mem.created)
          stores := Function.update mem.stores mem.created fun _ => none
          created := mem.created + 1
          providers := Function.update mem.providers info.uuid (some info) }
        [⟨id, .stream info, mem.created,
          .posting (setup.providersUpdated (Function.update mem.providers info.uuid (some info)))
            .connected⟩]
  | connected {mem} {id store : Nat} {info : ProviderInfo} :
      Rule setup .internal mem [⟨id, .stream info, store, .posted none .connected⟩]
        { mem with providerMutex := mem.providerMutex.unlock }
        [⟨id, .stream info, store, .receiving⟩]
  | receive {mem} {id store : Nat} {info : ProviderInfo} (metric : Metric Value) :
      Rule setup .internal mem [⟨id, .stream info, store, .receiving⟩] mem
        [⟨id, .stream info, store, .received metric⟩]
  | receiveLock {mem} {id store : Nat} {info : ProviderInfo} {metric : Metric Value}
      (unwritten : mem.providerMutex.writer = none) :
      Rule setup .internal mem [⟨id, .stream info, store, .received metric⟩]
        { mem with providerMutex := mem.providerMutex.rlock id unwritten }
        [⟨id, .stream info, store, .posting metric .received⟩]
  | receiveUnlock {mem} {id store : Nat} {info : ProviderInfo} {err : Option Code} :
      Rule setup .internal mem [⟨id, .stream info, store, .posted err .received⟩]
        { mem with providerMutex := mem.providerMutex.runlock id }
        [⟨id, .stream info, store, if err = none then .receiving else .leaving err⟩]
  | receiveEnds {mem} {id store : Nat} {info : ProviderInfo} :
      Rule setup .internal mem [⟨id, .stream info, store, .receiving⟩] mem
        [⟨id, .stream info, store, .leaving none⟩]
  | leave {mem} {id store : Nat} {info : ProviderInfo} {err : Option Code}
      (free : mem.providerMutex.Free) :
      Rule setup .internal mem [⟨id, .stream info, store, .leaving err⟩]
        { mem with providerMutex := mem.providerMutex.lock id free }
        [⟨id, .stream info, store, .disconnecting err⟩]
  | unregister {mem} {id store : Nat} {info : ProviderInfo} {err : Option Code} :
      Rule setup .internal mem [⟨id, .stream info, store, .disconnecting err⟩]
        { mem with
          buckets := Function.update mem.buckets info.uuid none
          providers := Function.update mem.providers info.uuid none
          closed := Function.update mem.closed store true }
        [⟨id, .stream info, store,
          .posting (setup.providersUpdated (Function.update mem.providers info.uuid none))
            (.disconnected err)⟩]
  | disconnected {mem} {id store : Nat} {info : ProviderInfo} {err : Option Code} :
      Rule setup (.returns id err) mem
        [⟨id, .stream info, store, .posted none (.disconnected err)⟩]
        (Mem.finish { mem with providerMutex := mem.providerMutex.unlock } id) []
  -- post; an error of it in providersUpdated is a panic, so nothing follows
  | postNoBucket {mem} {id store : Nat} {handler : Handler Value} {metric : Metric Value}
      {after : After} : mem.buckets metric.key.bucket = none →
      Rule setup .internal mem [⟨id, handler, store, .posting metric after⟩] mem
        [⟨id, handler, store, .posted (some .invalidArgument) after⟩]
  | postNil {mem} {id store found : Nat} {handler : Handler Value} {key : Key} {after : After} :
      mem.buckets key.bucket = some found →
      Rule setup .internal mem [⟨id, handler, store, .posting ⟨key, .nil⟩ after⟩]
        (mem.setStore found (InMemoryStore.delete (mem.stores found) key.name))
        [⟨id, handler, store, .posted none after⟩]
  | postUnknown {mem} {id store found : Nat} {handler : Handler Value} {key : Key} {after : After} :
      mem.buckets key.bucket = some found →
      Rule setup .internal mem [⟨id, handler, store, .posting ⟨key, .unknown⟩ after⟩] mem
        [⟨id, handler, store, .posted (some .unmarshal) after⟩]
  | postSwap {mem} {id store found : Nat} {handler : Handler Value} {key : Key} {value : Value}
      {after : After} : mem.buckets key.bucket = some found →
      (InMemoryStore.cas (mem.stores found) key.name value).2 = true →
      Rule setup (.cas key value) mem [⟨id, handler, store, .posting ⟨key, .message value⟩ after⟩]
        (mem.setStore found (InMemoryStore.cas (mem.stores found) key.name value).1)
        [⟨id, handler, store, .notifying key value after⟩]
  | postSame {mem} {id store found : Nat} {handler : Handler Value} {key : Key} {value : Value}
      {after : After} : mem.buckets key.bucket = some found →
      (InMemoryStore.cas (mem.stores found) key.name value).2 = false →
      Rule setup .internal mem [⟨id, handler, store, .posting ⟨key, .message value⟩ after⟩] mem
        [⟨id, handler, store, .posted none after⟩]
  -- notify
  | notify {mem} {id store : Nat} {handler : Handler Value} {key : Key} {value : Value}
      {after : After} {todo : List Nat} (unwritten : mem.listenerMutex.writer = none) :
      todo.Perm (mem.receivers key) →
      Rule setup .internal mem [⟨id, handler, store, .notifying key value after⟩]
        { mem with listenerMutex := mem.listenerMutex.rlock id unwritten }
        [⟨id, handler, store, .sending key value todo after⟩]
  | send {mem} {id store receiver : Nat} {handler : Handler Value} {key : Key} {value : Value}
      {after : After} {todo : List Nat} :
      Rule setup .internal mem [⟨id, handler, store, .sending key value (receiver :: todo) after⟩]
        (mem.send receiver value) [⟨id, handler, store, .sending key value todo after⟩]
  | sendFails {mem} {id store receiver : Nat} {handler : Handler Value} {key : Key} {value : Value}
      {after : After} {todo : List Nat} : mem.done receiver = true →
      Rule setup .internal mem [⟨id, handler, store, .sending key value (receiver :: todo) after⟩]
        mem [⟨id, handler, store, .sending key value todo after⟩]
  | notified {mem} {id store : Nat} {handler : Handler Value} {key : Key} {value : Value}
      {after : After} :
      Rule setup .internal mem [⟨id, handler, store, .sending key value [] after⟩]
        { mem with listenerMutex := mem.listenerMutex.runlock id }
        [⟨id, handler, store, .posted none after⟩]
  -- Listen
  | listenLock {mem} {id store : Nat} {key : Key} (unwritten : mem.providerMutex.writer = none) :
      Rule setup .internal mem [⟨id, .listen key, store, .called⟩]
        { mem with providerMutex := mem.providerMutex.rlock id unwritten }
        [⟨id, .listen key, store, .checking⟩]
  | listenNoBucket {mem} {id store : Nat} {key : Key} : mem.buckets key.bucket = none →
      Rule setup (.returns id (some .failedPrecondition)) mem [⟨id, .listen key, store, .checking⟩]
        (Mem.finish { mem with providerMutex := mem.providerMutex.runlock id } id) []
  | listenBucket {mem} {id store found : Nat} {key : Key} : mem.buckets key.bucket = some found →
      Rule setup .internal mem [⟨id, .listen key, store, .checking⟩] mem
        [⟨id, .listen key, found, .inserting⟩]
  | insertLock {mem} {id store : Nat} {key : Key} (free : mem.listenerMutex.Free) :
      Rule setup .internal mem [⟨id, .listen key, store, .inserting⟩]
        { mem with listenerMutex := mem.listenerMutex.lock id free }
        [⟨id, .listen key, store, .insertLocked⟩]
  | insert {mem} {id store : Nat} {key : Key} :
      Rule setup (.insert key) mem [⟨id, .listen key, store, .insertLocked⟩]
        { mem with
          listeners := (id, key) :: mem.listeners
          listenerMutex := mem.listenerMutex.unlock }
        [⟨id, .listen key, store, .joining⟩]
  | joinNothing {mem} {id store : Nat} {key : Key} : mem.stores store key.name = none →
      Rule setup .internal mem [⟨id, .listen key, store, .joining⟩] mem
        [⟨id, .listen key, store, .joined⟩]
  | joinRead {mem} {id store : Nat} {key : Key} {value : Value} :
      mem.stores store key.name = some value →
      Rule setup .internal mem [⟨id, .listen key, store, .joining⟩] mem
        [⟨id, .listen key, store, .read value⟩]
  | joinSend {mem} {id store : Nat} {key : Key} {value : Value} :
      Rule setup .internal mem [⟨id, .listen key, store, .read value⟩] (mem.send id value)
        [⟨id, .listen key, store, .joined⟩]
  | joinSendFails {mem} {id store : Nat} {key : Key} {value : Value} : mem.done id = true →
      Rule setup .internal mem [⟨id, .listen key, store, .read value⟩] mem
        [⟨id, .listen key, store, .joined⟩]
  | joinUnlock {mem} {id store : Nat} {key : Key} :
      Rule setup .internal mem [⟨id, .listen key, store, .joined⟩]
        { mem with providerMutex := mem.providerMutex.runlock id }
        [⟨id, .listen key, store, .listening⟩]
  | listenDone {mem} {id store : Nat} {key : Key} : mem.done id = true →
      Rule setup .internal mem [⟨id, .listen key, store, .listening⟩] mem
        [⟨id, .listen key, store, .removing .canceled⟩]
  | listenClosed {mem} {id store : Nat} {key : Key} : mem.closed store = true →
      Rule setup .internal mem [⟨id, .listen key, store, .listening⟩] mem
        [⟨id, .listen key, store, .removing .aborted⟩]
  | removeLock {mem} {id store : Nat} {key : Key} {err : Code} (free : mem.providerMutex.Free) :
      Rule setup .internal mem [⟨id, .listen key, store, .removing err⟩]
        { mem with providerMutex := mem.providerMutex.lock id free }
        [⟨id, .listen key, store, .removeLocked err⟩]
  | removeLockBoth {mem} {id store : Nat} {key : Key} {err : Code} (free : mem.listenerMutex.Free) :
      Rule setup .internal mem [⟨id, .listen key, store, .removeLocked err⟩]
        { mem with listenerMutex := mem.listenerMutex.lock id free }
        [⟨id, .listen key, store, .removeBoth err⟩]
  | remove {mem} {id store : Nat} {key : Key} {err : Code} :
      Rule setup .internal mem [⟨id, .listen key, store, .removeBoth err⟩]
        { mem with
          listeners := mem.listeners.filter fun listener => listener.1 ≠ id
          listenerMutex := mem.listenerMutex.unlock }
        [⟨id, .listen key, store, .removed err⟩]
  | removeUnlock {mem} {id store : Nat} {key : Key} {err : Code} :
      Rule setup (.returns id (some err)) mem [⟨id, .listen key, store, .removed err⟩]
        (Mem.finish { mem with providerMutex := mem.providerMutex.unlock } id) []
  -- Whois, GetMetric, GetBuckets, GetKeys
  | queryLock {mem} {id store : Nat} {query : Query} (unwritten : mem.providerMutex.writer = none) :
      Rule setup .internal mem [⟨id, .query query, store, .called⟩]
        { mem with providerMutex := mem.providerMutex.rlock id unwritten }
        [⟨id, .query query, store, .reading⟩]
  | queryUnlock {mem} {id store : Nat} {query : Query} :
      Rule setup (.returns id (mem.queryError query)) mem [⟨id, .query query, store, .reading⟩]
        (Mem.finish { mem with providerMutex := mem.providerMutex.runlock id } id) []
  -- postTotals, postListeners, postProviders, postInternal
  | countNothing {mem} {id store : Nat} {typeUrl : GoString} {value : Value} :
      Rule setup .internal mem [⟨id, .internal .nothing typeUrl value, store, .called⟩] mem
        [⟨id, .internal .nothing typeUrl value, store, .counted⟩]
  | countListeners {mem} {id store : Nat} {typeUrl : GoString} {value : Value}
      (unwritten : mem.listenerMutex.writer = none) :
      Rule setup .internal mem [⟨id, .internal .listeners typeUrl value, store, .called⟩]
        { mem with listenerMutex := mem.listenerMutex.rlock id unwritten }
        [⟨id, .internal .listeners typeUrl value, store, .countingListeners⟩]
  | countedListeners {mem} {id store : Nat} {typeUrl : GoString} {value : Value} :
      Rule setup .internal mem [⟨id, .internal .listeners typeUrl value, store, .countingListeners⟩]
        { mem with listenerMutex := mem.listenerMutex.runlock id }
        [⟨id, .internal .listeners typeUrl value, store, .counted⟩]
  | countProviders {mem} {id store : Nat} {typeUrl : GoString} {value : Value}
      (unwritten : mem.providerMutex.writer = none) :
      Rule setup .internal mem [⟨id, .internal .providers typeUrl value, store, .called⟩]
        { mem with providerMutex := mem.providerMutex.rlock id unwritten }
        [⟨id, .internal .providers typeUrl value, store, .countingProviders⟩]
  | countedProviders {mem} {id store : Nat} {typeUrl : GoString} {value : Value} :
      Rule setup .internal mem [⟨id, .internal .providers typeUrl value, store, .countingProviders⟩]
        { mem with providerMutex := mem.providerMutex.runlock id }
        [⟨id, .internal .providers typeUrl value, store, .counted⟩]
  | internalLock {mem} {id store : Nat} {counts : Counts} {typeUrl : GoString} {value : Value}
      (unwritten : mem.providerMutex.writer = none) :
      Rule setup .internal mem [⟨id, .internal counts typeUrl value, store, .counted⟩]
        { mem with providerMutex := mem.providerMutex.rlock id unwritten }
        [⟨id, .internal counts typeUrl value, store,
          .posting ⟨⟨setup.uuid, typeUrl⟩, .message value⟩ .internal⟩]
  | internalUnlock {mem} {id store : Nat} {counts : Counts} {typeUrl : GoString} {value : Value}
      {err : Option Code} :
      Rule setup (.returns id none) mem
        [⟨id, .internal counts typeUrl value, store, .posted err .internal⟩]
        (Mem.finish { mem with providerMutex := mem.providerMutex.runlock id } id) []

/-- A monitor that `NewMonitorServer` has made: its own bucket is empty, the meta bucket has the table of
the one provider there is, the monitor itself. -/
def initial (setup : Setup Value) : State Value :=
  let own : ProviderInfo := ⟨setup.uuid, 10, bytes "0.0.0.0"⟩
  let providers : Providers := Function.update (fun _ => none) setup.uuid (some own)
  .ofList
    { buckets := Function.update (Function.update (fun _ => none) setup.uuid (some 0)) metaBucket (some 1)
      stores := Function.update (fun _ _ => none) 1
        (Function.update (fun _ => none) setup.typeUrl (some (setup.table providers)))
      created := 2
      closed := fun _ => false
      providers := providers
      listeners := []
      providerMutex := .free
      listenerMutex := .free
      calls := 0
      returned := []
      done := fun _ => false
      sent := fun _ => [] }
    []

end Rules

/-! ### The mutexes -/

section Mutexes

variable {Value : Type}

def After.mode : After → Mode
  | .connected | .disconnected _ => .write
  | .received | .internal => .read

def Phase.provider : Phase Value → Option Mode
  | .connecting | .disconnecting _ => some .write
  | .posting _ after | .notifying _ _ after | .sending _ _ _ after | .posted _ after =>
    some after.mode
  | .checking | .inserting | .insertLocked | .joining | .read _ | .joined => some .read
  | .removeLocked _ | .removeBoth _ | .removed _ => some .write
  | .reading | .countingProviders => some .read
  | .called | .countingListeners | .counted | .receiving | .received _ | .leaving _ | .listening
  | .removing _ => none

def Phase.listener : Phase Value → Option Mode
  | .sending _ _ _ _ | .countingListeners => some .read
  | .insertLocked | .removeBoth _ => some .write
  | _ => none

def Proc.provider (proc : Proc Value) : Option (Mode × Nat) := proc.phase.provider.map (·, proc.id)

def Proc.listener (proc : Proc Value) : Option (Mode × Nat) := proc.phase.listener.map (·, proc.id)

variable [DecidableEq Value] {setup : Setup Value} {event : Event Value} {mem mem' : Mem Value}
  {acting left : List (Proc Value)} {rest : Multiset (Proc Value)} {config : State Value}

/-- **Locks and phases change together**, except where a duplicate `Stream` returns. -/
theorem rule_change (rule : Rule setup event mem acting mem' left)
    (accepted : ∀ uuid, event ≠ .identify uuid false) :
    acting.length ≤ 1 ∧ left.length ≤ 1 ∧
      Change mem.providerMutex (accessOf Proc.provider acting) mem'.providerMutex
        (accessOf Proc.provider left) ∧
      Change mem.listenerMutex (accessOf Proc.listener acting) mem'.listenerMutex
        (accessOf Proc.listener left) := by
  cases rule with
  | duplicate => exact absurd rfl (accepted _)
  | call | cancel => exact ⟨Nat.zero_le _, by simp, .same, .same⟩
  | connect free | leave free | removeLock free => exact ⟨le_rfl, le_rfl, .lock free, .same⟩
  | receiveLock unwritten | listenLock unwritten | queryLock unwritten | countProviders unwritten
  | internalLock unwritten => exact ⟨le_rfl, le_rfl, .rlock unwritten, .same⟩
  | connected => exact ⟨le_rfl, le_rfl, .unlock, .same⟩
  | disconnected | removeUnlock => exact ⟨le_rfl, Nat.zero_le _, .unlock, .same⟩
  | joinUnlock | countedProviders => exact ⟨le_rfl, le_rfl, .runlock, .same⟩
  | receiveUnlock =>
    split <;> exact ⟨le_rfl, le_rfl, .runlock, .same⟩
  | listenNoBucket | queryUnlock | internalUnlock => exact ⟨le_rfl, Nat.zero_le _, .runlock, .same⟩
  | insertLock free | removeLockBoth free => exact ⟨le_rfl, le_rfl, .same, .lock free⟩
  | insert | remove => exact ⟨le_rfl, le_rfl, .same, .unlock⟩
  | notify unwritten | countListeners unwritten => exact ⟨le_rfl, le_rfl, .same, .rlock unwritten⟩
  | notified | countedListeners => exact ⟨le_rfl, le_rfl, .same, .runlock⟩
  | turnAway => exact ⟨le_rfl, Nat.zero_le _, .same, .same⟩
  | register | receive | receiveEnds | unregister | postNoBucket | postNil | postUnknown | postSwap
  | postSame | send | sendFails | listenBucket | joinNothing | joinRead | joinSend | joinSendFails
  | listenDone | listenClosed | countNothing => exact ⟨le_rfl, le_rfl, .same, .same⟩

/-- **Every access that a handler has is granted**, on both mutexes. -/
theorem guarded (reach : Reach (Rule setup) (fun _ _ => True) (initial setup) config) :
    Guarded Proc.provider config.mem.providerMutex config.procs ∧
      Guarded Proc.listener config.mem.listenerMutex config.procs := by
  refine reach.invariant (fun config =>
    Guarded Proc.provider config.mem.providerMutex config.procs ∧
      Guarded Proc.listener config.mem.listenerMutex config.procs) ?_ ?_
  · exact ⟨fun _ => Nat.zero_le _, fun _ => Nat.zero_le _⟩
  · rintro _ event _ ⟨provider, listener⟩ _ ⟨rest, rule⟩
    by_cases rejected : ∃ uuid, event = .identify uuid false
    · obtain ⟨uuid, rfl⟩ := rejected
      cases rule with
      | duplicate => exact ⟨provider.abandon, listener.abandon⟩
    · obtain ⟨one, one', changeProvider, changeListener⟩ :=
        rule_change rule fun uuid is => rejected ⟨uuid, is⟩
      exact ⟨provider.change one one' changeProvider, listener.change one one' changeListener⟩

/-- **A handler that has a mutex for writing is alone with what it protects**, in every run. -/
theorem writes_alone {mem : Mem Value} {proc other : Proc Value} {rest : Multiset (Proc Value)}
    (reach : Reach (Rule setup) (fun _ _ => True) (initial setup) ⟨mem, ↑[proc] + rest⟩)
    (member : other ∈ rest) (holder : Nat) : (proc.provider = some (.write, holder) → other.provider = none) ∧
      (proc.listener = some (.write, holder) → other.listener = none) :=
  ⟨fun writes => (guarded reach).1.alone writes member, fun writes => (guarded reach).2.alone writes member⟩

/-! ### Calls that have returned -/

def Proc.call (proc : Proc Value) : Option Nat := some proc.id

/-- **The calls so far**: each is in progress or has returned, once. -/
def Numbered (config : State Value) : Prop :=
  ∀ id, total (tally Proc.call id) config.procs + config.mem.returned.count id =
    if id < config.mem.calls then 1 else 0

theorem tally_call (id : Nat) (proc : Proc Value) :
    tally Proc.call id proc = if proc.id = id then 1 else 0 :=
  tally_of_eq_some rfl id

theorem total_call (id : Nat) (procs : List (Proc Value)) :
    total (tally (@Proc.call Value) id) ↑procs = total (tally some id) ↑(procs.map Proc.id) :=
  (total_coe_map (tally some id) Proc.id procs).symm

/-- **The life of a call**: it is made, it goes on, it returns. -/
theorem rule_lifetime (rule : Rule setup event mem acting mem' left) :
    (∃ handler, acting = [] ∧ left = [⟨mem.calls, handler, 0, .called⟩] ∧
      mem'.calls = mem.calls + 1 ∧ mem'.returned = mem.returned) ∨
    (∃ proc, acting = [proc] ∧ left = [] ∧
      mem'.calls = mem.calls ∧ mem'.returned = proc.id :: mem.returned) ∨
    (left.map Proc.id = acting.map Proc.id ∧
      mem'.calls = mem.calls ∧ mem'.returned = mem.returned) := by
  cases rule with
  | call handler => exact .inl ⟨handler, rfl, rfl, rfl, rfl⟩
  | turnAway | duplicate | disconnected | listenNoBucket | removeUnlock | queryUnlock
  | internalUnlock => exact .inr (.inl ⟨_, rfl, rfl, rfl, rfl⟩)
  | _ => exact .inr (.inr ⟨rfl, rfl, rfl⟩)

theorem Numbered.step (numbered : Numbered ⟨mem, ↑acting + rest⟩)
    (rule : Rule setup event mem acting mem' left) : Numbered ⟨mem', ↑left + rest⟩ := by
  intro id
  have known := numbered id
  simp only [total_add] at known ⊢
  obtain ⟨handler, rfl, rfl, calls, returned⟩ | ⟨proc, rfl, rfl, calls, returned⟩ |
    ⟨same, calls, returned⟩ := rule_lifetime rule
  · rw [calls, returned]
    simp only [total_coe_cons, total_coe_nil, tally_call] at known ⊢
    split_ifs at known ⊢ <;> omega
  · rw [calls, returned, List.count_cons]
    simp only [total_coe_cons, total_coe_nil, tally_call, beq_iff_eq] at known ⊢
    omega
  · rw [calls, returned, total_call, same, ← total_call]
    exact known

theorem numbered (reach : Reach (Rule setup) (fun _ _ => True) (initial setup) config) :
    Numbered config := by
  refine reach.invariant Numbered (fun _ => rfl) ?_
  rintro _ _ _ before _ ⟨rest, rule⟩
  exact before.step rule

theorem Numbered.absent {id : Nat} (numbered : Numbered config) (returned : id ∈ config.mem.returned) :
    ∀ proc ∈ config.procs, proc.id ≠ id := by
  intro proc member same
  have account := numbered id
  have counted := @weight_le_total _ (tally Proc.call id) _ _ member
  have positive := List.count_pos_iff.mpr returned
  rw [tally_call, if_pos same] at counted
  split_ifs at account <;> omega

/-- **No handler that has returned holds a mutex.** -/
def Released (mem : Mem Value) : Prop :=
  ∀ id ∈ mem.returned, ¬ mem.providerMutex.Holds id ∧ ¬ mem.listenerMutex.Holds id

/-- The condition: a provider connects only when its UUID has no bucket. -/
def Unconnected (config : State Value) : Event Value → Prop
  | .identify uuid _ => config.mem.buckets uuid = none
  | _ => True

theorem claimed (reach : Reach (Rule setup) Unconnected (initial setup) config) :
    Claimed Proc.provider config.mem.providerMutex config.procs ∧
      Claimed Proc.listener config.mem.listenerMutex config.procs := by
  induction reach with
  | start => exact ⟨fun _ => (RWMutex.held_free _).le, fun _ => (RWMutex.held_free _).le⟩
  | @step _ _ event reach ok step ih =>
    obtain ⟨provider, listener⟩ := ih
    have granted := guarded (reach.mono fun _ _ _ => trivial)
    obtain ⟨rest, rule⟩ := step
    have accepted : ∀ uuid, event ≠ .identify uuid false := by
      rintro uuid rfl
      cases rule with
      | duplicate there => exact absurd (there.symm.trans ok) nofun
    obtain ⟨one, one', changeProvider, changeListener⟩ := rule_change rule accepted
    exact ⟨provider.change granted.1 one one' changeProvider,
      listener.change granted.2 one one' changeListener⟩

theorem Proc.provider_ne {proc : Proc Value} {id : Nat} (other : proc.id ≠ id) (mode : Mode) :
    proc.provider ≠ some (mode, id) := by
  intro has
  obtain ⟨_, _, same⟩ := Option.map_eq_some_iff.mp has
  exact other (congrArg Prod.snd same)

theorem Proc.listener_ne {proc : Proc Value} {id : Nat} (other : proc.id ≠ id) (mode : Mode) :
    proc.listener ≠ some (mode, id) := by
  intro has
  obtain ⟨_, _, same⟩ := Option.map_eq_some_iff.mp has
  exact other (congrArg Prod.snd same)

theorem released (reach : Reach (Rule setup) Unconnected (initial setup) config) :
    Released config.mem := by
  intro id returned
  have gone := (numbered (reach.mono fun _ _ _ => trivial)).absent returned
  obtain ⟨provider, listener⟩ := claimed reach
  refine ⟨RWMutex.not_holds fun mode => ?_, RWMutex.not_holds fun mode => ?_⟩
  · exact provider.held_eq_zero fun proc member => proc.provider_ne (gone proc member) mode
  · exact listener.held_eq_zero fun proc member => proc.listener_ne (gone proc member) mode

/-- The buckets, the provider table and the listeners are those of the other memory. -/
def Mem.SameTables (mem mem' : Mem Value) : Prop :=
  mem'.buckets = mem.buckets ∧ mem'.providers = mem.providers ∧ mem'.listeners = mem.listeners

theorem sameTables_of_unaccepted {id store : Nat} {info : ProviderInfo} {phase : Phase Value}
    (rule : Rule setup event mem [⟨id, .stream info, store, phase⟩] mem' left)
    (early : phase = .called ∨ phase = .connecting) (unaccepted : event ≠ .identify info.uuid true) :
    mem.SameTables mem' := by
  rcases early with rfl | rfl
  · cases rule with
    | turnAway | connect => exact ⟨rfl, rfl, rfl⟩
  · cases rule with
    | duplicate => exact ⟨rfl, rfl, rfl⟩
    | register => exact absurd rfl unaccepted

/-- **Handlers leave no lock behind**: in every run in which no provider connects with a UUID that has a
bucket, a handler that has returned holds neither mutex. In every run, what a `Stream` does up to its
rejection leaves the tables as they were. -/
theorem released_of_unconnected (setup : Setup Value) :
    (∀ config, Reach (Rule setup) Unconnected (initial setup) config → Released config.mem) ∧
      ∀ event mem id info store phase mem' left,
        Rule setup event mem [⟨id, .stream info, store, phase⟩] mem' left →
        phase = .called ∨ phase = .connecting → event ≠ .identify info.uuid true →
        mem.SameTables mem' :=
  ⟨fun _ => released, fun _ _ _ _ _ _ _ _ => sameTables_of_unaccepted⟩

end Mutexes

def sample : Setup Nat :=
  ⟨bytes "m", bytes "t", fun providers => if (providers (bytes "p")).isSome then 1 else 0⟩

def provider : ProviderInfo := ⟨bytes "p", 3, bytes "a"⟩

/-- A `Stream` begins to register its provider while a `Listen` is called. -/
theorem connecting_alone :
    ∃ stream listen : Proc Nat, stream.provider = some (.write, 1) ∧ listen.provider = none := by
  have run := @Reach.start _ _ _ (Rule sample) (fun _ _ => True) (initial sample)
  have run := run.next [] [] (.call (.listen ⟨bytes "p", bytes "k"⟩)) trivial (.refl _)
  have run := run.next [] [_] (.call (.stream provider)) trivial (.refl _)
  have run := run.next [_] [_] (.connect ⟨rfl, rfl⟩) trivial (.refl _)
  have alone := writes_alone run (Multiset.mem_coe.mpr List.mem_cons_self) 1
  exact ⟨⟨1, .stream provider, 0, .connecting⟩, _, rfl, alone.1 rfl⟩

/-- A `Listen` for a bucket that does not exist. -/
theorem released_missing_bucket :
    ∃ config, Reach (Rule sample) Unconnected (initial sample) config ∧
      0 ∈ config.mem.returned ∧ Released config.mem := by
  have run := @Reach.start _ _ _ (Rule sample) Unconnected (initial sample)
  have run := run.next [] [] (.call (.listen ⟨bytes "p", bytes "k"⟩)) trivial (.refl _)
  have run := run.next _ [] (.listenLock rfl) trivial (.refl _)
  have run := run.next _ [] (.listenNoBucket (by decide)) trivial (.refl _)
  exact ⟨_, run, List.mem_cons_self, (released_of_unconnected sample).1 _ run⟩

/-- **A provider that connects twice** locks the monitor: the second `Stream` has returned, and holds
`providerMutex`. -/
theorem duplicate_keeps_providerMutex :
    ∃ config, Reach (Rule sample) (fun _ _ => True) (initial sample) config ∧
      1 ∈ config.mem.returned ∧ config.mem.providerMutex.Holds 1 := by
  have run := @Reach.start _ _ _ (Rule sample) (fun _ _ => True) (initial sample)
  have run := run.next [] [] (.call (.stream provider)) trivial (.refl _)
  have run := run.next _ [] (.connect ⟨rfl, rfl⟩) trivial (.refl _)
  have run := run.next _ [] (.register (by decide)) trivial (.refl _)
  have run := run.next _ [] (.postSwap (show _ = some 1 by decide) (by decide)) trivial (.refl _)
  have run := run.next _ [] (.notify rfl (.refl _)) trivial (.refl _)
  have run := run.next _ [] .notified trivial (.refl _)
  have run := run.next _ [] .connected trivial (.refl _)
  have run := run.next [] [_] (.call (.stream provider)) trivial (.refl _)
  have run := run.next _ [_] (.connect ⟨rfl, by decide⟩) trivial (.refl _)
  have run := run.next _ [_] (.duplicate (show _ = some 2 by decide)) trivial (.refl _)
  exact ⟨_, run, List.mem_cons_self, .inl rfl⟩

end Kubecc.Monitor
