/-
**The memory cache.**

`VolatileStorageProvider` of `pkg/storage/volatile.go`, over a `ccache.Cache`. An item of the cache has
an instant at which it expires, which is worked out from a duration: the date of the object minus one
reading of the clock plus a later one. The cache hands out expired items until they are deleted: by
`Get` or `Query`, which look whether an item has expired, or by the cache itself, to make room. `Put`
does not look.

* `fresh_iff` — `Put` succeeds if and only if no unexpired object is there, and `Get` returns the object
  after it, exactly if no expired object is there either, and the instant at which the item expires can
  be written as an `int64`.
* `expired_blocks` — an object that has expired keeps a new one out.
-/

import Kubecc.Types.CacheObject
import Mathlib.Logic.Function.Basic
import Mathlib.Tactic

namespace Kubecc.Storage.Volatile

open Kubecc.Go Kubecc.Types

/-! ### Time -/

/-- `time.Until(time.Unix(0, date))`. A `time.Duration` that is too long is cut off. -/
def timeUntil (date : Int64) (now : ℕ) : Int64 :=
  .ofInt (max (-2 ^ 63) (min (2 ^ 63 - 1) (date.toInt - now)))

def addNano (now : ℕ) (duration : Int64) : Int64 := .ofInt (now + duration.toInt)

/-! ### The provider -/

structure Item where
  value : CacheObject
  expires : Int64
deriving DecidableEq

def Item.expired (item : Item) (now : ℕ) : Bool := item.expires.toInt < (now : Int)

/-- The test of `Get` and `Query`. -/
def Item.dead (item : Item) (now : ℕ) : Bool :=
  item.expired now && 0 < item.value.expirationDate.toInt

structure Provider where
  cache : GoString → Option Item
  totalSize : Int64
  cacheHitsTotal : ℕ
  cacheMissesTotal : ℕ

/-- The provider after `Configure`. -/
def new : Provider := ⟨fun _ => none, 0, 0, 0⟩

namespace Provider

/-- `cache.Delete`, with the function that is called for the item. -/
def delete (provider : Provider) (key : GoString) : Provider :=
  match provider.cache key with
  | none => provider
  | some item =>
    { provider with
      cache := Function.update provider.cache key none
      totalSize := provider.totalSize - item.value.managedSize }

def set (provider : Provider) (key : GoString) (item : Item) : Provider :=
  { provider with cache := Function.update provider.cache key (some item) }

end Provider

def managed (object : CacheObject) (stamp : ℕ) : CacheObject :=
  let metadata := object.getMetadata
  { object with
    metadata := some { metadata with
      managedFields := some ⟨.ofNat object.data.length, .ofNat (stamp / 10 ^ 9), 0, StorageLocation.memory⟩ } }

namespace Provider

/-- `Put`. The clock is read for the time stamp, for the duration, and by the cache. -/
def put (provider : Provider) (key : GoString) (object : CacheObject) (stamp now now' : ℕ) :
    Except Status Unit × Provider :=
  match provider.cache key with
  | some _ => (.error ⟨.alreadyExists, bytes "Object already exists"⟩, provider)
  | none =>
    let object := managed object stamp
    let item : Item := ⟨object, addNano now' (timeUntil object.expirationDate now)⟩
    let totalSize := provider.totalSize + Int64.ofNat object.data.length
    (.ok (), { provider with totalSize }.set key item)

/-- `Get`. The clock is read by `Expired`, for the duration, and by `Extend`. -/
def get (provider : Provider) (key : GoString) (now until' extended : ℕ) :
    Except Status CacheObject × Provider :=
  match provider.cache key with
  | none =>
    (.error ⟨.notFound, bytes "Object not found"⟩,
      { provider with cacheMissesTotal := provider.cacheMissesTotal + 1 })
  | some item =>
    if item.dead now then (.error ⟨.notFound, bytes "Object expired"⟩, provider.delete key)
    else
      let expires := addNano extended (timeUntil item.value.expirationDate until')
      (.ok item.value, { provider.set key { item with expires } with
        cacheHitsTotal := provider.cacheHitsTotal + 1 })

/-- The loop body of `Query`, for one key and one reading of the clock. -/
def queryOne (provider : Provider) (key : GoString) (now : ℕ) : Option CacheObjectMeta × Provider :=
  match provider.cache key with
  | none => (none, provider)
  | some item => if item.dead now then (none, provider.delete key) else (item.value.metadata, provider)

def query (provider : Provider) : List (GoString × ℕ) → List (Option CacheObjectMeta) × Provider
  | [] => ([], provider)
  | (key, now) :: keys =>
    let (result, provider) := provider.queryOne key now
    let (results, provider) := provider.query keys
    (result :: results, provider)

end Provider

inductive Op
  | put (key : GoString) (object : CacheObject) (stamp now now' : ℕ)
  | get (key : GoString) (now until' extended : ℕ)
  | query (keys : List (GoString × ℕ))
  | prune (key : GoString)

def Provider.step (provider : Provider) : Op → Provider
  | .put key object stamp now now' => (provider.put key object stamp now now').2
  | .get key now until' extended => (provider.get key now until' extended).2
  | .query keys => (provider.query keys).2
  | .prune key => provider.delete key

def run (history : List Op) : Provider := history.foldl Provider.step new

/-! ### A fresh object -/

section Fresh

variable {provider : Provider} {key : GoString} {object : CacheObject} {stamp now now' : ℕ}

/-- An unexpired object is held under the key. -/
def Held (provider : Provider) (key : GoString) (now : ℕ) : Prop :=
  ∃ item, provider.cache key = some item ∧ item.value.getMetadata.expired now = false

/-- **A fresh object is not kept out**: `Put` succeeds if and only if no unexpired object is held under
the key, and until its date `Get` then returns the object. -/
def FreshAccepted (provider : Provider) (key : GoString) (object : CacheObject) (stamp now now' : ℕ) :
    Prop :=
  ((provider.put key object stamp now now').1 = .ok () ↔ ¬ Held provider key now) ∧
    ((provider.put key object stamp now now').1 = .ok () →
      ∀ instant until' extended, now' ≤ instant → (instant : Int) ≤ object.expirationDate.toInt →
        ((provider.put key object stamp now now').2.get key instant until' extended).1 =
          .ok (managed object stamp))

theorem expirationDate_managed (object : CacheObject) (stamp : ℕ) :
    (managed object stamp).expirationDate = object.expirationDate := rfl

theorem put_ok_iff : (provider.put key object stamp now now').1 = .ok () ↔ provider.cache key = none := by
  unfold Provider.put
  split
  · rename_i item there
    rw [there]
    exact ⟨nofun, nofun⟩
  · rename_i absent
    exact ⟨fun _ => absent, fun _ => rfl⟩

theorem cache_put (absent : provider.cache key = none) :
    (provider.put key object stamp now now').2.cache key =
      some ⟨managed object stamp, addNano now' (timeUntil object.expirationDate now)⟩ := by
  unfold Provider.put
  rw [absent]
  exact Function.update_self ..

/-- **When the item expires**: at the date, later by what has passed between the two readings. -/
theorem expires_of_future {date : Int64} (future : (now : Int) < date.toInt) :
    (addNano now' (timeUntil date now)).toInt = (date.toInt + (now' - now) : Int).bmod (2 ^ 64) := by
  have upper := date.toInt_lt
  have duration : (timeUntil date now).toInt = date.toInt - now := by
    have fits : max (-2 ^ 63) (min (2 ^ 63 - 1) (date.toInt - now)) = date.toInt - now := by omega
    rw [timeUntil, fits]
    exact Int64.toInt_ofInt_of_le (by omega) (by omega)
  rw [addNano, Int64.toInt_ofInt, duration]
  congr 1
  omega

/-- The object is found until its date, if the instant at which the item expires fits. -/
theorem get_put_iff (absent : provider.cache key = none) (future : (now : Int) < object.expirationDate.toInt)
    {instant until' extended : ℕ} :
    ((provider.put key object stamp now now').2.get key instant until' extended).1 =
        .ok (managed object stamp) ↔
      (instant : Int) ≤ (object.expirationDate.toInt + (now' - now) : Int).bmod (2 ^ 64) := by
  have positive : 0 < object.expirationDate.toInt := by omega
  unfold Provider.get
  rw [cache_put absent]
  simp only [Item.dead, Item.expired, expirationDate_managed, expires_of_future future, positive,
    decide_true, Bool.and_true, decide_eq_true_eq]
  split
  · rename_i late
    exact ⟨nofun, fun le => absurd late (not_lt.mpr le)⟩
  · rename_i timely
    exact ⟨fun _ => not_lt.mp timely, fun _ => rfl⟩

/-- **When a fresh object is not kept out**: exactly if what is held under the key, if anything, has not
expired, and the instant at which the new item is to expire can be written down. -/
theorem fresh_iff (history : List Op) (ordered : now ≤ now')
    (future : (now : Int) < object.expirationDate.toInt) :
    FreshAccepted (run history) key object stamp now now' ↔
      (∀ item, (run history).cache key = some item → item.value.getMetadata.expired now = false) ∧
      ((run history).cache key = none → object.expirationDate.toInt < now' ∨
        object.expirationDate.toInt + (now' - now) < 2 ^ 63) := by
  have upper := object.expirationDate.toInt_lt
  unfold FreshAccepted
  rw [put_ok_iff]
  constructor
  · rintro ⟨succeeds, returns⟩
    refine ⟨fun item there => ?_, fun absent => ?_⟩
    · by_contra expired
      refine absurd (succeeds.mpr ?_) (by rw [there]; exact nofun)
      rintro ⟨other, same, unexpired⟩
      obtain rfl := Option.some.inj (there.symm.trans same)
      exact expired unexpired
    · by_contra late
      obtain ⟨inTime, long⟩ := not_or.mp late
      have found := (get_put_iff absent future).mp
        (returns absent now' now' now' le_rfl (not_lt.mp inTime))
      have wrapped : (object.expirationDate.toInt + (now' - now) : Int).bmod (2 ^ 64) =
          object.expirationDate.toInt + (now' - now) - 2 ^ 64 := by
        rw [Int.bmod_def]
        omega
      omega
  · rintro ⟨unexpired, fits⟩
    refine ⟨⟨fun absent => ?_, fun none => ?_⟩, fun absent instant until' extended after before => ?_⟩
    · rintro ⟨item, there, _⟩
      exact absurd (absent.symm.trans there) nofun
    · cases there : (run history).cache key with
      | none => rfl
      | some item => exact absurd ⟨item, there, unexpired item there⟩ none
    · refine (get_put_iff absent future).mpr ?_
      rcases fits absent with late | short
      · omega
      · have same : (object.expirationDate.toInt + (now' - now) : Int).bmod (2 ^ 64) =
            object.expirationDate.toInt + (now' - now) := by
          rw [Int.bmod_def]
          omega
        omega

end Fresh

/-! ### An object that expires -/

def dated (date : Int64) : CacheObject where
  data := bytes "object code"
  metadata := some { CacheObjectMeta.empty with expirationDate := date }

/-- The first object of a key. -/
theorem fresh_first : FreshAccepted (run []) (bytes "key") (dated 1000) 0 10 20 := by
  refine (fresh_iff [] (by decide) (by decide)).mpr ⟨fun item there => ?_, fun _ => .inr (by decide)⟩
  exact absurd there nofun

/-- **An object that has expired is in the way** until it is asked for. -/
theorem expired_blocks :
    ¬ FreshAccepted (run [.put (bytes "key") (dated 1000) 0 10 20]) (bytes "key") (dated 9000) 0 5000
      5010 := by
  rintro ⟨succeeds, _⟩
  have refused := put_ok_iff.mp (succeeds.mpr ?_)
  · exact absurd refused nofun
  · rintro ⟨item, there, unexpired⟩
    obtain rfl : _ = item := Option.some.inj there
    exact absurd unexpired (by decide)

end Kubecc.Storage.Volatile
