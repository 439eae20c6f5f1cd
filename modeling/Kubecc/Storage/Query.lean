/-
**What `Query` answers.**

The three providers answer a list of keys with a list of metadata. The list should have an element for
each key: nil if there is no object for it that has not expired, and its metadata otherwise.

* The memory provider goes by the instant at which the item of the cache expires, which is not quite the
  date of the object.
* The local provider passes over the keys for which it finds nothing, so that what it finds for later keys
  moves up; and it does not look at the date.
* The S3 provider leaves nil where it cannot read the time stamp or the score, and does not look at the
  date either.

* `aligned_iff` — when the answers of each provider line up with the keys.
* `misaligned` — lists of keys for which they do not.
-/

import Kubecc.Storage.HitCounters
import Kubecc.Storage.S3

namespace Kubecc.Storage

open Kubecc.Go Kubecc.Types

/-- The metadata, if the object has not expired. -/
def unexpired (metadata : Option CacheObjectMeta) (now : ℕ) : Option CacheObjectMeta :=
  metadata.filter fun metadata => !metadata.expired now

theorem unexpired_none (now : ℕ) : unexpired none now = none := rfl

theorem unexpired_some (metadata : CacheObjectMeta) (now : ℕ) :
    unexpired (some metadata) now = if metadata.expired now = true then none else some metadata := by
  cases expired : metadata.expired now <;> simp [unexpired, Option.filter, expired]

theorem unexpired_eq_some_iff {held : Option CacheObjectMeta} {now : ℕ} {metadata : CacheObjectMeta} :
    unexpired held now = some metadata ↔ held = some metadata ∧ metadata.expired now = false := by
  cases held with
  | none => simp [unexpired]
  | some other =>
    rw [unexpired_some]
    cases expired : other.expired now with
    | true =>
      simp only [if_true, reduceCtorEq, Option.some.injEq, false_iff, not_and]
      rintro rfl
      rw [expired]
      exact nofun
    | false =>
      simp only [Bool.false_eq_true, if_false, Option.some.injEq, iff_self_and]
      rintro rfl
      exact expired

theorem expired_mono {metadata : CacheObjectMeta} {now later : ℕ} (after : now ≤ later)
    (expired : metadata.expired now = true) : metadata.expired later = true := by
  simp only [CacheObjectMeta.expired, Bool.and_eq_true, decide_eq_true_eq] at expired ⊢
  omega

/-! ### The memory provider -/

namespace Volatile

/-- The metadata of the object that is held under a key. -/
def held (provider : Provider) (key : GoString) : Option CacheObjectMeta :=
  (provider.cache key).map fun item => item.value.getMetadata

def Aligned (provider : Provider) (keys : List (GoString × ℕ)) : Prop :=
  (provider.query keys).1 = keys.map fun asked => unexpired (held provider asked.1) asked.2

/-- At every key the item of the cache has expired if and only if the object has. -/
def Timely (provider : Provider) (keys : List (GoString × ℕ)) : Prop :=
  ∀ asked ∈ keys, ∀ item, provider.cache asked.1 = some item →
    (item.dead asked.2 = true ↔ item.value.getMetadata.expired asked.2 = true)

def Filled (provider : Provider) : Prop :=
  ∀ key item, provider.cache key = some item → item.value.metadata.isSome = true

section Filled

variable {provider : Provider} {key : GoString}

theorem cache_delete (provider : Provider) (key : GoString) :
    (provider.delete key).cache = Function.update provider.cache key none := by
  unfold Provider.delete
  split
  · rename_i absent
    exact (Function.update_eq_self_iff.mpr absent.symm).symm
  · rfl

theorem Filled.delete (filled : Filled provider) : Filled (provider.delete key) := by
  intro other item there
  rw [cache_delete] at there
  by_cases here : other = key
  · rw [here, Function.update_self] at there
    exact absurd there nofun
  · rw [Function.update_of_ne here] at there
    exact filled other item there

theorem Filled.set (filled : Filled provider) {item : Item} (some : item.value.metadata.isSome = true) :
    Filled (provider.set key item) := by
  intro other item' there
  by_cases here : other = key
  · rw [here] at there
    obtain rfl := Option.some.inj ((Function.update_self key _ provider.cache).symm.trans there)
    exact some
  · exact filled other item' ((Function.update_of_ne here _ provider.cache).symm.trans there)

theorem Filled.queryOne (filled : Filled provider) {now : ℕ} : Filled (provider.queryOne key now).2 := by
  unfold Provider.queryOne
  split
  · exact filled
  · split
    · exact filled.delete
    · exact filled

theorem Filled.query {keys : List (GoString × ℕ)} (filled : Filled provider) :
    Filled (provider.query keys).2 := by
  induction keys generalizing provider with
  | nil => exact filled
  | cons asked keys ih => exact @ih (provider.queryOne asked.1 asked.2).2 filled.queryOne

theorem Filled.step (filled : Filled provider) (op : Op) : Filled (provider.step op) := by
  cases op with
  | put key object stamp now now' =>
    simp only [Provider.step, Provider.put]
    split
    · exact filled
    · exact @Filled.set { provider with totalSize := _ } key filled _ rfl
  | get key now until' extended =>
    simp only [Provider.step, Provider.get]
    split
    · exact filled
    · rename_i item there
      split
      · exact filled.delete
      · exact @Filled.set provider key filled _ (filled key item there)
  | query keys => exact filled.query
  | prune key => exact filled.delete

theorem filled_run (history : List Op) : Filled (run history) := by
  have all : ∀ provider, Filled provider → Filled (history.foldl Provider.step provider) := by
    induction history with
    | nil => exact fun _ => id
    | cons op history ih => exact fun provider filled => ih _ (filled.step op)
  exact all new fun _ _ => nofun

end Filled

section Aligned

variable {provider : Provider}

theorem dead_mono {item : Item} {now later : ℕ} (after : now ≤ later) (dead : item.dead now = true) :
    item.dead later = true := by
  simp only [Item.dead, Item.expired, Bool.and_eq_true, decide_eq_true_eq] at dead ⊢
  omega

/-- An item that has expired for good may as well be gone: nothing changes for later keys. -/
theorem delete_expired {key : GoString} {item : Item} {now : ℕ} {keys : List (GoString × ℕ)}
    (there : provider.cache key = some item) (dead : item.dead now = true)
    (expired : item.value.getMetadata.expired now = true) (later : ∀ asked ∈ keys, now ≤ asked.2) :
    (keys.map fun asked => unexpired (held (provider.delete key) asked.1) asked.2) =
        keys.map (fun asked => unexpired (held provider asked.1) asked.2) ∧
      (Timely (provider.delete key) keys ↔ Timely provider keys) := by
  have other : ∀ {name}, name ≠ key → (provider.delete key).cache name = provider.cache name := by
    intro name differs
    rw [cache_delete]
    exact Function.update_of_ne differs _ _
  have gone : (provider.delete key).cache key = none := by
    rw [cache_delete]
    exact Function.update_self _ _ _
  constructor
  · refine List.map_congr_left fun asked member => ?_
    by_cases here : asked.1 = key
    · have after := expired_mono (later asked member) expired
      rw [held, held, here, gone, there, Option.map_none, Option.map_some, unexpired_some, if_pos after]
      rfl
    · rw [held, held, other here]
  · refine forall₂_congr fun asked member => ?_
    by_cases here : asked.1 = key
    · have after := later asked member
      rw [here, gone, there]
      refine ⟨fun _ item' is => ?_, fun _ _ => nofun⟩
      obtain rfl := Option.some.inj is
      exact ⟨fun _ => expired_mono after expired, fun _ => dead_mono after dead⟩
    · rw [other here]

/-- **When the answers line up**: exactly if at every key the item has expired when the object has. -/
theorem query_aligned_iff {keys : List (GoString × ℕ)} (filled : Filled provider)
    (ordered : keys.Pairwise fun earlier later => earlier.2 ≤ later.2) :
    Aligned provider keys ↔ Timely provider keys := by
  induction keys generalizing provider with
  | nil => exact ⟨fun _ => List.forall_mem_nil _, fun _ => rfl⟩
  | cons asked keys ih =>
    obtain ⟨key, now⟩ := asked
    obtain ⟨later, ordered⟩ := List.pairwise_cons.mp ordered
    have parts : Timely provider ((key, now) :: keys) ↔ (∀ item, provider.cache key = some item →
        (item.dead now = true ↔ item.value.getMetadata.expired now = true)) ∧ Timely provider keys :=
      List.forall_mem_cons
    have first : Aligned provider ((key, now) :: keys) ↔
        (provider.queryOne key now).1 = unexpired (held provider key) now ∧
          ((provider.queryOne key now).2.query keys).1 =
            keys.map fun asked => unexpired (held provider asked.1) asked.2 := List.cons_eq_cons
    rw [parts, first]
    cases there : provider.cache key with
    | none =>
      have one : provider.queryOne key now = (none, provider) := by rw [Provider.queryOne, there]
      rw [one, held, there]
      exact and_congr ⟨fun _ _ => nofun, fun _ => rfl⟩ (ih filled ordered)
    | some item =>
      have metadata : item.value.metadata = some item.value.getMetadata := by
        obtain ⟨metadata, is⟩ := Option.isSome_iff_exists.mp (filled key item there)
        rw [CacheObject.getMetadata, is]
        rfl
      have only : ∀ {P : Item → Prop}, (∀ item', some item = some item' → P item') ↔ P item :=
        ⟨fun all => all item rfl, fun holds item' is => Option.some.inj is ▸ holds⟩
      rw [held, there, Option.map_some, unexpired_some, only]
      cases dead : item.dead now with
      | true =>
        have one : provider.queryOne key now = (none, provider.delete key) := by
          rw [Provider.queryOne, there]
          exact if_pos dead
        rw [one]
        cases expired : item.value.getMetadata.expired now with
        | true =>
          obtain ⟨same, timely⟩ := delete_expired there dead expired later
          rw [← same, ← timely]
          exact and_congr ⟨fun _ => Iff.rfl, fun _ => rfl⟩ (ih filled.delete ordered)
        | false =>
          exact ⟨fun aligned => absurd aligned.1 nofun, fun timely => absurd (timely.1.mp rfl) nofun⟩
      | false =>
        have one : provider.queryOne key now = (item.value.metadata, provider) := by
          rw [Provider.queryOne, there]
          exact if_neg (by rw [dead]; exact nofun)
        rw [one, metadata]
        refine and_congr ?_ (ih filled ordered)
        cases expired : item.value.getMetadata.expired now with
        | true => exact ⟨nofun, fun timely => absurd (timely.mpr rfl) nofun⟩
        | false => exact ⟨fun _ => Iff.rfl, fun _ => rfl⟩

end Aligned

end Volatile

/-! ### The local provider -/

namespace Files

/-- The metadata of the object in the file of a key. -/
def held (site : Site) (codec : Codec) (disk : Disk) (key : GoString) : Option CacheObjectMeta :=
  if 0 ∈ keyPath site key then none
  else
    match disk.node (keyFile site key) with
    | some (.file data) =>
      match codec.unmarshal data with
      | .ok object => some object.getMetadata
      | .error _ => none
    | _ => none

def Aligned (site : Site) (codec : Codec) (env : Environment) (provider : Provider)
    (keys : List (GoString × ℕ)) : Prop :=
  ∀ objects, (query site codec env provider (keys.map Prod.fst) [] []).outcome = .ok objects →
    objects.map some = keys.map fun asked => unexpired (held site codec provider.disk asked.1) asked.2

/-- The object of the key is there and has not expired, and its file can be read. -/
def Readable (site : Site) (codec : Codec) (env : Environment) (disk : Disk) (asked : GoString × ℕ) : Prop :=
  (∃ metadata, held site codec disk asked.1 = some metadata ∧ metadata.expired asked.2 = false) ∧
    env.fails .stat (keyFile site asked.1) = false ∧ env.fails .read (keyFile site asked.1) = false

section Aligned

variable {site : Site} {codec : Codec} {env : Environment} {provider : Provider} {key : GoString}

def found (site : Site) (codec : Codec) (env : Environment) (provider : Provider) (key : GoString) :
    Option CacheObjectMeta :=
  match stat site.cwd env provider.disk (keyPath site key) with
  | .error _ => none
  | .ok _ => metadataAt site codec env provider (keyPath site key)

theorem query_panics {keys : List GoString} {objects : List CacheObjectMeta} {touched : List Location}
    (short : ∃ key ∈ keys, key.length < 2) :
    (query site codec env provider keys objects touched).outcome = .panic .sliceBounds := by
  induction keys generalizing objects touched with
  | nil =>
    obtain ⟨_, member, _⟩ := short
    exact absurd member List.not_mem_nil
  | cons key keys ih =>
    rw [query]
    split
    · rfl
    · rename_i long
      obtain ⟨other, member, is⟩ := short
      rcases List.mem_cons.mp member with rfl | member
      · exact absurd is long
      · split
        · exact ih ⟨other, member, is⟩
        · exact ih ⟨other, member, is⟩

theorem query_returns {keys : List GoString} (long : ∀ key ∈ keys, 2 ≤ key.length)
    (objects : List CacheObjectMeta) (touched : List Location) :
    (query site codec env provider keys objects touched).outcome =
      .ok (objects ++ keys.filterMap (found site codec env provider)) := by
  induction keys generalizing objects touched with
  | nil =>
    rw [query, List.filterMap_nil, List.append_nil]
  | cons key keys ih =>
    obtain ⟨here, later⟩ := List.forall_mem_cons.mp long
    rw [query, if_neg (not_lt.mpr here)]
    cases there : stat site.cwd env provider.disk (keyPath site key) with
    | error err =>
      have nothing : found site codec env provider key = none := by rw [found, there]
      rw [List.filterMap_cons_none nothing]
      exact ih later _ _
    | ok node =>
      have same : found site codec env provider key =
          metadataAt site codec env provider (keyPath site key) := by rw [found, there]
      dsimp only
      rw [ih later, List.filterMap_cons, same]
      cases metadataAt site codec env provider (keyPath site key) <;> simp

theorem found_eq_some_iff {metadata : CacheObjectMeta} :
    found site codec env provider key = some metadata ↔
      held site codec provider.disk key = some metadata ∧
        env.fails .stat (keyFile site key) = false ∧ env.fails .read (keyFile site key) = false := by
  unfold found metadataAt stat readFile held
  rw [resolve_keyPath]
  by_cases zero : 0 ∈ keyPath site key
  · simp [zero]
  · cases statFails : env.fails .stat (keyFile site key) <;>
    cases readFails : env.fails .read (keyFile site key) <;>
    rcases node : provider.disk.node (keyFile site key) with _ | _ | data <;>
    simp [zero, statFails, readFails, node]
    cases codec.unmarshal data <;> simp

theorem map_filterMap_iff {α β : Type} {f g : α → Option β} {keys : List α} :
    (keys.filterMap f).map some = keys.map g ↔ ∀ key ∈ keys, ∃ value, f key = some value ∧ g key = some value := by
  induction keys with
  | nil => exact ⟨fun _ => List.forall_mem_nil _, fun _ => rfl⟩
  | cons key keys ih =>
    rw [List.forall_mem_cons, ← ih]
    cases is : f key with
    | none =>
      rw [List.filterMap_cons_none is]
      refine ⟨fun same => ?_, fun ⟨⟨_, isSome, _⟩, _⟩ => absurd isSome nofun⟩
      have shorter := List.length_filterMap_le f keys
      have lengths := congrArg List.length same
      rw [List.length_map, List.length_map, List.length_cons] at lengths
      omega
    | some value =>
      rw [List.filterMap_cons_some is, List.map_cons, List.map_cons, List.cons_eq_cons]
      refine and_congr_left fun _ => ⟨fun same => ⟨value, rfl, same.symm⟩, ?_⟩
      rintro ⟨other, same, found⟩
      rw [same, found]

/-- **When the answers line up**: exactly if a key is too short, and nothing is returned, or every object
is there, has not expired and can be read. -/
theorem query_aligned_iff (keys : List (GoString × ℕ)) : Aligned site codec env provider keys ↔
    (∃ asked ∈ keys, asked.1.length < 2) ∨
      ∀ asked ∈ keys, Readable site codec env provider.disk asked := by
  unfold Aligned
  by_cases short : ∃ asked ∈ keys, asked.1.length < 2
  · refine ⟨fun _ => .inl short, fun _ objects returns => ?_⟩
    obtain ⟨asked, member, is⟩ := short
    have panics := @query_panics site codec env provider (keys.map Prod.fst) [] []
      ⟨asked.1, List.mem_map_of_mem member, is⟩
    exact absurd (panics.symm.trans returns) nofun
  · have long : ∀ key ∈ keys.map Prod.fst, 2 ≤ key.length := by
      intro key mapped
      obtain ⟨asked, member, rfl⟩ := List.mem_map.mp mapped
      exact not_lt.mp fun is => short ⟨asked, member, is⟩
    rw [query_returns long, or_iff_right short, List.nil_append, List.filterMap_map]
    have only : ∀ {P : List CacheObjectMeta → Prop} {objects}, (∀ objects', Outcome.ok objects =
        Outcome.ok objects' → P objects') ↔ P objects :=
      ⟨fun all => all _ rfl, fun holds _ is => Outcome.ok.inj is ▸ holds⟩
    rw [only, map_filterMap_iff]
    refine forall₂_congr fun asked _ => ?_
    simp only [Function.comp_apply, found_eq_some_iff, unexpired_eq_some_iff, Readable]
    constructor
    · rintro ⟨metadata, ⟨there, works⟩, _, fresh⟩
      exact ⟨⟨metadata, there, fresh⟩, works⟩
    · rintro ⟨⟨metadata, there, fresh⟩, works⟩
      exact ⟨metadata, ⟨there, works⟩, there, fresh⟩

end Aligned

end Files

/-! ### The S3 provider -/

namespace S3

def ObjectInfo.metadata (info : ObjectInfo) : CacheObjectMeta where
  tags := info.userTags
  expirationDate := .ofInt info.expiration
  managedFields := some ⟨info.size, (parseInt (info.entry (bytes "timestamp"))).getD 0,
    (parseInt (info.entry (bytes "score"))).getD 0, StorageLocation.s3⟩

def Aligned (bucket : GoString → Option ObjectInfo) (turns : List Turn) : Prop :=
  ∀ results, query bucket turns = .ok results →
    results = turns.map fun turn => unexpired ((bucket turn.key).map ObjectInfo.metadata) turn.now

/-- `Query` can make something of the object. -/
def Legible (info : ObjectInfo) : Prop :=
  (parseInt (info.entry (bytes "timestamp"))).isSome = true ∧
    (parseInt (info.entry (bytes "score"))).isSome = true

/-- An object is shown exactly if it has not expired. -/
def Shown (bucket : GoString → Option ObjectInfo) (turn : Turn) : Prop :=
  ∀ info, bucket turn.key = some info →
    (turn.statFails = false ∧ Legible info ↔ info.metadata.expired turn.now = false)

section Aligned

variable {bucket : GoString → Option ObjectInfo} {turn : Turn} {turns : List Turn}

theorem answer_of_some {info : ObjectInfo} (there : bucket turn.key = some info) :
    (turn.statFails = false ∧ Legible info → answer bucket turn = some info.metadata) ∧
      (¬ (turn.statFails = false ∧ Legible info) → answer bucket turn = none) := by
  unfold answer Legible ObjectInfo.metadata
  cases turn.statFails <;> cases timestamp : parseInt (info.entry (bytes "timestamp")) <;>
    cases score : parseInt (info.entry (bytes "score")) <;> simp [there, timestamp, score]

theorem answer_eq_iff :
    answer bucket turn = unexpired ((bucket turn.key).map ObjectInfo.metadata) turn.now ↔
      Shown bucket turn := by
  unfold Shown
  cases there : bucket turn.key with
  | none =>
    refine ⟨fun _ _ => nofun, fun _ => ?_⟩
    unfold answer
    cases turn.statFails <;> simp [there, unexpired_none]
  | some info =>
    obtain ⟨shown, hidden⟩ := answer_of_some there
    rw [Option.map_some, unexpired_some]
    by_cases legible : turn.statFails = false ∧ Legible info
    · rw [shown legible]
      cases expired : info.metadata.expired turn.now <;> simp [legible, expired]
    · rw [hidden legible]
      cases expired : info.metadata.expired turn.now <;> simp [legible, expired]

theorem query_fails (bucket : GoString → Option ObjectInfo)
    (ended : ∃ turn ∈ turns, turn.ctxErr.isSome = true) : ∃ err, query bucket turns = .error err := by
  induction turns with
  | nil =>
    obtain ⟨_, member, _⟩ := ended
    exact absurd member List.not_mem_nil
  | cons turn turns ih =>
    rw [query]
    cases running : turn.ctxErr with
    | some err => exact ⟨err, rfl⟩
    | none =>
      obtain ⟨other, member, is⟩ := ended
      rcases List.mem_cons.mp member with rfl | member
      · rw [running] at is
        exact absurd is nofun
      · obtain ⟨err, fails⟩ := ih ⟨other, member, is⟩
        rw [fails]
        exact ⟨err, rfl⟩

theorem query_returns (bucket : GoString → Option ObjectInfo)
    (running : ∀ turn ∈ turns, turn.ctxErr = none) :
    query bucket turns = .ok (turns.map (answer bucket)) := by
  induction turns with
  | nil => rfl
  | cons turn turns ih =>
    obtain ⟨here, later⟩ := List.forall_mem_cons.mp running
    rw [query, here, ih later]
    rfl

/-- **When the answers line up**: exactly if the context ends before a key, and an error is returned, or
every object is shown that has not expired, and no other. -/
theorem query_aligned_iff (bucket : GoString → Option ObjectInfo) (turns : List Turn) :
    Aligned bucket turns ↔ (∃ turn ∈ turns, turn.ctxErr.isSome = true) ∨
      ∀ turn ∈ turns, Shown bucket turn := by
  unfold Aligned
  by_cases ended : ∃ turn ∈ turns, turn.ctxErr.isSome = true
  · refine ⟨fun _ => .inl ended, fun _ results returns => ?_⟩
    obtain ⟨err, fails⟩ := query_fails bucket ended
    exact absurd (fails.symm.trans returns) nofun
  · have running : ∀ turn ∈ turns, turn.ctxErr = none := fun turn member =>
      Option.not_isSome_iff_eq_none.mp fun is => ended ⟨turn, member, is⟩
    rw [query_returns bucket running, or_iff_right ended]
    have only : ∀ {P : List (Option CacheObjectMeta) → Prop} {results}, (∀ results', (Except.ok results :
        Except GoString _) = .ok results' → P results') ↔ P results :=
      ⟨fun all => all _ rfl, fun holds _ is => Except.ok.inj is ▸ holds⟩
    rw [only, List.map_inj_left]
    exact forall₂_congr fun turn _ => answer_eq_iff

end Aligned

end S3

/-! ### All three -/

/-- **When the answers line up with the keys.** In the memory provider: if at every key the item of the
cache has expired exactly when the object has. In the local provider: if a key is too short, so that it
panics, or for every key there is an object that has not expired and can be read. In the S3 provider: if
the context ends before a key, so that it fails, or exactly those objects are shown that have not
expired. -/
theorem aligned_iff (history : List Volatile.Op) (asked : List (GoString × ℕ))
    (ordered : asked.Pairwise fun earlier later => earlier.2 ≤ later.2)
    (site : Files.Site) (codec : Files.Codec) (env : Environment) (provider : Files.Provider)
    (keys : List (GoString × ℕ)) (bucket : GoString → Option S3.ObjectInfo) (turns : List S3.Turn) :
    (Volatile.Aligned (Volatile.run history) asked ↔ Volatile.Timely (Volatile.run history) asked) ∧
    (Files.Aligned site codec env provider keys ↔ (∃ asked ∈ keys, asked.1.length < 2) ∨
      ∀ asked ∈ keys, Files.Readable site codec env provider.disk asked) ∧
    (S3.Aligned bucket turns ↔ (∃ turn ∈ turns, turn.ctxErr.isSome = true) ∨
      ∀ turn ∈ turns, S3.Shown bucket turn) :=
  ⟨Volatile.query_aligned_iff (Volatile.filled_run history) ordered, Files.query_aligned_iff keys,
    S3.query_aligned_iff bucket turns⟩

/-- One object in memory, and a key for which there is nothing. -/
theorem aligned_one : Volatile.Aligned
      (Volatile.run [.put (bytes "key") (Volatile.dated 1000) 0 10 20])
      [(bytes "key", 100), (bytes "other", 200)] ∧
    S3.Aligned (fun _ => none) [⟨bytes "key", 100, none, false⟩] := by
  have all := aligned_iff [.put (bytes "key") (Volatile.dated 1000) 0 10 20]
    [(bytes "key", 100), (bytes "other", 200)] (by decide) Files.cacheSite Files.dataOnly Files.calm
    (Files.new (Files.diskWith _ _ [] abc_below)) [] (fun _ => none) [⟨bytes "key", 100, none, false⟩]
  refine ⟨all.1.mpr ?_, all.2.2.mpr (.inr (List.forall_mem_singleton.mpr fun _ => nofun))⟩
  refine List.forall_mem_cons.mpr ⟨fun item there => ?_, List.forall_mem_singleton.mpr fun item there => ?_⟩
  · obtain rfl : _ = item := Option.some.inj there
    decide
  · exact absurd there nofun

/-- **An object in memory is shown after its date**, until the item expires too. **A key without a file is
passed over**, and the answer is too short. **An S3 object without a time stamp is not shown.** -/
theorem misaligned :
    ¬ Volatile.Aligned (Volatile.run [.put (bytes "key") (Volatile.dated 1000) 0 10 20])
      [(bytes "key", 1005)] ∧
    ¬ Files.Aligned Files.cacheSite Files.dataOnly Files.calm (Files.new (Files.diskWith _ _ [] abc_below))
      [(bytes "abd", 0)] ∧
    ¬ S3.Aligned (fun _ => some S3.sixBytes) [⟨bytes "key", 100, none, false⟩] := by
  refine ⟨fun aligned => ?_, fun aligned => ?_, fun aligned => ?_⟩
  · have timely := (Volatile.query_aligned_iff (Volatile.filled_run _) (by decide)).mp aligned
    exact absurd (List.forall_mem_singleton.mp timely _ rfl) (by decide)
  · rcases (Files.query_aligned_iff _).mp aligned with ⟨asked, member, short⟩ | readable
    · rw [List.mem_singleton.mp member] at short
      exact absurd short (by decide)
    · obtain ⟨⟨metadata, there, _⟩, _⟩ := List.forall_mem_singleton.mp readable
      exact absurd there nofun
  · rcases (S3.query_aligned_iff _ _).mp aligned with ⟨turn, member, ended⟩ | shown
    · rw [List.mem_singleton.mp member] at ended
      exact absurd ended nofun
    · have legible := (List.forall_mem_singleton.mp shown _ rfl).mpr (by decide)
      exact absurd legible.2.1 (by decide)

end Kubecc.Storage
