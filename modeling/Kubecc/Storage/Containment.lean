/-
**The local storage and the rest of the file system.**

The keys of `LocalStorageProvider` come from requests, and nobody looks at them. A key is cut after two
bytes and joined to the root, and the path is cleaned: a key with `..` in it leads out of the root, one
of less than two bytes cannot be cut, and keys that are cleaned to the same path are one file.

* `confined_iff` — for which keys the provider keeps to its root and keeps objects apart.
* `digests_confined` — keys of one element that is not hidden, such as digests, are of that kind.
* `not_confined` — keys that are not.
-/

import Kubecc.Storage.Files

namespace Kubecc.Storage.Files

open Kubecc.Go Kubecc.Types

/-! ### The property -/

/-- A call returns an error, or has touched only what is below the root; and it has not cut a key out of
range. -/
def Safe {α : Type} (site : Site) (called : Called α) : Prop :=
  called.outcome ≠ .panic .sliceBounds ∧
    ((∀ status, called.outcome ≠ .error status) → ∀ place ∈ called.touched, Below site.place place)

/-- **The provider keeps to its root**, for these keys, and keeps objects apart: two keys under which
objects have been stored, one after the other, have not one file. -/
structure Confined (site : Site) (codec : Codec) (keys : Set GoString) : Prop where
  put : ∀ key ∈ keys, ∀ provider, Rooted site provider → ∀ env object stamp,
    Safe site (put site codec env provider key object stamp)
  get : ∀ key ∈ keys, ∀ provider, Rooted site provider → ∀ env stamp,
    Safe site (get site codec env provider key stamp)
  query : ∀ queried : List GoString, (∀ key ∈ queried, key ∈ keys) → ∀ provider, Rooted site provider →
    ∀ env, Safe site (query site codec env provider queried [] [])
  apart : ∀ key ∈ keys, ∀ key' ∈ keys, key ≠ key' → ∀ provider, Rooted site provider →
    ∀ env env' object object' stamp stamp',
    (Files.put site codec env provider key object stamp).outcome = .ok () →
    (Files.put site codec env' (Files.put site codec env provider key object stamp).provider key' object'
      stamp').outcome = .ok () →
    keyFile site key ≠ keyFile site key'

/-- The key is long enough, and leads below the root, or nowhere. -/
def Contained (site : Site) (key : GoString) : Prop :=
  2 ≤ key.length ∧ (0 ∈ keyPath site key ∨ Below site.place (keyFile site key))

/-! ### Keys that are contained -/

section Contained

variable {site : Site} {codec : Codec} {env : Environment} {provider : Provider} {key : GoString}

theorem safe_put (rooted : Rooted site provider) (contained : Contained site key) (object : CacheObject)
    (stamp : ℕ) : Safe site (put site codec env provider key object stamp) := by
  unfold put
  split
  · exact ⟨nofun, fun _ => List.forall_mem_nil _⟩
  · rename_i metadata _
    cases outcome : (store site codec env provider key (managed object metadata stamp)).outcome with
    | ok _ =>
      refine ⟨by rw [outcome]; exact nofun, fun _ => ?_⟩
      obtain ⟨data, _, touched⟩ := store_of_ok outcome
      have below := contained.2.resolve_left (storable_of_ok rooted outcome).names
      rw [touched]
      exact List.forall_mem_cons.mpr ⟨below, below_of_mem_dirs rooted⟩
    | error status =>
      exact ⟨by rw [outcome]; exact nofun, fun none => absurd outcome (none status)⟩
    | panic panic =>
      dsimp only [store] at outcome ⊢
      rw [if_neg (not_lt.mpr contained.1)] at outcome
      split at outcome
      · exact absurd outcome nofun
      · split at outcome
        · exact absurd outcome nofun
        · split at outcome <;> exact absurd outcome nofun

theorem locate_below {node : Node} (contained : Contained site key)
    (there : stat site.cwd env provider.disk (keyPath site key) = .ok node) :
    Below site.place (locate site.cwd (keyPath site key)) := by
  obtain ⟨place, resolved, _⟩ := stat_ok_iff.mp there
  rw [locate_keyPath]
  refine contained.2.resolve_left fun zero => ?_
  rw [resolve_keyPath, if_pos zero] at resolved
  exact absurd resolved nofun

theorem retrieve_ne_sliceBounds {path : GoString} {stamp : ℕ} :
    retrieve site codec env provider path stamp ≠ .panic .sliceBounds := by
  unfold retrieve refreshed
  split
  · exact nofun
  · split
    · exact nofun
    · dsimp only
      split <;> exact nofun

theorem safe_get (contained : Contained site key) (stamp : ℕ) :
    Safe site (get site codec env provider key stamp) := by
  dsimp only [get]
  rw [if_neg (not_lt.mpr contained.1)]
  split
  · exact ⟨nofun, fun _ => List.forall_mem_nil _⟩
  · rename_i there
    exact ⟨retrieve_ne_sliceBounds, fun _ => List.forall_mem_singleton.mpr (locate_below contained there)⟩

theorem safe_query {keys : List GoString} (contained : ∀ key ∈ keys, Contained site key)
    {objects : List CacheObjectMeta} {touched : List Location}
    (below : ∀ place ∈ touched, Below site.place place) :
    Safe site (query site codec env provider keys objects touched) := by
  induction keys generalizing objects touched with
  | nil => exact ⟨nofun, fun _ => below⟩
  | cons key keys ih =>
    obtain ⟨here, later⟩ := List.forall_mem_cons.mp contained
    rw [query, if_neg (not_lt.mpr here.1)]
    split
    · exact ih later below
    · rename_i there
      refine ih later (List.forall_mem_append.mpr ⟨below, ?_⟩)
      exact List.forall_mem_singleton.mpr (locate_below here there)

end Contained

/-! ### A disk for a key -/

def diskWith (place file : Location) (data : GoString) (apart : ¬ file <:+ place) : Disk where
  node := fun other =>
    if other = file then some (.file data)
    else if other <:+ place ∨ other <:+ file then some .directory
    else none
  top := by
    have notTop : [] ≠ file := by
      rintro rfl
      exact apart (List.nil_suffix)
    rw [if_neg notTop, if_pos (.inl List.nil_suffix)]
  tree := by
    intro name parent there
    have onWay : parent <:+ place ∨ parent <:+ file ∧ parent ≠ file := by
      by_cases here : name :: parent = file
      · exact .inr ⟨here ▸ List.suffix_cons name parent, fun is => List.cons_ne_self name _ (here.trans is.symm)⟩
      · rw [if_neg here] at there
        have above : name :: parent <:+ place ∨ name :: parent <:+ file := by
          by_contra none
          exact there (if_neg none)
        refine above.imp (List.suffix_cons name parent).trans fun above => ?_
        refine ⟨(List.suffix_cons name parent).trans above, ?_⟩
        rintro rfl
        exact absurd above.length_le (by simp)
    have elsewhere : parent ≠ file := by
      rcases onWay with above | ⟨_, differs⟩
      · rintro rfl
        exact apart above
      · exact differs
    rw [if_neg elsewhere, if_pos (onWay.imp_right And.left)]

theorem directory_diskWith {place file : Location} {data : GoString} (apart : ¬ file <:+ place) :
    (diskWith place file data apart).node place = some .directory := by
  have elsewhere : place ≠ file := by
    rintro rfl
    exact apart List.suffix_rfl
  exact (if_neg elsewhere).trans (if_pos (.inl List.suffix_rfl))

theorem file_diskWith {place file : Location} {data : GoString} (apart : ¬ file <:+ place) :
    (diskWith place file data apart).node file = some (.file data) := if_pos rfl

def calm : Environment := ⟨fun _ _ => false, fun _ _ => [], none⟩

section Necessary

variable {site : Site} {codec : Codec} {keys : Set GoString} {provider : Provider} {key : GoString}
  {object : CacheObject}

theorem query_one {node : Node} (long : 2 ≤ key.length) (names : 0 ∉ keyPath site key)
    (there : provider.disk.node (keyFile site key) = some node) :
    (query site codec calm provider [key] [] []).touched = [keyFile site key] ∧
      ∀ status, (query site codec calm provider [key] [] []).outcome ≠ .error status := by
  have found : stat site.cwd calm provider.disk (keyPath site key) = .ok node :=
    stat_ok_iff.mpr ⟨_, resolve_keyPath.trans (if_neg names), rfl, there⟩
  rw [query, if_neg (not_lt.mpr long), found]
  exact ⟨congrArg (fun place => [place]) (locate_keyPath site key), fun _ => nofun⟩

theorem contained_of_confined (confined : Confined site codec keys) (member : key ∈ keys) :
    Contained site key := by
  have child : ¬ ([120] :: site.place) <:+ site.place := fun above => absurd above.length_le (by simp)
  have long : 2 ≤ key.length := by
    by_contra short
    refine (confined.get key member (new (diskWith site.place _ [] child)) (directory_diskWith child) calm
      0).1 ?_
    rw [get, if_pos (not_le.mp short)]
  refine ⟨long, or_iff_not_imp_left.mpr fun names => ?_⟩
  -- a disk on which there is something at the place of the key
  obtain ⟨provider, node, rooted, there⟩ : ∃ provider node, Rooted site provider ∧
      provider.disk.node (keyFile site key) = some node := by
    by_cases above : keyFile site key <:+ site.place
    · refine ⟨new (diskWith site.place _ [] child), .directory, directory_diskWith child, ?_⟩
      exact directory_of_suffix (directory_diskWith child) above
    · exact ⟨new (diskWith site.place _ [] above), .file [], directory_diskWith above, file_diskWith above⟩
  obtain ⟨touched, returns⟩ := @query_one site codec provider key node long names there
  have safe := confined.query [key] (List.forall_mem_singleton.mpr member) provider rooted calm
  exact safe.2 returns _ (touched ▸ List.mem_singleton_self _)

/-- There is no file but this one, which is in a directory. -/
structure Cleared (disk : Disk) (file : Location) : Prop where
  only : ∀ other data, disk.node other = some (.file data) → other = file
  inside : disk.node file.tail = some .directory
  free : disk.node file ≠ some .directory

theorem cleared_diskWith {place file : Location} {data : GoString} (apart : ¬ file <:+ place) :
    Cleared (diskWith place file data apart) file := by
  refine ⟨fun other data there => ?_, ?_, by rw [file_diskWith]; rintro ⟨⟩⟩
  · by_contra elsewhere
    have is := (if_neg elsewhere).symm.trans there
    split at is <;> cases is
  · cases file with
    | nil => exact absurd List.nil_suffix apart
    | cons name parent =>
      refine Disk.tree _ name parent ?_
      rw [file_diskWith]
      rintro ⟨⟩

theorem store_cleared (storable : Storable site key) (cleared : Cleared provider.disk (keyFile site key))
    (untagged : object.getMetadata.tags = []) :
    (store site codec calm provider key object).outcome = .ok () ∧
      Cleared (store site codec calm provider key object).provider.disk (keyFile site key) := by
  obtain ⟨data, marshals⟩ := codec.untagged object untagged
  have made := makeDirs_spec calm provider.disk (keyDir site key)
  have dirs : (dirsOf site calm provider key).ok = true := by
    refine makeDirs_ok (fun _ => rfl) fun other data onWay there => storable.notDir ?_
    rw [← cleared.only other data there]
    exact onWay
  have old : ∀ other data, (dirsOf site calm provider key).disk.node other = some (.file data) →
      other = keyFile site key := by
    intro other data there
    cases before : provider.disk.node other with
    | none =>
      rcases made.fresh other before with none | ⟨dir, _⟩
      · cases none.symm.trans there
      · cases dir.symm.trans there
    | some node =>
      refine cleared.only other data ?_
      exact (made.kept other (by rw [before]; rintro ⟨⟩)).symm.trans there
  have inside : (dirsOf site calm provider key).disk.node (keyFile site key).tail = some .directory :=
    (made.kept _ (by rw [cleared.inside]; rintro ⟨⟩)).trans cleared.inside
  have free : (dirsOf site calm provider key).disk.node (keyFile site key) ≠ some .directory := by
    intro dir
    cases before : provider.disk.node (keyFile site key) with
    | none =>
      rcases made.fresh _ before with none | ⟨_, onWay⟩
      · cases none.symm.trans dir
      · exact storable.notDir onWay
    | some node =>
      have same := made.kept (keyFile site key) (by rw [before]; rintro ⟨⟩)
      exact cleared.free (same.symm.trans dir)
  have ok : (store site codec calm provider key object).outcome = .ok () := by
    refine store_ok_iff.mpr ⟨data, ⟨storable.long, storable.dirNames, dirs, marshals⟩, ?_⟩
    exact writeFile_ok_iff.mpr ⟨_, resolve_keyPath.trans (if_neg storable.names), rfl, inside, free⟩
  obtain ⟨data, node, _⟩ := store_of_ok ok
  have tail : (keyFile site key).tail ≠ keyFile site key := by
    intro is
    cases place : keyFile site key with
    | nil => exact storable.notAbove (place ▸ List.nil_suffix)
    | cons name parent =>
      rw [place] at is
      exact List.cons_ne_self name parent is.symm
  refine ⟨ok, fun other data there => ?_, ?_, ?_⟩
  · by_contra elsewhere
    rw [node, Function.update_of_ne elsewhere] at there
    exact elsewhere (old other data there)
  · rw [node, Function.update_of_ne tail]
    exact inside
  · rw [node, Function.update_self]
    rintro ⟨⟩

theorem storable_of_put {env : Environment} {stamp : ℕ} (rooted : Rooted site provider)
    (ok : (put site codec env provider key object stamp).outcome = .ok ()) : Storable site key := by
  unfold put at ok
  split at ok
  · exact absurd ok nofun
  · exact storable_of_ok rooted ok

theorem rooted_put {env : Environment} {stamp : ℕ} (rooted : Rooted site provider)
    (ok : (put site codec env provider key object stamp).outcome = .ok ()) :
    Rooted site (put site codec env provider key object stamp).provider := by
  have storable := storable_of_put rooted ok
  unfold put at ok ⊢
  split at ok
  · exact absurd ok nofun
  · obtain ⟨data, node, _⟩ := store_of_ok ok
    have elsewhere : site.place ≠ keyFile site key := fun same =>
      storable.notAbove (same ▸ List.suffix_rfl)
    have kept := (makeDirs_spec env provider.disk (keyDir site key)).kept site.place
      (by rw [rooted]; exact nofun)
    unfold Rooted
    rw [node, Function.update_of_ne elsewhere]
    exact kept.trans rooted

theorem confined_of (contained : ∀ key ∈ keys, Contained site key)
    (apart : ∀ key ∈ keys, ∀ key' ∈ keys, key ≠ key' → keyFile site key = keyFile site key' →
      ¬ (Storable site key ∧ Storable site key')) : Confined site codec keys where
  put key member provider rooted env object stamp := safe_put rooted (contained key member) object stamp
  get key member provider _ env stamp := safe_get (contained key member) stamp
  query queried members provider _ env :=
    safe_query (fun key member => contained key (members key member)) (List.forall_mem_nil _)
  apart := by
    intro key member key' member' differ provider rooted env env' object object' stamp stamp' ok ok' same
    have storable := storable_of_put rooted ok
    have storable' := storable_of_put (rooted_put rooted ok) ok'
    exact apart key member key' member' differ same ⟨storable, storable'⟩

theorem not_storable_of_confined (confined : Confined site codec keys) {key' : GoString}
    (member : key ∈ keys) (member' : key' ∈ keys) (differ : key ≠ key')
    (same : keyFile site key = keyFile site key') : ¬ (Storable site key ∧ Storable site key') := by
  rintro ⟨storable, storable'⟩
  have plain : (managed ⟨[], some .empty⟩ .empty 0).getMetadata.tags = [] := rfl
  have first := @store_cleared site codec (new (diskWith site.place _ [] storable.notAbove)) key _
    storable (cleared_diskWith storable.notAbove) plain
  have second := @store_cleared site codec _ key' _ storable' (by rw [← same]; exact first.2) plain
  exact confined.apart key member key' member' differ (new (diskWith site.place _ [] storable.notAbove))
    (directory_diskWith storable.notAbove) calm calm ⟨[], some .empty⟩ ⟨[], some .empty⟩ 0 0 first.1
    second.1 same

/-- **When the provider keeps to its root**, and objects apart: every key leads below the root or nowhere,
and of two keys that lead to one file, one cannot be stored under. -/
theorem confined_iff (site : Site) (codec : Codec) (keys : Set GoString) :
    Confined site codec keys ↔ (∀ key ∈ keys, Contained site key) ∧
      ∀ key ∈ keys, ∀ key' ∈ keys, key ≠ key' → keyFile site key = keyFile site key' →
        ¬ (Storable site key ∧ Storable site key') := by
  constructor
  · intro confined
    exact ⟨fun key member => contained_of_confined confined member,
      fun key member key' member' => not_storable_of_confined confined member member'⟩
  · rintro ⟨contained, apart⟩
    exact confined_of contained apart

end Necessary

/-! ### Digests and other keys -/

/-- A key of one element that is not hidden. -/
def Plain (key : GoString) : Prop := 2 ≤ key.length ∧ byte '/' ∉ key ∧ key.head? ≠ some (byte '.')

theorem walk_plain {path : GoString} (place : Location) (nonempty : path ≠ [])
    (slashless : byte '/' ∉ path) (visible : path.head? ≠ some (byte '.')) :
    walk place path = path :: place := by
  have fields : split path (byte '/') = [path] := List.splitOn_eq_singleton slashless
  rw [walk, fields, List.foldl_cons, List.foldl_nil]
  refine cleanElem_enter (not_or.mpr ⟨nonempty, ?_⟩) ?_ <;>
  · rintro rfl
    exact visible rfl

theorem keyFile_plain {site : Site} {key : GoString} (plain : Plain key) :
    keyFile site key = key :: key.take 2 :: site.place := by
  obtain ⟨long, slashless, visible⟩ := plain
  have nonempty : key ≠ [] := by
    rintro rfl
    exact absurd long (by decide)
  have dir : keyDir site key = key.take 2 :: site.place := by
    refine walk_plain site.place ?_ (fun member => slashless (List.mem_of_mem_take member)) ?_
    · exact fun empty => nonempty ((List.take_eq_nil_iff.mp empty).resolve_left (by decide))
    · rw [List.head?_take, if_neg (by decide)]
      exact visible
  rw [keyFile, dir, walk_plain _ nonempty slashless visible]

/-- **Digests are kept below the root and apart.** -/
theorem digests_confined (site : Site) (codec : Codec) : Confined site codec {key | Plain key} := by
  refine confined_of (fun key plain => ⟨plain.1, .inr ?_⟩) fun key plain key' plain' differ same _ => ?_
  · rw [keyFile_plain plain]
    exact ⟨[key, key.take 2], List.cons_ne_nil _ _, rfl⟩
  · rw [keyFile_plain plain, keyFile_plain plain'] at same
    exact differ (List.cons.inj same).1

def cacheSite : Site := ⟨[], bytes "/var/cache", by decide⟩

/-- An encoding that keeps the data, of objects as `Put` stores them. -/
def dataOnly : Codec where
  marshal object := .ok object.data
  unmarshal data := .ok (managed ⟨data, none⟩ .empty 0)
  untagged object _ := ⟨object.data, rfl⟩

/-- **A key of one byte cannot be cut. A key with `..` in it leads out. Two keys lead to one file.** -/
theorem not_confined :
    ¬ Confined cacheSite dataOnly {bytes "a"} ∧ ¬ Confined cacheSite dataOnly {bytes "../../etc/passwd"} ∧
      ¬ Confined cacheSite dataOnly {bytes "abc", bytes "ab/../abc"} := by
  refine ⟨fun confined => ?_, fun confined => ?_, fun confined => ?_⟩
  · exact absurd (contained_of_confined confined rfl).1 (by decide)
  · obtain ⟨_, zero | ⟨names, nonempty, below⟩⟩ := contained_of_confined confined rfl
    · exact absurd zero (by decide)
    · have place : keyFile cacheSite (bytes "../../etc/passwd") = [bytes "passwd", bytes "etc"] := by decide
      have root : cacheSite.place = [bytes "cache", bytes "var"] := by decide
      rw [place, root] at below
      have lengths := congrArg List.length below
      rw [List.length_append] at lengths
      exact nonempty (List.length_eq_zero_iff.mp (by simpa using lengths))
  · refine not_storable_of_confined confined (.inl rfl) (.inr rfl) (by decide) (by decide) ⟨?_, ?_⟩
    · exact ⟨by decide, by decide, by decide, by decide, by decide⟩
    · exact ⟨by decide, by decide, by decide, by decide, by decide⟩

end Kubecc.Storage.Files
