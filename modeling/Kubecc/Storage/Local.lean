/-
**The accounts of the local storage.**

`LocalStorageProvider` of `pkg/storage/local.go`: the files under its root, the two counters, the `Put`
calls in progress, and the goroutines that handle expirations. The notifier is taken by what it does
for them: any hash that was added may be sent on `expirationChan`, whether its date has come or its
expiration was forced by `DeleteObjectsClosestToExpiration` (`Notifier.notified_wasAdded`). Nobody else
touches the directory and no file operation fails.

The size of an object enters the accounts in two ways: `Put` adds the length of its data, `Configure`
adds and the expiration handler subtracts the length of its file.

* `Kept` — each counter, with what is still to be added to it, is what the files amount to, with what
  is still to be subtracted from it.
* `accounted_of_sound` — in every run in which each operation finds what its bookkeeping assumes, the
  counters are never negative and are right whenever nothing is in progress.
* `unaccounted_runs` — an overwritten object, a file that does not unmarshal, an expiration.
-/

import Kubecc.Lib.Process
import Kubecc.Storage.ExpirationNotifier

namespace Kubecc.Storage.Local

open Kubecc.Go Kubecc.Lib

abbrev Path := GoString

/-- What the accounts see of a `types.CacheObject`. -/
structure CacheObject where
  data : GoString
  expirationDate : Time
deriving DecidableEq

/-- A file: its length, and the object that `proto.Unmarshal` makes of it, if it does. -/
structure File where
  length : Nat
  object : Option CacheObject
deriving DecidableEq

/-- Where a `Put` call stands: it has written the file, added to `totalSize`, added to `numObjects`. -/
inductive Put
  | called
  | written
  | sized
  | counted
deriving DecidableEq

/-- Where an expiration handler stands, in the turn of its loop for one hash. -/
inductive Handler
  | idle
  | received (hash : GoString)
  | statted (path : Path) (size : Nat)
  | removed (size : Nat)
  | subtracted
deriving DecidableEq

/-- The goroutines: every `Configure` starts one more handler. -/
inductive Proc
  | put (hash : GoString) (object : CacheObject) (state : Put)
  | handler (state : Handler)
deriving DecidableEq

/-- The directory and the provider's fields. `content` matters at the paths in `files`. -/
structure Provider where
  files : Finset Path
  content : Path → File
  numObjects : Int
  totalSize : Int
  added : Finset GoString
  expirationChan : List GoString

abbrev State := Config Provider Proc

/-! ### Configure -/

/-- What the walk over the directory has gathered. -/
structure Walked where
  numObjects : Int
  totalSize : Int
  toDelete : List Path
  added : Finset GoString

/-- The walk's function, at one file. -/
def visit (content : Path → File) (walked : Walked) (path : Path) : Walked :=
  let numObjects := walked.numObjects + 1
  let totalSize := walked.totalSize + (content path).length
  match (content path).object with
  | none => { walked with numObjects, totalSize, toDelete := walked.toDelete ++ [path] }
  | some _ => { walked with numObjects, totalSize, added := insert (base path) walked.added }

/-- `Configure`, up to the goroutines it starts, if the walk meets the files in this order. -/
def configure (order : List Path) (mem : Provider) : Provider :=
  let walked := order.foldl (visit mem.content) ⟨0, 0, [], mem.added⟩
  { mem with
    files := mem.files \ walked.toDelete.toFinset
    numObjects := walked.numObjects
    totalSize := walked.totalSize
    added := walked.added }

def new (files : Finset Path) (content : Path → File) : Provider where
  files := files
  content := content
  numObjects := 0
  totalSize := 0
  added := ∅
  expirationChan := []

/-- The provider after its first `Configure`. -/
def start (order : List Path) (content : Path → File) : State :=
  .ofList (configure order (new order.toFinset content)) [.handler .idle]

/-! ### The steps -/

inductive Event
  | configure
  | write (path : Path) (object : CacheObject) (file : File)
  | remove (path : Path)
  | internal

section Steps

-- `path.Join(p.root, hash[0:2], hash)`, and the length of what `proto.Marshal` makes of an object that
-- is stored at a time
variable (join : GoString → Path) (encodedLength : CacheObject → Time → Nat)

/-- **The steps of the provider.** A hash of less than two bytes makes the slice expression panic, and
the goroutine does nothing more. -/
inductive Act : Rules Provider Proc Event
  -- the environment
  | configure {mem} (order : List Path) : order.Nodup → order.toFinset = mem.files →
      Act .configure mem [] (configure order mem) [.handler .idle]
  | call {mem} (hash : GoString) (object : CacheObject) :
      Act .internal mem [] mem [.put hash object .called]
  | expire {mem} {hash : GoString} : hash ∈ mem.added →
      mem.expirationChan.length < Notifier.capacity →
      Act .internal mem [] { mem with expirationChan := mem.expirationChan ++ [hash] } []
  -- Put
  | write {mem} {hash : GoString} {object : CacheObject} (now : Time) : 2 ≤ hash.length →
      Act (.write (join hash) object ⟨encodedLength object now, some object⟩) mem
        [.put hash object .called]
        { mem with
          files := insert (join hash) mem.files
          content := Function.update mem.content (join hash)
            ⟨encodedLength object now, some object⟩ }
        [.put hash object .written]
  | addSize {mem} {hash : GoString} {object : CacheObject} :
      Act .internal mem [.put hash object .written]
        { mem with totalSize := mem.totalSize + object.data.length } [.put hash object .sized]
  | increment {mem} {hash : GoString} {object : CacheObject} :
      Act .internal mem [.put hash object .sized]
        { mem with numObjects := mem.numObjects + 1 } [.put hash object .counted]
  | add {mem} {hash : GoString} {object : CacheObject} :
      Act .internal mem [.put hash object .counted] { mem with added := insert hash mem.added } []
  -- the expiration handler; its context may be done
  | stop {mem} : Act .internal mem [.handler .idle] mem []
  | receive {mem} {hash : GoString} {queue : List GoString} : mem.expirationChan = hash :: queue →
      Act .internal mem [.handler .idle] { mem with expirationChan := queue }
        [.handler (.received hash)]
  | stat {mem} {hash : GoString} : 2 ≤ hash.length → join hash ∈ mem.files →
      Act .internal mem [.handler (.received hash)] mem
        [.handler (.statted (join hash) (mem.content (join hash)).length)]
  | statFails {mem} {hash : GoString} : 2 ≤ hash.length → join hash ∉ mem.files →
      Act .internal mem [.handler (.received hash)] mem [.handler .idle]
  | remove {mem} {path : Path} {size : Nat} : path ∈ mem.files →
      Act (.remove path) mem [.handler (.statted path size)]
        { mem with files := mem.files.erase path } [.handler (.removed size)]
  | removeFails {mem} {path : Path} {size : Nat} : path ∉ mem.files →
      Act .internal mem [.handler (.statted path size)] mem [.handler .idle]
  | subtract {mem} {size : Nat} :
      Act .internal mem [.handler (.removed size)] { mem with totalSize := mem.totalSize - size }
        [.handler .subtracted]
  | decrement {mem} :
      Act .internal mem [.handler .subtracted] { mem with numObjects := mem.numObjects - 1 }
        [.handler .idle]

end Steps

/-! ### The property -/

/-- The two ways to measure an object. -/
inductive Measure
  | payload
  | file
deriving DecidableEq

def Measure.size : Measure → File → Nat
  | .payload, stored => (stored.object.map fun object => object.data.length).getD 0
  | .file, stored => stored.length

/-- **The counters are right**: the number of the files, and the sum of their sizes. -/
def Accounted (measure : Measure) (mem : Provider) : Prop :=
  mem.numObjects = mem.files.card ∧
    mem.totalSize = ((∑ path ∈ mem.files, measure.size (mem.content path) : ℕ) : Int)

def Quiet (config : State) : Prop := ∀ proc ∈ config.procs, proc = .handler .idle

def NonNegative (mem : Provider) : Prop := 0 ≤ mem.numObjects ∧ 0 ≤ mem.totalSize

/-- Every file holds an object whose size is the length of the file. -/
def WellMeasured (measure : Measure) (files : Finset Path) (content : Path → File) : Prop :=
  ∀ path ∈ files, (content path).object.isSome ∧ measure.size (content path) = (content path).length

/-- The path of a file that a `Put` call has written and not yet counted. -/
def Proc.uncounted (join : GoString → Path) : Proc → Option Path
  | .put hash _ .written | .put hash _ .sized => some (join hash)
  | _ => none

/-- The condition, for one measure. `Configure` finds nothing in progress, and only files it can
measure; `Put` writes a new file at a path that no handler is about to remove, and its data has the
size of the object; a handler removes a file whose `Put` has been counted, and the file has the size
of the object. -/
def Sound (join : GoString → Path) (measure : Measure) (config : State) : Event → Prop
  | .configure => Quiet config ∧ WellMeasured measure config.mem.files config.mem.content
  | .write path object file => path ∉ config.mem.files ∧
      (∀ proc ∈ config.procs, ∀ size, proc ≠ .handler (.statted path size)) ∧
      measure.size file = object.data.length
  | .remove path => (∀ proc ∈ config.procs, proc.uncounted join ≠ some path) ∧
      measure.size (config.mem.content path) = (config.mem.content path).length
  | .internal => True

/-! ### What is still to be booked -/

/-- What a `Put` call has still to add to `numObjects`. -/
def incoming (join : GoString → Path) (proc : Proc) : ℕ := ((proc.uncounted join).map fun _ => 1).getD 0

/-- What a handler has still to take from `numObjects`. -/
def outgoing : Proc → ℕ
  | .handler (.removed _) | .handler .subtracted => 1
  | _ => 0

/-- What a `Put` call has still to add to `totalSize`. -/
def incomingSize : Proc → ℕ
  | .put _ object .written => object.data.length
  | _ => 0

/-- What a handler has still to take from `totalSize`. -/
def outgoingSize : Proc → ℕ
  | .handler (.removed size) => size
  | _ => 0

/-- **A counter balances**: with what is still to come in, it is what the files are worth, with what is
still to go out. -/
def Balances (worth : File → ℕ) (incoming outgoing : Proc → ℕ) (counter : Int) (files : Finset Path)
    (content : Path → File) (procs : Multiset Proc) : Prop :=
  counter + (total incoming procs : ℕ) =
    ((∑ path ∈ files, worth (content path) : ℕ) : Int) + (total outgoing procs : ℕ)

section Balances

variable {worth : File → ℕ} {incoming outgoing : Proc → ℕ} {counter : Int} {files : Finset Path}
  {content : Path → File} {acting left : List Proc} {rest : Multiset Proc}

theorem Balances.book (balances : Balances worth incoming outgoing counter files content (↑acting + rest))
    {counter' : Int}
    (moved : counter' - counter + total incoming ↑left + total outgoing ↑acting =
      total incoming ↑acting + total outgoing ↑left) :
    Balances worth incoming outgoing counter' files content (↑left + rest) := by
  unfold Balances at balances ⊢
  simp only [total_add, Nat.cast_add] at balances ⊢
  omega

theorem Balances.write (balances : Balances worth incoming outgoing counter files content (↑acting + rest))
    {path : Path} {file : File} (absent : path ∉ files)
    (arrives : total incoming ↑left = total incoming ↑acting + worth file)
    (same : total outgoing ↑left = total outgoing ↑acting) :
    Balances worth incoming outgoing counter (insert path files)
      (Function.update content path file) (↑left + rest) := by
  have others : ∑ other ∈ files, worth (Function.update content path file other) =
      ∑ other ∈ files, worth (content other) := by
    refine Finset.sum_congr rfl fun other member => ?_
    rw [Function.update_of_ne (ne_of_mem_of_not_mem member absent)]
  unfold Balances at balances ⊢
  rw [Finset.sum_insert absent, others, Function.update_self]
  simp only [total_add, Nat.cast_add] at balances ⊢
  omega

theorem Balances.remove (balances : Balances worth incoming outgoing counter files content (↑acting + rest))
    {path : Path} (there : path ∈ files)
    (leaves : total outgoing ↑left = total outgoing ↑acting + worth (content path))
    (same : total incoming ↑left = total incoming ↑acting) :
    Balances worth incoming outgoing counter (files.erase path) content (↑left + rest) := by
  have split := Finset.sum_erase_add files (fun other => worth (content other)) there
  unfold Balances at balances ⊢
  simp only [total_add, Nat.cast_add] at balances ⊢
  omega

theorem Balances.nonNegative {procs : Multiset Proc}
    (balances : Balances worth incoming outgoing counter files content procs)
    (covered : total incoming procs ≤ ∑ path ∈ files, worth (content path)) : 0 ≤ counter := by
  unfold Balances at balances
  omega

theorem Balances.settled {procs : Multiset Proc}
    (balances : Balances worth incoming outgoing counter files content procs)
    (noneIn : ∀ proc ∈ procs, incoming proc = 0) (noneOut : ∀ proc ∈ procs, outgoing proc = 0) :
    counter = ((∑ path ∈ files, worth (content path) : ℕ) : Int) := by
  unfold Balances at balances
  rw [total_eq_zero noneIn, total_eq_zero noneOut] at balances
  simpa using balances

end Balances

/-! ### The walk -/

theorem walk_spec (content : Path → File) (order : List Path)
    (wellFormed : ∀ path ∈ order, (content path).object.isSome) (walked : Walked) :
    (order.foldl (visit content) walked).numObjects = walked.numObjects + order.length ∧
      (order.foldl (visit content) walked).totalSize =
        walked.totalSize + ((order.map fun path => (content path).length).sum : ℕ) ∧
      (order.foldl (visit content) walked).toDelete = walked.toDelete := by
  induction order generalizing walked with
  | nil => simp
  | cons path order ih =>
    rw [List.forall_mem_cons] at wellFormed
    obtain ⟨object, is⟩ := Option.isSome_iff_exists.mp wellFormed.1
    obtain ⟨objects, size, toDelete⟩ := ih wellFormed.2 (visit content walked path)
    rw [List.foldl_cons, objects, size, toDelete]
    simp only [visit, is, List.length_cons, List.map_cons, List.sum_cons]
    refine ⟨?_, ?_, trivial⟩ <;> push_cast <;> ring

theorem configure_spec {order : List Path} (nodup : order.Nodup) {mem : Provider}
    (all : order.toFinset = mem.files)
    (wellFormed : ∀ path ∈ mem.files, (mem.content path).object.isSome) :
    (configure order mem).files = mem.files ∧
      (configure order mem).numObjects = ((∑ _path ∈ mem.files, 1 : ℕ) : Int) ∧
      (configure order mem).totalSize =
        ((∑ path ∈ mem.files, (mem.content path).length : ℕ) : Int) := by
  have member : ∀ path ∈ order, path ∈ mem.files := fun path member =>
    all ▸ List.mem_toFinset.mpr member
  obtain ⟨objects, size, toDelete⟩ := walk_spec mem.content order
    (fun path there => wellFormed path (member path there)) ⟨0, 0, [], mem.added⟩
  refine ⟨?_, ?_, ?_⟩
  · simp [configure, toDelete]
  · rw [configure, objects, ← all, Finset.sum_const, List.toFinset_card_of_nodup nodup]
    simp
  · rw [configure, size, ← all, List.sum_toFinset _ nodup]
    simp

/-! ### The invariant -/

structure Kept (join : GoString → Path) (measure : Measure) (config : State) : Prop where
  objects : Balances (fun _ => 1) (incoming join) outgoing config.mem.numObjects config.mem.files
    config.mem.content config.procs
  size : Balances measure.size incomingSize outgoingSize config.mem.totalSize config.mem.files
    config.mem.content config.procs
  -- a file that was written and not yet counted is there, and only one call has still to count it
  written : ∀ proc ∈ config.procs, ∀ path, proc.uncounted join = some path →
    path ∈ config.mem.files ∧ incomingSize proc ≤ measure.size (config.mem.content path)
  single : ∀ path, total (tally (Proc.uncounted join) path) config.procs ≤ 1
  statted : ∀ proc ∈ config.procs, ∀ path size, proc = .handler (.statted path size) →
    path ∈ config.mem.files → (config.mem.content path).length = size

section Kept

variable {join : GoString → Path} {measure : Measure} {config : State}

theorem incomingSize_eq_zero {proc : Proc} (counted : proc.uncounted join = none) :
    incomingSize proc = 0 := by
  cases proc with
  | put hash object state =>
    cases state with
    | written => exact absurd counted nofun
    | called | sized | counted => rfl
  | handler => rfl

/-- What is still to come in is there among the files. -/
theorem Kept.nonNegative (kept : Kept join measure config) : NonNegative config.mem := by
  constructor
  · refine kept.objects.nonNegative (total_le_sum config.mem.files ?_ ?_ kept.single)
    · intro proc _ none
      rw [incoming, none]
      rfl
    · intro proc member path is
      refine ⟨(kept.written proc member path is).1, ?_⟩
      rw [incoming, is]
      rfl
  · exact kept.size.nonNegative (total_le_sum config.mem.files
      (fun _ _ none => incomingSize_eq_zero none) kept.written kept.single)

theorem Kept.accounted (kept : Kept join measure config) (quiet : Quiet config) :
    Accounted measure config.mem := by
  constructor
  · rw [kept.objects.settled (fun proc member => quiet proc member ▸ rfl)
      (fun proc member => quiet proc member ▸ rfl), ← Finset.card_eq_sum_ones]
  · exact kept.size.settled (fun proc member => quiet proc member ▸ rfl)
      (fun proc member => quiet proc member ▸ rfl)

theorem kept_configure {order : List Path} (nodup : order.Nodup) {mem : Provider}
    {procs : Multiset Proc} (all : order.toFinset = mem.files)
    (measured : WellMeasured measure mem.files mem.content)
    (quiet : ∀ proc ∈ procs, proc = .handler .idle) :
    Kept join measure ⟨configure order mem, procs⟩ := by
  obtain ⟨files, objects, size⟩ :=
    configure_spec nodup all fun path member => (measured path member).1
  have none : ∀ (weight : Proc → ℕ), weight (.handler .idle) = 0 → total weight procs = 0 :=
    fun weight zero => total_eq_zero fun proc member => quiet proc member ▸ zero
  refine ⟨?_, ?_, ?_, ?_, ?_⟩
  · unfold Balances
    rw [files, objects, none _ rfl, none _ rfl]
  · unfold Balances
    rw [files, size, none _ rfl, none _ rfl]
    congr 2
    exact Finset.sum_congr rfl fun path member => (measured path member).2.symm
  · intro proc member path is
    rw [quiet proc member] at is
    exact absurd is nofun
  · intro path
    rw [none _ rfl]
    exact Nat.zero_le _
  · intro proc member path bytes is
    rw [quiet proc member] at is
    exact absurd is nofun

section Act

variable {mem mem' : Provider} {acting left : List Proc} {rest : Multiset Proc}

theorem Kept.book (kept : Kept join measure ⟨mem, ↑acting + rest⟩) (files : mem'.files = mem.files)
    (content : mem'.content = mem.content)
    (objects : mem'.numObjects - mem.numObjects + total (incoming join) ↑left +
      total outgoing ↑acting = total (incoming join) ↑acting + total outgoing ↑left)
    (size : mem'.totalSize - mem.totalSize + total incomingSize ↑left +
      total outgoingSize ↑acting = total incomingSize ↑acting + total outgoingSize ↑left)
    (written : ∀ proc ∈ left, ∀ path, proc.uncounted join = some path →
      ∃ before ∈ acting, before.uncounted join = some path ∧
        incomingSize proc ≤ incomingSize before)
    (single : ∀ path, total (tally (Proc.uncounted join) path) ↑left ≤
      total (tally (Proc.uncounted join) path) ↑acting)
    (statted : ∀ proc ∈ left, ∀ path size, proc = .handler (.statted path size) →
      path ∈ mem.files → (mem.content path).length = size) :
    Kept join measure ⟨mem', ↑left + rest⟩ where
  objects := by
    simp only [files, content]
    exact kept.objects.book objects
  size := by
    simp only [files, content]
    exact kept.size.book size
  written := by
    simp only [files, content]
    refine forall_mem_fire kept.written (fun before proc member path is => ?_) fun _ _ => id
    obtain ⟨earlier, acts, named, le⟩ := written proc member path is
    exact ⟨(before earlier acts path named).1, le.trans (before earlier acts path named).2⟩
  single path := by
    have once := kept.single path
    have le := single path
    simp only [total_add] at once ⊢
    omega
  statted := by
    simp only [files, content]
    exact forall_mem_fire kept.statted (fun _ => statted) fun _ _ => id

theorem Kept.write {hash : GoString} {object : CacheObject} {file : File}
    (kept : Kept join measure ⟨mem, ↑[Proc.put hash object .called] + rest⟩)
    (ok : Sound join measure ⟨mem, ↑[Proc.put hash object .called] + rest⟩
      (.write (join hash) object file)) :
    Kept join measure
      ⟨{ mem with
          files := insert (join hash) mem.files
          content := Function.update mem.content (join hash) file },
        ↑[Proc.put hash object .written] + rest⟩ := by
  obtain ⟨absent, unseen, measured⟩ := ok
  have elsewhere : ∀ path ∈ mem.files,
      Function.update mem.content (join hash) file path = mem.content path := fun path member =>
    Function.update_of_ne (ne_of_mem_of_not_mem member absent) _ _
  refine ⟨?_, ?_, ?_, ?_, ?_⟩
  · exact kept.objects.write absent rfl rfl
  · exact kept.size.write absent (by simp [incomingSize, measured]) rfl
  · refine forall_mem_fire kept.written (fun _ => ?_) fun proc _ before path is => ?_
    · refine List.forall_mem_singleton.mpr fun path is => ?_
      obtain rfl : join hash = path := Option.some.inj is
      refine ⟨Finset.mem_insert_self _ _, ?_⟩
      show object.data.length ≤ measure.size (Function.update mem.content (join hash) file (join hash))
      rw [Function.update_self, measured]
    · obtain ⟨there, le⟩ := before path is
      exact ⟨Finset.mem_insert_of_mem there,
        le.trans_eq (congrArg measure.size (elsewhere path there).symm)⟩
  · -- whoever has a file to count has it in the directory, and this one was not there
    intro path
    have once := kept.single path
    simp only [total_add, total_coe_cons, total_coe_nil] at once ⊢
    rw [tally_of_eq_some (show (Proc.put hash object .written).uncounted join = some (join hash) from rfl)]
    by_cases same : join hash = path
    · have none : total (tally (Proc.uncounted join) path) rest = 0 := by
        refine total_eq_zero fun proc member => if_neg fun is => absent ?_
        exact same ▸ (kept.written proc (mem_of_rest member) path is).1
      rw [if_pos same, none]
    · rw [if_neg same]
      omega
  · refine forall_mem_fire kept.statted (fun _ => ?_) fun proc member before path size is there => ?_
    · exact List.forall_mem_singleton.mpr (by rintro _ _ ⟨⟩)
    · rcases Finset.mem_insert.mp there with rfl | there
      · exact absurd is (unseen proc (mem_of_rest member) size)
      · exact (congrArg File.length (elsewhere path there)).trans (before path size is there)

theorem Kept.remove {path : Path} {size : Nat}
    (kept : Kept join measure ⟨mem, ↑[Proc.handler (.statted path size)] + rest⟩)
    (there : path ∈ mem.files)
    (ok : Sound join measure ⟨mem, ↑[Proc.handler (.statted path size)] + rest⟩ (.remove path)) :
    Kept join measure
      ⟨{ mem with files := mem.files.erase path }, ↑[Proc.handler (.removed size)] + rest⟩ := by
  obtain ⟨counted, measured⟩ := ok
  have length : (mem.content path).length = size :=
    kept.statted _ mem_acting
      path size rfl there
  refine ⟨?_, ?_, ?_, fun other => ?_, ?_⟩
  · exact kept.objects.remove there rfl rfl
  · refine kept.size.remove there ?_ rfl
    rw [measured, length]
    simp [outgoingSize]
  · refine forall_mem_fire kept.written (fun _ => ?_) fun proc member before other is => ?_
    · exact List.forall_mem_singleton.mpr (by rintro _ ⟨⟩)
    · obtain ⟨inside, le⟩ := before other is
      refine ⟨Finset.mem_erase.mpr ⟨?_, inside⟩, le⟩
      rintro rfl
      exact counted proc (mem_of_rest member) is
  · simpa [tally, Proc.uncounted] using kept.single other
  · refine forall_mem_fire kept.statted (fun _ => ?_) fun proc _ before other bytes is inside => ?_
    · exact List.forall_mem_singleton.mpr (by rintro _ _ ⟨⟩)
    · exact before other bytes is (Finset.mem_of_mem_erase inside)

theorem kept_act {encodedLength : CacheObject → Time → Nat} {event : Event}
    (act : Act join encodedLength event mem acting mem' left)
    (ok : Sound join measure ⟨mem, ↑acting + rest⟩ event)
    (kept : Kept join measure ⟨mem, ↑acting + rest⟩) : Kept join measure ⟨mem', ↑left + rest⟩ := by
  cases act with
  | configure order nodup all =>
    refine kept_configure nodup all ok.2 fun proc member => ?_
    rcases mem_fire.mp member with member | member
    · exact List.mem_singleton.mp member
    · exact ok.1 proc (mem_of_rest member)
  | write _ _ => exact kept.write ok
  | remove there => exact kept.remove there ok
  | call | expire | addSize | increment | add | stop | receive | stat | statFails | removeFails
  | subtract | decrement =>
    refine kept.book rfl rfl ?_ ?_ ?_ ?_ ?_ <;>
      simp [incoming, outgoing, incomingSize, outgoingSize, Proc.uncounted, tally]

end Act

end Kept

section Runs

variable {join : GoString → Path} {encodedLength : CacheObject → Time → Nat}

/-- **The accounts are right**, in every run in which each operation finds what its bookkeeping
assumes: never negative, and exact whenever nothing is in progress. -/
theorem accounted_of_sound {measure : Measure} {order : List Path} {content : Path → File}
    {config : State} (nodup : order.Nodup) (measured : WellMeasured measure order.toFinset content)
    (reach : Reach (Act join encodedLength) (Sound join measure) (start order content) config) :
    NonNegative config.mem ∧ (Quiet config → Accounted measure config.mem) := by
  have kept : Kept join measure config := by
    refine reach.invariant (Kept join measure) ?_ fun kept ok step => ?_
    · exact kept_configure nodup rfl measured fun proc member =>
        List.mem_singleton.mp (Multiset.mem_coe.mp member)
    · cases step with
      | fire rest act => exact kept_act act ok kept
  exact ⟨kept.nonNegative, kept.accounted⟩

section Sequential

variable {allowed : State → Event → Prop} {origin : State} {mem : Provider}

theorem put_run (plain : ∀ config, allowed config .internal)
    (reach : Reach (Act join encodedLength) allowed origin (.ofList mem [.handler .idle]))
    {hash : GoString} (long : 2 ≤ hash.length) (object : CacheObject) (now : Time)
    (ok : allowed (.ofList mem [.put hash object .called, .handler .idle])
      (.write (join hash) object ⟨encodedLength object now, some object⟩)) :
    Reach (Act join encodedLength) allowed origin
      (.ofList
        { mem with
          files := insert (join hash) mem.files
          content := Function.update mem.content (join hash)
            ⟨encodedLength object now, some object⟩
          numObjects := mem.numObjects + 1
          totalSize := mem.totalSize + object.data.length
          added := insert hash mem.added } [.handler .idle]) := by
  have run := reach.next [] [.handler .idle] (Act.call hash object) (plain _) (.refl _)
  have run := run.next [.put hash object .called] [.handler .idle] (Act.write now long) ok (.refl _)
  have run := run.next [.put hash object .written] [.handler .idle] Act.addSize (plain _) (.refl _)
  have run := run.next [.put hash object .sized] [.handler .idle] Act.increment (plain _) (.refl _)
  exact run.next [.put hash object .counted] [.handler .idle] Act.add (plain _) (.refl _)

theorem expire_run (plain : ∀ config, allowed config .internal)
    (reach : Reach (Act join encodedLength) allowed origin (.ofList mem [.handler .idle]))
    {hash : GoString} (long : 2 ≤ hash.length) (added : hash ∈ mem.added)
    (there : join hash ∈ mem.files) (empty : mem.expirationChan = [])
    (ok : ∀ size, allowed (.ofList { mem with expirationChan := [] }
      [.handler (.statted (join hash) size)]) (.remove (join hash))) :
    Reach (Act join encodedLength) allowed origin
      (.ofList
        { mem with
          files := mem.files.erase (join hash)
          numObjects := mem.numObjects - 1
          totalSize := mem.totalSize - (mem.content (join hash)).length
          expirationChan := [] } [.handler .idle]) := by
  have run := reach.next [] [.handler .idle]
    (Act.expire added (by rw [empty]; decide)) (plain _) (.refl _)
  have run := run.next [.handler .idle] []
    (Act.receive (by rw [empty]; rfl)) (plain _) (.refl _)
  have run := run.next [.handler (.received hash)] [] (Act.stat long there) (plain _) (.refl _)
  have run := run.next [.handler (.statted _ _)] [] (Act.remove there) (ok _) (.refl _)
  have run := run.next [.handler (.removed _)] [] Act.subtract (plain _) (.refl _)
  exact run.next [.handler .subtracted] [] Act.decrement (plain _) (.refl _)

end Sequential

theorem quiet_idle (mem : Provider) : Quiet (.ofList mem [.handler .idle]) := fun _ member =>
  List.mem_singleton.mp (Multiset.mem_coe.mp member)

/-- What `path.Join` makes of a hash of plain characters, below the root. -/
def plainJoin (hash : GoString) : Path := hash.take 2 ++ byte '/' :: hash

def empty : CacheObject := ⟨[], 0⟩

/-- One object is put, with the payload as the measure; one that was found expires, with the length of
its file as the measure. -/
theorem accounted_one :
    (∃ config, Reach (Act plainJoin fun _ _ => 4) (Sound plainJoin .payload)
        (start [] fun _ => ⟨0, none⟩) config ∧
      config.mem.files = {plainJoin [1, 2]} ∧ NonNegative config.mem ∧
      (Quiet config → Accounted .payload config.mem)) ∧
    ∃ config, Reach (Act plainJoin fun _ _ => 4) (Sound plainJoin .file)
        (start [plainJoin [1, 2]] fun _ => ⟨4, some empty⟩) config ∧
      config.mem.files = ∅ ∧ NonNegative config.mem ∧
      (Quiet config → Accounted .file config.mem) := by
  have long : 2 ≤ ([1, 2] : GoString).length := by decide
  constructor
  · have begins : Reach (Act plainJoin fun _ _ => 4) (Sound plainJoin .payload)
        (start [] fun _ => ⟨0, none⟩) (.ofList _ [.handler .idle]) := .start
    have run := put_run (fun _ => trivial) begins long empty 0
      ⟨by decide, by simp [Config.ofList], rfl⟩
    exact ⟨_, run, rfl, accounted_of_sound List.nodup_nil (by simp [WellMeasured]) run⟩
  · have begins : Reach (Act plainJoin fun _ _ => 4) (Sound plainJoin .file)
        (start [plainJoin [1, 2]] fun _ => ⟨4, some empty⟩) (.ofList _ [.handler .idle]) := .start
    have run := expire_run (fun _ => trivial) begins long (by decide) (by decide) rfl
      fun _ => ⟨by simp [Config.ofList, Proc.uncounted], rfl⟩
    exact ⟨_, run, by decide,
      accounted_of_sound (List.nodup_singleton _) (by simp [WellMeasured, Measure.size]) run⟩

/-- **Three runs that go wrong.** A key is put twice: two objects are counted, and there is one file.
`Configure` finds a file that does not unmarshal: it counts the file, and then deletes it. An object is
put and expires: the length of its file is subtracted from the length of its data. -/
theorem unaccounted_runs :
    (∃ config, Reach (Act plainJoin fun _ _ => 4) (fun _ _ => True) (start [] fun _ => ⟨0, none⟩)
        config ∧ Quiet config ∧ ∀ measure, ¬ Accounted measure config.mem) ∧
    (Quiet (start [plainJoin [1, 2]] fun _ => ⟨4, none⟩) ∧
      ∀ measure, ¬ Accounted measure (start [plainJoin [1, 2]] fun _ => ⟨4, none⟩).mem) ∧
    ∃ config, Reach (Act plainJoin fun _ _ => 4) (fun _ _ => True) (start [] fun _ => ⟨0, none⟩)
        config ∧ Quiet config ∧ config.mem.totalSize = -4 := by
  have long : 2 ≤ ([1, 2] : GoString).length := by decide
  have begins : Reach (Act plainJoin fun _ _ => 4) (fun _ _ => True) (start [] fun _ => ⟨0, none⟩)
      (.ofList _ [.handler .idle]) := .start
  have once := put_run (fun _ => trivial) begins long empty 0 trivial
  refine ⟨?_, ?_, ?_⟩
  · refine ⟨_, put_run (fun _ => trivial) once long empty 0 trivial, quiet_idle _, ?_⟩
    rintro measure ⟨objects, _⟩
    exact absurd objects (by decide)
  · refine ⟨quiet_idle _, ?_⟩
    rintro measure ⟨objects, _⟩
    exact absurd objects (by decide)
  · exact ⟨_, expire_run (fun _ => trivial) once long (by decide) (by decide) rfl fun _ => trivial,
      quiet_idle _, by decide⟩

end Runs

end Kubecc.Storage.Local
