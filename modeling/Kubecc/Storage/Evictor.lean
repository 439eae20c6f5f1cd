/-
**The local storage with its goroutines.**

`LocalStorageProvider` of `pkg/storage/local.go`: the files, the `Put` calls, the notifier of
`Storage.ExpirationNotifier` step by step, the goroutine that removes what has expired, and
`DeleteObjectsClosestToExpiration`. As long as the total is above the bound, the latter peeks at the heap,
forces an expiration, and polls until the object it has peeked at is gone. Which object is removed is the
choice of `Monitor`: it pops the first entry, but notifies the hash that it has been waiting for.

The bound is compared in exact arithmetic, `numObjects` is left out (`Storage.Local`), and no file
operation fails.

* `Orderly` — what is assumed of the steps of a run.
* `Stored` — every file has one entry in the heap, or its removal is under way, or its `Put` is about to
  add the entry.
* `stored_start`, `stored_act` — this holds after `Configure`, and every step keeps it.
-/

import Kubecc.Storage.Lifetime

namespace Kubecc.Storage.Eviction

open Kubecc.Go Kubecc.Lib
open Kubecc.Storage.Local (Path File CacheObject plainJoin)
open Kubecc.Storage.Lifetime (Own begins add found inFlight underWay)

/-- Where a `Put` call stands: it has written the file, added to `totalSize`. -/
inductive Put
  | called
  | written
  | sized
deriving DecidableEq

inductive Handler
  | idle
  | received (hash : GoString)
  | statted (hash : GoString) (size : Nat)
  | removed (size : Nat)
  | stopped
deriving DecidableEq

/-- Where `DeleteObjectsClosestToExpiration` stands: before the size test, before `Peek`, in
`ForceExpiration` or in `wait.Poll` with the hash it has seen. -/
inductive Evictor
  | idle
  | testing
  | above
  | forcing (hash : GoString)
  | polling (hash : GoString)
  | returned
deriving DecidableEq

/-- The other goroutines. A `Put` call ends with a call of `Add`, which is a call of the notifier. -/
inductive Proc
  | put (hash : GoString) (object : CacheObject) (state : Put)
  | call (call : Call)
deriving DecidableEq

/-- The files, the provider's fields, and where its goroutines stand. `keys` records what was put, and
`evicted` the files that have been removed since the eviction began. -/
structure Provider where
  files : Finset Path
  content : Path → File
  totalSize : Int
  notifier : Notifier
  handler : Handler
  evictor : Evictor
  keys : List GoString
  evicted : List File

abbrev State := Config Provider Proc

/-- What the provider is configured with: `path.Join(p.root, hash[0:2], hash)`, the length of what
`proto.Marshal` makes of an object that is stored at a time, and `p.sizeLimit`. -/
structure Settings where
  join : GoString → Path
  encodedLength : CacheObject → Time → Nat
  sizeLimit : Int

/-- The provider after `Configure`, over a directory whose files the walk meets in this order. -/
def start (order : List Path) (content : Path → File) (now : Time) : State :=
  let configured := Local.configure order (Local.new order.toFinset content)
  { mem :=
      { files := configured.files
        content
        totalSize := configured.totalSize
        notifier := (found order content).foldl add (Notifier.new now)
        handler := .idle
        evictor := .idle
        keys := []
        evicted := [] }
    procs := 0 }

/-! ### The steps -/

/-- The steps that are told apart. A step of the notifier is labelled with what it leaves. -/
inductive Event
  | notifier (event : Notifier.Event) (notifier : Notifier)
  | put (hash : GoString)
  | write (path : Path)
  | remove (path : Path)
  | evict
  | forced (hash : GoString) (date : Time)
  | forceTimeout
  | gone
  | pollTimeout (path : Path)
  | internal

/-- `float64(p.totalSize.Load()) >= float64(p.sizeLimit)*0.9`. -/
def Above (totalSize sizeLimit : Int) : Prop := 9 * sizeLimit ≤ 10 * totalSize

instance (totalSize sizeLimit : Int) : Decidable (Above totalSize sizeLimit) :=
  inferInstanceAs (Decidable (_ ≤ _))

section Steps

variable (settings : Settings)

/-- **The steps of the provider.** A hash of less than two bytes makes the slice expression panic, and
the goroutine does nothing more. -/
inductive Act : Rules Provider Proc Event
  | notifier {mem event acting notifier left} :
      Notifier.Act event mem.notifier acting notifier left → Own mem.notifier acting notifier left →
      Act (.notifier event notifier) mem (acting.map .call) { mem with notifier } (left.map .call)
  -- Put
  | put {mem} (hash : GoString) (object : CacheObject) :
      Act (.put hash) mem [] { mem with keys := hash :: mem.keys } [.put hash object .called]
  | write {mem} {hash : GoString} {object : CacheObject} (now : Time) : 2 ≤ hash.length →
      Act (.write (settings.join hash)) mem [.put hash object .called]
        { mem with
          files := insert (settings.join hash) mem.files
          content := Function.update mem.content (settings.join hash)
            ⟨settings.encodedLength object now, some object⟩ }
        [.put hash object .written]
  | addSize {mem} {hash : GoString} {object : CacheObject} :
      Act .internal mem [.put hash object .written]
        { mem with totalSize := mem.totalSize + object.data.length } [.put hash object .sized]
  | add {mem} {hash : GoString} {object : CacheObject} :
      Act .internal mem [.put hash object .sized] mem [.call (.called hash object.expirationDate)]
  -- the expiration handler
  | stop {mem} : mem.handler = .idle → mem.notifier.contextDone = true →
      Act .internal mem [] { mem with handler := .stopped } []
  | receive {mem} {hash : GoString} {queue : List GoString} : mem.handler = .idle →
      mem.notifier.expirationChan = hash :: queue →
      Act .internal mem []
        { mem with
          notifier := { mem.notifier with expirationChan := queue }
          handler := .received hash } []
  | stat {mem} {hash : GoString} : mem.handler = .received hash → 2 ≤ hash.length →
      settings.join hash ∈ mem.files →
      Act .internal mem []
        { mem with handler := .statted hash (mem.content (settings.join hash)).length } []
  | statFails {mem} {hash : GoString} : mem.handler = .received hash → 2 ≤ hash.length →
      settings.join hash ∉ mem.files → Act .internal mem [] { mem with handler := .idle } []
  | remove {mem} {hash : GoString} {size : Nat} : mem.handler = .statted hash size →
      settings.join hash ∈ mem.files →
      Act (.remove (settings.join hash)) mem []
        { mem with
          files := mem.files.erase (settings.join hash)
          evicted := mem.content (settings.join hash) :: mem.evicted
          handler := .removed size } []
  | removeFails {mem} {hash : GoString} {size : Nat} : mem.handler = .statted hash size →
      settings.join hash ∉ mem.files → Act .internal mem [] { mem with handler := .idle } []
  | subtract {mem} {size : Nat} : mem.handler = .removed size →
      Act .internal mem []
        { mem with totalSize := mem.totalSize - size, handler := .idle } []
  -- DeleteObjectsClosestToExpiration
  | evict {mem} : mem.evictor = .idle →
      Act .evict mem [] { mem with evictor := .testing, evicted := [] } []
  | testAbove {mem} : mem.evictor = .testing → Above mem.totalSize settings.sizeLimit →
      Act .internal mem [] { mem with evictor := .above } []
  | testBelow {mem} : mem.evictor = .testing → ¬ Above mem.totalSize settings.sizeLimit →
      Act .internal mem [] { mem with evictor := .returned } []
  | peek {mem} : mem.evictor = .above →
      Act .internal mem [] { mem with evictor := .forcing mem.notifier.heap.peek.1 } []
  | forced {mem} {hash awaited : GoString} {date : Time} : mem.evictor = .forcing hash →
      mem.notifier.monitor = .waiting awaited date →
      Act (.forced awaited date) mem []
        { mem with
          notifier := { mem.notifier with monitor := .popping awaited date }
          evictor := .polling hash } []
  | forceTimeout {mem} {hash : GoString} : mem.evictor = .forcing hash →
      Act .forceTimeout mem [] { mem with evictor := .returned } []
  -- Get returns an error, in one of the polls
  | gone {mem} {hash : GoString} : mem.evictor = .polling hash → 2 ≤ hash.length →
      settings.join hash ∉ mem.files → Act .gone mem [] { mem with evictor := .testing } []
  | pollTimeout {mem} {hash : GoString} : mem.evictor = .polling hash →
      Act (.pollTimeout (settings.join hash)) mem [] { mem with evictor := .returned } []
  | leave {mem} : mem.evictor = .returned → Act .internal mem [] { mem with evictor := .idle } []

end Steps

/-! ### What is assumed of a run -/

def due (file : File) : Option Time := file.object.map CacheObject.expirationDate

/-- The object in the one file expires no later than that in the other. -/
def NotLater (file other : File) : Prop := ∀ date ∈ due file, ∀ later ∈ due other, date ≤ later

/-- No expiration is under way, from the select of `WaitOne` to the end of the handler's turn. -/
def Processed (mem : Provider) : Prop := underWay mem.notifier = [] ∧ mem.handler = .idle

/-- The date of the entry that is awaited has come. -/
def Expires (notifier notifier' : Notifier) : Prop :=
  ∃ hash date, notifier.monitor = .waiting hash date ∧ notifier'.monitor = .popping hash date

/-- The runs in question: every key is put once; while an eviction is in progress, nothing is added and
nothing else expires; and each forced expiration is processed before the next size test. -/
def Undisturbed (config : State) : Event → Prop
  | .put hash => hash ∉ config.mem.keys ∧ config.mem.evictor = .idle
  | .notifier _ notifier => config.mem.evictor = .idle ∨ ¬ Expires config.mem.notifier notifier
  | .evict => config.procs = 0 ∧ Processed config.mem
  | .gone => Processed config.mem
  | _ => True

/-- `Monitor` is blocked until something is added. -/
def Blocked (notifier : Notifier) : Prop := notifier.monitor = .parked ∧ notifier.addChan = false

/-- Nothing goes wrong outside the provider: its context is not done, no other key has the same file, and
a time-out is not shorter than what it is meant for. -/
def Regular (config : State) : Event → Prop
  | .notifier _ notifier => notifier.contextDone = false
  | .write path => path ∉ config.mem.files
  | .forceTimeout => Blocked config.mem.notifier
  | .pollTimeout path => path ∈ config.mem.files ∧ Processed config.mem
  | _ => True

/-- `Monitor` awaits the first entry, and is not asleep if there is one; or a signal is there that makes
it look again. -/
def Attentive (notifier : Notifier) : Prop :=
  match notifier.monitor with
  | .waiting hash date => notifier.heap.peek = (hash, date) ∨ notifier.rescanChan = true
  | .parked => notifier.heap.entries = [] ∨ notifier.addChan = true
  | _ => True

/-- The condition: `Monitor` pops the entry it has waited for, it is attentive when an eviction begins,
and it takes the forced expiration only if it awaits the first entry. -/
def Attended (config : State) : Event → Prop
  | .notifier (.pop hash date) _ => config.mem.notifier.heap.peek = (hash, date)
  | .evict => Attentive config.mem.notifier
  | .forced hash date => config.mem.notifier.heap.peek = (hash, date)
  | _ => True

/-- Everything that is assumed of a step. -/
def Orderly (config : State) (event : Event) : Prop :=
  Undisturbed config event ∧ Regular config event ∧ Attended config event

/-! ### Files and entries -/

/-- The hashes that the heap has given up and that are not handled yet. -/
def sent : Monitor → List GoString
  | .sending hash _ => [hash]
  | _ => []

/-- The hash whose file the handler is about to remove. -/
def handling : Handler → List GoString
  | .received hash | .statted hash _ => [hash]
  | _ => []

/-- The hashes whose files are about to be removed. -/
def transit (mem : Provider) : Multiset GoString :=
  ↑(sent mem.notifier.monitor) + ↑mem.notifier.expirationChan + ↑(handling mem.handler)

/-- The entry that a goroutine is about to add, its file being there. -/
def Proc.promise : Proc → Option ExpirationEntry
  | .put hash object .written | .put hash object .sized => some ⟨hash, object.expirationDate⟩
  | .call (.called hash date) => some ⟨hash, date⟩
  | _ => none

/-- The entries that are there, or about to be added. -/
def promised (config : State) : Multiset ExpirationEntry :=
  ↑config.mem.notifier.heap.entries + config.procs.filterMap Proc.promise

/-- **Every file has one entry, or is about to be removed**; and an entry has the date of its file. -/
structure Stored (join : GoString → Path) (promised : Multiset ExpirationEntry)
    (transit : Multiset GoString) (files : Finset Path) (content : Path → File) : Prop where
  held : (promised.map ExpirationEntry.hash + transit).map join = files.val
  named : ∀ hash ∈ promised.map ExpirationEntry.hash + transit, 2 ≤ hash.length
  dated : ∀ entry ∈ promised, due (content (join entry.hash)) = some entry.date

section Stored

variable {join : GoString → Path} {entries : Multiset ExpirationEntry} {hashes : Multiset GoString}
  {files : Finset Path} {content : Path → File} {hash : GoString} {entry : ExpirationEntry}

theorem Stored.mem_files (stored : Stored join entries hashes files content)
    (member : hash ∈ entries.map ExpirationEntry.hash + hashes) : join hash ∈ files := by
  rw [← Finset.mem_val, ← stored.held]
  exact Multiset.mem_map_of_mem join member

theorem Stored.entry_mem_files (stored : Stored join entries hashes files content)
    (member : entry ∈ entries) : join entry.hash ∈ files :=
  stored.mem_files (Multiset.mem_add.mpr (.inl (Multiset.mem_map_of_mem _ member)))

theorem Stored.write (stored : Stored join entries hashes files content) {file : File}
    (fresh : join entry.hash ∉ files) (long : 2 ≤ entry.hash.length) (is : due file = some entry.date) :
    Stored join (entry ::ₘ entries) hashes (insert (join entry.hash) files)
      (Function.update content (join entry.hash) file) where
  held := by
    rw [Finset.insert_val_of_notMem fresh, ← stored.held, Multiset.map_cons, Multiset.cons_add,
      Multiset.map_cons]
  named := by
    rw [Multiset.map_cons, Multiset.cons_add, Multiset.forall_mem_cons]
    exact ⟨long, stored.named⟩
  dated := by
    rw [Multiset.forall_mem_cons]
    refine ⟨by rw [Function.update_self, is], fun other member => ?_⟩
    have differs : join other.hash ≠ join entry.hash := fun same =>
      fresh (same ▸ stored.entry_mem_files member)
    rw [Function.update_of_ne differs]
    exact stored.dated other member

theorem Stored.pop (stored : Stored join (entry ::ₘ entries) hashes files content) :
    Stored join entries (entry.hash ::ₘ hashes) files content := by
  have same : entries.map ExpirationEntry.hash + entry.hash ::ₘ hashes =
      (entry ::ₘ entries).map ExpirationEntry.hash + hashes := by
    rw [Multiset.map_cons, Multiset.cons_add, Multiset.add_cons]
  exact ⟨same ▸ stored.held, same ▸ stored.named,
    fun other member => stored.dated other (Multiset.mem_cons_of_mem member)⟩

theorem Stored.remove (stored : Stored join entries (hash ::ₘ hashes) files content) :
    Stored join entries hashes (files.erase (join hash)) content where
  held := by
    rw [Finset.erase_val, ← stored.held, Multiset.add_cons, Multiset.map_cons,
      Multiset.erase_cons_head]
  named other member :=
    stored.named other (Multiset.add_cons _ _ _ ▸ Multiset.mem_cons_of_mem member)
  dated := stored.dated

end Stored

section Entries

variable {notifier notifier' : Notifier} {acting left : List Call} {event : Notifier.Event}

/-- The entries of the heap, and those that calls of `Add` are about to push. -/
def added (notifier : Notifier) (calls : List Call) : Multiset ExpirationEntry :=
  ↑((calls.map Proc.call).filterMap Proc.promise) + ↑notifier.heap.entries

/-- The hashes between the heap and the handler. -/
def leaving (notifier : Notifier) : Multiset GoString :=
  ↑(sent notifier.monitor) + ↑notifier.expirationChan

theorem coe_entries_pop {heap : ExpirationHeap} {entry : ExpirationEntry} (there : entry ∈ heap.entries)
    (first : heap.peek = (entry.hash, entry.date)) :
    (↑heap.entries : Multiset ExpirationEntry) = entry ::ₘ ↑heap.pop.2.entries := by
  obtain ⟨top, others, is⟩ := List.exists_cons_of_ne_nil (List.ne_nil_of_mem there)
  obtain rfl : top = entry := by
    rw [ExpirationHeap.peek, is, Prod.mk.injEq] at first
    obtain ⟨_, _⟩ := top
    obtain ⟨_, _⟩ := entry
    obtain ⟨rfl, rfl⟩ := first
    rfl
  rw [is, ← Multiset.cons_coe, Multiset.coe_eq_coe.mpr (ExpirationHeap.pop_perm is).2]

theorem moved_act (act : Notifier.Act event notifier acting notifier' left)
    (own : Own notifier acting notifier' left)
    (awaits : Notifier.Awaits notifier.heap notifier.pushed notifier.monitor)
    (first : ∀ hash date, event = .pop hash date → notifier.heap.peek = (hash, date)) :
    (added notifier' left = added notifier acting ∧ leaving notifier' = leaving notifier) ∨
      ∃ entry, added notifier acting = entry ::ₘ added notifier' left ∧
        leaving notifier' = entry.hash ::ₘ leaving notifier := by
  cases act with
  | push => exact .inl ⟨Multiset.coe_eq_coe.mpr (notifier.heap.push_perm _ _), rfl⟩
  | @pop _ hash date is =>
    have there : ⟨hash, date⟩ ∈ notifier.heap.entries := by
      rw [is] at awaits
      exact awaits
    refine .inr ⟨⟨hash, date⟩, ?_, ?_⟩
    · rw [added, coe_entries_pop there (first _ _ rfl), Multiset.add_cons]
      rfl
    · rw [leaving, leaving, is]
      rfl
  | send is _ =>
    refine .inl ⟨rfl, ?_⟩
    rw [leaving, leaving, is]
    exact Multiset.coe_eq_coe.mpr (List.perm_append_singleton _ _)
  | receive is => exact absurd (is ▸ own.keeps).length_le (by simp)
  | add | force => exact absurd (own.noCall _ List.mem_cons_self) nofun
  | forced | forceTimeout => exact absurd List.mem_cons_self own.unforced
  | loopGoesOn is | loopDone is | countSome is | countNone is | scanNone is | scanSome is | peek is
  | waitDone is | timer is | rescan is | parkedDone is | parkedAdd is =>
    refine .inl ⟨rfl, ?_⟩
    rw [leaving, leaving, is]
    rfl
  | tick | cancel | peekFirst | peekOther | signalRescan | measureOne | measureOther | signalAdd =>
    exact .inl ⟨rfl, rfl⟩

end Entries

section StoredRuns

variable {settings : Settings} {event : Event} {mem mem' : Provider} {acting left : List Proc}
  {rest : Multiset Proc}

/-- Every file of the provider has one entry, or is about to be removed. -/
def StoredIn (settings : Settings) (config : State) : Prop :=
  Stored settings.join (promised config) (transit config.mem) config.mem.files config.mem.content

theorem promised_fire : promised ⟨mem, ↑acting + rest⟩ =
    ↑(acting.filterMap Proc.promise) + (↑mem.notifier.heap.entries + rest.filterMap Proc.promise) := by
  rw [promised, filterMap_fire, add_left_comm]

theorem StoredIn.keep (stored : StoredIn settings ⟨mem, ↑acting + rest⟩) (files : mem'.files = mem.files)
    (content : mem'.content = mem.content) (heap : mem'.notifier.heap = mem.notifier.heap)
    (promise : left.filterMap Proc.promise = acting.filterMap Proc.promise)
    (same : transit mem' = transit mem) : StoredIn settings ⟨mem', ↑left + rest⟩ := by
  unfold StoredIn at stored ⊢
  rw [promised_fire] at stored ⊢
  rw [heap, promise, same, files, content]
  exact stored

theorem StoredIn.notifier {notifier : Notifier} {calls after : List Call} {own : Notifier.Event}
    (stored : StoredIn settings ⟨mem, ↑(calls.map Proc.call) + rest⟩)
    (act : Notifier.Act own mem.notifier calls notifier after)
    (alone : Own mem.notifier calls notifier after)
    (awaits : Notifier.Awaits mem.notifier.heap mem.notifier.pushed mem.notifier.monitor)
    (first : ∀ hash date, own = .pop hash date → mem.notifier.heap.peek = (hash, date)) :
    StoredIn settings ⟨{ mem with notifier }, ↑(after.map Proc.call) + rest⟩ := by
  unfold StoredIn at stored ⊢
  rw [promised_fire, ← add_assoc] at stored ⊢
  change Stored _ (added mem.notifier calls + _) (leaving mem.notifier + _) _ _ at stored
  change Stored _ (added notifier after + _) (leaving notifier + _) _ _
  rcases moved_act act alone awaits first with ⟨sameEntries, sameHashes⟩ | ⟨entry, popped, sending⟩
  · rw [sameEntries, sameHashes]
    exact stored
  · rw [popped, Multiset.cons_add] at stored
    rw [sending, Multiset.cons_add]
    exact stored.pop

theorem StoredIn.handling_mem {config : State} (stored : StoredIn settings config) {hash : GoString}
    (is : handling config.mem.handler = [hash]) :
    settings.join hash ∈ config.mem.files ∧ 2 ≤ hash.length := by
  have there : hash ∈ (promised config).map ExpirationEntry.hash + transit config.mem := by
    refine Multiset.mem_add.mpr (.inr (Multiset.mem_add.mpr (.inr ?_)))
    rw [is]
    exact List.mem_cons_self
  exact ⟨stored.mem_files there, stored.named hash there⟩

theorem stored_act (act : Act settings event mem acting mem' left)
    (ok : Orderly ⟨mem, ↑acting + rest⟩ event)
    (awaits : Notifier.Awaits mem.notifier.heap mem.notifier.pushed mem.notifier.monitor)
    (stored : StoredIn settings ⟨mem, ↑acting + rest⟩) : StoredIn settings ⟨mem', ↑left + rest⟩ := by
  cases act with
  | notifier act own =>
    refine stored.notifier act own awaits fun hash date is => ?_
    subst is
    exact ok.2.2
  | @write _ hash object now long =>
    unfold StoredIn at stored ⊢
    rw [promised_fire] at stored ⊢
    have entry : (↑([Proc.put hash object .written].filterMap Proc.promise) : Multiset ExpirationEntry) =
      {⟨hash, object.expirationDate⟩} := rfl
    have none : (↑([Proc.put hash object .called].filterMap Proc.promise) : Multiset ExpirationEntry) =
      0 := rfl
    rw [none, zero_add] at stored
    rw [entry, Multiset.singleton_add]
    exact stored.write ok.2.1 long rfl
  | receive is queue =>
    refine stored.keep rfl rfl rfl rfl ?_
    simp only [transit, is, queue, handling, Multiset.coe_add]
    refine Multiset.coe_eq_coe.mpr ?_
    rw [List.append_nil, List.append_assoc]
    exact .append_left _ (List.perm_append_singleton _ _)
  | @remove _ hash size is there =>
    unfold StoredIn at stored ⊢
    rw [promised_fire] at stored ⊢
    have gone : transit mem = hash ::ₘ transit
        { mem with
          files := mem.files.erase (settings.join hash)
          evicted := mem.content (settings.join hash) :: mem.evicted
          handler := .removed size } := by
      simp only [transit, is, handling, Multiset.coe_nil, add_zero]
      rw [Multiset.coe_singleton, add_comm, Multiset.singleton_add]
    rw [gone] at stored
    exact stored.remove
  | statFails is _ absent | removeFails is absent =>
    exact absurd (stored.handling_mem (by rw [is]; rfl)).1 absent
  | stat is | stop is | subtract is =>
    refine stored.keep rfl rfl rfl rfl ?_
    simp only [transit, is, handling]
  | put | addSize | add | evict | testAbove | testBelow | peek | forceTimeout | gone | pollTimeout
  | leave => exact stored.keep rfl rfl rfl rfl rfl
  | forced _ waits =>
    refine stored.keep rfl rfl rfl rfl ?_
    simp only [transit, waits, sent]

end StoredRuns

/-! ### After `Configure` -/

/-- The files that the walk of `Configure` can read are where `Put` writes them. -/
structure Placed (join : GoString → Path) (order : List Path) (content : Path → File) : Prop where
  nodup : order.Nodup
  named : ∀ path ∈ order, (content path).object.isSome →
    join (base path) = path ∧ 2 ≤ (base path).length

section Start

variable {join : GoString → Path} {order : List Path} {content : Path → File}

theorem foldl_add (entries : List ExpirationEntry) (notifier : Notifier) :
    (↑(entries.foldl add notifier).heap.entries : Multiset ExpirationEntry) =
        ↑entries + ↑notifier.heap.entries ∧
      (entries.foldl add notifier).monitor = notifier.monitor ∧
      (entries.foldl add notifier).expirationChan = notifier.expirationChan ∧
      (entries.foldl add notifier).contextDone = notifier.contextDone := by
  induction entries generalizing notifier with
  | nil => exact ⟨(zero_add _).symm, rfl, rfl, rfl⟩
  | cons entry entries ih =>
    obtain ⟨heap, same⟩ := ih (add notifier entry)
    refine ⟨?_, same⟩
    have push : (↑(add notifier entry).heap.entries : Multiset ExpirationEntry) =
        entry ::ₘ ↑notifier.heap.entries :=
      Multiset.coe_eq_coe.mpr (notifier.heap.push_perm entry.hash entry.date)
    rw [List.foldl_cons, heap, push, ← Multiset.cons_coe, Multiset.cons_add, Multiset.add_cons]

theorem walk_toDelete (walked : Local.Walked) :
    (order.foldl (Local.visit content) walked).toDelete =
      walked.toDelete ++ order.filter fun path => (content path).object.isNone := by
  induction order generalizing walked with
  | nil => exact (List.append_nil _).symm
  | cons path order ih =>
    rw [List.foldl_cons, ih]
    cases is : (content path).object with
    | none => simp [Local.visit, is]
    | some object => simp [Local.visit, is]

theorem configure_files : (Local.configure order (Local.new order.toFinset content)).files =
    (order.filter fun path => (content path).object.isSome).toFinset := by
  have deleted := @walk_toDelete order content ⟨0, 0, [], ∅⟩
  ext path
  simp only [Local.configure, Local.new, deleted, List.nil_append, Finset.mem_sdiff, List.mem_toFinset,
    List.mem_filter]
  cases (content path).object with
  | none => simp
  | some object => simp

theorem stored_start (placed : Placed join order content) :
    Stored join ↑(found order content) 0
      (order.filter fun path => (content path).object.isSome).toFinset content := by
  have found_of {entry : ExpirationEntry} (member : entry ∈ (↑(found order content) : Multiset _)) :
      ∃ path ∈ order, (content path).object.isSome ∧ entry.hash = base path ∧
        due (content path) = some entry.date := by
    obtain ⟨path, inOrder, is⟩ := List.mem_filterMap.mp (Multiset.mem_coe.mp member)
    obtain ⟨object, there, rfl⟩ := Option.map_eq_some_iff.mp is
    exact ⟨path, inOrder, by rw [there]; rfl, rfl, by rw [due, there]; rfl⟩
  constructor
  case held =>
    have nodup := placed.nodup.filter fun path => (content path).object.isSome
    rw [add_zero, List.toFinset_val, nodup.dedup, Multiset.map_coe, Multiset.map_coe, found]
    refine congrArg _ ?_
    -- by induction on the order, with what is known of its paths
    have named := placed.named
    clear placed nodup found_of
    induction order with
    | nil => rfl
    | cons path order ih =>
      have named' := ih fun other member => named other (List.mem_cons_of_mem _ member)
      cases is : (content path).object with
      | none => simpa [is] using named'
      | some object =>
        have mine := (named path List.mem_cons_self (by rw [is]; rfl)).1
        simpa [is, mine] using named'
  case named =>
    intro hash member
    rw [add_zero] at member
    obtain ⟨entry, inFound, rfl⟩ := Multiset.mem_map.mp member
    obtain ⟨path, inOrder, there, is, _⟩ := found_of inFound
    rw [is]
    exact (placed.named path inOrder there).2
  case dated =>
    intro entry member
    obtain ⟨path, inOrder, there, is, date⟩ := found_of member
    rw [is, (placed.named path inOrder there).1, date]

end Start

/-! ### While the context lasts -/

structure Live (mem : Provider) : Prop where
  context : mem.notifier.contextDone = false
  monitor : mem.notifier.monitor ≠ .returned
  handler : mem.handler ≠ .stopped

section Live

variable {settings : Settings} {event : Event} {mem mem' : Provider} {acting left : List Proc}
  {rest : Multiset Proc}

theorem live_act (act : Act settings event mem acting mem' left)
    (ok : Regular ⟨mem, ↑acting + rest⟩ event) (live : Live mem) : Live mem' := by
  cases act with
  | notifier act own =>
    refine ⟨ok, ?_, live.handler⟩
    cases act with
    | parkedDone _ done => exact absurd (live.context.symm.trans done) nofun
    | loopGoesOn | loopDone | countSome | countNone | scanNone | scanSome | peek | waitDone | timer
    | forced | rescan | pop | send | parkedAdd => exact nofun
    | add | force | tick | cancel | receive | push | peekFirst | peekOther | signalRescan | measureOne
    | measureOther | signalAdd | forceTimeout => exact live.monitor
  | stop _ done => exact absurd (live.context.symm.trans done) nofun
  | receive | stat | statFails | remove | removeFails | subtract => exact ⟨live.context, live.monitor, nofun⟩
  | forced => exact ⟨live.context, nofun, live.handler⟩
  | put | write | addSize | add | evict | testAbove | testBelow | peek | forceTimeout | gone | pollTimeout
  | leave => exact ⟨live.context, live.monitor, live.handler⟩

theorem tended_act (act : Act settings event mem acting mem' left)
    (tended : Notifier.Tended mem.notifier.heap mem.notifier.monitor mem.notifier.pushed
      mem.notifier.notified) :
    Notifier.Tended mem'.notifier.heap mem'.notifier.monitor mem'.notifier.pushed
      mem'.notifier.notified := by
  cases act with
  | notifier act _ => exact Notifier.tended_act act tended
  | forced _ waits => exact tended.move waits rfl id
  | put | write | addSize | add | stop | receive | stat | statFails | remove | removeFails | subtract
  | evict | testAbove | testBelow | peek | forceTimeout | gone | pollTimeout | leave => exact tended

end Live

end Kubecc.Storage.Eviction
