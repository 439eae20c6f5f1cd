/-
**The expiration notifier of the local storage.**

`ExpirationNotifier` of `pkg/storage/local.go`: any number of `Add` and `ForceExpiration` calls next
to the one `Monitor` goroutine, with its loops `WaitAll` and `WaitOne`, over the heap and the four
channels. The heap is locked for one operation at a time, so every heap operation is a step of its
own.

`WaitOne` reads the top of the heap, waits, and then pops whatever is on top and sends the hash it
has read before.

* `Tended` — the entry that is awaited stays in the heap until `Monitor` pops, and what left the heap
  is what was popped.
* `notified_wasAdded` — only hashes that were added are ever notified.
* `notifiesPopped_of_undisputed` — in every run in which nothing else is due as early as the entry
  that is awaited when `Monitor` pops, the hash that is sent is the hash of the popped entry.
* `disputed_pop_notifies_another` — the run that goes wrong without this.
* `no_lostWakeUp_of_apart` — in every run in which no `Add` pushes while another one has not yet read
  the length, `Monitor` does not sleep over a heap that has entries.
* `overlapping_adds_lose_wakeUp` — two overlapping `Add` calls that leave it asleep.
-/

import Kubecc.Lib.Process
import Kubecc.Storage.ExpirationHeap

namespace Kubecc.Storage

open Kubecc.Go Kubecc.Lib

/-- Where `Monitor` stands. `loop` and `counting` are the two halves of `WaitAll`'s condition, `scanning`
is the label `rescan` of `WaitOne`, `popping` has left the select through the timer or the force
channel, `sending` has popped (the source discards what `Pop` returns), `parked` is the select of
`Monitor` itself. -/
inductive Monitor
  | loop
  | counting
  | scanning
  | peeking
  | waiting (hash : GoString) (date : Time)
  | popping (hash : GoString) (date : Time)
  | sending (hash : GoString) (popped : Option ExpirationEntry)
  | parked
  | returned
deriving DecidableEq

/-- The calls in progress. An `Add` call is `called`, has `pushed`, is `first` if it saw its own hash
on top, is `measuring` before it reads the length, and is `only` if it read 1. -/
inductive Call
  | called (hash : GoString) (date : Time)
  | pushed (hash : GoString)
  | first
  | measuring
  | only
  | forcing
deriving DecidableEq

/-- The notifier's fields, the clock, the context and where `Monitor` stands. `rescanChan` and
`addChan` have room for one message. `pushed` records the entries that were added, `notified` the
hashes sent on `expirationChan`, each with what the `Pop` of that turn returned. -/
structure Notifier where
  heap : ExpirationHeap
  expirationChan : List GoString
  rescanChan : Bool
  addChan : Bool
  now : Time
  contextDone : Bool
  monitor : Monitor
  pushed : List ExpirationEntry
  notified : List (GoString × Option ExpirationEntry)
deriving DecidableEq

namespace Notifier

def capacity : Nat := 1000

def new (now : Time) : Notifier where
  heap := .new
  expirationChan := []
  rescanChan := false
  addChan := false
  now := now
  contextDone := false
  monitor := .loop
  pushed := []
  notified := []

inductive Event
  | push
  | pop (hash : GoString) (date : Time)
  | internal

inductive Act : Rules Notifier Call Event
  -- the environment
  | add {mem} (hash : GoString) (date : Time) : Act .internal mem [] mem [.called hash date]
  | force {mem} : Act .internal mem [] mem [.forcing]
  | tick {mem} (later : Time) : mem.now ≤ later →
      Act .internal mem [] { mem with now := later } []
  | cancel {mem} : Act .internal mem [] { mem with contextDone := true } []
  | receive {mem} {hash : GoString} {queue : List GoString} : mem.expirationChan = hash :: queue →
      Act .internal mem [] { mem with expirationChan := queue } []
  -- Add
  | push {mem} {hash : GoString} {date : Time} :
      Act .push mem [.called hash date]
        { mem with heap := mem.heap.push hash date, pushed := ⟨hash, date⟩ :: mem.pushed }
        [.pushed hash]
  | peekFirst {mem} {hash : GoString} : mem.heap.peek.1 = hash →
      Act .internal mem [.pushed hash] mem [.first]
  | peekOther {mem} {hash : GoString} : mem.heap.peek.1 ≠ hash →
      Act .internal mem [.pushed hash] mem [.measuring]
  | signalRescan {mem} :
      Act .internal mem [.first] { mem with rescanChan := true } [.measuring]
  | measureOne {mem} : mem.heap.len = 1 → Act .internal mem [.measuring] mem [.only]
  | measureOther {mem} : mem.heap.len ≠ 1 → Act .internal mem [.measuring] mem []
  | signalAdd {mem} : Act .internal mem [.only] { mem with addChan := true } []
  -- ForceExpiration gives up after a second
  | forceTimeout {mem} : Act .internal mem [.forcing] mem []
  -- WaitAll
  | loopGoesOn {mem} : mem.monitor = .loop → mem.contextDone = false →
      Act .internal mem [] { mem with monitor := .counting } []
  | loopDone {mem} : mem.monitor = .loop → mem.contextDone = true →
      Act .internal mem [] { mem with monitor := .parked } []
  | countSome {mem} : mem.monitor = .counting → 0 < mem.heap.len →
      Act .internal mem [] { mem with monitor := .scanning } []
  | countNone {mem} : mem.monitor = .counting → mem.heap.len = 0 →
      Act .internal mem [] { mem with monitor := .parked } []
  -- WaitOne
  | scanNone {mem} : mem.monitor = .scanning → mem.heap.len = 0 →
      Act .internal mem [] { mem with monitor := .loop } []
  | scanSome {mem} : mem.monitor = .scanning → mem.heap.len ≠ 0 →
      Act .internal mem [] { mem with monitor := .peeking } []
  | peek {mem} : mem.monitor = .peeking →
      Act .internal mem [] { mem with monitor := .waiting mem.heap.peek.1 mem.heap.peek.2 } []
  | waitDone {mem} {hash : GoString} {date : Time} : mem.monitor = .waiting hash date →
      mem.contextDone = true → Act .internal mem [] { mem with monitor := .loop } []
  | timer {mem} {hash : GoString} {date : Time} : mem.monitor = .waiting hash date →
      date ≤ mem.now → Act .internal mem [] { mem with monitor := .popping hash date } []
  | forced {mem} {hash : GoString} {date : Time} : mem.monitor = .waiting hash date →
      Act .internal mem [.forcing] { mem with monitor := .popping hash date } []
  | rescan {mem} {hash : GoString} {date : Time} : mem.monitor = .waiting hash date →
      mem.rescanChan = true →
      Act .internal mem [] { mem with rescanChan := false, monitor := .scanning } []
  | pop {mem} {hash : GoString} {date : Time} : mem.monitor = .popping hash date →
      Act (.pop hash date) mem []
        { mem with heap := mem.heap.pop.2, monitor := .sending hash mem.heap.pop.1 } []
  | send {mem} {hash : GoString} {popped : Option ExpirationEntry} :
      mem.monitor = .sending hash popped → mem.expirationChan.length < capacity →
      Act .internal mem []
        { mem with
          expirationChan := mem.expirationChan ++ [hash]
          notified := (hash, popped) :: mem.notified
          monitor := .loop } []
  -- Monitor
  | parkedDone {mem} : mem.monitor = .parked → mem.contextDone = true →
      Act .internal mem [] { mem with monitor := .returned } []
  | parkedAdd {mem} : mem.monitor = .parked → mem.addChan = true →
      Act .internal mem [] { mem with addChan := false, monitor := .loop } []

abbrev State := Config Notifier Call

def start (now : Time) : State := ⟨new now, 0⟩

/-! ### The entry that is notified -/

/-- What has been popped and not yet notified. -/
def inHand : Monitor → Multiset (Option ExpirationEntry)
  | .sending _ popped => {popped}
  | _ => 0

/-- **Notified is what was removed**: every hash that was sent is the hash of the entry popped in that
turn, and the entries added are those still in the heap, the one popped and not yet notified, and
those notified, each as often as it was added. -/
structure NotifiesPopped (mem : Notifier) : Prop where
  matched : ∀ hash popped, (hash, popped) ∈ mem.notified →
    popped.map ExpirationEntry.hash = some hash
  sending : ∀ hash popped, mem.monitor = .sending hash popped →
    popped.map ExpirationEntry.hash = some hash
  account : (↑(mem.pushed.map some) : Multiset (Option ExpirationEntry)) =
    ↑(mem.heap.entries.map some) + inHand mem.monitor + ↑(mem.notified.map Prod.snd)

/-- The condition: when `Monitor` pops, nothing but the hash it awaits is due by the date it awaits. -/
def Undisputed (config : State) : Event → Prop
  | .pop hash date => ∀ entry ∈ config.mem.heap.entries, entry.date ≤ date → entry.hash = hash
  | _ => True

/-- Some entry with this hash has been added. -/
def WasAdded (pushed : List ExpirationEntry) (hash : GoString) : Prop :=
  ∃ entry ∈ pushed, entry.hash = hash

/-- What `Monitor` relies on where it stands. -/
def Awaits (heap : ExpirationHeap) (pushed : List ExpirationEntry) : Monitor → Prop
  | .peeking => heap.entries ≠ []
  | .waiting hash date => ⟨hash, date⟩ ∈ heap.entries
  | .popping hash date => ⟨hash, date⟩ ∈ heap.entries
  | .sending hash _ => WasAdded pushed hash
  | _ => True

/-- **The invariant of every run**: what `Monitor` relies on is there, it speaks only of what was added,
and what left the heap is what was popped. -/
structure Tended (heap : ExpirationHeap) (monitor : Monitor) (pushed : List ExpirationEntry)
    (notified : List (GoString × Option ExpirationEntry)) : Prop where
  awaits : Awaits heap pushed monitor
  wasAdded : ∀ hash popped, (hash, popped) ∈ notified → WasAdded pushed hash
  account : (↑(pushed.map some) : Multiset (Option ExpirationEntry)) =
    ↑(heap.entries.map some) + inHand monitor + ↑(notified.map Prod.snd)

section Tended

variable {heap : ExpirationHeap} {monitor : Monitor} {pushed : List ExpirationEntry}
  {notified : List (GoString × Option ExpirationEntry)} {hash : GoString}

theorem WasAdded.cons (added : WasAdded pushed hash) (entry : ExpirationEntry) :
    WasAdded (entry :: pushed) hash := by
  obtain ⟨entry', member, is⟩ := added
  exact ⟨entry', List.mem_cons_of_mem _ member, is⟩

theorem Tended.mem_pushed (tended : Tended heap monitor pushed notified) {entry : ExpirationEntry}
    (member : entry ∈ heap.entries) : entry ∈ pushed := by
  have there : some entry ∈ (↑(pushed.map some) : Multiset (Option ExpirationEntry)) := by
    rw [tended.account, add_assoc]
    exact Multiset.mem_add.mpr (.inl (List.mem_map_of_mem member))
  obtain ⟨entry', member, same⟩ := List.mem_map.mp (Multiset.mem_coe.mp there)
  exact Option.some.inj same ▸ member

/-- Only `Monitor` takes entries off the heap, so a push disturbs nothing it relies on. -/
theorem Awaits.push (awaits : Awaits heap pushed monitor) (hash : GoString) (date : Time) :
    Awaits (heap.push hash date) (⟨hash, date⟩ :: pushed) monitor := by
  have stays : ∀ e ∈ heap.entries, e ∈ (heap.push hash date).entries := fun e member =>
    (heap.push_perm hash date).mem_iff.mpr (List.mem_cons_of_mem _ member)
  cases monitor with
  | peeking =>
    obtain ⟨e, member⟩ := List.exists_mem_of_ne_nil _ awaits
    exact List.ne_nil_of_mem (stays e member)
  | waiting => exact stays _ awaits
  | popping => exact stays _ awaits
  | sending => exact WasAdded.cons awaits _
  | loop | counting | scanning | parked | returned => trivial

theorem Tended.push (tended : Tended heap monitor pushed notified) (hash : GoString) (date : Time) :
    Tended (heap.push hash date) monitor (⟨hash, date⟩ :: pushed) notified where
  awaits := tended.awaits.push hash date
  wasAdded sent popped member := (tended.wasAdded sent popped member).cons _
  account := by
    have entries : (↑((heap.push hash date).entries.map some) : Multiset (Option ExpirationEntry)) =
        some ⟨hash, date⟩ ::ₘ ↑(heap.entries.map some) := by
      rw [Multiset.cons_coe, ← List.map_cons]
      exact Multiset.coe_eq_coe.mpr ((heap.push_perm hash date).map some)
    rw [entries, List.map_cons, ← Multiset.cons_coe, tended.account, Multiset.cons_add,
      Multiset.cons_add]

theorem Tended.move {before next : Monitor} (tended : Tended heap monitor pushed notified)
    (is : monitor = before) (same : inHand before = inHand next)
    (awaits : Awaits heap pushed before → Awaits heap pushed next) :
    Tended heap next pushed notified where
  awaits := awaits (is ▸ tended.awaits)
  wasAdded := tended.wasAdded
  account := by rw [tended.account, is, same]

theorem Tended.peek (tended : Tended heap .peeking pushed notified) :
    Tended heap (.waiting heap.peek.1 heap.peek.2) pushed notified := by
  refine tended.move rfl rfl fun nonempty => ?_
  obtain ⟨e, rest, there⟩ := List.exists_cons_of_ne_nil nonempty
  simp [Awaits, ExpirationHeap.peek, there]

theorem Tended.exists_top {date : Time} (tended : Tended heap (.popping hash date) pushed notified) :
    ∃ top ∈ heap.entries, top.date ≤ date ∧ heap.pop.1 = some top ∧
      (↑(heap.entries.map some) : Multiset (Option ExpirationEntry)) =
        ↑(heap.pop.2.entries.map some) + {some top} := by
  have member : ⟨hash, date⟩ ∈ heap.entries := tended.awaits
  obtain ⟨top, rest, there⟩ := List.exists_cons_of_ne_nil (List.ne_nil_of_mem member)
  obtain ⟨popped, left⟩ := ExpirationHeap.pop_perm there
  refine ⟨top, there ▸ List.mem_cons_self, ExpirationHeap.first_le there member, popped, ?_⟩
  rw [there, List.map_cons, ← Multiset.cons_coe, ← Multiset.singleton_add, add_comm,
    Multiset.coe_eq_coe.mpr (left.map some)]

theorem Tended.pop {date : Time} (tended : Tended heap (.popping hash date) pushed notified) :
    Tended heap.pop.2 (.sending hash heap.pop.1) pushed notified := by
  obtain ⟨top, _, _, popped, entries⟩ := tended.exists_top
  refine ⟨⟨_, tended.mem_pushed tended.awaits, rfl⟩, tended.wasAdded, ?_⟩
  rw [tended.account, entries, popped]
  simp only [inHand, add_zero]

theorem Tended.send {popped : Option ExpirationEntry}
    (tended : Tended heap (.sending hash popped) pushed notified) :
    Tended heap .loop pushed ((hash, popped) :: notified) where
  awaits := trivial
  wasAdded sent entry member := by
    rcases List.mem_cons.mp member with same | member
    · obtain ⟨rfl, rfl⟩ := Prod.mk.inj same
      exact tended.awaits
    · exact tended.wasAdded sent entry member
  account := by
    rw [tended.account, List.map_cons, ← Multiset.cons_coe, ← Multiset.singleton_add]
    simp only [inHand, add_zero, add_assoc]

end Tended

theorem tended_act {event : Event} {mem mem' : Notifier} {acting left : List Call}
    (act : Act event mem acting mem' left)
    (tended : Tended mem.heap mem.monitor mem.pushed mem.notified) :
    Tended mem'.heap mem'.monitor mem'.pushed mem'.notified := by
  cases act with
  | push => exact tended.push _ _
  | peek is => exact (is ▸ tended).peek
  | pop is => exact (is ▸ tended).pop
  | send is _ => exact (is ▸ tended).send
  | scanSome is some =>
    exact tended.move is rfl fun _ => fun empty => some (List.length_eq_zero_iff.mpr empty)
  | timer is _ => exact tended.move is rfl id
  | forced is => exact tended.move is rfl id
  | loopGoesOn is _ | loopDone is _ | countSome is _ | countNone is _ | scanNone is _ | waitDone is _
  | rescan is _ | parkedDone is _ | parkedAdd is _ => exact tended.move is rfl fun _ => trivial
  | add | force | tick | cancel | receive | peekFirst | peekOther | signalRescan | measureOne
  | measureOther | signalAdd | forceTimeout => exact tended

theorem reach_tended {allowed : State → Event → Prop} {now : Time} {config : State}
    (reach : Reach Act allowed (start now) config) :
    Tended config.mem.heap config.mem.monitor config.mem.pushed config.mem.notified := by
  refine reach.invariant
    (fun config => Tended config.mem.heap config.mem.monitor config.mem.pushed config.mem.notified)
    ?_ fun tended _ step => ?_
  · exact ⟨trivial, fun _ _ => nofun, rfl⟩
  · cases step with
    | fire rest act => exact tended_act act tended

/-- **Only what was added is notified**, in every run. -/
theorem notified_wasAdded {allowed : State → Event → Prop} {now : Time} {config : State}
    (reach : Reach Act allowed (start now) config) {hash : GoString}
    {popped : Option ExpirationEntry} (member : (hash, popped) ∈ config.mem.notified) :
    WasAdded config.mem.pushed hash :=
  (reach_tended reach).wasAdded hash popped member

/-- The hashes sent, or about to be sent, are those of the entries popped. -/
structure Matched (monitor : Monitor) (notified : List (GoString × Option ExpirationEntry)) : Prop where
  sending : ∀ hash popped, monitor = .sending hash popped →
    popped.map ExpirationEntry.hash = some hash
  notified : ∀ hash popped, (hash, popped) ∈ notified →
    popped.map ExpirationEntry.hash = some hash

/-- **The step lemma**: the top of the heap is due by the awaited date, so under the condition on the
pop it has the awaited hash. -/
theorem matched_act {event : Event} {mem mem' : Notifier} {acting left : List Call}
    {rest : Multiset Call} (act : Act event mem acting mem' left)
    (ok : Undisputed ⟨mem, ↑acting + rest⟩ event)
    (tended : Tended mem.heap mem.monitor mem.pushed mem.notified)
    (matched : Matched mem.monitor mem.notified) : Matched mem'.monitor mem'.notified := by
  cases act with
  | pop is =>
    refine ⟨fun hash popped sends => ?_, matched.notified⟩
    obtain ⟨rfl, rfl⟩ := Monitor.sending.inj sends
    obtain ⟨top, member, due, popped, _⟩ := (is ▸ tended : Tended _ _ _ _).exists_top
    rw [popped, ← ok top member due]
    rfl
  | send is _ =>
    refine ⟨nofun, fun hash popped member => ?_⟩
    rcases List.mem_cons.mp member with same | member
    · obtain ⟨rfl, rfl⟩ := Prod.mk.inj same
      exact matched.sending _ _ is
    · exact matched.notified _ _ member
  | loopGoesOn | loopDone | countSome | countNone | scanNone | scanSome | peek | waitDone | timer
  | forced | rescan | parkedDone | parkedAdd => exact ⟨nofun, matched.notified⟩
  | add | force | tick | cancel | receive | push | peekFirst | peekOther | signalRescan | measureOne
  | measureOther | signalAdd | forceTimeout => exact matched

/-- **`Monitor` notifies what it removes**, in every run in which nothing but the awaited hash is due
by the awaited date when it pops. -/
theorem notifiesPopped_of_undisputed {now : Time} {config : State}
    (reach : Reach Act Undisputed (start now) config) : NotifiesPopped config.mem := by
  have matched : Matched config.mem.monitor config.mem.notified := by
    induction reach with
    | start => exact ⟨fun _ _ sends => absurd (show Monitor.loop = _ from sends) nofun, fun _ _ => nofun⟩
    | step reach ok step ih =>
      cases step with
      | fire rest act => exact matched_act act ok (reach_tended reach) ih
  exact ⟨matched.notified, matched.sending, (reach_tended reach).account⟩

/-- One entry is added, awaited, popped at its date, and notified. -/
theorem notifiesPopped_single :
    ∃ config, Reach Act Undisputed (start 0) config ∧
      config.mem.notified = [([1], some ⟨[1], 10⟩)] ∧ NotifiesPopped config.mem := by
  have run : Reach Act Undisputed (start 0) (.ofList (new 0) []) := .start
  have run := run.next [] [] (Act.add [1] 10) trivial (.refl _)
  have run := run.next [.called [1] 10] [] Act.push trivial (.refl _)
  have run := run.next [] [.pushed [1]] (Act.loopGoesOn rfl rfl) trivial (.refl _)
  have run := run.next [] [.pushed [1]] (Act.countSome rfl (by decide)) trivial (.refl _)
  have run := run.next [] [.pushed [1]] (Act.scanSome rfl (by decide)) trivial (.refl _)
  have run := run.next [] [.pushed [1]] (Act.peek rfl) trivial (.refl _)
  have run := run.next [] [.pushed [1]] (Act.tick 10 (by decide)) trivial (.refl _)
  have run := run.next [] [.pushed [1]] (Act.timer rfl (by decide)) trivial (.refl _)
  have undisputed : ∀ entry ∈ (ExpirationHeap.new.push [1] 10).entries,
      entry.date ≤ 10 → entry.hash = [1] := by decide
  have run := run.next [] [.pushed [1]] (Act.pop rfl) undisputed (.refl _)
  have run := run.next [] [.pushed [1]] (Act.send rfl (by decide)) trivial (.refl _)
  exact ⟨_, run, by decide, notifiesPopped_of_undisputed run⟩

/-- An entry due at 10 is awaited, another one due at 5 is added, and at 10 the select takes the timer
although a rescan is asked for. -/
theorem disputed_pop_notifies_another :
    ∃ config, Reach Act (fun _ _ => True) (start 0) config ∧ ¬ NotifiesPopped config.mem := by
  have run : Reach Act (fun _ _ => True) (start 0) (.ofList (new 0) []) := .start
  have run := run.next [] [] (Act.add [1] 10) trivial (.refl _)
  have run := run.next [.called [1] 10] [] Act.push trivial (.refl _)
  have run := run.next [] [.pushed [1]] (Act.loopGoesOn rfl rfl) trivial (.refl _)
  have run := run.next [] [.pushed [1]] (Act.countSome rfl (by decide)) trivial (.refl _)
  have run := run.next [] [.pushed [1]] (Act.scanSome rfl (by decide)) trivial (.refl _)
  have run := run.next [] [.pushed [1]] (Act.peek rfl) trivial (.refl _)
  have run := run.next [] [.pushed [1]] (Act.add [2] 5) trivial (.refl _)
  have run := run.next [.called [2] 5] [.pushed [1]] Act.push trivial (.refl _)
  have run := run.next [.pushed [2]] [.pushed [1]] (Act.peekFirst (by decide)) trivial (.refl _)
  have run := run.next [.first] [.pushed [1]] Act.signalRescan trivial (.refl _)
  have run := run.next [] [.measuring, .pushed [1]] (Act.tick 10 (by decide)) trivial (.refl _)
  have run := run.next [] [.measuring, .pushed [1]] (Act.timer rfl (by decide)) trivial (.refl _)
  have run := run.next [] [.measuring, .pushed [1]] (Act.pop rfl) trivial (.refl _)
  have run := run.next [] [.measuring, .pushed [1]] (Act.send rfl (by decide)) trivial (.refl _)
  refine ⟨_, run, fun notifies => ?_⟩
  have hashes := notifies.matched [1] (some ⟨[2], 5⟩) (by decide)
  exact absurd hashes (by decide)

/-! ### The wake-up -/

/-- The call has pushed and has not yet read the length. -/
def unmeasured : Call → Bool
  | .pushed _ | .first | .measuring => true
  | _ => false

def isAdd : Call → Bool
  | .forcing => false
  | _ => true

/-- **The lost wake-up**: there are entries, no `Add` call is in progress, no wake-up is under way, and
`Monitor` is blocked until one comes. -/
def LostWakeUp (config : State) : Prop :=
  config.mem.heap.entries ≠ [] ∧ (∀ call ∈ config.procs, isAdd call = false) ∧
    config.mem.addChan = false ∧ config.mem.monitor = .parked ∧ config.mem.contextDone = false

/-- The condition: no `Add` pushes while another one has pushed and not yet read the length. -/
def Apart (config : State) : Event → Prop
  | .push => ∀ call ∈ config.procs, unmeasured call = false
  | _ => True

/-- The call will send the wake-up if the length stays as it is. -/
def wakes (len : Nat) : Call → Bool
  | .pushed _ | .first | .measuring => len = 1
  | .only => true
  | _ => false

/-- **The invariant**: where `Monitor` is parked, there is nothing to do, or the wake-up is there, or a
call will send it. -/
def Woken (config : State) : Prop :=
  config.mem.monitor = .parked → config.mem.contextDone = false →
    config.mem.heap.entries = [] ∨ config.mem.addChan = true ∨
      ∃ call ∈ config.procs, wakes config.mem.heap.len call = true

section Woken

variable {mem mem' : Notifier} {acting left : List Call} {rest : Multiset Call}

/-- A step that leaves the heap alone, and that is not the step of a call about to send the wake-up. -/
theorem Woken.keep (woken : Woken ⟨mem, ↑acting + rest⟩)
    (parked : mem'.monitor = .parked → mem.monitor = .parked)
    (live : mem'.contextDone = false → mem.contextDone = false) (heap : mem'.heap = mem.heap)
    (signal : mem.addChan = true → mem'.addChan = true)
    (acted : ∀ call ∈ acting, wakes mem.heap.len call = true →
      ∃ call ∈ left, wakes mem.heap.len call = true) :
    Woken ⟨mem', ↑left + rest⟩ := by
  intro isParked isLive
  simp only [heap]
  rcases woken (parked isParked) (live isLive) with empty | sent | waking
  · exact .inl empty
  · exact .inr (.inl (signal sent))
  · exact .inr (.inr (exists_mem_fire waking acted fun _ _ => id))

/-- **A push** finds the heap empty and makes the length 1, or finds the wake-up on its way already. -/
theorem Woken.push {hash : GoString} {date : Time}
    (woken : Woken ⟨mem, ↑[Call.called hash date] + rest⟩)
    (apart : ∀ call ∈ (↑[Call.called hash date] + rest : Multiset Call), unmeasured call = false) :
    Woken ⟨{ mem with heap := mem.heap.push hash date, pushed := ⟨hash, date⟩ :: mem.pushed },
      ↑[Call.pushed hash] + rest⟩ := by
  intro isParked isLive
  rcases woken isParked isLive with empty | sent | waking
  · refine .inr (.inr ⟨.pushed hash, by simp, ?_⟩)
    have one : (mem.heap.push hash date).len = 1 := by
      rw [ExpirationHeap.len_push, ExpirationHeap.len, empty, List.length_nil]
    simp [wakes, one]
  · exact .inr (.inl sent)
  · obtain ⟨call, member, wakes⟩ := waking
    have measured := apart call member
    cases call with
    | only =>
      have there : Call.only ∈ rest := by simpa using member
      exact .inr (.inr ⟨.only, by simp [there], rfl⟩)
    | pushed => exact absurd measured nofun
    | first => exact absurd measured nofun
    | measuring => exact absurd measured nofun
    | called => exact absurd wakes nofun
    | forcing => exact absurd wakes nofun

theorem woken_act {event : Event} (act : Act event mem acting mem' left)
    (ok : Apart ⟨mem, ↑acting + rest⟩ event) (woken : Woken ⟨mem, ↑acting + rest⟩) :
    Woken ⟨mem', ↑left + rest⟩ := by
  cases act with
  | push => exact woken.push ok
  | countNone _ empty => exact fun _ _ => .inl (List.length_eq_zero_iff.mp empty)
  | loopDone _ done => exact fun _ live => absurd (done.symm.trans live) nofun
  | cancel => exact fun _ => nofun
  | signalAdd => exact fun _ _ => .inr (.inl rfl)
  | measureOther other => exact woken.keep id id rfl id (by simp [wakes, other])
  | measureOne | peekFirst | peekOther | signalRescan | forceTimeout =>
    exact woken.keep id id rfl id (by simp [wakes])
  | add | force | tick | receive => exact woken.keep id id rfl id nofun
  | loopGoesOn | countSome | scanNone | scanSome | peek | waitDone | timer | forced | rescan | pop
  | send | parkedDone | parkedAdd => exact nofun

end Woken

/-- **No wake-up is lost** in a run in which no `Add` pushes while another one has pushed and not yet
read the length. -/
theorem no_lostWakeUp_of_apart {now : Time} {config : State}
    (reach : Reach Act Apart (start now) config) : ¬ LostWakeUp config := by
  have woken : Woken config := by
    refine reach.invariant Woken ?_ fun woken ok step => ?_
    · exact fun parked => absurd (show Monitor.loop = .parked from parked) nofun
    · cases step with
      | fire rest act => exact woken_act act ok woken
  rintro ⟨nonempty, noAdd, noSignal, parked, live⟩
  rcases woken parked live with empty | sent | ⟨call, member, wakes⟩
  · exact nonempty empty
  · exact absurd (noSignal.symm.trans sent) nofun
  · have other := noAdd call member
    cases call with
    | forcing => exact absurd wakes nofun
    | called | pushed | first | measuring | only => exact absurd other nofun

/-- One `Add` call that finds `Monitor` parked sends the wake-up. -/
theorem no_lostWakeUp_single :
    ∃ config, Reach Act Apart (start 0) config ∧ config.mem.monitor = .parked ∧
      config.mem.heap.len = 1 ∧ ¬ LostWakeUp config := by
  have run : Reach Act Apart (start 0) (.ofList (new 0) []) := .start
  have run := run.next [] [] (Act.loopGoesOn rfl rfl) trivial (.refl _)
  have run := run.next [] [] (Act.countNone rfl rfl) trivial (.refl _)
  have run := run.next [] [] (Act.add [1] 10) trivial (.refl _)
  have apart : ∀ call ∈ (↑[Call.called [1] 10] : Multiset Call), unmeasured call = false := by decide
  have run := run.next [.called [1] 10] [] Act.push apart (.refl _)
  have run := run.next [.pushed [1]] [] (Act.peekFirst (by decide)) trivial (.refl _)
  have run := run.next [.first] [] Act.signalRescan trivial (.refl _)
  have run := run.next [.measuring] [] (Act.measureOne (by decide)) trivial (.refl _)
  have run := run.next [.only] [] Act.signalAdd trivial (.refl _)
  exact ⟨_, run, rfl, by decide, no_lostWakeUp_of_apart run⟩

/-- Two `Add` calls push before either reads the length: both read 2, and neither sends. -/
theorem overlapping_adds_lose_wakeUp :
    ∃ config, Reach Act (fun _ _ => True) (start 0) config ∧ LostWakeUp config := by
  have run : Reach Act (fun _ _ => True) (start 0) (.ofList (new 0) []) := .start
  have run := run.next [] [] (Act.loopGoesOn rfl rfl) trivial (.refl _)
  have run := run.next [] [] (Act.countNone rfl rfl) trivial (.refl _)
  have run := run.next [] [] (Act.add [1] 10) trivial (.refl _)
  have run := run.next [] [.called [1] 10] (Act.add [2] 20) trivial (.refl _)
  have run := run.next [.called [2] 20] [.called [1] 10] Act.push trivial (.refl _)
  have run := run.next [.called [1] 10] [.pushed [2]] Act.push trivial (.swap _ _ _)
  have run := run.next [.pushed [1]] [.pushed [2]] (Act.peekFirst (by decide)) trivial (.refl _)
  have run := run.next [.first] [.pushed [2]] Act.signalRescan trivial (.refl _)
  have run := run.next [.measuring] [.pushed [2]] (Act.measureOther (by decide)) trivial (.refl _)
  have run := run.next [.pushed [2]] [] (Act.peekOther (by decide)) trivial (.refl _)
  have run := run.next [.measuring] [] (Act.measureOther (by decide)) trivial (.refl _)
  exact ⟨_, run, by decide, by simp [Config.ofList], rfl, rfl, rfl⟩

end Notifier

end Kubecc.Storage
