/-
**Making room in the local storage.**

What `DeleteObjectsClosestToExpiration` of `pkg/storage/local.go` removes, over the model of
`Storage.Evictor`. The loop only peeks and sends a signal: the object goes from `Monitor` over
`expirationChan` to the handler, and the next size test comes when it is gone.

* `OwnMove` — what a step of `Monitor` does while nobody calls.
* `evicting_act` — where the object stands that is made to expire, while the others keep still.
* `rank_act`, `Invariant.canStep` — every step brings the eviction nearer to its end, and one is
  always possible.
* `evictsClosest_of_attended` — in every run in which `Monitor` pops what it awaits, and is not asleep
  over entries when the eviction begins, the objects closest to expiring are removed, and no more than
  needed; the call is bound to return.
* `evicts_another` — an expiration that is forced while a rescan is asked for removes an object that
  expires later, and one that is forced while `Monitor` sleeps is given up.
-/

import Kubecc.Lib.Liveness
import Kubecc.Storage.Evictor

namespace Kubecc.Storage.Eviction

open Kubecc.Go Kubecc.Lib
open Kubecc.Storage.Local (Path File CacheObject plainJoin)
open Kubecc.Storage.Lifetime (Own begins add add_carries found inFlight underWay)

/-! ### The property -/

/-- The steps of the clock aside: a step of the notifier is one of `Monitor`. -/
def Works (config : State) : Event → Prop
  | .notifier _ notifier => notifier.monitor ≠ config.mem.notifier.monitor
  | _ => True

/-- **The eviction removes what is closest to expiring, and no more than needed**: what it has removed
expires no later than what it has kept; a file is removed only while the total is above the bound; when
it has returned, the total is below it or the heap is empty; and it is bound to return. -/
structure EvictsClosest (settings : Settings) (config : State) : Prop where
  closest : ∀ gone ∈ config.mem.evicted, ∀ path ∈ config.mem.files,
    NotLater gone (config.mem.content path)
  needed : ∀ path next, Step (Act settings) config (.remove path) next →
    Above config.mem.totalSize settings.sizeLimit
  stops : config.mem.evictor = .returned →
    ¬ Above config.mem.totalSize settings.sizeLimit ∨ config.mem.notifier.heap.entries = []
  returns : Inevitable (Step (Act settings)) (fun config event => Orderly config event ∧ Works config event)
    (fun config => config.mem.evictor = .returned) config

/-! ### What `Monitor` does while nobody calls -/

/-- How many steps `Monitor` takes from here, if nothing is added, to a place where it waits; after a
forced expiration it has to notify first. -/
def monitorRank (len : Nat) : Monitor → Nat
  | .popping _ _ => 14
  | .sending _ _ => 13
  | .scanning => if len = 0 then 6 else 3
  | .loop => 5
  | .counting => 4
  | .peeking => 2
  | .waiting _ _ => 1
  | .parked | .returned => 0

/-- The entries that have not been popped yet, and are not about to be. -/
def entriesLeft (notifier : Notifier) : Nat :=
  match notifier.monitor with
  | .popping _ _ => notifier.heap.len - 1
  | _ => notifier.heap.len

/-- The rank of the notifier: each entry stands for one more round. -/
def notifierRank (notifier : Notifier) : Nat :=
  30 * entriesLeft notifier + monitorRank notifier.heap.len notifier.monitor +
    4 * notifier.expirationChan.length + 6 * notifier.rescanChan.toNat + 6 * notifier.addChan.toNat

/-- **What a step of the notifier does while nobody calls**: the clock goes on; or `Monitor` moves between
two places where it has nothing to notify; or it pops, or sends. -/
inductive OwnMove (notifier : Notifier) : Notifier → Prop
  | tick (later : Time) : OwnMove notifier { notifier with now := later }
  | move {notifier' : Notifier} : inFlight notifier.monitor = [] → inFlight notifier'.monitor = [] →
      notifier'.heap = notifier.heap → notifier'.expirationChan = notifier.expirationChan →
      Attentive notifier' → notifierRank notifier' < notifierRank notifier →
      OwnMove notifier notifier'
  | pop {hash : GoString} {date : Time} : notifier.monitor = .popping hash date →
      OwnMove notifier
        { notifier with heap := notifier.heap.pop.2, monitor := .sending hash notifier.heap.pop.1 }
  | send {hash : GoString} {popped : Option ExpirationEntry} : notifier.monitor = .sending hash popped →
      OwnMove notifier
        { notifier with
          expirationChan := notifier.expirationChan ++ [hash]
          notified := (hash, popped) :: notifier.notified
          monitor := .loop }

section OwnMove

variable {notifier notifier' : Notifier} {left : List Call} {event : Notifier.Event}

theorem ownMove_act (act : Notifier.Act event notifier [] notifier' left)
    (own : Own notifier [] notifier' left) (live : notifier.contextDone = false)
    (goesOn : notifier'.contextDone = false) (quiet : ¬ Expires notifier notifier') :
    OwnMove notifier notifier' ∧ left = [] := by
  -- the rank of a move is that of the two places, and the signal that is taken
  have moves {monitor monitor' : Monitor} {rescanChan addChan : Bool} (is : notifier.monitor = monitor)
      (clear : inFlight monitor = []) (clear' : inFlight monitor' = [])
      (attentive : Attentive { notifier with rescanChan, addChan, monitor := monitor' })
      (lower : monitorRank notifier.heap.len monitor' + 6 * rescanChan.toNat + 6 * addChan.toNat <
        monitorRank notifier.heap.len monitor + 6 * notifier.rescanChan.toNat +
          6 * notifier.addChan.toNat) :
      OwnMove notifier { notifier with rescanChan, addChan, monitor := monitor' } := by
    refine .move (is ▸ clear) clear' rfl rfl attentive ?_
    have before : entriesLeft notifier = notifier.heap.len := by
      unfold entriesLeft
      rw [is]
      cases monitor with
      | popping => exact absurd clear nofun
      | loop | counting | scanning | peeking | waiting | sending | parked | returned => rfl
    have after : entriesLeft { notifier with rescanChan, addChan, monitor := monitor' } =
        notifier.heap.len := by
      unfold entriesLeft
      cases monitor' with
      | popping => exact absurd clear' nofun
      | loop | counting | scanning | peeking | waiting | sending | parked | returned => rfl
    rw [notifierRank, notifierRank, before, after, is]
    simp only
    omega
  cases act with
  | add | force => exact absurd (own.noCall _ List.mem_cons_self) nofun
  | tick later _ => exact ⟨.tick later, rfl⟩
  | cancel => exact absurd goesOn nofun
  | receive is => exact absurd (is ▸ own.keeps).length_le (by simp)
  | loopGoesOn is _ => exact ⟨moves is rfl rfl trivial (by simp [monitorRank]), rfl⟩
  | countSome is some =>
    exact ⟨moves is rfl rfl trivial (by simp [monitorRank, Nat.pos_iff_ne_zero.mp some]), rfl⟩
  | countNone is none =>
    exact ⟨moves is rfl rfl (.inl (List.length_eq_zero_iff.mp none)) (by simp [monitorRank]), rfl⟩
  | scanNone is none => exact ⟨moves is rfl rfl trivial (by simp [monitorRank, none]), rfl⟩
  | scanSome is some => exact ⟨moves is rfl rfl trivial (by simp [monitorRank, some]), rfl⟩
  | peek is => exact ⟨moves is rfl rfl (.inl rfl) (by simp [monitorRank]), rfl⟩
  | rescan is asked =>
    refine ⟨moves is rfl rfl trivial ?_, rfl⟩
    simp only [monitorRank, asked, Bool.toNat_true, Bool.toNat_false]
    split <;> omega
  | parkedAdd is woken =>
    refine ⟨moves is rfl rfl trivial ?_, rfl⟩
    simp only [monitorRank, woken, Bool.toNat_true, Bool.toNat_false]
    omega
  | timer is _ => exact absurd ⟨_, _, is, rfl⟩ quiet
  | pop is => exact ⟨.pop is, rfl⟩
  | send is _ => exact ⟨.send is, rfl⟩
  | loopDone _ done | waitDone _ done | parkedDone _ done => exact absurd (live.symm.trans done) nofun

theorem OwnMove.keep (move : OwnMove notifier notifier') (clear : underWay notifier = []) :
    underWay notifier' = [] ∧ notifier'.heap = notifier.heap := by
  cases move with
  | tick => exact ⟨clear, rfl⟩
  | move _ free heap same => exact ⟨by rw [underWay, free, same]; exact (List.append_eq_nil_iff.mp clear).2, heap⟩
  | pop is | send is =>
    rw [underWay, is] at clear
    cases clear

theorem OwnMove.mem_entries (move : OwnMove notifier notifier') {entry : ExpirationEntry}
    (member : entry ∈ notifier'.heap.entries) : entry ∈ notifier.heap.entries := by
  cases move with
  | tick | send => exact member
  | move _ _ heap => exact heap ▸ member
  | pop => exact Lifetime.mem_pop member

theorem OwnMove.attentive (move : OwnMove notifier notifier') (attentive : Attentive notifier) :
    Attentive notifier' := by
  cases move with
  | tick => exact attentive
  | move _ _ _ _ attentive => exact attentive
  | pop | send => trivial

end OwnMove

/-! ### The object that is made to expire -/

/-- The object of this hash is on its way: popped, or about to be, and not yet removed. -/
structure Expiring (mem : Provider) (hash : GoString) : Prop where
  only : underWay mem.notifier ++ handling mem.handler = [hash]
  booked : ∀ size, mem.handler ≠ .removed size
  first : ∀ awaited date, mem.notifier.monitor = .popping awaited date →
    mem.notifier.heap.peek = (awaited, date)

/-- The object of this hash has been removed. -/
structure Expired (settings : Settings) (mem : Provider) (hash : GoString) : Prop where
  clear : underWay mem.notifier = []
  handled : handling mem.handler = []
  absent : settings.join hash ∉ mem.files

/-- The object in the file of this hash expires no later than any entry. -/
def Leading (settings : Settings) (mem : Provider) (hash : GoString) : Prop :=
  ∀ entry ∈ mem.notifier.heap.entries, ∀ date ∈ due (mem.content (settings.join hash)), date ≤ entry.date

/-- What holds where the eviction stands. -/
def Phase (settings : Settings) (mem : Provider) : Evictor → Prop
  | .idle => True
  | .testing => Processed mem
  | .above => Processed mem ∧ Above mem.totalSize settings.sizeLimit
  | .forcing hash => Processed mem ∧ Above mem.totalSize settings.sizeLimit ∧
      mem.notifier.heap.peek.1 = hash
  | .polling hash => 2 ≤ hash.length ∧
      (Expiring mem hash ∧ Above mem.totalSize settings.sizeLimit ∧ Leading settings mem hash ∨
        Expired settings mem hash)
  | .returned => Processed mem ∧
      (¬ Above mem.totalSize settings.sizeLimit ∨ mem.notifier.heap.entries = [])

/-- **The invariant of an eviction**: nobody else does anything, `Monitor` is attentive, and what has been
removed expires no later than what is there. -/
structure Evicting (settings : Settings) (config : State) : Prop where
  alone : config.procs = 0
  attentive : Attentive config.mem.notifier
  phase : Phase settings config.mem config.mem.evictor
  closest : ∀ gone ∈ config.mem.evicted, ∀ path ∈ config.mem.files,
    NotLater gone (config.mem.content path)

section Phase

variable {settings : Settings} {mem : Provider} {evictor : Evictor} {notifier : Notifier}
  {hash : GoString}

theorem Expiring.ownMove (expiring : Expiring mem hash) (move : OwnMove mem.notifier notifier) :
    Expiring { mem with notifier } hash := by
  obtain ⟨only, booked, first⟩ := expiring
  cases move with
  | tick => exact ⟨only, booked, first⟩
  | move clear clear' _ same =>
    refine ⟨?_, booked, fun awaited date is => ?_⟩
    · rw [← only, underWay, underWay, clear, clear', same]
    · rw [show notifier.monitor = _ from is] at clear'
      cases clear'
  | pop is =>
    refine ⟨?_, booked, by rintro _ _ ⟨⟩⟩
    rw [← only, underWay, underWay, is]
    rfl
  | send is =>
    refine ⟨?_, booked, by rintro _ _ ⟨⟩⟩
    simp only [underWay, is, inFlight, List.nil_append, List.cons_append, List.cons.injEq,
      List.append_eq_nil_iff] at only ⊢
    obtain ⟨rfl, empty, idle⟩ := only
    rw [empty, idle]
    rfl

/-- **A step of the notifier by itself** leaves the eviction where it is. -/
theorem Phase.ownMove (phase : Phase settings mem evictor) (move : OwnMove mem.notifier notifier) :
    Phase settings { mem with notifier } evictor := by
  have quiet (processed : Processed mem) :
      Processed { mem with notifier } ∧ notifier.heap = mem.notifier.heap :=
    ⟨⟨(move.keep processed.1).1, processed.2⟩, (move.keep processed.1).2⟩
  cases evictor with
  | idle => trivial
  | testing => exact (quiet phase).1
  | above => exact ⟨(quiet phase.1).1, phase.2⟩
  | forcing =>
    refine ⟨(quiet phase.1).1, phase.2.1, ?_⟩
    rw [← phase.2.2, (quiet phase.1).2]
  | returned =>
    refine ⟨(quiet phase.1).1, ?_⟩
    rw [(quiet phase.1).2]
    exact phase.2
  | polling hash =>
    obtain ⟨long, ⟨expiring, above, leading⟩ | ⟨clear, handled, absent⟩⟩ := phase
    · exact ⟨long, .inl ⟨expiring.ownMove move, above, fun entry member =>
        leading entry (move.mem_entries member)⟩⟩
    · exact ⟨long, .inr ⟨(move.keep clear).1, handled, absent⟩⟩

theorem Phase.polling (phase : Phase settings mem evictor) (begun : evictor ≠ .idle)
    (busy : ¬ Processed mem) :
    ∃ hash, evictor = .polling hash ∧ 2 ≤ hash.length ∧
      (Expiring mem hash ∧ Above mem.totalSize settings.sizeLimit ∧ Leading settings mem hash ∨
        Expired settings mem hash) := by
  cases evictor with
  | idle => exact absurd rfl begun
  | testing => exact absurd phase busy
  | above => exact absurd phase.1 busy
  | forcing => exact absurd phase.1 busy
  | returned => exact absurd phase.1 busy
  | polling hash => exact ⟨hash, rfl, phase⟩

theorem Expiring.not_processed (expiring : Expiring mem hash) : ¬ Processed mem := by
  rintro ⟨clear, idle⟩
  have none := expiring.only
  rw [clear, idle] at none
  exact absurd none nofun

end Phase

section Evicting

variable {settings : Settings} {event : Event} {mem mem' : Provider} {acting left : List Proc}
  {procs rest : Multiset Proc} {hash : GoString}

theorem Evicting.absurd_acting {proc : Proc} {more : List Proc} {P : Prop}
    (evicting : Evicting settings ⟨mem, ↑(proc :: more) + rest⟩) : P := by
  have there : proc ∈ (↑(proc :: more) + rest : Multiset Proc) := mem_acting
  rw [show ↑(proc :: more) + rest = 0 from evicting.alone] at there
  exact absurd there (Multiset.notMem_zero _)

theorem Expiring.handling_eq {handled : GoString} (expiring : Expiring mem hash)
    (is : handling mem.handler = [handled]) : underWay mem.notifier = [] ∧ handled = hash := by
  have only := expiring.only
  rw [is] at only
  rcases List.append_eq_singleton_iff.mp only with ⟨clear, same⟩ | ⟨_, none⟩
  · exact ⟨clear, List.singleton_inj.mp same⟩
  · exact absurd none nofun

/-- A step of the handler is checked on the hash that is on its way. -/
theorem Evicting.handle (evicting : Evicting settings ⟨mem, procs⟩) (begun : mem.evictor ≠ .idle)
    (busy : ¬ Processed mem) (same : mem'.evictor = mem.evictor) (attentive : Attentive mem'.notifier)
    (closest : ∀ gone ∈ mem'.evicted, ∀ path ∈ mem'.files, NotLater gone (mem'.content path))
    (way : ∀ hash, (Expiring mem hash ∧ Above mem.totalSize settings.sizeLimit ∧
        Leading settings mem hash ∨ Expired settings mem hash) →
      (Expiring mem' hash ∧ Above mem'.totalSize settings.sizeLimit ∧ Leading settings mem' hash ∨
        Expired settings mem' hash)) :
    Evicting settings ⟨mem', procs⟩ := by
  obtain ⟨hash, is, long, stands⟩ := evicting.phase.polling begun busy
  refine ⟨evicting.alone, attentive, ?_, closest⟩
  rw [same, show mem.evictor = _ from is]
  exact ⟨long, way hash stands⟩

/-- While nobody else does anything, a file that is not being removed has its entry in the heap. -/
theorem Expiring.exists_entry (expiring : Expiring mem hash) (idle : underWay mem.notifier = [])
    (stored : StoredIn settings ⟨mem, 0⟩) {path : Path} (member : path ∈ mem.files)
    (other : path ≠ settings.join hash) :
    ∃ entry ∈ mem.notifier.heap.entries, due (mem.content path) = some entry.date := by
  have inVal : path ∈ mem.files.val := member
  rw [← stored.held] at inVal
  obtain ⟨named, there, rfl⟩ := Multiset.mem_map.mp inVal
  have entries : promised ⟨mem, 0⟩ = ↑mem.notifier.heap.entries := add_zero _
  rcases Multiset.mem_add.mp there with stays | leaves
  · obtain ⟨entry, inHeap, rfl⟩ := Multiset.mem_map.mp stays
    exact ⟨entry, by rwa [entries] at inHeap, stored.dated entry inHeap⟩
  · -- nothing is in transit but the hash that is on its way
    have only := expiring.only
    rw [idle, List.nil_append] at only
    obtain ⟨clear, empty⟩ := List.append_eq_nil_iff.mp idle
    have none : sent mem.notifier.monitor = [] := by
      cases is : mem.notifier.monitor with
      | sending =>
        rw [is] at clear
        exact absurd clear nofun
      | loop | counting | scanning | peeking | waiting | popping | parked | returned => rfl
    have same : transit mem = {hash} := by
      rw [transit, none, empty, only]
      rfl
    rw [same, Multiset.mem_singleton] at leaves
    exact absurd (congrArg _ leaves) other

/-- **The handler removes the file**: what stays is in the heap, and expires no earlier. -/
theorem Evicting.remove (evicting : Evicting settings ⟨mem, procs⟩) (begun : mem.evictor ≠ .idle)
    (stored : StoredIn settings ⟨mem, procs⟩) {size : Nat} (is : mem.handler = .statted hash size) :
    Evicting settings
      ⟨{ mem with
          files := mem.files.erase (settings.join hash)
          evicted := mem.content (settings.join hash) :: mem.evicted
          handler := .removed size }, procs⟩ := by
  have busy : ¬ Processed mem := fun processed => absurd (is.symm.trans processed.2) nofun
  obtain ⟨polled, polls, long, ⟨expiring, above, leading⟩ | gone⟩ := evicting.phase.polling begun busy
  · obtain ⟨clear, rfl⟩ := expiring.handling_eq (by rw [is]; rfl)
    refine ⟨evicting.alone, evicting.attentive, ?_, fun gone member path kept => ?_⟩
    · rw [show mem.evictor = _ from polls]
      exact ⟨long, .inr ⟨clear, rfl, Finset.notMem_erase _ _⟩⟩
    · obtain ⟨other, there⟩ := Finset.mem_erase.mp kept
      rcases List.mem_cons.mp member with rfl | member
      · obtain rfl : procs = 0 := evicting.alone
        obtain ⟨entry, stays, is⟩ := expiring.exists_entry clear stored there other
        intro date mine later theirs
        obtain rfl : entry.date = later := Option.some.inj (is.symm.trans theirs)
        exact leading entry stays date mine
      · exact evicting.closest gone member path there
  · exact absurd gone.handled (by rw [is]; exact nofun)

/-- **The forced expiration**: `Monitor` awaits the first entry, whose file is there. -/
theorem Evicting.forced (evicting : Evicting settings ⟨mem, procs⟩)
    (stored : StoredIn settings ⟨mem, procs⟩) {awaited : GoString} {date : Time}
    (is : mem.evictor = .forcing hash) (there : ⟨awaited, date⟩ ∈ mem.notifier.heap.entries)
    (first : mem.notifier.heap.peek = (awaited, date)) :
    Evicting settings
      ⟨{ mem with
          notifier := { mem.notifier with monitor := .popping awaited date }
          evictor := .polling hash }, procs⟩ := by
  have phase : Phase settings mem mem.evictor := evicting.phase
  rw [is] at phase
  obtain ⟨⟨clear, idle⟩, above, peeked⟩ := phase
  obtain rfl : awaited = hash := by rw [← peeked, first]
  have promise : ⟨awaited, date⟩ ∈ promised ⟨mem, procs⟩ := Multiset.mem_add.mpr (.inl there)
  refine ⟨evicting.alone, trivial, ⟨?_, .inl ⟨⟨?_, fun size => ?_, ?_⟩, above, ?_⟩⟩, evicting.closest⟩
  · exact stored.named _ (Multiset.mem_add.mpr (.inl (Multiset.mem_map_of_mem _ promise)))
  · rw [underWay, show mem.notifier.expirationChan = [] from (List.append_eq_nil_iff.mp clear).2,
      show mem.handler = .idle from idle]
    rfl
  · rw [show mem.handler = .idle from idle]
    rintro ⟨⟩
  · intro popped due pops
    obtain ⟨rfl, rfl⟩ := Monitor.popping.inj pops
    exact first
  · intro entry member due is
    obtain rfl : date = due := Option.some.inj ((stored.dated _ promise).symm.trans is)
    obtain ⟨top, others, entries⟩ := List.exists_cons_of_ne_nil (List.ne_nil_of_mem there)
    rw [ExpirationHeap.peek, entries] at first
    rw [← (Prod.mk.inj first).2]
    exact ExpirationHeap.first_le entries member

theorem evicting_act (act : Act settings event mem acting mem' left)
    (ok : Orderly ⟨mem, ↑acting + rest⟩ event) (live : Live mem)
    (awaits : Notifier.Awaits mem.notifier.heap mem.notifier.pushed mem.notifier.monitor)
    (stored : StoredIn settings ⟨mem, ↑acting + rest⟩)
    (evicting : mem.evictor ≠ .idle → Evicting settings ⟨mem, ↑acting + rest⟩)
    (begun : mem'.evictor ≠ .idle) : Evicting settings ⟨mem', ↑left + rest⟩ := by
  have phase {evictor : Evictor} (is : mem.evictor = evictor) (begun : evictor ≠ .idle) :
      Phase settings mem evictor := is ▸ (evicting (is ▸ begun)).phase
  cases act with
  | @notifier _ _ calls notifier after act own =>
    cases calls with
    | cons call calls => exact (evicting begun).absurd_acting
    | nil =>
      obtain ⟨move, rfl⟩ := ownMove_act act own live.context ok.2.1 (ok.1.resolve_left begun)
      have evicting := evicting begun
      exact ⟨evicting.alone, move.attentive evicting.attentive, evicting.phase.ownMove move,
        evicting.closest⟩
  | put => exact absurd ok.1.2 begun
  | write | addSize | add => exact (evicting begun).absurd_acting
  | stop _ done => cases live.context.symm.trans done
  | @receive _ hash queue idle is =>
    refine (evicting begun).handle begun ?_ rfl (evicting begun).attentive (evicting begun).closest ?_
    · rintro ⟨clear, _⟩
      cases (List.append_eq_nil_iff.mp clear).2.symm.trans is
    · rintro polled (⟨⟨only, booked, first⟩, above, leading⟩ | ⟨clear, _, _⟩)
      · refine .inl ⟨⟨?_, by rintro _ ⟨⟩, first⟩, above, leading⟩
        simp only [underWay, is, idle, handling, List.append_nil] at only ⊢
        rcases List.append_eq_singleton_iff.mp only with ⟨clear, same⟩ | ⟨_, none⟩
        · obtain ⟨rfl, rfl⟩ := List.cons.inj same
          rw [clear]
          rfl
        · cases none
      · cases (List.append_eq_nil_iff.mp clear).2.symm.trans is
  | stat is =>
    refine (evicting begun).handle begun ?_ rfl (evicting begun).attentive (evicting begun).closest ?_
    · exact fun processed => by cases is.symm.trans processed.2
    · rintro polled (⟨⟨only, _, first⟩, above, leading⟩ | ⟨_, handled, _⟩)
      · rw [is] at only
        exact .inl ⟨⟨only, by rintro _ ⟨⟩, first⟩, above, leading⟩
      · rw [is] at handled
        cases handled
  | statFails is _ gone | removeFails is gone =>
    exact absurd (stored.handling_mem (by rw [is]; rfl)).1 gone
  | remove is _ => exact (evicting begun).remove begun stored is
  | subtract is =>
    refine (evicting begun).handle begun ?_ rfl (evicting begun).attentive (evicting begun).closest ?_
    · exact fun processed => by cases is.symm.trans processed.2
    · rintro polled (⟨⟨_, booked, _⟩, _⟩ | ⟨clear, _, gone⟩)
      · exact absurd is (booked _)
      · exact .inr ⟨clear, rfl, gone⟩
  | evict _ => exact ⟨ok.1.1, ok.2.2, ok.1.2, by rintro _ ⟨⟩⟩
  | testAbove is above =>
    have evicting := evicting (by rw [is]; rintro ⟨⟩)
    exact ⟨evicting.alone, evicting.attentive, ⟨phase is (by rintro ⟨⟩), above⟩, evicting.closest⟩
  | testBelow is below =>
    have evicting := evicting (by rw [is]; rintro ⟨⟩)
    exact ⟨evicting.alone, evicting.attentive, ⟨phase is (by rintro ⟨⟩), .inl below⟩, evicting.closest⟩
  | peek is =>
    have evicting := evicting (by rw [is]; rintro ⟨⟩)
    obtain ⟨processed, above⟩ := phase is (by rintro ⟨⟩)
    exact ⟨evicting.alone, evicting.attentive, ⟨processed, above, rfl⟩, evicting.closest⟩
  | forced is waits =>
    rw [waits] at awaits
    exact (evicting (by rw [is]; rintro ⟨⟩)).forced stored is awaits ok.2.2
  | forceTimeout is =>
    have evicting := evicting (by rw [is]; rintro ⟨⟩)
    obtain ⟨parked, unsent⟩ : Blocked mem.notifier := ok.2.1
    refine ⟨evicting.alone, evicting.attentive, ⟨(phase is (by rintro ⟨⟩)).1, .inr ?_⟩, evicting.closest⟩
    -- an attentive `Monitor` that is asleep has nothing to do
    have attentive : Attentive mem.notifier := evicting.attentive
    rw [Attentive, parked] at attentive
    exact attentive.resolve_right (by rw [unsent]; rintro ⟨⟩)
  | gone is =>
    have evicting := evicting (by rw [is]; rintro ⟨⟩)
    exact ⟨evicting.alone, evicting.attentive, ok.1, evicting.closest⟩
  | pollTimeout is =>
    obtain ⟨there, processed⟩ : _ ∧ Processed mem := ok.2.1
    obtain ⟨_, ⟨expiring, _⟩ | gone⟩ := phase is (by rintro ⟨⟩)
    · exact absurd processed expiring.not_processed
    · exact absurd there gone.absent
  | leave => exact absurd rfl begun

end Evicting

/-! ### Over whole runs -/

structure Invariant (settings : Settings) (config : State) : Prop where
  live : Live config.mem
  tended : Notifier.Tended config.mem.notifier.heap config.mem.notifier.monitor
    config.mem.notifier.pushed config.mem.notifier.notified
  stored : StoredIn settings config
  evicting : config.mem.evictor ≠ .idle → Evicting settings config

theorem invariant_start {settings : Settings} {order : List Path} {content : Path → File}
    (placed : Placed settings.join order content) (now : Time) :
    Invariant settings (start order content now) := by
  obtain ⟨heap, monitor, chan, context⟩ := foldl_add (found order content) (Notifier.new now)
  constructor
  case live =>
    refine ⟨context, ?_, nofun⟩
    rw [show (start order content now).mem.notifier.monitor = _ from monitor]
    exact nofun
  case tended => exact Lifetime.settled_start order content now
  case stored =>
    have entries : promised (start order content now) = ↑(found order content) := by
      refine (add_zero _).trans (heap.trans ?_)
      exact add_zero _
    have none : transit (start order content now).mem = 0 := by
      simp only [transit, start, monitor, chan]
      rfl
    rw [StoredIn, entries, none]
    simp only [start, configure_files]
    exact stored_start placed
  case evicting => exact fun begun => absurd rfl begun

section Runs

variable {settings : Settings} {event : Event} {mem mem' : Provider} {acting left : List Proc}
  {rest : Multiset Proc} {config next : State} {hash : GoString}

theorem invariant_step (inv : Invariant settings config) (ok : Orderly config event)
    (step : Step (Act settings) config event next) : Invariant settings next := by
  cases step with
  | fire rest act =>
    exact ⟨live_act act ok.2.1 inv.live, tended_act act inv.tended,
      stored_act act ok inv.tended.awaits inv.stored,
      evicting_act act ok inv.live inv.tended.awaits inv.stored inv.evicting⟩

/-! ### The eviction returns -/

def handlerRank : Handler → Nat
  | .received _ => 3
  | .statted _ _ => 2
  | .removed _ => 1
  | .idle | .stopped => 0

def evictorRank : Evictor → Nat
  | .polling _ => 4
  | .testing => 3
  | .above => 2
  | .forcing _ => 1
  | .idle | .returned => 0

def rank (mem : Provider) : Nat :=
  notifierRank mem.notifier + handlerRank mem.handler + evictorRank mem.evictor

theorem len_pop (heap : ExpirationHeap) : heap.pop.2.len = heap.len - 1 := by
  cases is : heap.entries with
  | nil =>
    obtain ⟨entries, ordered⟩ := heap
    obtain rfl : entries = [] := is
    rfl
  | cons top others =>
    rw [ExpirationHeap.len, (ExpirationHeap.pop_perm is).2.length_eq, ExpirationHeap.len, is]
    rfl

theorem OwnMove.rank_lt {notifier notifier' : Notifier} (move : OwnMove notifier notifier')
    (works : notifier'.monitor ≠ notifier.monitor) : notifierRank notifier' < notifierRank notifier := by
  cases move with
  | tick => exact absurd rfl works
  | move _ _ _ _ _ lower => exact lower
  | pop is =>
    simp only [notifierRank, entriesLeft, monitorRank, is, len_pop]
    omega
  | send is =>
    simp only [notifierRank, entriesLeft, monitorRank, is, List.length_append, List.length_singleton]
    omega

theorem rank_act (act : Act settings event mem acting mem' left)
    (ok : Orderly ⟨mem, ↑acting + rest⟩ event) (works : Works ⟨mem, ↑acting + rest⟩ event)
    (inv : Invariant settings ⟨mem, ↑acting + rest⟩) (begun : mem.evictor ≠ .idle)
    (busy : mem.evictor ≠ .returned) : rank mem' < rank mem ∧ mem'.evictor ≠ .idle := by
  cases act with
  | @notifier _ _ calls notifier after act own =>
    cases calls with
    | cons => exact (inv.evicting begun).absurd_acting
    | nil =>
      obtain ⟨move, rfl⟩ := ownMove_act act own inv.live.context ok.2.1 (ok.1.resolve_left begun)
      have lower := move.rank_lt works
      exact ⟨by simp only [rank]; omega, begun⟩
  | put => exact absurd ok.1.2 begun
  | write | addSize | add => exact (inv.evicting begun).absurd_acting
  | stop _ done => exact absurd (inv.live.context.symm.trans done) nofun
  | receive is queue =>
    refine ⟨?_, begun⟩
    simp only [rank, notifierRank, entriesLeft, handlerRank, is, queue, List.length_cons]
    omega
  | stat is | statFails is | remove is | removeFails is | subtract is =>
    refine ⟨?_, begun⟩
    simp only [rank, handlerRank, is]
    omega
  | evict is => exact absurd is begun
  | testAbove is | testBelow is | peek is | forceTimeout is | gone is | pollTimeout is =>
    refine ⟨?_, nofun⟩
    simp only [rank, evictorRank, is]
    omega
  | forced is waits =>
    refine ⟨?_, nofun⟩
    -- the entry that is awaited is in the heap, and is now about to be popped
    have some : 0 < mem.notifier.heap.len := by
      have awaits := inv.tended.awaits
      rw [show mem.notifier.monitor = _ from waits] at awaits
      exact List.length_pos_of_mem awaits
    simp only [rank, notifierRank, entriesLeft, monitorRank, evictorRank, is, waits]
    omega
  | leave is => exact absurd is busy

def CanStep (settings : Settings) (config : State) : Prop :=
  ∃ event next, (Orderly config event ∧ Works config event) ∧ Step (Act settings) config event next

theorem canStep_of_own {notifier : Notifier} {own : Notifier.Event}
    (act : Notifier.Act own config.mem.notifier [] notifier [])
    (keeps : config.mem.notifier.expirationChan <+: notifier.expirationChan)
    (context : notifier.contextDone = false)
    (works : notifier.monitor ≠ config.mem.notifier.monitor)
    (quiet : ∀ hash date, notifier.monitor ≠ .popping hash date)
    (first : Attended config (.notifier own notifier)) :
    CanStep settings config := by
  have acts : Act settings (.notifier own notifier) config.mem [] { config.mem with notifier } [] :=
    .notifier act ⟨nofun, nofun, keeps⟩
  obtain ⟨next, step⟩ := Step.exists_of_le (Multiset.zero_le _) acts
  have quietly : ¬ Expires config.mem.notifier notifier := fun ⟨hash, date, _, expires⟩ =>
    quiet hash date expires
  exact ⟨.notifier own notifier, next, ⟨⟨.inr quietly, context, first⟩, works⟩, step⟩

theorem canStep_of_act (act : Act settings event config.mem [] mem' []) (ok : Orderly config event)
    (works : Works config event) :
    CanStep settings config := by
  obtain ⟨next, step⟩ := Step.exists_of_le (Multiset.zero_le _) act
  exact ⟨event, next, ⟨ok, works⟩, step⟩

theorem Invariant.canStep_forcing (inv : Invariant settings config)
    (is : config.mem.evictor = .forcing hash) : CanStep settings config := by
  have evicting := inv.evicting (is ▸ nofun)
  have phase := evicting.phase
  rw [is] at phase
  have clear := (List.append_eq_nil_iff.mp phase.1.1).1
  have attentive := evicting.attentive
  have context := inv.live.context
  -- a move of `Monitor` to a place where it has nothing to notify
  have moves {rescanChan addChan : Bool} {monitor : Monitor}
      (act : Notifier.Act .internal config.mem.notifier []
        { config.mem.notifier with rescanChan, addChan, monitor } [])
      (works : monitor ≠ config.mem.notifier.monitor) (free : inFlight monitor = []) :
      CanStep settings config := by
    refine canStep_of_own act List.prefix_rfl context works (fun hash date pops => ?_) trivial
    rw [show monitor = _ from pops] at free
    exact absurd free nofun
  cases stands : config.mem.notifier.monitor with
  | loop => exact moves (.loopGoesOn stands context) (stands ▸ nofun) rfl
  | counting =>
    by_cases none : config.mem.notifier.heap.len = 0
    · exact moves (.countNone stands none) (stands ▸ nofun) rfl
    · exact moves (.countSome stands (Nat.pos_of_ne_zero none)) (stands ▸ nofun) rfl
  | scanning =>
    by_cases none : config.mem.notifier.heap.len = 0
    · exact moves (.scanNone stands none) (stands ▸ nofun) rfl
    · exact moves (.scanSome stands none) (stands ▸ nofun) rfl
  | peeking => exact moves (.peek stands) (stands ▸ nofun) rfl
  | waiting awaited date =>
    rw [Attentive, stands] at attentive
    rcases attentive with first | asked
    · exact canStep_of_act (.forced is stands) ⟨trivial, trivial, first⟩ trivial
    · exact moves (.rescan stands asked) (stands ▸ nofun) rfl
  | popping | sending =>
    rw [stands] at clear
    exact absurd clear nofun
  | parked =>
    cases woken : config.mem.notifier.addChan with
    | true => exact moves (.parkedAdd stands woken) (stands ▸ nofun) rfl
    | false => exact canStep_of_act (.forceTimeout is) ⟨trivial, ⟨stands, woken⟩, trivial⟩ trivial
  | returned => exact absurd stands inv.live.monitor

theorem Invariant.canStep_sent (inv : Invariant settings config)
    (expiring : Expiring config.mem hash) (clear : inFlight config.mem.notifier.monitor = []) :
    CanStep settings config := by
  have only := expiring.only
  rw [underWay, clear, List.nil_append] at only
  cases handles : config.mem.handler with
  | idle =>
    simp only [handles, handling, List.append_nil] at only
    exact canStep_of_act (.receive handles only) ⟨trivial, trivial, trivial⟩ trivial
  | received =>
    obtain ⟨there, long⟩ := inv.stored.handling_mem (by rw [handles]; rfl)
    exact canStep_of_act (.stat handles long there) ⟨trivial, trivial, trivial⟩ trivial
  | statted =>
    obtain ⟨there, _⟩ := inv.stored.handling_mem (by rw [handles]; rfl)
    exact canStep_of_act (.remove handles there) ⟨trivial, trivial, trivial⟩ trivial
  | removed => exact absurd handles (expiring.booked _)
  | stopped => exact absurd handles inv.live.handler

theorem Invariant.canStep_expiring (inv : Invariant settings config)
    (expiring : Expiring config.mem hash) : CanStep settings config := by
  cases stands : config.mem.notifier.monitor with
  | popping awaited date =>
    exact canStep_of_own (.pop stands) List.prefix_rfl inv.live.context (by rw [stands]; rintro ⟨⟩)
      (by rintro _ _ ⟨⟩) (expiring.first _ _ stands)
  | sending sends popped =>
    have only := expiring.only
    simp only [underWay, stands, inFlight, List.cons_append, List.nil_append, List.cons.injEq,
      List.append_eq_nil_iff] at only
    have room : config.mem.notifier.expirationChan.length < Notifier.capacity := by
      rw [only.2.1]
      decide
    exact canStep_of_own (.send stands room) (List.prefix_append _ _) inv.live.context
      (by rw [stands]; rintro ⟨⟩) (by rintro _ _ ⟨⟩) trivial
  | loop | counting | scanning | peeking | waiting | parked | returned =>
    exact inv.canStep_sent expiring (by rw [stands]; rfl)

theorem Invariant.canStep (inv : Invariant settings config) (begun : config.mem.evictor ≠ .idle)
    (busy : config.mem.evictor ≠ .returned) :
    CanStep settings config := by
  have phase := (inv.evicting begun).phase
  cases is : config.mem.evictor with
  | idle => exact absurd is begun
  | testing =>
    by_cases above : Above config.mem.totalSize settings.sizeLimit
    · exact canStep_of_act (.testAbove is above) ⟨trivial, trivial, trivial⟩ trivial
    · exact canStep_of_act (.testBelow is above) ⟨trivial, trivial, trivial⟩ trivial
  | above => exact canStep_of_act (.peek is) ⟨trivial, trivial, trivial⟩ trivial
  | forcing => exact inv.canStep_forcing is
  | polling =>
    rw [is] at phase
    obtain ⟨long, ⟨expiring, _⟩ | ⟨clear, handled, gone⟩⟩ := phase
    · exact inv.canStep_expiring expiring
    · cases handles : config.mem.handler with
      | idle => exact canStep_of_act (.gone is long gone) ⟨⟨clear, handles⟩, trivial, trivial⟩ trivial
      | removed => exact canStep_of_act (.subtract handles) ⟨trivial, trivial, trivial⟩ trivial
      | received | statted =>
        rw [handles] at handled
        exact absurd handled nofun
      | stopped => exact absurd handles inv.live.handler
  | returned => exact absurd is busy

theorem Invariant.returns (inv : Invariant settings config) (begun : config.mem.evictor ≠ .idle) :
    Inevitable (Step (Act settings)) (fun config event => Orderly config event ∧ Works config event)
      (fun config => config.mem.evictor = .returned) config := by
  refine .of_rank (fun config => Invariant settings config ∧ config.mem.evictor ≠ .idle)
    (fun config => rank config.mem) ?_ ?_ ⟨inv, begun⟩
  · rintro config event next ⟨inv, begun⟩ busy ⟨ok, works⟩ step
    have kept := invariant_step inv ok step
    cases step with
    | fire rest act =>
      obtain ⟨lower, begun⟩ := rank_act act ok works inv begun busy
      exact ⟨⟨kept, begun⟩, lower⟩
  · exact fun ⟨inv, begun⟩ busy => inv.canStep begun busy

/-- A file is removed only while the total is above the bound. -/
theorem Invariant.needed (inv : Invariant settings config) (begun : config.mem.evictor ≠ .idle)
    {path : Path} (step : Step (Act settings) config (.remove path) next) :
    Above config.mem.totalSize settings.sizeLimit := by
  generalize removes : Event.remove path = event at step
  cases step with
  | fire rest act =>
    cases act with
    | remove is there =>
      obtain ⟨_, _, _, ⟨_, above, _⟩ | gone⟩ := (inv.evicting begun).phase.polling begun fun processed =>
        absurd (is.symm.trans processed.2) nofun
      · exact above
      · have handled := gone.handled
        simp only [is] at handled
        exact absurd handled nofun
    | notifier | put | write | addSize | add | stop | receive | stat | statFails | removeFails | subtract
    | evict | testAbove | testBelow | peek | forced | forceTimeout | gone | pollTimeout | leave =>
      exact absurd removes nofun

end Runs

/-- **The eviction removes the objects closest to expiring, and no more than needed**, in every run in
which `Monitor` pops what it awaits, is attentive when the eviction begins, and takes a forced expiration
only if it awaits the first entry. -/
theorem evictsClosest_of_attended {settings : Settings} {order : List Path} {content : Path → File}
    {now : Time} {config : State} (placed : Placed settings.join order content)
    (reach : Reach (Act settings) Orderly (start order content now) config)
    (begun : config.mem.evictor ≠ .idle) : EvictsClosest settings config := by
  have inv : Invariant settings config :=
    reach.invariant (Invariant settings) (invariant_start placed now) invariant_step
  have evicting := inv.evicting begun
  constructor
  case closest => exact evicting.closest
  case needed => exact fun path next step => inv.needed begun step
  case stops =>
    intro returned
    have phase := evicting.phase
    rw [returned] at phase
    exact phase.2
  case returns => exact inv.returns begun

/-! ### Runs -/

section Concrete

variable {settings : Settings} {mem : Provider} {initial : State} {procs : List Proc}

theorem notifier_next (calls : List Call) {after : List Call} {notifier : Notifier}
    {event : Notifier.Event}
    (run : Reach (Act settings) Orderly initial (.ofList mem (calls.map .call ++ procs)))
    (act : Notifier.Act event mem.notifier calls notifier after) (unforced : Call.forcing ∉ calls)
    (noCall : (after.all fun call => !begins call) = true)
    (keeps : mem.notifier.expirationChan <+: notifier.expirationChan)
    (ok : Orderly (.ofList mem (calls.map .call ++ procs)) (.notifier event notifier)) :
    Reach (Act settings) Orderly initial (.ofList { mem with notifier } (after.map .call ++ procs)) := by
  refine run.next _ procs (.notifier act ⟨unforced, fun call member => ?_, keeps⟩) ok (.refl _)
  exact Bool.not_eq_true' _ ▸ List.all_eq_true.mp noCall call member

theorem put_next
    (run : Reach (Act settings) Orderly initial (.ofList mem procs)) (idle : mem.evictor = .idle)
    (hash : GoString) (object : CacheObject) (now : Time) (long : 2 ≤ hash.length)
    (new : hash ∉ mem.keys) (fresh : settings.join hash ∉ mem.files) :
    Reach (Act settings) Orderly initial
      (.ofList
        { mem with
          files := insert (settings.join hash) mem.files
          content := Function.update mem.content (settings.join hash)
            ⟨settings.encodedLength object now, some object⟩
          totalSize := mem.totalSize + object.data.length
          keys := hash :: mem.keys }
        (.call (.called hash object.expirationDate) :: procs)) := by
  have run := run.next [] procs (.put hash object) ⟨⟨new, idle⟩, trivial, trivial⟩ (.refl _)
  have run := run.next [_] procs (.write now long) ⟨trivial, fresh, trivial⟩ (.refl _)
  have run := run.next [_] procs .addSize ⟨trivial, trivial, trivial⟩ (.refl _)
  exact run.next [_] procs .add ⟨trivial, trivial, trivial⟩ (.refl _)

theorem add_next {hash : GoString} {date : Time}
    (run : Reach (Act settings) Orderly initial (.ofList mem (.call (.called hash date) :: procs)))
    (idle : mem.evictor = .idle) (live : mem.notifier.contextDone = false) :
    Reach (Act settings) Orderly initial
      (.ofList { mem with notifier := add mem.notifier ⟨hash, date⟩ } procs) := by
  refine (@add_carries (fun notifier calls => notifier.contextDone = false ∧
    Reach (Act settings) Orderly initial (.ofList { mem with notifier } (calls.map .call ++ procs)))
    _ _ _ ?_ ⟨live, run⟩).2
  rintro event before calls after left act own adds same ⟨live, run⟩
  have attended : Attended (.ofList { mem with notifier := before } (calls.map .call ++ procs))
      (.notifier event after) := by
    rcases adds with rfl | rfl
    · trivial
    · trivial
  exact ⟨same.trans live, run.next _ procs (.notifier act own) ⟨.inl idle, same.trans live, attended⟩
    (.refl _)⟩

theorem wait_next (run : Reach (Act settings) Orderly initial (.ofList mem []))
    (begins : mem.notifier.monitor = .loop) (live : mem.notifier.contextDone = false)
    (some : mem.notifier.heap.len ≠ 0) :
    Reach (Act settings) Orderly initial
      (.ofList
        { mem with
          notifier :=
            { mem.notifier with
              monitor := .waiting mem.notifier.heap.peek.1 mem.notifier.heap.peek.2 } } []) := by
  have run := notifier_next [] run (.loopGoesOn begins live) nofun rfl List.prefix_rfl
    ⟨.inr fun ⟨_, _, _, pops⟩ => absurd pops nofun, live, trivial⟩
  have run := notifier_next [] run (.countSome rfl (Nat.pos_of_ne_zero some)) nofun rfl List.prefix_rfl
    ⟨.inr fun ⟨_, _, _, pops⟩ => absurd pops nofun, live, trivial⟩
  have run := notifier_next [] run (.scanSome rfl some) nofun rfl List.prefix_rfl
    ⟨.inr fun ⟨_, _, _, pops⟩ => absurd pops nofun, live, trivial⟩
  exact notifier_next [] run (.peek rfl) nofun rfl List.prefix_rfl
    ⟨.inr fun ⟨_, _, _, pops⟩ => absurd pops nofun, live, trivial⟩

/-- The forced expiration, up to the removal of the file: what is removed is what is awaited. -/
theorem take_next {allowed : State → Event → Prop}
    (free : ∀ config event, Undisturbed config event → Regular config event → Attended config event →
      allowed config event)
    (run : Reach (Act settings) allowed initial (.ofList mem [])) {hash awaited : GoString} {date : Time}
    (is : mem.evictor = .forcing hash) (waits : mem.notifier.monitor = .waiting awaited date)
    (live : mem.notifier.contextDone = false) (empty : mem.notifier.expirationChan = [])
    (idle : mem.handler = .idle) (long : 2 ≤ awaited.length) (stored : settings.join awaited ∈ mem.files)
    (forces : allowed (.ofList mem []) (.forced awaited date))
    (pops : ∀ mem' notifier, mem'.notifier.heap = mem.notifier.heap → notifier.contextDone = false →
      ¬ Expires mem'.notifier notifier →
      allowed (.ofList mem' []) (.notifier (.pop awaited date) notifier)) :
    Reach (Act settings) allowed initial
      (.ofList
        { mem with
          files := mem.files.erase (settings.join awaited)
          notifier :=
            { mem.notifier with
              heap := mem.notifier.heap.pop.2
              notified := (awaited, mem.notifier.heap.pop.1) :: mem.notifier.notified
              monitor := .loop }
          handler := .removed (mem.content (settings.join awaited)).length
          evictor := .polling hash
          evicted := mem.content (settings.join awaited) :: mem.evicted }
        []) := by
  have run := run.next [] [] (.forced is waits) forces (.refl _)
  have run := run.next ([].map Proc.call) [] (.notifier (.pop rfl) ⟨nofun, nofun, List.prefix_rfl⟩)
    (pops _ _ rfl live fun ⟨_, _, _, pops⟩ => absurd pops nofun) (.refl _)
  have room : mem.notifier.expirationChan.length < Notifier.capacity := by
    rw [empty]
    decide
  have run := run.next ([].map Proc.call) []
    (.notifier (.send rfl room) ⟨nofun, nofun, List.prefix_append _ _⟩)
    (free _ _ (.inr fun ⟨_, _, _, pops⟩ => absurd pops nofun) live trivial) (.refl _)
  have run := run.next [] [] (.receive idle (by simp only [empty]; rfl)) (free _ _ trivial trivial trivial)
    (.refl _)
  have run := run.next [] [] (.stat rfl long stored) (free _ _ trivial trivial trivial) (.refl _)
  have run := run.next [] [] (.remove rfl stored) (free _ _ trivial trivial trivial) (.refl _)
  simpa [empty] using run

theorem round_next (run : Reach (Act settings) Orderly initial (.ofList mem []))
    (top : ExpirationEntry) (others : List ExpirationEntry)
    (there : mem.notifier.heap.entries = top :: others) (is : mem.evictor = .testing)
    (above : Above mem.totalSize settings.sizeLimit) (begins : mem.notifier.monitor = .loop)
    (live : mem.notifier.contextDone = false) (empty : mem.notifier.expirationChan = [])
    (idle : mem.handler = .idle) (long : 2 ≤ top.hash.length)
    (stored : settings.join top.hash ∈ mem.files) :
    Reach (Act settings) Orderly initial
      (.ofList
        { mem with
          files := mem.files.erase (settings.join top.hash)
          totalSize := mem.totalSize - (mem.content (settings.join top.hash)).length
          notifier :=
            { mem.notifier with
              heap := mem.notifier.heap.pop.2
              notified := (top.hash, mem.notifier.heap.pop.1) :: mem.notifier.notified }
          evicted := mem.content (settings.join top.hash) :: mem.evicted }
        []) := by
  have some : mem.notifier.heap.len ≠ 0 := by simp [ExpirationHeap.len, there]
  have peeks : mem.notifier.heap.peek = (top.hash, top.date) := by simp [ExpirationHeap.peek, there]
  have run := run.next [] [] (.testAbove is above) ⟨trivial, trivial, trivial⟩ (.refl _)
  have run := run.next [] [] (.peek rfl) ⟨trivial, trivial, trivial⟩ (.refl _)
  have run := wait_next run begins live some
  simp only [peeks] at run
  have run := take_next (fun _ _ one two three => ⟨one, two, three⟩) run rfl rfl live empty idle long stored
    ⟨trivial, trivial, peeks⟩
    fun _ _ heap live quiet => ⟨.inr quiet, live, (congrArg ExpirationHeap.peek heap).trans peeks⟩
  have run := run.next [] [] (.subtract rfl) ⟨trivial, trivial, trivial⟩ (.refl _)
  have run := run.next [] [] (.gone rfl long (Finset.notMem_erase _ _))
    ⟨⟨empty, rfl⟩, trivial, trivial⟩ (.refl _)
  simpa [is, begins, idle] using run

end Concrete

def small : Settings := ⟨plainJoin, fun _ _ => 8, 10⟩

def sixBytes (expirationDate : Time) : CacheObject := ⟨List.replicate 6 0, expirationDate⟩

theorem placed_nil {join : GoString → Path} {content : Path → File} : Placed join [] content :=
  ⟨List.nodup_nil, fun _ => nofun⟩

/-- Two objects of six bytes are put, due at 20 and at 10. The one that is due first is removed, and the
eight bytes of its file are enough. -/
theorem evictsClosest_two :
    ∃ config, Reach (Act small) Orderly (start [] (fun _ => ⟨0, none⟩) 0) config ∧
      config.mem.evictor = .returned ∧ config.mem.evicted = [⟨8, some (sixBytes 10)⟩] ∧
      config.mem.files = {plainJoin [1, 1]} ∧ EvictsClosest small config := by
  have run : Reach (Act small) Orderly (start [] (fun _ => ⟨0, none⟩) 0) (.ofList _ []) := .start
  have run := put_next run rfl [1, 1] (sixBytes 20) 0 (by decide) (by decide) (by decide)
  have run := add_next run rfl rfl
  have run := put_next run rfl [2, 2] (sixBytes 10) 0 (by decide) (by decide) (by decide)
  have run := add_next run rfl rfl
  have run := run.next [] [] (.evict rfl) ⟨⟨rfl, rfl, rfl⟩, trivial, trivial⟩ (.refl _)
  have run := round_next run ⟨[2, 2], 10⟩ [⟨[1, 1], 20⟩] (by decide +kernel) rfl (by decide) rfl rfl rfl rfl
    (by decide) (by decide)
  have run := run.next [] [] (.testBelow rfl (by decide)) ⟨trivial, trivial, trivial⟩ (.refl _)
  exact ⟨_, run, rfl, by decide, by decide, evictsClosest_of_attended placed_nil run nofun⟩

/-- **The eviction goes wrong in two ways.** An object due at 20 is awaited when one due at 10 is added.
The select takes the forced expiration although a rescan is asked for: the entry of the second object is
popped, and the first one is removed. Or the two are added at the same time while `Monitor` sleeps: it is
not woken, nobody takes the forced expiration, and nothing is removed although the cache is too large. -/
theorem evicts_another :
    (∃ config, Reach (Act small) (fun config event => Undisturbed config event ∧ Regular config event)
        (start [] (fun _ => ⟨0, none⟩) 0) config ∧
      config.mem.evictor = .polling [2, 2] ∧ config.mem.evicted = [⟨8, some (sixBytes 20)⟩] ∧
      config.mem.files = {plainJoin [2, 2]} ∧ ¬ EvictsClosest small config) ∧
    ∃ config, Reach (Act small) (fun config event => Undisturbed config event ∧ Regular config event)
        (start [] (fun _ => ⟨0, none⟩) 0) config ∧
      config.mem.evictor = .returned ∧ config.mem.evicted = [] ∧ config.mem.totalSize = 12 ∧
      config.mem.notifier.heap.len = 2 ∧ ¬ EvictsClosest small config := by
  have run : Reach (Act small) Orderly (start [] (fun _ => ⟨0, none⟩) 0) (.ofList _ []) := .start
  have weaken : ∀ config event, Orderly config event → Undisturbed config event ∧ Regular config event :=
    fun _ _ ok => ⟨ok.1, ok.2.1⟩
  constructor
  · have run := put_next run rfl [1, 1] (sixBytes 20) 0 (by decide) (by decide) (by decide)
    have run := add_next run rfl rfl
    have run := wait_next run rfl rfl (by decide +kernel)
    have run := put_next run rfl [2, 2] (sixBytes 10) 0 (by decide) (by decide) (by decide)
    have run := add_next run rfl rfl
    have run := (run.mono weaken).next [] [] (.evict rfl) ⟨⟨rfl, rfl, rfl⟩, trivial⟩ (.refl _)
    have run := run.next [] [] (.testAbove rfl (by decide)) ⟨trivial, trivial⟩ (.refl _)
    have run := run.next [] [] (.peek rfl) ⟨trivial, trivial⟩ (.refl _)
    have run := @take_next _ _ _ _ (fun _ _ one two _ => ⟨one, two⟩) run _ [1, 1] 20 rfl
      (by decide +kernel) rfl rfl rfl (by decide) (by decide) ⟨trivial, trivial⟩
      fun _ _ _ live quiet => ⟨.inr quiet, live⟩
    refine ⟨_, run, by decide +kernel, by decide, by decide, fun evicts => ?_⟩
    have later := evicts.closest ⟨8, some (sixBytes 20)⟩ (by decide) (plainJoin [2, 2]) (by decide)
    exact absurd (later 20 rfl 10 rfl) (by decide)
  · have run := notifier_next [] run (.loopGoesOn rfl rfl) nofun rfl List.prefix_rfl
      ⟨.inl rfl, rfl, trivial⟩
    have run := notifier_next [] run (.countNone rfl rfl) nofun rfl List.prefix_rfl
      ⟨.inl rfl, rfl, trivial⟩
    have run := put_next run rfl [1, 1] (sixBytes 20) 0 (by decide) (by decide) (by decide)
    have run := put_next run rfl [2, 2] (sixBytes 30) 0 (by decide) (by decide) (by decide)
    have run := notifier_next [.called [2, 2] 30] run .push (by simp) rfl List.prefix_rfl
      ⟨.inl rfl, rfl, trivial⟩
    have run := run.next [.call (.called [1, 1] 20)] [.call (.pushed [2, 2])]
      (.notifier .push ⟨by simp, by simp [begins], List.prefix_rfl⟩) ⟨.inl rfl, rfl, trivial⟩ (.swap _ _ _)
    have run := notifier_next [.pushed [1, 1]] run (.peekFirst (by decide +kernel)) (by simp) rfl
      List.prefix_rfl ⟨.inl rfl, rfl, trivial⟩
    have run := notifier_next [.first] run .signalRescan (by simp) rfl List.prefix_rfl
      ⟨.inl rfl, rfl, trivial⟩
    have run := notifier_next [.measuring] run (.measureOther (by decide +kernel)) (by simp) rfl
      List.prefix_rfl ⟨.inl rfl, rfl, trivial⟩
    have run := notifier_next [.pushed [2, 2]] run (.peekOther (by decide +kernel)) (by simp) rfl
      List.prefix_rfl ⟨.inl rfl, rfl, trivial⟩
    have run := notifier_next [.measuring] run (.measureOther (by decide +kernel)) (by simp) rfl
      List.prefix_rfl ⟨.inl rfl, rfl, trivial⟩
    have run := (run.mono weaken).next [] [] (.evict rfl) ⟨⟨rfl, rfl, rfl⟩, trivial⟩ (.refl _)
    have run := run.next [] [] (.testAbove rfl (by decide)) ⟨trivial, trivial⟩ (.refl _)
    have run := run.next [] [] (.peek rfl) ⟨trivial, trivial⟩ (.refl _)
    have run := run.next [] [] (.forceTimeout rfl) ⟨trivial, rfl, rfl⟩ (.refl _)
    refine ⟨_, run, rfl, rfl, by decide, by decide +kernel, fun evicts => ?_⟩
    rcases evicts.stops rfl with below | empty
    · exact below (by decide)
    · exact absurd empty (by decide +kernel)

end Kubecc.Storage.Eviction
