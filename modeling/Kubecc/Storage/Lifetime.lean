/-
**How long a cached object lives.**

`LocalStorageProvider` of `pkg/storage/local.go` together with its `ExpirationNotifier`: the files below
the root, the `Put` calls in progress, and the goroutine that removes what has expired. The notifier is
the one of `Storage.ExpirationNotifier`, step by step, with `Put` as the only caller of `Add` and the
goroutine as the only reader of `expirationChan`; no expiration is forced. The counters are left out
(`Storage.Local`).

`Put` overwrites the file of a key that is there already, and adds one more entry for it. The entry of
the earlier `Put` stays in the heap, and removes the file when its own date comes.

* `Pending` — the removals of a path that are to come, each with the instant before which it does not
  take place.
* `pending_act` — no step brings a removal forward, and only a `Put` brings one about.
* `livesOut_of_notEarlier` — in every run in which no removal that is pending when `Put` writes is due
  before the new date, no file is removed before the date of the most recent `Put`.
* `removed_early` — a key that is put again with a later date.
-/

import Kubecc.Lib.Process
import Kubecc.Storage.Local

namespace Kubecc.Storage.Lifetime

open Kubecc.Go Kubecc.Lib Kubecc.Storage.Local

/-- Where a `Put` call stands: it has written the file. -/
inductive Put
  | called
  | written
deriving DecidableEq

/-- Where the goroutine that handles expirations stands, in the turn of its loop for one hash. -/
inductive Handler
  | idle
  | received (hash : GoString)
  | statted (path : Path)
deriving DecidableEq

/-- The goroutines. A `Put` call ends with a call of `Add`, which is a call of the notifier. -/
inductive Proc
  | put (hash : GoString) (date : Time) (state : Put)
  | call (call : Call)
  | handler (state : Handler)
deriving DecidableEq

/-- The files and the notifier. `latest` records the date of the most recent `Put` of every hash. -/
structure Provider where
  files : Finset Path
  notifier : Notifier
  latest : GoString → Option Time

abbrev State := Config Provider Proc

/-! ### Configure -/

/-- `ExpirationNotifier.Add`, while nobody else uses the notifier. -/
def add (notifier : Notifier) (entry : ExpirationEntry) : Notifier :=
  let heap := notifier.heap.push entry.hash entry.date
  { notifier with
    heap
    pushed := entry :: notifier.pushed
    rescanChan := heap.peek.1 = entry.hash || notifier.rescanChan
    addChan := heap.len = 1 || notifier.addChan }

/-- The entries that the walk of `Configure` adds, if it meets the files in this order. -/
def found (order : List Path) (content : Path → File) : List ExpirationEntry :=
  order.filterMap fun path =>
    (content path).object.map fun object => ⟨base path, object.expirationDate⟩

/-- The provider after `Configure`, over a directory with these files. -/
def start (order : List Path) (content : Path → File) (now : Time) : State :=
  .ofList
    { files := (configure order (Local.new order.toFinset content)).files
      notifier := (found order content).foldl add (Notifier.new now)
      latest := fun _ => none }
    [.handler .idle]

/-! ### The steps -/

def begins : Call → Bool
  | .called _ _ | .forcing => true
  | _ => false

/-- The steps of the notifier by itself: no call begins, no expiration is forced, and nothing is taken
from `expirationChan`. -/
structure Own (notifier : Notifier) (acting : List Call) (notifier' : Notifier) (left : List Call) :
    Prop where
  unforced : Call.forcing ∉ acting
  noCall : ∀ call ∈ left, begins call = false
  keeps : notifier.expirationChan <+: notifier'.expirationChan

inductive Event
  | write (hash : GoString) (date : Time)
  | remove (path : Path)
  | internal

section Steps

-- `path.Join(p.root, hash[0:2], hash)`
variable (join : GoString → Path)

/-- **The steps of the provider.** A hash of less than two bytes makes the slice expression panic, and
the goroutine does nothing more. -/
inductive Act : Rules Provider Proc Event
  | notifier {mem event acting notifier left} :
      Notifier.Act event mem.notifier acting notifier left → Own mem.notifier acting notifier left →
      Act .internal mem (acting.map .call) { mem with notifier } (left.map .call)
  -- Put
  | put {mem} (hash : GoString) (date : Time) : Act .internal mem [] mem [.put hash date .called]
  | write {mem} {hash : GoString} {date : Time} : 2 ≤ hash.length →
      Act (.write hash date) mem [.put hash date .called]
        { mem with
          files := insert (join hash) mem.files
          latest := Function.update mem.latest hash (some date) }
        [.put hash date .written]
  | add {mem} {hash : GoString} {date : Time} :
      Act .internal mem [.put hash date .written] mem [.call (.called hash date)]
  -- the expiration handler; its context may be done
  | stop {mem} : Act .internal mem [.handler .idle] mem []
  | receive {mem} {hash : GoString} {queue : List GoString} :
      mem.notifier.expirationChan = hash :: queue →
      Act .internal mem [.handler .idle]
        { mem with notifier := { mem.notifier with expirationChan := queue } }
        [.handler (.received hash)]
  | stat {mem} {hash : GoString} : 2 ≤ hash.length → join hash ∈ mem.files →
      Act .internal mem [.handler (.received hash)] mem [.handler (.statted (join hash))]
  | statFails {mem} {hash : GoString} : 2 ≤ hash.length → join hash ∉ mem.files →
      Act .internal mem [.handler (.received hash)] mem [.handler .idle]
  | remove {mem} {path : Path} : path ∈ mem.files →
      Act (.remove path) mem [.handler (.statted path)]
        { mem with files := mem.files.erase path } [.handler .idle]
  | removeFails {mem} {path : Path} : path ∉ mem.files →
      Act .internal mem [.handler (.statted path)] mem [.handler .idle]

end Steps

/-! ### The property -/

/-- **An object lives until its latest expiration date**: a step that removes the file of a hash is not
taken before the date of the most recent `Put` of this hash. -/
def LivesOut (join : GoString → Path) (config : State) : Prop :=
  ∀ hash next, Step (Act join) config (.remove (join hash)) next →
    ∀ date, config.mem.latest hash = some date → date ≤ config.mem.notifier.now

/-- The hash that `Monitor` is about to send, its date having come. -/
def inFlight : Monitor → List GoString
  | .popping hash _ | .sending hash _ => [hash]
  | _ => []

/-- The hashes whose expiration is under way to the handler. -/
def underWay (notifier : Notifier) : List GoString :=
  inFlight notifier.monitor ++ notifier.expirationChan

/-- The removal that a goroutine brings about, and the instant before which it does not take place. -/
def Proc.pending (join : GoString → Path) (now : Time) : Proc → Option (Path × Time)
  | .put hash date .written => some (join hash, max date now)
  | .call (.called hash date) => some (join hash, max date now)
  | .handler (.received hash) => some (join hash, now)
  | .handler (.statted path) => some (path, now)
  | _ => none

/-- **A removal of the path is pending**, and does not take place before this instant. -/
inductive Pending (join : GoString → Path) (config : State) : Path → Time → Prop
  | stored {entry : ExpirationEntry} : entry ∈ config.mem.notifier.heap.entries →
      Pending join config (join entry.hash) (max entry.date config.mem.notifier.now)
  | sent {hash : GoString} : hash ∈ underWay config.mem.notifier →
      Pending join config (join hash) config.mem.notifier.now
  | held {proc : Proc} {path : Path} {earliest : Time} : proc ∈ config.procs →
      proc.pending join config.mem.notifier.now = some (path, earliest) →
      Pending join config path earliest

/-- The condition: no removal that is pending when `Put` writes the file is due before the date of the
object, and its own removal is not due before the date of another hash with the same file. -/
def NotEarlier (join : GoString → Path) (config : State) : Event → Prop
  | .write hash date => (∀ earliest, Pending join config (join hash) earliest → date ≤ earliest) ∧
      ∀ other, other ≠ hash → join other = join hash →
        ∀ due, config.mem.latest other = some due → due ≤ max date config.mem.notifier.now
  | _ => True

/-! ### No step brings a removal forward -/

/-- What a step of the notifier may do to the removals to come: the clock goes forward, an entry is
added by a call of `Add`, and an expiration gets under way when the date of its entry has come. -/
structure Lags (notifier : Notifier) (acting : List Call) (notifier' : Notifier) : Prop where
  now : notifier.now ≤ notifier'.now
  stored : ∀ entry ∈ notifier'.heap.entries,
    entry ∈ notifier.heap.entries ∨ .called entry.hash entry.date ∈ acting
  sent : ∀ hash ∈ underWay notifier', hash ∈ underWay notifier ∨
    ∃ entry ∈ notifier.heap.entries, entry.hash = hash ∧ entry.date ≤ notifier.now

section Lags

variable {notifier notifier' : Notifier} {acting left : List Call}

theorem Lags.keep (now : notifier.now ≤ notifier'.now) (heap : notifier'.heap = notifier.heap)
    (flight : ∀ hash ∈ underWay notifier', hash ∈ underWay notifier) :
    Lags notifier acting notifier' :=
  ⟨now, fun _ member => .inl (heap ▸ member), fun hash member => .inl (flight hash member)⟩

theorem Lags.move (now : notifier'.now = notifier.now) (heap : notifier'.heap = notifier.heap)
    (clear : inFlight notifier'.monitor = [])
    (same : notifier'.expirationChan = notifier.expirationChan) : Lags notifier acting notifier' := by
  refine .keep now.ge heap fun hash member => ?_
  rw [underWay, clear, same, List.nil_append] at member
  exact List.mem_append_right _ member

theorem mem_pop {heap : ExpirationHeap} {entry : ExpirationEntry} (member : entry ∈ heap.pop.2.entries) :
    entry ∈ heap.entries := by
  cases there : heap.entries with
  | nil =>
    obtain ⟨entries, ordered⟩ := heap
    obtain rfl : entries = [] := there
    exact member
  | cons top rest =>
    exact List.mem_cons_of_mem _ ((ExpirationHeap.pop_perm there).2.mem_iff.mp member)

theorem lags_act {event : Notifier.Event} (act : Notifier.Act event notifier acting notifier' left)
    (own : Own notifier acting notifier' left)
    (awaits : Notifier.Awaits notifier.heap notifier.pushed notifier.monitor) :
    Lags notifier acting notifier' := by
  cases act with
  | tick later forward => exact .keep forward rfl fun _ => id
  | push =>
    refine ⟨le_rfl, fun entry member => ?_, fun _ => .inl⟩
    rcases List.mem_cons.mp ((notifier.heap.push_perm _ _).mem_iff.mp member) with rfl | member
    · exact .inr List.mem_cons_self
    · exact .inl member
  | timer is due =>
    -- the entry that is awaited is in the heap, and its date has come
    refine ⟨le_rfl, fun _ => .inl, fun other member => ?_⟩
    rw [is] at awaits
    rcases List.mem_append.mp member with now | sent
    · obtain rfl := List.mem_singleton.mp now
      exact .inr ⟨_, awaits, rfl, due⟩
    · exact .inl (List.mem_append_right _ sent)
  | forced => exact absurd List.mem_cons_self own.unforced
  | pop is =>
    refine ⟨le_rfl, fun _ member => .inl (mem_pop member), fun other member => .inl ?_⟩
    rw [underWay, is]
    exact member
  | send is _ =>
    refine .keep le_rfl rfl fun other member => ?_
    rw [underWay, is]
    exact (List.perm_append_comm.mem_iff).mp member
  | receive is =>
    refine .keep le_rfl rfl fun other member => ?_
    rcases List.mem_append.mp member with flight | sent
    · exact List.mem_append_left _ flight
    · exact List.mem_append_right _ (is ▸ List.mem_cons_of_mem _ sent)
  | loopGoesOn | loopDone | countSome | countNone | scanNone | scanSome | peek | waitDone | rescan
  | parkedDone | parkedAdd => exact .move rfl rfl rfl rfl
  | add | force | cancel | peekFirst | peekOther | signalRescan | measureOne | measureOther | signalAdd
  | forceTimeout => exact .keep le_rfl rfl fun _ => id

end Lags

section Pending

variable {join : GoString → Path} {mem mem' : Provider} {acting left : List Proc}
  {rest : Multiset Proc} {path : Path} {later : Time}

theorem Proc.pending_mono {proc : Proc} {now now' : Time} (forward : now ≤ now')
    (pending : proc.pending join now' = some (path, later)) :
    ∃ earliest ≤ later, proc.pending join now = some (path, earliest) := by
  unfold Proc.pending at pending
  split at pending
  case h_5 => exact absurd pending nofun
  all_goals obtain ⟨rfl, rfl⟩ := Prod.mk.inj (Option.some.inj pending)
  · exact ⟨_, max_le_max_left _ forward, rfl⟩
  · exact ⟨_, max_le_max_left _ forward, rfl⟩
  · exact ⟨_, forward, rfl⟩
  · exact ⟨_, forward, rfl⟩

theorem Pending.keep (pending : Pending join ⟨mem', ↑left + rest⟩ path later)
    (same : mem'.notifier = mem.notifier)
    (acted : ∀ proc ∈ left, proc.pending join mem.notifier.now = some (path, later) →
      ∃ proc ∈ acting, ∃ earliest ≤ later,
        proc.pending join mem.notifier.now = some (path, earliest)) :
    ∃ earliest ≤ later, Pending join ⟨mem, ↑acting + rest⟩ path earliest := by
  cases pending with
  | stored member => exact ⟨_, le_rfl, same ▸ .stored (same ▸ member)⟩
  | sent member => exact ⟨_, le_rfl, same ▸ .sent (same ▸ member)⟩
  | held member is =>
    simp only [same] at is
    rcases mem_fire.mp member with member | member
    · obtain ⟨before, member, earliest, le, is⟩ := acted _ member is
      exact ⟨earliest, le, .held (mem_of_acting member) is⟩
    · exact ⟨_, le_rfl, .held (mem_of_rest member) is⟩

theorem Pending.notifier {notifier : Notifier} {calls after : List Call}
    (lags : Lags mem.notifier calls notifier) (noCall : ∀ call ∈ after, begins call = false)
    (pending : Pending join ⟨{ mem with notifier }, ↑(after.map Proc.call) + rest⟩ path later) :
    ∃ earliest ≤ later, Pending join ⟨mem, ↑(calls.map Proc.call) + rest⟩ path earliest := by
  cases pending with
  | @stored entry member =>
    refine ⟨_, max_le_max_left entry.date lags.now, ?_⟩
    rcases lags.stored entry member with stored | called
    · exact .stored stored
    · exact .held (Multiset.mem_add.mpr (.inl (List.mem_map_of_mem called))) rfl
  | sent member =>
    rcases lags.sent _ member with sent | ⟨entry, stored, rfl, due⟩
    · exact ⟨_, lags.now, .sent sent⟩
    · exact ⟨_, (max_le due le_rfl).trans lags.now, .stored stored⟩
  | held member is =>
    rcases mem_fire.mp member with member | member
    · obtain ⟨call, there, rfl⟩ := List.mem_map.mp member
      cases call with
      | called => exact absurd (noCall _ there) nofun
      | pushed | first | measuring | only | forcing => exact absurd is nofun
    · obtain ⟨earliest, le, is⟩ := Proc.pending_mono lags.now is
      exact ⟨earliest, le, .held (mem_of_rest member) is⟩

/-- The handler takes a hash from `expirationChan`. -/
theorem Pending.receive {hash : GoString} {queue : List GoString}
    (is : mem.notifier.expirationChan = hash :: queue)
    (pending : Pending join
      ⟨{ mem with notifier := { mem.notifier with expirationChan := queue } },
        ↑[Proc.handler (.received hash)] + rest⟩ path later) :
    ∃ earliest ≤ later, Pending join ⟨mem, ↑[Proc.handler .idle] + rest⟩ path earliest := by
  have sent : ∀ other ∈ hash :: queue, other ∈ underWay mem.notifier := fun other member =>
    List.mem_append_right _ (is ▸ member)
  cases pending with
  | stored member => exact ⟨_, le_rfl, .stored member⟩
  | sent member =>
    refine ⟨_, le_rfl, .sent ?_⟩
    rcases List.mem_append.mp member with flight | queued
    · exact List.mem_append_left _ flight
    · exact sent _ (List.mem_cons_of_mem _ queued)
  | held member pends =>
    rcases mem_fire.mp member with member | member
    · obtain rfl := List.mem_singleton.mp member
      obtain ⟨rfl, rfl⟩ := Prod.mk.inj (Option.some.inj pends)
      exact ⟨_, le_rfl, .sent (sent _ List.mem_cons_self)⟩
    · exact ⟨_, le_rfl, .held (mem_of_rest member) pends⟩

/-- **No step brings a removal forward**: what is pending after a step was pending before, for the same
time or an earlier one, or it is that of the object just written. -/
theorem pending_act {event : Event} (act : Act join event mem acting mem' left)
    (awaits : Notifier.Awaits mem.notifier.heap mem.notifier.pushed mem.notifier.monitor)
    (pending : Pending join ⟨mem', ↑left + rest⟩ path later) :
    (∃ earliest ≤ later, Pending join ⟨mem, ↑acting + rest⟩ path earliest) ∨
      ∃ hash date, event = .write hash date ∧ join hash = path ∧ max date mem.notifier.now ≤ later := by
  cases act with
  | notifier act own => exact .inl (pending.notifier (lags_act act own awaits) own.noCall)
  | @write _ hash date long =>
    by_cases mine : join hash = path ∧ max date mem.notifier.now ≤ later
    · exact .inr ⟨hash, date, rfl, mine⟩
    · refine .inl (pending.keep rfl fun proc member is => absurd ?_ mine)
      obtain rfl := List.mem_singleton.mp member
      obtain ⟨rfl, rfl⟩ := Prod.mk.inj (Option.some.inj is)
      exact ⟨rfl, le_rfl⟩
  | receive is => exact .inl (pending.receive is)
  | add | stat =>
    refine .inl (pending.keep rfl fun proc member is => ?_)
    obtain rfl := List.mem_singleton.mp member
    exact ⟨_, List.mem_cons_self, later, le_rfl, is⟩
  | put | stop | statFails | remove | removeFails =>
    exact .inl (pending.keep rfl fun proc member is =>
      absurd ((eq_none_of_all rfl proc member).symm.trans is) nofun)

end Pending

/-! ### Over whole runs -/

/-- No removal that is pending is due before the date of the most recent `Put` of a hash with this
file. -/
def Spared (join : GoString → Path) (config : State) : Prop :=
  ∀ hash earliest date, Pending join config (join hash) earliest →
    config.mem.latest hash = some date → date ≤ earliest

section Runs

variable {join : GoString → Path} {mem mem' : Provider} {acting left : List Proc}
  {rest : Multiset Proc} {event : Event}

/-- What the notifier relies on in every run. -/
def Settled (mem : Provider) : Prop :=
  Notifier.Tended mem.notifier.heap mem.notifier.monitor mem.notifier.pushed mem.notifier.notified

theorem settled_act (act : Act join event mem acting mem' left) (settled : Settled mem) :
    Settled mem' := by
  cases act with
  | notifier act _ => exact Notifier.tended_act act settled
  | put | write | add | stop | receive | stat | statFails | remove | removeFails => exact settled

theorem settled_start (order : List Path) (content : Path → File) (now : Time) :
    Settled (start order content now).mem := by
  have adds : ∀ (entries : List ExpirationEntry) (notifier : Notifier),
      Notifier.Tended notifier.heap notifier.monitor notifier.pushed notifier.notified →
      Notifier.Tended (entries.foldl add notifier).heap (entries.foldl add notifier).monitor
        (entries.foldl add notifier).pushed (entries.foldl add notifier).notified := by
    intro entries
    induction entries with
    | nil => exact fun _ => id
    | cons entry entries ih => exact fun notifier tended => ih (add notifier entry) (tended.push _ _)
  exact adds _ _ ⟨trivial, fun _ _ => nofun, rfl⟩

theorem spared_act (act : Act join event mem acting mem' left) (settled : Settled mem)
    (ok : NotEarlier join ⟨mem, ↑acting + rest⟩ event) (spared : Spared join ⟨mem, ↑acting + rest⟩) :
    Spared join ⟨mem', ↑left + rest⟩ := by
  intro hash later date pending latest
  have before := pending_act act settled.awaits pending
  cases act with
  | @write _ written due long =>
    have latest : Function.update mem.latest written (some due) hash = some date := latest
    by_cases same : hash = written
    · -- the new date is the latest, and the condition is about what was pending
      subst same
      obtain rfl : due = date := Option.some.inj ((Function.update_self hash _ _).symm.trans latest)
      rcases before with ⟨earliest, le, pending⟩ | ⟨_, _, is, _, le⟩
      · exact (ok.1 earliest pending).trans le
      · rw [← (Event.write.inj is).2] at le
        exact (le_max_left _ _).trans le
    · rw [Function.update_of_ne same] at latest
      rcases before with ⟨earliest, le, pending⟩ | ⟨_, _, is, path, le⟩
      · exact (spared hash earliest date pending latest).trans le
      · obtain ⟨rfl, rfl⟩ := Event.write.inj is
        exact (ok.2 hash same path.symm date latest).trans le
  | notifier | put | add | stop | receive | stat | statFails | remove | removeFails =>
    obtain ⟨earliest, le, pending⟩ := before.resolve_right nofun
    exact (spared hash earliest date pending latest).trans le

/-- The handler that removes a file has one pending at this very instant. -/
theorem Spared.livesOut {config : State} (spared : Spared join config) : LivesOut join config := by
  intro hash next step date latest
  generalize removes : Event.remove (join hash) = event at step
  cases step with
  | fire rest act =>
    cases act with
    | remove => exact spared hash _ date (.held mem_acting (by rw [Event.remove.inj removes]; rfl)) latest
    | notifier | put | write | add | stop | receive | stat | statFails | removeFails =>
      exact absurd removes nofun

/-- **No file is removed before the date of the most recent `Put` of its hash**, in every run in which no
removal that is pending when `Put` writes is due before the date of the object. -/
theorem livesOut_of_notEarlier {order : List Path} {content : Path → File} {now : Time} {config : State}
    (reach : Reach (Act join) (NotEarlier join) (start order content now) config) :
    LivesOut join config := by
  have holds : Settled config.mem ∧ Spared join config := by
    refine reach.invariant (fun config => Settled config.mem ∧ Spared join config) ?_ ?_
    · exact ⟨settled_start order content now, fun _ _ _ _ => nofun⟩
    · rintro config label next ⟨settled, spared⟩ ok step
      cases step with
      | fire rest act => exact ⟨settled_act act settled, spared_act act settled ok spared⟩
  exact holds.2.livesOut

/-! ### Runs -/

theorem notifier_next {allowed : State → Event → Prop} (free : ∀ config, allowed config .internal)
    {initial : State} (calls : List Call) {after : List Call} {procs : List Proc}
    {notifier : Notifier} {event : Notifier.Event}
    (run : Reach (Act join) allowed initial (.ofList mem (calls.map .call ++ procs)))
    (act : Notifier.Act event mem.notifier calls notifier after)
    (unforced : Call.forcing ∉ calls) (noCall : (after.all fun call => !begins call) = true)
    (keeps : mem.notifier.expirationChan <+: notifier.expirationChan) :
    Reach (Act join) allowed initial (.ofList { mem with notifier } (after.map .call ++ procs)) := by
  refine run.next _ procs (.notifier act ⟨unforced, fun call member => ?_, keeps⟩) (free _) (.refl _)
  exact Bool.not_eq_true' _ ▸ List.all_eq_true.mp noCall call member

/-- **`Add` while nobody else uses the notifier**: what each of its steps carries on is carried to its
end. It tells the waiter to rescan if it sees its own hash, and wakes it if it reads 1. -/
theorem add_carries {carried : Notifier → List Call → Prop} {notifier : Notifier} {hash : GoString}
    {date : Time}
    (steps : ∀ {event before calls after left}, Notifier.Act event before calls after left →
      Own before calls after left → (event = .push ∨ event = .internal) →
      after.contextDone = before.contextDone → carried before calls → carried after left)
    (called : carried notifier [.called hash date]) : carried (add notifier ⟨hash, date⟩) [] := by
  have pushed := steps .push ⟨by simp, by simp [begins], List.prefix_rfl⟩ (.inl rfl) rfl called
  have measured (rescanChan : Bool)
      (measuring : carried
        { notifier with
          heap := notifier.heap.push hash date
          pushed := ⟨hash, date⟩ :: notifier.pushed
          rescanChan }
        [.measuring])
      (is : rescanChan = (add notifier ⟨hash, date⟩).rescanChan) :
      carried (add notifier ⟨hash, date⟩) [] := by
    by_cases one : (notifier.heap.push hash date).len = 1
    · have only := steps (.measureOne one) ⟨by simp, by simp [begins], List.prefix_rfl⟩ (.inr rfl) rfl
        measuring
      have woken := steps .signalAdd ⟨by simp, by simp, List.prefix_rfl⟩ (.inr rfl) rfl only
      simpa [add, one, is] using woken
    · have done := steps (.measureOther one) ⟨by simp, by simp, List.prefix_rfl⟩ (.inr rfl) rfl measuring
      simpa [add, one, is] using done
  by_cases first : (notifier.heap.push hash date).peek.1 = hash
  · have seen := steps (.peekFirst first) ⟨by simp, by simp [begins], List.prefix_rfl⟩ (.inr rfl) rfl pushed
    have asked := steps .signalRescan ⟨by simp, by simp [begins], List.prefix_rfl⟩ (.inr rfl) rfl seen
    exact measured true asked (by simp [add, first])
  · have other := steps (.peekOther first) ⟨by simp, by simp [begins], List.prefix_rfl⟩ (.inr rfl) rfl
      pushed
    exact measured _ other (by simp [add, first])

theorem put_run {allowed : State → Event → Prop} (free : ∀ config, allowed config .internal)
    {initial : State} {procs : List Proc} (run : Reach (Act join) allowed initial (.ofList mem procs))
    {hash : GoString} (long : 2 ≤ hash.length) (date : Time)
    (ok : allowed (.ofList mem (.put hash date .called :: procs)) (.write hash date)) :
    Reach (Act join) allowed initial
      (.ofList
        { mem with
          files := insert (join hash) mem.files
          latest := Function.update mem.latest hash (some date)
          notifier := add mem.notifier ⟨hash, date⟩ }
        procs) := by
  have run := run.next [] procs (.put hash date) (free _) (.refl _)
  have run := run.next [_] procs (.write long) ok (.refl _)
  have run := run.next [_] procs .add (free _) (.refl _)
  refine @add_carries (fun notifier calls => Reach (Act join) allowed initial (.ofList
    { mem with
      files := insert (join hash) mem.files
      latest := Function.update mem.latest hash (some date)
      notifier }
    (calls.map .call ++ procs))) _ _ _ ?_ run
  exact fun act own _ _ run => run.next _ procs (.notifier act own) (free _) (.refl _)

theorem expire_run {allowed : State → Event → Prop} (free : ∀ config, allowed config .internal)
    {initial : State} (run : Reach (Act join) allowed initial (.ofList mem [.handler .idle]))
    (top : ExpirationEntry) (others : List ExpirationEntry)
    (there : mem.notifier.heap.entries = top :: others) (atLoop : mem.notifier.monitor = .loop)
    (live : mem.notifier.contextDone = false) (empty : mem.notifier.expirationChan = [])
    (forward : mem.notifier.now ≤ top.date) (long : 2 ≤ top.hash.length)
    (stored : join top.hash ∈ mem.files) :
    Reach (Act join) allowed initial
      (.ofList
        { mem with
          notifier :=
            { mem.notifier with
              heap := mem.notifier.heap.pop.2
              notified := (top.hash, some top) :: mem.notifier.notified
              now := top.date } }
        [.handler (.statted (join top.hash))]) := by
  have some : mem.notifier.heap.len ≠ 0 := by simp [ExpirationHeap.len, there]
  have peeks : mem.notifier.heap.peek = (top.hash, top.date) := by simp [ExpirationHeap.peek, there]
  have run := notifier_next free [] run (.loopGoesOn atLoop live) List.not_mem_nil rfl List.prefix_rfl
  have run := notifier_next free [] run (.countSome rfl (Nat.pos_of_ne_zero some)) List.not_mem_nil rfl
    List.prefix_rfl
  have run := notifier_next free [] run (.scanSome rfl some) List.not_mem_nil rfl List.prefix_rfl
  have run := notifier_next free [] run (.peek rfl) List.not_mem_nil rfl List.prefix_rfl
  have run := notifier_next free [] run (.tick top.date forward) List.not_mem_nil rfl List.prefix_rfl
  have run := notifier_next free [] run (.timer rfl (by rw [peeks])) List.not_mem_nil rfl
    List.prefix_rfl
  have run := notifier_next free [] run (.pop rfl) List.not_mem_nil rfl List.prefix_rfl
  have run := notifier_next free [] run
    (.send rfl (by simp only [empty]; exact Nat.zero_lt_succ _)) List.not_mem_nil rfl (List.prefix_append _ _)
  have run := run.next [_] [] (.receive (by simp only [empty, peeks]; rfl)) (free _) (.refl _)
  have run := run.next [_] [] (.stat long stored) (free _) (.refl _)
  simpa [atLoop, empty, peeks, (ExpirationHeap.pop_perm there).1] using run

end Runs

/-- A key is put with the date 5 and removed at 5, and is put again with the date 10. At 10 the file is
about to be removed. -/
theorem livesOut_one :
    ∃ config next, Reach (Act plainJoin) (NotEarlier plainJoin) (start [] (fun _ => ⟨0, none⟩) 0) config ∧
      Step (Act plainJoin) config (.remove (plainJoin [1, 2])) next ∧
      config.mem.latest [1, 2] = some 10 ∧ LivesOut plainJoin config := by
  have long : 2 ≤ ([1, 2] : GoString).length := by decide
  have free : ∀ config, NotEarlier plainJoin config .internal := fun _ => trivial
  have run : Reach (Act plainJoin) (NotEarlier plainJoin) (start [] (fun _ => ⟨0, none⟩) 0)
      (.ofList _ [.handler .idle]) := .start
  have clear {mem : Provider} (heap : mem.notifier.heap.entries = [])
      (sent : underWay mem.notifier = []) (others : ∀ other, other ≠ [1, 2] → mem.latest other = none)
      (date : Time) :
      NotEarlier plainJoin (.ofList mem [.put [1, 2] date .called, .handler .idle])
        (.write [1, 2] date) := by
    refine ⟨fun earliest pending => ?_, fun other differs _ due is => ?_⟩
    · generalize plainJoin [1, 2] = path at pending
      cases pending with
      | stored member => exact absurd (heap ▸ member) List.not_mem_nil
      | sent member => exact absurd (sent ▸ member) List.not_mem_nil
      | held member is =>
        exact absurd ((eq_none_of_all rfl _ (Multiset.mem_coe.mp member)).symm.trans is) nofun
    · exact absurd ((others other differs).symm.trans is) nofun
  have run := put_run free run long 5 (clear rfl rfl (fun _ _ => rfl) 5)
  have run := expire_run free run ⟨[1, 2], 5⟩ [] (by decide) rfl rfl rfl (by decide) long (by decide)
  have run := run.next [_] [] (.remove (by decide)) trivial (.refl _)
  have run := put_run free run long 10
    (clear (by decide) rfl (fun _ differs => Function.update_of_ne differs _ _) 10)
  have run := expire_run free run ⟨[1, 2], 10⟩ [] (by decide) rfl rfl rfl (by decide) long (by decide)
  exact ⟨_, _, run, .ofList [_] [] (.remove (by decide)) (.refl _), by decide,
    livesOut_of_notEarlier run⟩

/-- **A key that is put again**: the entry of the first `Put` removes the file at 5, although the second
one set the date to 10. -/
theorem removed_early :
    ∃ config, Reach (Act plainJoin) (fun _ _ => True) (start [] (fun _ => ⟨0, none⟩) 0) config ∧
      ¬ LivesOut plainJoin config := by
  have long : 2 ≤ ([1, 2] : GoString).length := by decide
  have run : Reach (Act plainJoin) (fun _ _ => True) (start [] (fun _ => ⟨0, none⟩) 0)
      (.ofList _ [.handler .idle]) := .start
  have run := put_run (fun _ => trivial) run long 5 trivial
  have run := put_run (fun _ => trivial) run long 10 trivial
  have run := expire_run (fun _ => trivial) run ⟨[1, 2], 5⟩ [⟨[1, 2], 10⟩] (by decide) rfl rfl rfl
    (by decide) long (by decide)
  refine ⟨_, run, fun lives => ?_⟩
  have late := lives [1, 2] _ (.ofList [_] [] (.remove (by decide)) (.refl _)) 10 (by decide)
  exact absurd late (by decide)

end Kubecc.Storage.Lifetime
