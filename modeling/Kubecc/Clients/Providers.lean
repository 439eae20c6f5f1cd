/-
**The handlers of the providers.**

`OnProviderAdded` of `pkg/clients/monitor.go`, and `changeListener.HandleStream`, which calls it back. The
callback takes the keys of its map and those of the message as two sets. For each provider that is gone it
deletes the entry of the map and calls the cancel function that was there; for each new one it makes a
context, stores its cancel function and starts the handler. `mapset.Each` visits a set in any order. When
the stream breaks the callback is called without a message, as for a monitor with no provider.

The context of the listener, the parent of the ones made here, is not cancelled.

* `remove`, `add`, `DoUpdate` — the two loops, on one map.
* `Updates` — what an update does to the map, the contexts and the handlers, whatever the order.
* `IsRun` — a maximal sequence of consecutive updates with the provider.
* `follows` — after each update the providers with a context that is not cancelled are those of the update;
  a handler is started once for each such sequence, and its context is cancelled at its end.
* `doUpdate_closed` — the loops do what the checker of `Clients.Availability` takes them to do.
-/

import Kubecc.Clients.Availability

namespace Kubecc.Clients.Providers

open Kubecc.Go
open Kubecc.Clients.Availability (Uuid ContextId)

/-! ### The callback -/

/-- `knownProviders`, with the context whose cancel function is stored; the contexts cancelled and made;
and the handlers started, each with its context. -/
structure Mem where
  knownProviders : Uuid → Option ContextId
  canceled : List ContextId
  nextContext : ContextId
  started : List (Uuid × ContextId)

/-- The body of `removed.Each`. -/
def remove (mem : Mem) (uuid : Uuid) : Mem :=
  { mem with
    knownProviders := Function.update mem.knownProviders uuid none
    canceled := mem.canceled ++ (mem.knownProviders uuid).toList }

/-- The body of `added.Each`. -/
def add (mem : Mem) (uuid : Uuid) : Mem :=
  { mem with
    knownProviders := Function.update mem.knownProviders uuid (some mem.nextContext)
    nextContext := mem.nextContext + 1
    started := mem.started ++ [(uuid, mem.nextContext)] }

/-- **`doUpdate`**, for the keys of the message and some order of the two differences. -/
inductive DoUpdate (providers : Finset Uuid) (mem : Mem) : Mem → Prop
  | visit (removed added : List Uuid) : removed.Nodup → added.Nodup →
      (∀ uuid, uuid ∈ removed ↔ mem.knownProviders uuid ≠ none ∧ uuid ∉ providers) →
      (∀ uuid, uuid ∈ added ↔ uuid ∈ providers ∧ mem.knownProviders uuid = none) →
      DoUpdate providers mem (added.foldl add (removed.foldl remove mem))

def initial : Mem := ⟨fun _ => none, [], 0, []⟩

/-! ### The stream -/

/-- The codes that `HandleStream` tells apart. -/
inductive Code
  | aborted
  | unavailable
  | canceled
  | other
deriving DecidableEq

/-- What `stream.Recv` returns: a value, with the providers if it can be decoded, or an error. -/
inductive Recv
  | value (providers : Option (Finset Uuid))
  | error (code : Code)
deriving DecidableEq

/-- **`HandleStream`**: the updates that the callback is called with, and whether it returns an error, after
which the stream manager connects again. The expired handler always asks for that. `done` is that the
context of the listener is cancelled. -/
def handleStream (done : Bool) : List Recv → List (Finset Uuid) × Bool
  | [] => ([], false)
  | .value (some providers) :: rest =>
    let (updates, retry) := handleStream done rest
    (providers :: updates, retry)
  | .value none :: _ => ([], true)
  | .error .canceled :: _ => if done then ([], false) else ([∅], true)
  | .error .aborted :: _ | .error .unavailable :: _ => ([∅], true)
  | .error .other :: _ => ([], true)

/-- The memories before and after the updates of a sequence: `mems k` is the one after `k` updates. -/
structure Runs (updates : List (Finset Uuid)) (mems : ℕ → Mem) : Prop where
  start : mems 0 = initial
  step : ∀ k providers, updates[k]? = some providers → DoUpdate providers (mems k) (mems (k + 1))

def Present (updates : List (Finset Uuid)) (uuid : Uuid) (k : ℕ) : Prop :=
  ∃ providers, updates[k]? = some providers ∧ uuid ∈ providers

/-- **A maximal sequence of consecutive updates with the provider**: `first` up to, but without, `last`. -/
structure IsRun (updates : List (Finset Uuid)) (uuid : Uuid) (first last : ℕ) : Prop where
  nonempty : first < last
  inside : last ≤ updates.length
  present : ∀ k, first ≤ k → k < last → Present updates uuid k
  begins : ∀ k, k + 1 = first → ¬ Present updates uuid k
  ends : ¬ Present updates uuid last

/-- The handlers that an update starts for a provider. -/
def startedBy (mems : ℕ → Mem) (k : ℕ) (uuid : Uuid) : List (Uuid × ContextId) :=
  ((mems (k + 1)).started.drop (mems k).started.length).filter fun entry => entry.1 = uuid

structure Follows (updates : List (Finset Uuid)) (mems : ℕ → Mem) : Prop where
  live : ∀ k providers, updates[k]? = some providers → ∀ uuid,
    (∃ context, (uuid, context) ∈ (mems (k + 1)).started ∧ context ∉ (mems (k + 1)).canceled) ↔
      uuid ∈ providers
  once : ∀ uuid first last, IsRun updates uuid first last → ∃ context,
    (∀ k, first ≤ k → k < last →
      startedBy mems k uuid = if k = first then [(uuid, context)] else []) ∧
    ∀ k, k ≤ updates.length → (context ∈ (mems k).canceled ↔ last < k)
  only : ∀ k uuid, k < updates.length → startedBy mems k uuid ≠ [] → ∃ last, IsRun updates uuid k last

/-! ### The loops -/

section Loops

variable {mem : Mem} {uuids : List Uuid}

theorem knownProviders_foldl_remove (mem : Mem) (uuids : List Uuid) (uuid : Uuid) :
    (uuids.foldl remove mem).knownProviders uuid
      = if uuid ∈ uuids then none else mem.knownProviders uuid := by
  induction uuids generalizing mem with
  | nil => rfl
  | cons first rest ih =>
    rw [List.foldl_cons, ih]
    show (if uuid ∈ rest then none else Function.update mem.knownProviders first none uuid) = _
    by_cases same : uuid = first
    · subst same
      rw [Function.update_self, ite_self, if_pos List.mem_cons_self]
    · simp only [Function.update_of_ne same, List.mem_cons, same, false_or]

theorem mem_canceled_foldl_remove (distinct : uuids.Nodup) (context : ContextId) :
    context ∈ (uuids.foldl remove mem).canceled ↔
      context ∈ mem.canceled ∨ ∃ uuid ∈ uuids, mem.knownProviders uuid = some context := by
  induction uuids generalizing mem with
  | nil => simp only [List.foldl_nil, List.not_mem_nil, false_and, exists_false, or_false]
  | cons first rest ih =>
    obtain ⟨absent, distinct⟩ := List.nodup_cons.mp distinct
    -- the entries that are visited later are not touched by the first deletion
    have later : ∀ uuid ∈ rest, (remove mem first).knownProviders uuid = mem.knownProviders uuid := by
      intro uuid member
      refine Function.update_of_ne ?_ _ _
      rintro rfl
      exact absent member
    have cancels : context ∈ (remove mem first).canceled ↔
        context ∈ mem.canceled ∨ mem.knownProviders first = some context := by
      rw [remove, List.mem_append, Option.mem_toList]
    rw [List.foldl_cons, ih distinct, cancels, List.exists_mem_cons_iff, or_assoc]
    refine or_congr_right (or_congr_right ⟨fun ⟨uuid, member, is⟩ => ?_, fun ⟨uuid, member, is⟩ => ?_⟩)
    · exact ⟨uuid, member, later uuid member ▸ is⟩
    · exact ⟨uuid, member, (later uuid member).trans is⟩

theorem foldl_remove_rest (mem : Mem) (uuids : List Uuid) :
    (uuids.foldl remove mem).nextContext = mem.nextContext ∧
      (uuids.foldl remove mem).started = mem.started := by
  induction uuids generalizing mem with
  | nil => exact ⟨rfl, rfl⟩
  | cons first rest ih => exact ih (remove mem first)

theorem foldl_add_rest (mem : Mem) (uuids : List Uuid) :
    (uuids.foldl add mem).canceled = mem.canceled ∧
      (uuids.foldl add mem).nextContext = mem.nextContext + uuids.length ∧
      (uuids.foldl add mem).started = mem.started ++ uuids.zipIdx mem.nextContext := by
  induction uuids generalizing mem with
  | nil => exact ⟨rfl, rfl, (List.append_nil _).symm⟩
  | cons first rest ih =>
    obtain ⟨canceled, nextContext, started⟩ := ih (add mem first)
    refine ⟨canceled, nextContext.trans ?_, started.trans ?_⟩
    · show mem.nextContext + 1 + rest.length = mem.nextContext + (rest.length + 1)
      rw [Nat.add_assoc, Nat.add_comm 1]
    · show mem.started ++ [(first, mem.nextContext)] ++ rest.zipIdx (mem.nextContext + 1) = _
      rw [List.append_assoc]
      rfl

theorem knownProviders_foldl_add_of_notMem {uuid : Uuid} (absent : uuid ∉ uuids) :
    (uuids.foldl add mem).knownProviders uuid = mem.knownProviders uuid := by
  induction uuids generalizing mem with
  | nil => rfl
  | cons first rest ih =>
    obtain ⟨ne, absent⟩ := not_or.mp (fun inside => absent (List.mem_cons.mpr inside))
    exact (ih absent).trans (Function.update_of_ne ne _ _)

theorem filter_zipIdx_of_notMem {uuid : Uuid} {start : ContextId} (absent : uuid ∉ uuids) :
    (uuids.zipIdx start).filter (fun entry => entry.1 = uuid) = [] := by
  rw [List.filter_eq_nil_iff]
  intro entry member
  have inside := List.fst_mem_of_mem_zipIdx member
  exact fun same => absent (of_decide_eq_true same ▸ inside)

theorem foldl_add_of_mem {uuid : Uuid} (distinct : uuids.Nodup) (member : uuid ∈ uuids) :
    ∃ context, (uuids.zipIdx mem.nextContext).filter (fun entry => entry.1 = uuid) = [(uuid, context)] ∧
      (uuids.foldl add mem).knownProviders uuid = some context := by
  induction uuids generalizing mem with
  | nil => exact absurd member List.not_mem_nil
  | cons first rest ih =>
    obtain ⟨absent, distinct⟩ := List.nodup_cons.mp distinct
    rw [List.zipIdx_cons]
    rcases List.mem_cons.mp member with rfl | later
    · refine ⟨mem.nextContext, ?_, ?_⟩
      · rw [List.filter_cons, if_pos (decide_eq_true rfl), filter_zipIdx_of_notMem absent]
      · exact (knownProviders_foldl_add_of_notMem absent).trans (Function.update_self _ _ _)
    · obtain ⟨context, started, known⟩ := @ih (add mem first) distinct later
      have ne : first ≠ uuid := fun same => absent (same ▸ later)
      refine ⟨context, ?_, known⟩
      rw [List.filter_cons_of_neg (by simpa using ne)]
      exact started

end Loops

/-! ### An update -/

/-- **What an update does**, with the handlers that it starts. A provider that is new to the map is given a
handler of its own; of the others those in the message keep their entries. -/
structure Updates (providers : Finset Uuid) (mem : Mem) (new : List (Uuid × ContextId)) (mem' : Mem) :
    Prop where
  started : mem'.started = mem.started ++ new
  nextContext : mem'.nextContext = mem.nextContext + new.length
  contexts : new.map Prod.snd = List.range' mem.nextContext new.length
  added : ∀ uuid, uuid ∈ providers → mem.knownProviders uuid = none →
    ∃ context, new.filter (fun entry => entry.1 = uuid) = [(uuid, context)] ∧
      mem'.knownProviders uuid = some context
  others : ∀ uuid, ¬ (uuid ∈ providers ∧ mem.knownProviders uuid = none) →
    new.filter (fun entry => entry.1 = uuid) = [] ∧
      mem'.knownProviders uuid = if uuid ∈ providers then mem.knownProviders uuid else none
  canceled : ∀ context, context ∈ mem'.canceled ↔
    context ∈ mem.canceled ∨ ∃ uuid, uuid ∉ providers ∧ mem.knownProviders uuid = some context

theorem updates_visit {providers : Finset Uuid} {mem : Mem} {removed added : List Uuid}
    (distinct : removed.Nodup) (distinct' : added.Nodup)
    (gone : ∀ uuid, uuid ∈ removed ↔ mem.knownProviders uuid ≠ none ∧ uuid ∉ providers)
    (new : ∀ uuid, uuid ∈ added ↔ uuid ∈ providers ∧ mem.knownProviders uuid = none) :
    Updates providers mem (added.zipIdx mem.nextContext) (added.foldl add (removed.foldl remove mem)) := by
  obtain ⟨nextContext, started⟩ := foldl_remove_rest mem removed
  obtain ⟨canceled', nextContext', started'⟩ := foldl_add_rest (removed.foldl remove mem) added
  rw [nextContext] at nextContext' started'
  refine ⟨?_, ?_, ?_, fun uuid inside unknown => ?_, fun uuid old => ?_, fun context => ?_⟩
  · rw [started', started]
  · rw [nextContext', List.length_zipIdx]
  · rw [List.zipIdx_map_snd, List.length_zipIdx]
  · obtain ⟨context, one, known⟩ := @foldl_add_of_mem (removed.foldl remove mem) added uuid distinct'
      ((new uuid).mpr ⟨inside, unknown⟩)
    rw [nextContext] at one
    exact ⟨context, one, known⟩
  · have absent : uuid ∉ added := fun inside => old ((new uuid).mp inside)
    refine ⟨filter_zipIdx_of_notMem absent, ?_⟩
    rw [knownProviders_foldl_add_of_notMem absent, knownProviders_foldl_remove]
    by_cases inside : uuid ∈ providers
    · rw [if_neg fun member => ((gone uuid).mp member).2 inside, if_pos inside]
    · rw [if_neg inside]
      split
      · rfl
      · rename_i kept
        by_contra known
        exact kept ((gone uuid).mpr ⟨known, inside⟩)
  · rw [canceled', mem_canceled_foldl_remove distinct]
    refine or_congr_right ⟨fun ⟨uuid, member, is⟩ => ⟨uuid, ((gone uuid).mp member).2, is⟩,
      fun ⟨uuid, outside, is⟩ => ⟨uuid, (gone uuid).mpr ⟨?_, outside⟩, is⟩⟩
    rw [is]
    nofun

theorem DoUpdate.updates {providers : Finset Uuid} {mem mem' : Mem} (update : DoUpdate providers mem mem') :
    ∃ new, Updates providers mem new mem' := by
  cases update with
  | visit removed added distinct distinct' gone new =>
    exact ⟨_, updates_visit distinct distinct' gone new⟩

/-! ### The invariant -/

/-- **The invariant**: the contexts of the handlers are different ones; each is in the map under its
provider, or cancelled, not both. -/
structure Inv (mem : Mem) : Prop where
  made : ∀ entry ∈ mem.started, entry.2 < mem.nextContext
  distinct : (mem.started.map Prod.snd).Nodup
  known : ∀ uuid context, mem.knownProviders uuid = some context →
    (uuid, context) ∈ mem.started ∧ context ∉ mem.canceled
  kept : ∀ uuid context, (uuid, context) ∈ mem.started →
    mem.knownProviders uuid = some context ∨ context ∈ mem.canceled
  canceled : ∀ context ∈ mem.canceled, context < mem.nextContext

theorem inv_initial : Inv initial where
  made := nofun
  distinct := List.nodup_nil
  known := nofun
  kept := nofun
  canceled := nofun

section Step

variable {providers : Finset Uuid} {mem mem' : Mem} {new : List (Uuid × ContextId)}

theorem Updates.fresh (updates : Updates providers mem new mem') {entry : Uuid × ContextId}
    (member : entry ∈ new) : mem.nextContext ≤ entry.2 ∧ entry.2 < mem'.nextContext := by
  have inside : entry.2 ∈ new.map Prod.snd := List.mem_map_of_mem member
  rw [updates.contexts, List.mem_range'_1] at inside
  rw [updates.nextContext]
  exact inside

theorem Updates.known_iff (updates : Updates providers mem new mem') (uuid : Uuid) (context : ContextId) :
    mem'.knownProviders uuid = some context ↔
      (uuid ∈ providers ∧ mem.knownProviders uuid = some context) ∨ (uuid, context) ∈ new := by
  have started : (uuid, context) ∈ new ↔
      (uuid, context) ∈ new.filter fun entry => entry.1 = uuid := by
    rw [List.mem_filter]
    exact ⟨fun member => ⟨member, decide_eq_true rfl⟩, And.left⟩
  rw [started]
  by_cases adds : uuid ∈ providers ∧ mem.knownProviders uuid = none
  · obtain ⟨own, one, known⟩ := updates.added uuid adds.1 adds.2
    rw [one, known, adds.2, List.mem_singleton, Prod.mk.injEq, Option.some.injEq]
    exact ⟨fun same => .inr ⟨rfl, same.symm⟩, fun case =>
      case.elim (fun old => absurd old.2 nofun) fun same => same.2.symm⟩
  · obtain ⟨none, known⟩ := updates.others uuid adds
    rw [none, known, or_iff_left List.not_mem_nil]
    split <;> simp_all

theorem Updates.inv (updates : Updates providers mem new mem') (inv : Inv mem) : Inv mem' := by
  have later : mem.nextContext ≤ mem'.nextContext := by
    rw [updates.nextContext]
    exact Nat.le_add_right _ _
  have old : ∀ uuid context, mem.knownProviders uuid = some context → context < mem.nextContext :=
    fun uuid context is => inv.made _ (inv.known uuid context is).1
  refine ⟨fun entry member => ?_, ?_, fun uuid context is => ?_, fun uuid context member => ?_,
    fun context gone => ?_⟩
  · rw [updates.started] at member
    rcases List.mem_append.mp member with member | member
    · exact lt_of_lt_of_le (inv.made entry member) later
    · exact (updates.fresh member).2
  · rw [updates.started, List.map_append, List.nodup_append]
    refine ⟨inv.distinct, ?_, ?_⟩
    · rw [updates.contexts]
      exact List.nodup_range'
    · rintro context before _ now rfl
      obtain ⟨entry, member, rfl⟩ := List.mem_map.mp before
      obtain ⟨added, member', same⟩ := List.mem_map.mp now
      exact absurd (same ▸ inv.made entry member) (Nat.not_lt.mpr (updates.fresh member').1)
  · rw [updates.started, List.mem_append, updates.canceled]
    rcases (updates.known_iff uuid context).mp is with ⟨inside, known⟩ | member
    · obtain ⟨member, alive⟩ := inv.known uuid context known
      refine ⟨.inl member, not_or.mpr ⟨alive, fun ⟨other, outside, same⟩ => ?_⟩⟩
      have entry := List.inj_on_of_nodup_map inv.distinct member (inv.known other context same).1 rfl
      exact outside ((Prod.mk.inj entry).1 ▸ inside)
    · have fresh := Nat.not_lt.mpr (updates.fresh member).1
      exact ⟨.inr member, not_or.mpr ⟨fun gone => fresh (inv.canceled context gone),
        fun ⟨other, _, same⟩ => fresh (old other context same)⟩⟩
  · rw [updates.known_iff, updates.canceled]
    rw [updates.started] at member
    rcases List.mem_append.mp member with member | member
    · rcases inv.kept uuid context member with known | gone
      · by_cases inside : uuid ∈ providers
        · exact .inl (.inl ⟨inside, known⟩)
        · exact .inr (.inr ⟨uuid, inside, known⟩)
      · exact .inr (.inl gone)
    · exact .inl (.inr member)
  · rcases (updates.canceled context).mp gone with gone | ⟨uuid, _, is⟩
    · exact lt_of_lt_of_le (inv.canceled context gone) later
    · exact lt_of_lt_of_le (old uuid context is) later

theorem Updates.known_eq_none (updates : Updates providers mem new mem') (uuid : Uuid) :
    mem'.knownProviders uuid = none ↔ uuid ∉ providers := by
  by_cases adds : uuid ∈ providers ∧ mem.knownProviders uuid = none
  · obtain ⟨context, _, known⟩ := updates.added uuid adds.1 adds.2
    rw [known]
    exact ⟨nofun, fun outside => absurd adds.1 outside⟩
  · rw [(updates.others uuid adds).2]
    split
    · rename_i inside
      exact ⟨fun unknown => absurd ⟨inside, unknown⟩ adds, fun outside => absurd inside outside⟩
    · rename_i outside
      exact ⟨fun _ => outside, fun _ => rfl⟩

end Step

/-! ### Whole sequences -/

section Runs

variable {updates : List (Finset Uuid)} {mems : ℕ → Mem} {uuid : Uuid} {context : ContextId} {k : ℕ}

theorem Runs.inv (runs : Runs updates mems) (inside : k ≤ updates.length) : Inv (mems k) := by
  induction k with
  | zero => exact runs.start ▸ inv_initial
  | succ k ih =>
    obtain ⟨new, step⟩ := (runs.step k _ (List.getElem?_eq_getElem inside)).updates
    exact step.inv (ih (Nat.le_of_succ_le inside))

theorem Runs.known_eq_none (runs : Runs updates mems) (inside : k ≤ updates.length) (uuid : Uuid) :
    (mems k).knownProviders uuid = none ↔ ∀ j, j + 1 = k → ¬ Present updates uuid j := by
  cases k with
  | zero =>
    rw [runs.start]
    exact ⟨nofun, fun _ => rfl⟩
  | succ k =>
    have there := List.getElem?_eq_getElem inside
    obtain ⟨new, step⟩ := (runs.step k _ there).updates
    rw [step.known_eq_none]
    refine ⟨fun outside j same ⟨providers, is, member⟩ => ?_, fun absent member => absent k rfl ⟨_, there, member⟩⟩
    obtain rfl := Nat.succ.inj same
    obtain rfl := Option.some.inj (there.symm.trans is)
    exact outside member

theorem Runs.mono (runs : Runs updates mems) {j : ℕ} (order : j ≤ k) (inside : k ≤ updates.length) :
    (∀ context ∈ (mems j).canceled, context ∈ (mems k).canceled) ∧
      (mems j).nextContext ≤ (mems k).nextContext := by
  induction k, order using Nat.le_induction with
  | base => exact ⟨fun _ => id, le_rfl⟩
  | succ k _ ih =>
    obtain ⟨canceled, made⟩ := ih (Nat.le_of_succ_le inside)
    obtain ⟨new, step⟩ := (runs.step k _ (List.getElem?_eq_getElem inside)).updates
    refine ⟨fun context gone => (step.canceled context).mpr (.inl (canceled context gone)), ?_⟩
    rw [step.nextContext]
    exact Nat.le_add_right_of_le made

theorem Runs.live (runs : Runs updates mems) {providers : Finset Uuid} (there : updates[k]? = some providers)
    (uuid : Uuid) :
    (∃ context, (uuid, context) ∈ (mems (k + 1)).started ∧ context ∉ (mems (k + 1)).canceled) ↔
      uuid ∈ providers := by
  have inv := runs.inv (List.getElem?_eq_some_iff.mp there).1
  obtain ⟨new, step⟩ := (runs.step k providers there).updates
  have known := step.known_eq_none uuid
  refine ⟨fun ⟨context, member, alive⟩ => ?_, fun inside => ?_⟩
  · by_contra outside
    have is := (inv.kept uuid context member).resolve_right alive
    exact absurd (is.symm.trans (known.mpr outside)) nofun
  · obtain ⟨context, is⟩ := Option.ne_none_iff_exists'.mp fun none => known.mp none inside
    exact ⟨context, inv.known uuid context is⟩

theorem Runs.stays (runs : Runs updates mems) {first last : ℕ} (run : IsRun updates uuid first last)
    (known : (mems (first + 1)).knownProviders uuid = some context) (after : first + 1 ≤ k) (within : k ≤ last) :
    (mems k).knownProviders uuid = some context := by
  induction k, after using Nat.le_induction with
  | base => exact known
  | succ k after ih =>
    obtain ⟨providers, there, member⟩ := run.present k (Nat.le_of_succ_le after) within
    obtain ⟨new, step⟩ := (runs.step k providers there).updates
    exact (step.known_iff uuid context).mpr (.inl ⟨member, ih (Nat.le_of_succ_le within)⟩)

theorem Updates.startedBy {providers : Finset Uuid} {new : List (Uuid × ContextId)}
    (step : Updates providers (mems k) new (mems (k + 1))) :
    startedBy mems k uuid = new.filter fun entry => entry.1 = uuid := by
  rw [Providers.startedBy, step.started, List.drop_left]

theorem Runs.once (runs : Runs updates mems) {first last : ℕ} (run : IsRun updates uuid first last) :
    ∃ context, (∀ k, first ≤ k → k < last →
        startedBy mems k uuid = if k = first then [(uuid, context)] else []) ∧
      ∀ k, k ≤ updates.length → (context ∈ (mems k).canceled ↔ last < k) := by
  have early : first ≤ updates.length := run.nonempty.le.trans run.inside
  obtain ⟨providers, there, member⟩ := run.present first le_rfl run.nonempty
  obtain ⟨new, step⟩ := (runs.step first providers there).updates
  have unknown := (runs.known_eq_none early uuid).mpr run.begins
  obtain ⟨context, one, known⟩ := step.added uuid member unknown
  refine ⟨context, fun k after within => ?_, fun k inside => ⟨fun gone => ?_, fun past => ?_⟩⟩
  · split
    · rename_i same
      subst same
      rw [step.startedBy, one]
    · rename_i ne
      obtain ⟨providers', there', _⟩ := run.present k after within
      obtain ⟨new', step'⟩ := (runs.step k providers' there').updates
      have stays := runs.stays run known (lt_of_le_of_ne after (Ne.symm ne)) within.le
      rw [step'.startedBy, (step'.others uuid fun adds => absurd (stays.symm.trans adds.2) nofun).1]
  · by_contra early'
    have within : k ≤ last := Nat.not_lt.mp early'
    rcases Nat.lt_or_ge first k with after | before
    · exact ((runs.inv inside).known uuid context (runs.stays run known after within)).2 gone
    · -- the context is not made before the sequence begins
      have fresh : (uuid, context) ∈ new := by
        have filtered : (uuid, context) ∈ new.filter fun entry => entry.1 = uuid := by
          rw [one]
          exact List.mem_singleton_self _
        exact (List.mem_filter.mp filtered).1
      have made := (runs.inv inside).canceled context gone
      have order := (runs.mono before early).2
      exact absurd made (Nat.not_lt.mpr (order.trans (step.fresh fresh).1))
  · have bound : last < updates.length := lt_of_lt_of_le past inside
    have there' := List.getElem?_eq_getElem bound
    obtain ⟨new', step'⟩ := (runs.step last _ there').updates
    have stays := runs.stays run known run.nonempty le_rfl
    have gone := (step'.canceled context).mpr
      (.inr ⟨uuid, fun member => run.ends ⟨_, there', member⟩, stays⟩)
    exact (runs.mono past inside).1 context gone

theorem Runs.only (runs : Runs updates mems) (inside : k < updates.length)
    (starts : startedBy mems k uuid ≠ []) : ∃ last, IsRun updates uuid k last := by
  classical
  have there := List.getElem?_eq_getElem inside
  obtain ⟨new, step⟩ := (runs.step k _ there).updates
  obtain ⟨member, unknown⟩ : uuid ∈ updates[k] ∧ (mems k).knownProviders uuid = none := by
    by_contra old
    exact starts (step.startedBy.trans (step.others uuid old).1)
  have beyond : ¬ Present updates uuid updates.length := by
    rintro ⟨providers, is, _⟩
    rw [List.getElem?_eq_none le_rfl] at is
    exact absurd is nofun
  have ends : ∃ last, k < last ∧ ¬ Present updates uuid last := ⟨updates.length, inside, beyond⟩
  refine ⟨Nat.find ends, (Nat.find_spec ends).1, Nat.find_min' ends ⟨inside, beyond⟩,
    fun j after within => ?_, (runs.known_eq_none inside.le uuid).mp unknown, (Nat.find_spec ends).2⟩
  rcases Nat.lt_or_ge k j with later | same
  · by_contra absent
    exact Nat.find_min ends within ⟨later, absent⟩
  · obtain rfl := le_antisymm after same
    exact ⟨_, there, member⟩

theorem Inv.exists_update {mem : Mem} (inv : Inv mem) (providers : Finset Uuid) :
    ∃ mem', DoUpdate providers mem mem' := by
  refine ⟨_, .visit ((mem.started.map Prod.fst).dedup.filter fun uuid =>
      (mem.knownProviders uuid).isSome ∧ uuid ∉ providers)
    (providers.toList.filter fun uuid => mem.knownProviders uuid = none)
    ((List.nodup_dedup _).filter _) ((Finset.nodup_toList _).filter _) (fun uuid => ?_) fun uuid => ?_⟩
  · rw [List.mem_filter, List.mem_dedup, decide_eq_true_eq, Option.isSome_iff_ne_none]
    refine ⟨And.right, fun gone => ⟨?_, gone⟩⟩
    obtain ⟨context, is⟩ := Option.ne_none_iff_exists'.mp gone.1
    exact List.mem_map_of_mem (inv.known uuid context is).1
  · rw [List.mem_filter, Finset.mem_toList, decide_eq_true_eq]

theorem exists_runs (updates : List (Finset Uuid)) : ∃ mems, Runs updates mems := by
  induction updates using List.reverseRecOn with
  | nil => exact ⟨fun _ => initial, rfl, nofun⟩
  | append_singleton updates providers ih =>
    obtain ⟨mems, runs⟩ := ih
    obtain ⟨mem', update⟩ := (runs.inv le_rfl).exists_update providers
    refine ⟨fun k => if k ≤ updates.length then mems k else mem', ?_, fun k providers' there => ?_⟩
    · exact runs.start
    · rcases Nat.lt_trichotomy k updates.length with before | rfl | after
      · rw [List.getElem?_append_left before] at there
        rw [if_pos before.le, if_pos (Nat.succ_le_of_lt before)]
        exact runs.step k providers' there
      · rw [List.getElem?_append_right le_rfl, Nat.sub_self] at there
        obtain rfl : providers = providers' := Option.some.inj there
        rw [if_pos le_rfl, if_neg (Nat.not_succ_le_self _)]
        exact update
      · rw [List.getElem?_eq_none (by rw [List.length_append]; exact after)] at there
        exact absurd there nofun

/-- **The handlers follow the providers**, for every sequence of updates and every order of the sets. -/
theorem follows (updates : List (Finset Uuid)) (mems : ℕ → Mem) (runs : Runs updates mems) :
    Follows updates mems where
  live _ _ there := runs.live there
  once _ _ _ run := runs.once run
  only _ _ inside := runs.only inside

/-- A provider joins, another takes its place, the connection expires, and the first one is back. -/
theorem follows_rejoined :
    ∃ mems, Runs [{bytes "a"}, {bytes "b"}, ∅, {bytes "a"}] mems ∧
      Follows [{bytes "a"}, {bytes "b"}, ∅, {bytes "a"}] mems := by
  obtain ⟨mems, runs⟩ := exists_runs [{bytes "a"}, {bytes "b"}, ∅, {bytes "a"}]
  exact ⟨mems, runs, follows _ _ runs⟩

end Runs

/-! ### The checker's view -/

/-- The map, the contexts cancelled and the contexts made are those of the other memory. -/
structure Represents (mem : Mem) (list : Availability.Mem) : Prop where
  known : ∀ uuid context, mem.knownProviders uuid = some context ↔ (uuid, context) ∈ list.knownProviders
  canceled : ∀ context, context ∈ mem.canceled ↔ context ∈ list.canceled
  nextContext : mem.nextContext = list.nextContext

section Checker

variable {mem : Mem} {list : Availability.Mem}

theorem Represents.known_ne_none (represents : Represents mem list) (uuid : Uuid) :
    mem.knownProviders uuid ≠ none ↔ uuid ∈ list.knownProviders.map Prod.fst := by
  rw [Option.ne_none_iff_exists', List.mem_map]
  refine ⟨fun ⟨context, is⟩ => ⟨(uuid, context), (represents.known uuid context).mp is, rfl⟩, ?_⟩
  rintro ⟨⟨_, context⟩, member, rfl⟩
  exact ⟨context, (represents.known _ context).mpr member⟩

theorem Represents.nodup_keys (represents : Represents mem list) (contexts : Availability.Contexts list) :
    (list.knownProviders.map Prod.fst).Nodup := by
  refine (List.Nodup.of_map _ contexts.nodup).map_on fun entry member other member' same => ?_
  obtain ⟨uuid, context⟩ := entry
  obtain ⟨_, context'⟩ := other
  obtain rfl : uuid = _ := same
  have is := (represents.known uuid context).mpr member
  have is' := (represents.known uuid context').mpr member'
  rw [Option.some.inj (is.symm.trans is')]

/-- **The loops do what the checker takes them to do**, if the sets are visited in the order of its
lists. -/
theorem doUpdate_closed (represents : Represents mem list) (contexts : Availability.Contexts list)
    {providers : List Uuid} (distinct : providers.Nodup) :
    ∃ mem', DoUpdate providers.toFinset mem mem' ∧
      Represents mem' (Availability.doUpdate providers list) ∧
      mem'.started = mem.started ++ Availability.added providers list := by
  have gone : ∀ uuid, uuid ∈ (list.knownProviders.filter (·.1 ∉ providers)).map Prod.fst ↔
      mem.knownProviders uuid ≠ none ∧ uuid ∉ providers.toFinset := by
    intro uuid
    rw [represents.known_ne_none, List.mem_toFinset, List.mem_map, List.mem_map]
    simp only [List.mem_filter, decide_eq_true_eq]
    refine ⟨fun ⟨entry, ⟨member, outside⟩, same⟩ => ⟨⟨entry, member, same⟩, same ▸ outside⟩,
      fun ⟨⟨entry, member, same⟩, outside⟩ => ⟨entry, ⟨member, ?_⟩, same⟩⟩
    rwa [same]
  have new : ∀ uuid, uuid ∈ providers.filter (· ∉ list.knownProviders.map Prod.fst) ↔
      uuid ∈ providers.toFinset ∧ mem.knownProviders uuid = none := by
    intro uuid
    rw [List.mem_filter, List.mem_toFinset, decide_eq_true_eq, ← represents.known_ne_none, not_not]
  have keys := (represents.nodup_keys contexts).sublist
    ((List.filter_sublist (p := fun entry => entry.1 ∉ providers)).map Prod.fst)
  have step := updates_visit keys (distinct.filter _) gone new
  rw [represents.nextContext] at step
  refine ⟨_, .visit _ _ keys (distinct.filter _) gone new, ⟨fun uuid context => ?_, fun context => ?_, ?_⟩,
    step.started⟩
  · rw [step.known_iff, List.mem_toFinset, represents.known, Availability.doUpdate, List.mem_append,
      List.mem_filter, decide_eq_true_eq, and_comm]
    rfl
  · rw [step.canceled, Availability.doUpdate, List.mem_append, List.mem_map, represents.canceled, or_comm]
    simp only [List.mem_filter, decide_eq_true_eq, List.mem_toFinset, represents.known]
    refine or_congr_left ⟨fun ⟨uuid, outside, member⟩ => ⟨(uuid, context), ⟨member, outside⟩, rfl⟩, ?_⟩
    rintro ⟨⟨uuid, _⟩, ⟨member, outside⟩, rfl⟩
    exact ⟨uuid, outside, member⟩
  · rw [step.nextContext, represents.nextContext]
    rfl

theorem doUpdate_closed_initial : ∃ mem', DoUpdate [bytes "a"].toFinset initial mem' ∧
    Represents mem' (Availability.doUpdate [bytes "a"] Availability.initial.mem) := by
  obtain ⟨mem', update, represents, -⟩ := @doUpdate_closed initial Availability.initial.mem
    ⟨by simp [initial, Availability.initial], fun _ => .rfl, rfl⟩
    ⟨List.forall_mem_nil _, List.forall_mem_nil _, .nil, List.forall_mem_nil _⟩ _ (List.nodup_singleton (bytes "a"))
  exact ⟨mem', update, represents⟩

end Checker

end Kubecc.Clients.Providers
