/-
**The availability checker.**

`pkg/clients/availability.go`, with the `OnProviderAdded` listener of `pkg/clients/monitor.go` that
drives it. The listener keeps one context for each provider it knows; a provider that is new gets a
context and a goroutine, which asks the monitor who it is and runs `OnComponentAvailable`, and a
provider that is gone has its context cancelled. All these goroutines write one `status`.

`EnsureAvailable` only reads `status`. The listener's own context, which lives as long as the process
that watches, is not cancelled.

* `reflects_of_clearsLast` — in every run in which no handler clears the status while the handler of
  another connected component waits, the status at rest is `Available` exactly if a component that
  matches the filter is connected.
* `first_departure_clears_status` — two schedulers are connected, one leaves, and the status is
  `Unavailable`.
-/

import Kubecc.Lib.Process
import Kubecc.Go.Strings

namespace Kubecc.Clients.Availability

open Kubecc.Lib Kubecc.Go

inductive Component
  | unknown
  | agent
  | scheduler
  | controller
  | consumer
  | consumerd
  | make
  | test
  | dashboard
  | cli
  | monitor
  | cache
deriving DecidableEq

abbrev Uuid := GoString

/-- A context made by `context.WithCancel`. -/
abbrev ContextId := Nat

structure WhoisResponse where
  uuid : Uuid
  address : GoString
  component : Component
deriving DecidableEq

inductive RemoteStatus
  | unavailable
  | available
deriving DecidableEq

def componentFilter (components : List Component) (info : WhoisResponse) : Bool :=
  info.component ∈ components

/-- Where the goroutine of a provider stands: in `Whois`, at the filter, before it sets the status,
waiting for its context, and before it clears the status. -/
inductive Phase
  | whois
  | called (info : WhoisResponse)
  | entering
  | waiting
  | leaving
deriving DecidableEq

/-- The goroutine that `OnProviderAdded` starts for a provider. -/
structure Handler where
  uuid : Uuid
  context : ContextId
  phase : Phase
deriving DecidableEq

/-- `knownProviders`, the contexts made and cancelled, and the status of the checker. -/
structure Mem where
  knownProviders : List (Uuid × ContextId)
  canceled : List ContextId
  nextContext : ContextId
  status : RemoteStatus
deriving DecidableEq

/-- The filter of the checker, and the answer of the monitor to the `Whois` call of each handler; a
call that fails has none. -/
structure Setup where
  filter : WhoisResponse → Bool
  whois : Uuid → ContextId → Option WhoisResponse

/-- The providers that `doUpdate` finds added, each with its new context. -/
def added (providers : List Uuid) (mem : Mem) : List (Uuid × ContextId) :=
  (providers.filter (· ∉ mem.knownProviders.map Prod.fst)).zipIdx mem.nextContext

/-- `doUpdate`. The expired handler calls it with no provider. -/
def doUpdate (providers : List Uuid) (mem : Mem) : Mem :=
  { mem with
    knownProviders := mem.knownProviders.filter (·.1 ∈ providers) ++ added providers mem
    canceled := (mem.knownProviders.filter (·.1 ∉ providers)).map Prod.snd ++ mem.canceled
    nextContext := mem.nextContext + (added providers mem).length }

inductive Event
  | update (providers : List Uuid)
  | clear
  | internal

inductive Act (setup : Setup) : Rules Mem Handler Event
  -- the keys of the map the monitor sends are distinct
  | update {mem} (providers : List Uuid) : providers.Nodup →
      Act setup (.update providers) mem [] (doUpdate providers mem)
        ((added providers mem).map fun entry => ⟨entry.1, entry.2, .whois⟩)
  | whois {mem} {uuid : Uuid} {context : ContextId} {info : WhoisResponse} :
      setup.whois uuid context = some info →
      Act setup .internal mem [⟨uuid, context, .whois⟩] mem [⟨uuid, context, .called info⟩]
  | whoisError {mem} {uuid : Uuid} {context : ContextId} : setup.whois uuid context = none →
      Act setup .internal mem [⟨uuid, context, .whois⟩] mem []
  -- OnComponentAvailable
  | matching {mem} {uuid : Uuid} {context : ContextId} {info : WhoisResponse} :
      setup.filter info = true →
      Act setup .internal mem [⟨uuid, context, .called info⟩] mem [⟨uuid, context, .entering⟩]
  | filtered {mem} {uuid : Uuid} {context : ContextId} {info : WhoisResponse} :
      setup.filter info = false →
      Act setup .internal mem [⟨uuid, context, .called info⟩] mem []
  | set {mem} {uuid : Uuid} {context : ContextId} :
      Act setup .internal mem [⟨uuid, context, .entering⟩] { mem with status := .available }
        [⟨uuid, context, .waiting⟩]
  | done {mem} {uuid : Uuid} {context : ContextId} : context ∈ mem.canceled →
      Act setup .internal mem [⟨uuid, context, .waiting⟩] mem [⟨uuid, context, .leaving⟩]
  | clear {mem} {uuid : Uuid} {context : ContextId} :
      Act setup .clear mem [⟨uuid, context, .leaving⟩] { mem with status := .unavailable } []

abbrev State := Config Mem Handler

/-- `NewAvailabilityChecker`, and a listener that knows no provider. -/
def initial : State where
  mem := { knownProviders := [], canceled := [], nextContext := 0, status := .unavailable }
  procs := 0

/-! ### What the status is for -/

def Matches (setup : Setup) (uuid : Uuid) (context : ContextId) : Prop :=
  ∃ info, setup.whois uuid context = some info ∧ setup.filter info = true

def Connected (setup : Setup) (mem : Mem) : Prop :=
  ∃ entry ∈ mem.knownProviders, Matches setup entry.1 entry.2

def WaitsConnected (mem : Mem) (handler : Handler) : Prop :=
  handler.phase = .waiting ∧ handler.context ∉ mem.canceled

def AtRest (config : State) : Prop := ∀ handler ∈ config.procs, WaitsConnected config.mem handler

def Reflects (setup : Setup) (config : State) : Prop :=
  AtRest config → (config.mem.status = .available ↔ Connected setup config.mem)

/-- The runs in which a handler clears the status only if no handler of a connected component
waits. -/
def ClearsLast (config : State) : Event → Prop
  | .clear => ∀ handler ∈ config.procs, ¬ WaitsConnected config.mem handler
  | _ => True

/-! ### The handlers of the providers known -/

section Handlers

variable {setup : Setup} {config next : State} {event : Event} {mem : Mem} {providers : List Uuid}

/-- What a handler past the filter, or with an answer, knows of its component; its provider is known as
long as its context is not cancelled, and it leaves only then. -/
structure Sound (setup : Setup) (mem : Mem) (handler : Handler) : Prop where
  answered : ∀ info, handler.phase = .called info →
    setup.whois handler.uuid handler.context = some info
  matching : handler.phase = .entering ∨ handler.phase = .waiting ∨ handler.phase = .leaving →
    Matches setup handler.uuid handler.context
  known : handler.context ∉ mem.canceled → (handler.uuid, handler.context) ∈ mem.knownProviders
  left : handler.phase = .leaving → handler.context ∈ mem.canceled

/-- The handler has set the status and not cleared it. -/
def Entered (handler : Handler) : Prop := handler.phase = .waiting ∨ handler.phase = .leaving

/-- Each context is known or cancelled, not both. -/
structure Contexts (mem : Mem) : Prop where
  made : ∀ context ∈ mem.canceled, context < mem.nextContext
  known : ∀ entry ∈ mem.knownProviders, entry.2 < mem.nextContext
  nodup : (mem.knownProviders.map Prod.snd).Nodup
  live : ∀ entry ∈ mem.knownProviders, entry.2 ∉ mem.canceled

/-- **The listener's invariant**: each known component that matches has its handler, and an available
status was set by a handler that is still there. -/
structure Inv (setup : Setup) (config : State) : Prop where
  contexts : Contexts config.mem
  handled : ∀ entry ∈ config.mem.knownProviders, Matches setup entry.1 entry.2 →
    ∃ handler ∈ config.procs, handler.uuid = entry.1 ∧ handler.context = entry.2
  sound : ∀ handler ∈ config.procs, Sound setup config.mem handler
  shown : config.mem.status = .available → ∃ handler ∈ config.procs, Entered handler

theorem context_of_added {entry : Uuid × ContextId} (new : entry ∈ added providers mem) :
    mem.nextContext ≤ entry.2 ∧ entry.2 < mem.nextContext + (added providers mem).length := by
  refine ⟨List.le_snd_of_mem_zipIdx new, ?_⟩
  have lt := List.snd_lt_add_of_mem_zipIdx new
  rwa [added, List.length_zipIdx]

theorem contexts_doUpdate (providers : List Uuid) (contexts : Contexts mem) :
    Contexts (doUpdate providers mem) := by
  constructor
  · intro context member
    rcases List.mem_append.mp member with member | member
    · obtain ⟨entry, removed, rfl⟩ := List.mem_map.mp member
      exact Nat.lt_add_right _ (contexts.known entry (List.mem_filter.mp removed).1)
    · exact Nat.lt_add_right _ (contexts.made context member)
  · intro entry member
    rcases List.mem_append.mp member with kept | new
    · exact Nat.lt_add_right _ (contexts.known entry (List.mem_filter.mp kept).1)
    · exact (context_of_added new).2
  · show ((_ ++ _ : List _).map Prod.snd).Nodup
    rw [List.map_append, List.nodup_append]
    refine ⟨contexts.nodup.sublist (List.filter_sublist.map _), ?_, ?_⟩
    · rw [added, List.zipIdx_map_snd]
      exact List.nodup_range'
    · rintro context kept _ new rfl
      obtain ⟨old, there, rfl⟩ := List.mem_map.mp kept
      obtain ⟨entry, new, same⟩ := List.mem_map.mp new
      have before := contexts.known old (List.mem_filter.mp there).1
      exact absurd (same ▸ before) (Nat.not_lt.mpr (context_of_added new).1)
  · intro entry member canceled
    rcases List.mem_append.mp member with kept | new
    · obtain ⟨there, remains⟩ := List.mem_filter.mp kept
      rcases List.mem_append.mp canceled with removed | canceled
      · -- two entries with one context are one entry, which is not both kept and removed
        obtain ⟨other, gone, same⟩ := List.mem_map.mp removed
        obtain ⟨there', absent⟩ := List.mem_filter.mp gone
        obtain rfl := List.inj_on_of_nodup_map contexts.nodup there' there same
        simp_all
      · exact contexts.live entry there canceled
    · have after := Nat.not_lt.mpr (context_of_added new).1
      rcases List.mem_append.mp canceled with removed | canceled
      · obtain ⟨other, gone, same⟩ := List.mem_map.mp removed
        have before := contexts.known other (List.mem_filter.mp gone).1
        exact after (same ▸ before)
      · exact after (contexts.made _ canceled)

theorem mem_doUpdate_of_not_canceled {entry : Uuid × ContextId}
    (known : entry ∈ mem.knownProviders) (live : entry.2 ∉ (doUpdate providers mem).canceled) :
    entry ∈ (doUpdate providers mem).knownProviders := by
  refine List.mem_append.mpr (.inl (List.mem_filter.mpr ⟨known, ?_⟩))
  by_contra absent
  refine live (List.mem_append.mpr (.inl (List.mem_map.mpr ⟨entry, ?_, rfl⟩)))
  exact List.mem_filter.mpr ⟨known, by simpa using absent⟩

theorem Sound.doUpdate {handler : Handler}
    (sound : Sound setup mem handler) : Sound setup (doUpdate providers mem) handler := by
  refine ⟨sound.answered, sound.matching, fun live => ?_, fun leaving => ?_⟩
  · refine mem_doUpdate_of_not_canceled (sound.known fun canceled => live ?_) live
    exact List.mem_append.mpr (.inr canceled)
  · exact List.mem_append.mpr (.inr (sound.left leaving))

theorem inv_initial : Inv setup initial where
  contexts := ⟨List.forall_mem_nil _, List.forall_mem_nil _, List.nodup_nil, List.forall_mem_nil _⟩
  handled := List.forall_mem_nil _
  sound := fun _ member => absurd member (Multiset.notMem_zero _)
  shown := nofun

theorem handled_step (inv : Inv setup config) (step : Step (Act setup) config event next) :
    ∀ entry ∈ next.mem.knownProviders, Matches setup entry.1 entry.2 →
      ∃ handler ∈ next.procs, handler.uuid = entry.1 ∧ handler.context = entry.2 := by
  intro entry known is
  cases step with
  | fire rest fires =>
    cases fires with
    | update providers distinct =>
      rcases List.mem_append.mp known with kept | new
      · obtain ⟨handler, member, same⟩ := inv.handled entry (List.mem_filter.mp kept).1 is
        refine ⟨handler, Multiset.mem_add.mpr (.inr ?_), same⟩
        simpa using member
      · refine ⟨⟨entry.1, entry.2, .whois⟩, Multiset.mem_add.mpr (.inl ?_), rfl, rfl⟩
        exact Multiset.mem_coe.mpr (List.mem_map_of_mem new)
    | @whoisError mem uuid context error =>
      -- a handler that ends here has no component that matches
      refine exists_mem_fire (inv.handled entry known is) (fun handler member same => ?_)
        fun _ _ => id
      rw [List.mem_singleton.mp member] at same
      obtain ⟨info, answer, _⟩ := is
      rw [← same.1, ← same.2, error] at answer
      exact absurd answer nofun
    | @filtered mem uuid context info rejected =>
      refine exists_mem_fire (inv.handled entry known is) (fun handler member same => ?_)
        fun _ _ => id
      rw [List.mem_singleton.mp member] at same
      have called := (inv.sound _ mem_acting).answered info rfl
      obtain ⟨info', answer, accepted⟩ := is
      rw [← same.1, ← same.2, called, Option.some.injEq] at answer
      rw [← answer, rejected] at accepted
      exact absurd accepted Bool.false_ne_true
    | @clear mem uuid context =>
      -- the component of a handler that leaves is not known any more
      refine exists_mem_fire (inv.handled entry known is) (fun handler member same => ?_)
        fun _ _ => id
      rw [List.mem_singleton.mp member] at same
      have canceled := (inv.sound _ mem_acting).left rfl
      exact absurd (same.2 ▸ canceled) (inv.contexts.live entry known)
    | _ =>
      refine exists_mem_fire (inv.handled entry known is) (fun handler member same => ?_)
        fun _ _ => id
      rw [List.mem_singleton.mp member] at same
      exact ⟨_, List.mem_singleton_self _, same⟩

theorem sound_step (inv : Inv setup config) (step : Step (Act setup) config event next) :
    ∀ handler ∈ next.procs, Sound setup next.mem handler := by
  cases step with
  | fire rest fires =>
    cases fires with
    | @update mem providers distinct =>
      refine forall_mem_fire inv.sound (fun _ handler member => ?_) fun _ _ sound => sound.doUpdate
      obtain ⟨entry, new, rfl⟩ := List.mem_map.mp member
      exact ⟨nofun, by simp, fun _ => List.mem_append.mpr (.inr new), nofun⟩
    | @whois mem uuid context info answer =>
      refine forall_mem_fire inv.sound (fun before => ?_) fun _ _ => id
      rw [List.forall_mem_singleton] at before ⊢
      refine ⟨fun info' same => ?_, by simp, before.known, nofun⟩
      rw [← Phase.called.inj same]
      exact answer
    | @matching mem uuid context info accepted =>
      refine forall_mem_fire inv.sound (fun before => ?_) fun _ _ => id
      rw [List.forall_mem_singleton] at before ⊢
      exact ⟨nofun, fun _ => ⟨info, before.answered info rfl, accepted⟩, before.known, nofun⟩
    | @set mem uuid context =>
      refine forall_mem_fire inv.sound (fun before => ?_) fun _ _ sound =>
        ⟨sound.answered, sound.matching, sound.known, sound.left⟩
      rw [List.forall_mem_singleton] at before ⊢
      exact ⟨nofun, fun _ => before.matching (.inl rfl), before.known, nofun⟩
    | @done mem uuid context canceled =>
      refine forall_mem_fire inv.sound (fun before => ?_) fun _ _ => id
      rw [List.forall_mem_singleton] at before ⊢
      exact ⟨nofun, fun _ => before.matching (.inr (.inl rfl)), before.known, fun _ => canceled⟩
    | clear =>
      exact forall_mem_fire inv.sound (fun _ => List.forall_mem_nil _) fun _ _ sound =>
        ⟨sound.answered, sound.matching, sound.known, sound.left⟩
    | _ => exact forall_mem_fire inv.sound (fun _ => List.forall_mem_nil _) fun _ _ => id

theorem shown_step (inv : Inv setup config) (step : Step (Act setup) config event next) :
    next.mem.status = .available → ∃ handler ∈ next.procs, Entered handler := by
  intro available
  cases step with
  | fire rest fires =>
    cases fires with
    | set => exact ⟨_, mem_acting, .inl rfl⟩
    | clear => exact absurd available nofun
    | _ =>
      refine exists_mem_fire (inv.shown available) (fun handler member entered => ?_) fun _ _ => id
      simp_all [Entered]

theorem inv_step (inv : Inv setup config) (step : Step (Act setup) config event next) :
    Inv setup next := by
  refine ⟨?_, handled_step inv step, sound_step inv step, shown_step inv step⟩
  have contexts := inv.contexts
  cases step with
  | fire rest fires =>
    cases fires with
    | update providers distinct => exact contexts_doUpdate providers contexts
    | _ => exact ⟨contexts.made, contexts.known, contexts.nodup, contexts.live⟩

/-! ### The last one to leave clears the status -/

/-- While the handler of a connected component waits, the status is available. -/
def Seen (config : State) : Prop :=
  ∀ handler ∈ config.procs, WaitsConnected config.mem handler → config.mem.status = .available

theorem seen_step (seen : Seen config) (ok : ClearsLast config event)
    (step : Step (Act setup) config event next) : Seen next := by
  cases step with
  | fire rest fires =>
    cases fires with
    | update providers distinct =>
      refine forall_mem_fire seen (fun _ handler member => ?_) fun handler _ shown waits => ?_
      · obtain ⟨entry, new, rfl⟩ := List.mem_map.mp member
        exact fun waits => absurd waits.1 nofun
      · exact shown ⟨waits.1, fun canceled => waits.2 (List.mem_append.mpr (.inr canceled))⟩
    | set => exact fun _ _ _ => rfl
    | clear =>
      intro handler member waits
      refine absurd waits (ok handler (Multiset.mem_add.mpr (.inr ?_)))
      simpa using member
    | _ =>
      refine forall_mem_fire seen (fun _ => ?_) fun _ _ => id
      simp [WaitsConnected]

/-- **The status reflects the components present, if the last one to leave clears it.** -/
theorem reflects_of_clearsLast (reach : Reach (Act setup) ClearsLast initial config) :
    Reflects setup config := by
  have both : Inv setup config ∧ Seen config := by
    refine reach.invariant (fun config => Inv setup config ∧ Seen config)
      ⟨inv_initial, fun _ member => absurd member (Multiset.notMem_zero _)⟩ ?_
    rintro config event next ⟨inv, seen⟩ ok step
    exact ⟨inv_step inv step, seen_step seen ok step⟩
  obtain ⟨inv, seen⟩ := both
  intro rest
  constructor
  · intro available
    obtain ⟨handler, member, _⟩ := inv.shown available
    have sound := inv.sound handler member
    obtain ⟨waiting, live⟩ := rest handler member
    exact ⟨_, sound.known live, sound.matching (.inr (.inl waiting))⟩
  · rintro ⟨entry, known, is⟩
    obtain ⟨handler, member, _⟩ := inv.handled entry known is
    exact seen handler member (rest handler member)

end Handlers

/-! ### Two schedulers -/

/-- The checker of `NewSplitQueue`, where the monitor answers that every provider is a scheduler. -/
def schedulers : Setup where
  filter := componentFilter [.scheduler]
  whois uuid _ := some ⟨uuid, bytes "10.0.0.1", .scheduler⟩

/-- A run up to two schedulers that are connected, both handlers waiting. -/
theorem both_waiting (allowed : State → Event → Prop)
    (ok : ∀ config event, event ≠ .clear → allowed config event) :
    Reach (Act schedulers) allowed initial
      (.ofList ⟨[(bytes "a", 0), (bytes "b", 1)], [], 2, .available⟩
        [⟨bytes "b", 1, .waiting⟩, ⟨bytes "a", 0, .waiting⟩]) := by
  have h0 : Reach (Act schedulers) allowed initial (.ofList initial.mem []) := .start
  have h1 := h0.next [] [] (.update [bytes "a", bytes "b"] (by decide)) (ok _ _ nofun) (by decide)
  have h2 := h1.next [⟨bytes "a", 0, .whois⟩] [⟨bytes "b", 1, .whois⟩] (.whois rfl) (ok _ _ nofun)
    (by decide)
  have h3 := h2.next [⟨bytes "a", 0, .called ⟨bytes "a", bytes "10.0.0.1", .scheduler⟩⟩]
    [⟨bytes "b", 1, .whois⟩] (.matching rfl) (ok _ _ nofun) (by decide)
  have h4 := h3.next [⟨bytes "a", 0, .entering⟩] [⟨bytes "b", 1, .whois⟩] .set (ok _ _ nofun)
    (by decide)
  have h5 := h4.next [⟨bytes "b", 1, .whois⟩] [⟨bytes "a", 0, .waiting⟩] (.whois rfl)
    (ok _ _ nofun) (by decide)
  have h6 := h5.next [⟨bytes "b", 1, .called ⟨bytes "b", bytes "10.0.0.1", .scheduler⟩⟩]
    [⟨bytes "a", 0, .waiting⟩] (.matching rfl) (ok _ _ nofun) (by decide)
  exact h6.next [⟨bytes "b", 1, .entering⟩] [⟨bytes "a", 0, .waiting⟩] .set (ok _ _ nofun)
    (by decide)

/-- **The first departure clears the status**: `a` leaves, `b` is still connected, no handler has a
step to take, and the status is `Unavailable`. -/
theorem first_departure_clears_status :
    ∃ config : State, Reach (Act schedulers) (fun _ _ => True) initial config ∧
      ¬ Reflects schedulers config := by
  have h0 := both_waiting (fun _ _ => True) fun _ _ _ => trivial
  have h1 := h0.next [] [⟨bytes "b", 1, .waiting⟩, ⟨bytes "a", 0, .waiting⟩]
    (.update [bytes "b"] (by decide)) trivial (by decide)
  have h2 := h1.next [⟨bytes "a", 0, .waiting⟩] [⟨bytes "b", 1, .waiting⟩] (.done (by decide))
    trivial (by decide)
  have h3 := h2.next [⟨bytes "a", 0, .leaving⟩] [⟨bytes "b", 1, .waiting⟩] .clear trivial (by decide)
  refine ⟨_, h3, fun reflects => ?_⟩
  refine absurd ((reflects fun handler member => ?_).mpr ⟨_, List.mem_cons_self, _, rfl, rfl⟩) nofun
  rw [List.mem_singleton.mp (Multiset.mem_coe.mp member)]
  exact ⟨rfl, by decide⟩

/-- Both leave before either handler clears the status. -/
theorem reflects_both_leave :
    ∃ config : State, Reach (Act schedulers) ClearsLast initial config ∧ config.procs = 0 ∧
      Reflects schedulers config := by
  have h0 := both_waiting ClearsLast fun _ event other => by
    cases event with
    | clear => exact absurd rfl other
    | _ => trivial
  have h1 := h0.next [] [⟨bytes "b", 1, .waiting⟩, ⟨bytes "a", 0, .waiting⟩]
    (.update [] List.nodup_nil) trivial (by decide)
  have h2 := h1.next [⟨bytes "a", 0, .waiting⟩] [⟨bytes "b", 1, .waiting⟩] (.done (by decide))
    trivial (by decide)
  have h3 := h2.next [⟨bytes "b", 1, .waiting⟩] [⟨bytes "a", 0, .leaving⟩] (.done (by decide))
    trivial (by decide)
  have h4 := h3.next [⟨bytes "a", 0, .leaving⟩] [⟨bytes "b", 1, .leaving⟩] .clear
    (by simp [ClearsLast, WaitsConnected, Config.ofList]) (by decide)
  have h5 := h4.next [⟨bytes "b", 1, .leaving⟩] [] .clear
    (by simp [ClearsLast, WaitsConnected, Config.ofList]) (by decide)
  exact ⟨_, h5, rfl, reflects_of_clearsLast h5⟩

end Kubecc.Clients.Availability
