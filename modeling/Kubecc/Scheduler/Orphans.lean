/-
**Routes that nobody is attached to.**

A route is made when it is looked up: by a party that is being attached, by an update that cancels it at
once, or by `Route`. It is taken out of the table when its last party leaves. So every route has somebody
who keeps it, except one that `Route` makes.

* `Rule` — the router of `Routes`, with calls of `Route` that offer a request on the channel of the
  route, and the goroutines of the agents that take it and hand it on.
* `NoOrphans` — when nothing moves, every route in the table has somebody attached, and the table is
  empty once all parties are gone.
* `noOrphans_of_known` — this holds in every run in which `Route` is called for toolchains whose route
  exists, and no agent goes while a request is being handed on to it.
* `orphan_of_route` — a call of `Route` for a toolchain that nobody has.
-/

import Kubecc.Scheduler.Routes

namespace Kubecc.Scheduler.Orphans

open Kubecc.Lib Kubecc.Go Kubecc.Types Kubecc.Scheduler.Routes

/-! ### The router and its calls -/

/-- The goroutines of the router, and calls of `Route`. -/
inductive Proc
  | router (proc : RouterProc)
  /-- In the hooks, or before the count of the receivers is read. -/
  | routing (req : Request) (rt : RouteId)
  /-- In the select. -/
  | offering (req : Request) (rt : RouteId)
deriving DecidableEq

inductive Event
  /-- A step of the router, or from outside. -/
  | router (event : Routes.Event)
  /-- A goroutine takes a request for its agent. -/
  | receive (agent : AgentId)
  /-- The request is read from the channel that `AddReceiver` returned. -/
  | read (agent : AgentId)
  /-- The context of a call of `Route` is done. -/
  | giveUp
deriving DecidableEq

def Event.external : Event → Bool
  | .router .internal | .receive _ => false
  | _ => true

abbrev State := Config Shared Proc

/-- **The router, with `Route`.** A hook may answer a request. A send on a closed channel panics, which
ends the run. -/
inductive Rule (md5 : GoString → GoString) : Rules Shared Proc Event
  | router {mem mem' event acting left} : (∀ tc, event ≠ .route tc) →
      Routes.Rule md5 event mem acting mem' left →
      Rule md5 (.router event) mem (acting.map .router) mem' (left.map .router)
  | route {mem} {req : Request} {tc : Toolchain} : req.toolchain = some tc →
      Rule md5 (.router (.route tc)) mem [] { mem with router := mem.router.ensure (tcHash md5 tc) }
        (.routing req (mem.router.routeFor (tcHash md5 tc)) ::
          (mem.router.spawned (tcHash md5 tc)).map .router)
  | hook {mem} {req : Request} {rt : RouteId} :
      Rule md5 (.router .internal) mem [.routing req rt] mem []
  | noAgents {mem} {req : Request} {rt : RouteId} : (mem.router.route rt).rxRefCount = 0 →
      Rule md5 (.router .internal) mem [.routing req rt] mem []
  | offer {mem} {req : Request} {rt : RouteId} : (mem.router.route rt).rxRefCount ≠ 0 →
      Rule md5 (.router .internal) mem [.routing req rt] mem [.offering req rt]
  | giveUp {mem} {req : Request} {rt : RouteId} : Rule md5 .giveUp mem [.offering req rt] mem []
  | receive {mem} {req : Request} {rt : RouteId} {agent : AgentId} :
      (mem.router.route rt).closed = false →
      Rule md5 (.receive agent) mem [.offering req rt, .router (.attached (.receiver agent) rt)] mem
        [.router (.holding agent rt req)]
  | read {mem} {req : Request} {rt : RouteId} {agent : AgentId} :
      Rule md5 (.read agent) mem [.router (.holding agent rt req)] mem
        [.router (.attached (.receiver agent) rt)]

def start : State := .ofList Routes.initial.mem []

def Quiet (md5 : GoString → GoString) (config : State) : Prop :=
  ∀ event next, Step (Rule md5) config event next → event.external = true

/-- The route that a party is attached to by this goroutine. -/
def attachedTo : Proc → Option RouteId
  | .router (.attached _ rt) | .router (.holding _ rt _) => some rt
  | _ => none

/-- **No orphan routes**: when nothing moves, every route in the table has somebody attached, and there
is none once every party that connected is gone. -/
def NoOrphans (md5 : GoString → GoString) (config : State) : Prop :=
  Quiet md5 config →
    (∀ hash rt, config.mem.router.routes hash = some rt →
      ∃ proc ∈ config.procs, attachedTo proc = some rt) ∧
    ((∀ party, config.mem.connected party = true → config.mem.done party = true) →
      ∀ hash, config.mem.router.routes hash = none)

/-- **The runs in which `Route` makes no route, and no agent leaves a request behind.** -/
structure Known (md5 : GoString → GoString) (config : State) (event : Event) : Prop where
  /-- `Route` is called for a toolchain whose route exists. -/
  route : ∀ tc, event = .router (.route tc) →
    ∃ rt, config.mem.router.routes (tcHash md5 tc) = some rt
  /-- No stream of an agent ends while its goroutine has a request to hand on. -/
  disconnect : ∀ agent, event = .router (.disconnect (.receiver agent)) →
    ∀ rt req, .router (.holding agent rt req) ∉ config.procs
  /-- No goroutine takes a request for an agent whose stream is done. -/
  receive : ∀ agent, event = .receive agent → config.mem.done (.receiver agent) = false

/-! ### The counts -/

/-- The count of a route, and the goroutines that are counted on it. -/
def counted : RouterProc → Option (Side × RouteId)
  | .attached party rt | .leaving party rt => some (sideOf party, rt)
  | _ => none

def refs (r : Router) (rt : RouteId) : Side → Int
  | .senders => (r.route rt).txRefCount
  | .receivers => (r.route rt).rxRefCount

section Counts

variable {md5 : GoString → GoString} {done : Party → Bool} {label : Option RouteId} {r r' : Router}
  {acting left : List RouterProc} {rt : RouteId} {hash : GoString}

theorem refs_sideOf (r : Router) (rt : RouteId) (party : Party) :
    refs r rt (sideOf party) = r.refCount rt party := by cases party <;> rfl

theorem refs_addRefCount (rt rt' : RouteId) (change : Int) (party : Party) (side : Side) :
    refs (r.addRefCount rt' change party) rt side =
      refs r rt side + if sideOf party = side ∧ rt' = rt then change else 0 := by
  by_cases here : rt' = rt
  · subst here
    cases party <;> cases side <;> simp [refs, Router.addRefCount, Router.setRoute, sideOf]
  · cases party <;> cases side <;>
      simp [refs, Router.addRefCount, Router.setRoute, here, Function.update_of_ne (Ne.symm here)]

theorem refs_cancel (rt rt' : RouteId) (side : Side) :
    refs (r.cancel rt') rt side = refs r rt side := by
  by_cases here : rt = rt'
  · subst here
    cases side <;> simp [refs, Router.cancel, Router.setRoute]
  · cases side <;> simp [refs, Router.cancel, Router.setRoute, Function.update_of_ne here]

theorem refs_close (rt rt' : RouteId) (side : Side) :
    refs (r.close rt') rt side = refs r rt side := by
  by_cases here : rt = rt'
  · subst here
    cases side <;> simp [refs, Router.close, Router.setRoute]
  · cases side <;> simp [refs, Router.close, Router.setRoute, Function.update_of_ne here]

theorem refs_ensure (fresh : ∀ side, refs r r.nextRoute side = 0) (hash : GoString) (rt : RouteId)
    (side : Side) : refs (r.ensure hash) rt side = refs r rt side := by
  unfold Router.ensure
  split
  · rfl
  · by_cases new : rt = r.nextRoute
    · subst new
      rw [fresh side]
      cases side <;> simp [refs, newRoute]
    · cases side <;> simp [refs, Function.update_of_ne new]

theorem refs_act (act : RouterAct md5 done label r acting r' left)
    (fresh : ∀ side, refs r r.nextRoute side = 0) (rt : RouteId) (side : Side) :
    refs r' rt side + (total (tally counted (side, rt)) ↑acting : ℕ) =
      refs r rt side + (total (tally counted (side, rt)) ↑left : ℕ) := by
  have closer : ∀ hash, total (tally counted (side, rt)) ↑(r.spawned hash) = 0 := fun hash =>
    total_tally_eq_zero (Router.forall_mem_spawned (fun _ => rfl) hash) _
  cases act with
  | lookup | drop =>
    rw [refs_ensure fresh]
    simp [tally, counted, closer]
  | attach =>
    rw [refs_addRefCount]
    simp [tally, counted]
  | decLast | dec =>
    rw [refs_addRefCount]
    simp only [tally, counted, total_coe_cons, total_coe_nil, Option.some_inj, Prod.mk.injEq]
    split <;> simp
  | cancelUnused | cancel =>
    rw [refs_cancel]
    simp [tally, counted]
  | @lock _ party | @unlock _ party =>
    cases party <;> cases side <;> simp [refs, Router.setMutex, tally, counted]
  | updateLock | update => cases side <;> simp [refs, Router.setMutex, tally, counted]
  | @close _ rt' =>
    rw [refs_close]
    simp [tally, counted]
  | partyDone | channelClosed | stillUsed | keep => simp [tally, counted]

/-! ### Who keeps a route -/

/-- The route that this goroutine keeps in the table, until it has cancelled it. -/
def keeps : RouterProc → Option RouteId
  | .found _ rt _ _ | .attached _ rt | .leaving _ rt | .unused _ rt | .cancelling _ rt _ _ => some rt
  | _ => none

theorem keeps_of_counted {proc : RouterProc} {side : Side}
    (is : counted proc = some (side, rt)) : keeps proc = some rt := by
  cases proc with
  | attached | leaving => cases is; rfl
  | _ => cases is

theorem stays_of_ensure {hash other : GoString} (kept : r.Kept)
    (stays : Stays (r.ensure other) hash rt) : Stays r hash rt ∨ rt = r.routeFor other := by
  cases entry : r.routes other with
  | some found =>
    rw [Router.ensure_of_some entry] at stays
    exact .inl stays
  | none =>
    by_cases same : hash = other
    · subst same
      exact .inr (Option.some.inj (stays.entry.symm.trans (Router.ensure_routes_self hash)))
    · have there : r.routes hash = some rt := by
        have there := stays.entry
        rw [Router.ensure, entry] at there
        exact (Function.update_of_ne same _ _).symm.trans there
      refine .inl ⟨there, ?_⟩
      rw [← Router.ensure_route_of_lt other (kept.made _ _ there)]
      exact stays.live

theorem stays_of_cancel {rt rt' : RouteId} (stays : Stays (r.cancel rt') hash rt) :
    Stays r hash rt ∧ rt ≠ rt' := by
  have live := stays.live
  by_cases same : rt = rt'
  · subst same
    simp [Router.cancel, Router.setRoute] at live
  · refine ⟨⟨stays.entry, ?_⟩, same⟩
    simpa [Router.cancel, Router.setRoute, Function.update_of_ne same] using live

theorem stays_of_close {rt rt' : RouteId} (stays : Stays (r.close rt') hash rt) : Stays r hash rt := by
  have entry := stays.entry
  have elsewhere : hash ≠ (r.route rt').hash := by
    rintro rfl
    simp [Router.close] at entry
  refine ⟨(Function.update_of_ne elsewhere _ _).symm.trans entry, ?_⟩
  rw [← stays.live]
  by_cases same : rt = rt'
  · subst same
    simp [Router.close, Router.setRoute]
  · simp [Router.close, Router.setRoute, Function.update_of_ne same]

theorem stays_before (act : RouterAct md5 done label r acting r' left) (kept : r.Kept)
    (stays : Stays r' hash rt) : Stays r hash rt ∨ ∃ proc ∈ left, keeps proc = some rt := by
  cases act with
  | lookup | drop =>
    rcases stays_of_ensure kept stays with before | rfl
    · exact .inl before
    · exact .inr ⟨_, List.mem_cons_self, rfl⟩
  | @lock _ party | @unlock _ party => cases party <;> exact .inl ⟨stays.entry, stays.live⟩
  | updateLock | update => exact .inl ⟨stays.entry, stays.live⟩
  | @attach _ party | @decLast _ party | @dec _ party =>
    refine .inl ⟨?_, (addRefCount_cancelled _ _ _).symm.trans stays.live⟩
    cases party <;> exact stays.entry
  | cancelUnused | cancel => exact .inl (stays_of_cancel stays).1
  | close => exact .inl (stays_of_close stays)
  | partyDone | channelClosed | stillUsed | keep => exact .inl stays

theorem keeps_act (act : RouterAct md5 done label r acting r' left)
    (stays : Stays r' hash rt) : ∀ proc ∈ acting, keeps proc = some rt →
      (∃ proc ∈ left, keeps proc = some rt) ∨ ∃ side, 0 < refs r' rt side := by
  cases act with
  | attach =>
    exact List.forall_mem_singleton.mpr fun is =>
      .inl ⟨_, List.mem_cons_of_mem _ List.mem_cons_self, is⟩
  | partyDone | channelClosed | decLast =>
    exact List.forall_mem_singleton.mpr fun is => .inl ⟨_, List.mem_cons_self, is⟩
  | @dec _ party rt' more =>
    refine List.forall_mem_singleton.mpr fun is => .inr ⟨sideOf party, ?_⟩
    obtain rfl : rt' = rt := Option.some.inj is
    rw [refs_addRefCount, if_pos ⟨rfl, rfl⟩, refs_sideOf]
    exact more
  | @stillUsed _ party rt' used =>
    refine List.forall_mem_singleton.mpr fun is => .inr ?_
    obtain rfl : rt' = rt := Option.some.inj is
    cases party with
    | sender cd => exact ⟨.receivers, used⟩
    | receiver agent => exact ⟨.senders, used⟩
  | cancelUnused | cancel =>
    refine List.forall_mem_singleton.mpr fun is => ?_
    exact absurd (Option.some.inj is).symm (stays_of_cancel stays).2
  | _ => exact List.forall_mem_singleton.mpr fun is => absurd is nofun

def partyOf : RouterProc → Option Party
  | .add party _ | .attaching party _ _ | .found party _ _ _ | .attached party _ | .leaving party _
  | .unused party _ => some party
  | .holding agent _ _ => some (.receiver agent)
  | .update cd _ | .dropping cd _ _ | .cancelling cd _ _ _ => some (.sender cd)
  | .closer _ => none

theorem partyOf_act (act : RouterAct md5 done label r acting r' left) :
    ∀ proc ∈ left, ∀ party, partyOf proc = some party →
      ∃ proc ∈ acting, partyOf proc = some party := by
  have closer : ∀ hash, ∀ proc ∈ r.spawned hash, ∀ party, partyOf proc = some party →
      ∃ proc ∈ acting, partyOf proc = some party := fun hash =>
    Router.forall_mem_spawned (fun _ party is => absurd is nofun) hash
  cases act with
  | lookup | drop =>
    exact List.forall_mem_cons.mpr ⟨fun party is => ⟨_, List.mem_cons_self, is⟩, closer _⟩
  | attach =>
    exact List.forall_mem_cons.mpr ⟨fun party is => ⟨_, List.mem_cons_self, is⟩,
      List.forall_mem_singleton.mpr fun party is => ⟨_, List.mem_cons_self, is⟩⟩
  | unlock | dec | cancelUnused | stillUsed | close => exact List.forall_mem_nil _
  | _ => exact List.forall_mem_singleton.mpr fun party is => ⟨_, List.mem_cons_self, is⟩

end Counts

/-! ### Runs of the router -/

/-- `Route` is called for a toolchain whose route exists. -/
def Finds (md5 : GoString → GoString) (config : Routes.State) (event : Routes.Event) : Prop :=
  ∀ tc, event = .route tc → ∃ rt, config.mem.router.routes (tcHash md5 tc) = some rt

/-- **Every route is tended**: its counts are those of the goroutines, somebody keeps it, and whoever is
about has connected. -/
structure Tended (config : Routes.State) : Prop where
  counts : ∀ rt side, refs config.mem.router rt side =
    (total (tally counted (side, rt)) config.procs : ℕ)
  keeper : ∀ hash rt, Stays config.mem.router hash rt → ∃ proc ∈ config.procs, keeps proc = some rt
  joined : ∀ proc ∈ config.procs, ∀ party, partyOf proc = some party →
    config.mem.connected party = true
  added : ∀ party, config.mem.added party = true → config.mem.connected party = true

section Runs

variable {md5 : GoString → GoString} {config next : Routes.State} {event : Routes.Event}

theorem Tended.fresh (tended : Tended config) (sound : Sound config) (side : Side) :
    refs config.mem.router config.mem.router.nextRoute side = 0 := by
  rw [tended.counts, Nat.cast_eq_zero]
  refine total_eq_zero fun proc member => if_neg fun is => ?_
  have knows : proc.knows = some config.mem.router.nextRoute := by
    cases proc with
    | attached | leaving => cases is; rfl
    | _ => cases is
  exact Nat.lt_irrefl _ (sound.made proc member _ knows)

theorem Tended.fire {mem mem' : Shared} {acting left : List RouterProc} {rest : Multiset RouterProc}
    (tended : Tended ⟨mem, ↑acting + rest⟩)
    (sameRefs : ∀ rt side, refs mem'.router rt side = refs mem.router rt side)
    (before : ∀ hash rt, Stays mem'.router hash rt → Stays mem.router hash rt)
    (uncounted : ∀ proc ∈ acting ++ left, counted proc = none)
    (keepsNone : ∀ proc ∈ acting, keeps proc = none)
    (later : ∀ party, mem.connected party = true → mem'.connected party = true)
    (joined : ∀ proc ∈ left, ∀ party, partyOf proc = some party → mem'.connected party = true)
    (added : ∀ party, mem'.added party = true → mem'.connected party = true) :
    Tended ⟨mem', ↑left + rest⟩ := by
  refine ⟨fun rt side => ?_, fun hash rt stays => ?_, ?_, added⟩
  · rw [List.forall_mem_append] at uncounted
    have count := tended.counts rt side
    rw [total_add, total_tally_eq_zero uncounted.1] at count
    rw [total_add, total_tally_eq_zero uncounted.2]
    exact (sameRefs rt side).trans count
  · exact exists_mem_fire (tended.keeper hash rt (before hash rt stays))
      (fun proc member is => absurd ((keepsNone proc member).symm.trans is) nofun) fun _ _ is => is
  · exact forall_mem_fire tended.joined (fun _ => joined) fun proc _ old party is =>
      later party (old party is)

theorem connected_update {connected : Party → Bool} {party other : Party}
    (is : connected party = true) : Function.update connected other true party = true := by
  by_cases same : party = other
  · rw [same, Function.update_self]
  · rwa [Function.update_of_ne same]

theorem tended_step (sound : Sound config) (tended : Tended config) (finds : Finds md5 config event)
    (step : Step (Routes.Rule md5) config event next) : Tended next := by
  cases step with
  | @fire _ mem mem' acting left rest rule =>
    cases rule with
    | connectSender cd tcs =>
      refine tended.fire (fun _ side => by cases side <;> rfl)
        (fun _ _ stays => ⟨stays.entry, stays.live⟩) (eq_none_of_all rfl) (eq_none_of_all rfl)
        (fun party is => connected_update is) ?_ fun party is => connected_update (tended.added party is)
      exact List.forall_mem_singleton.mpr fun party is => Option.some.inj is ▸ Function.update_self _ _ _
    | connectReceiver agent tcs =>
      refine tended.fire (fun _ _ => rfl) (fun _ _ stays => stays) (eq_none_of_all rfl)
        (eq_none_of_all rfl) (fun party is => connected_update is) ?_
        fun party is => connected_update (tended.added party is)
      exact List.forall_mem_singleton.mpr fun party is => Option.some.inj is ▸ Function.update_self _ _ _
    | disconnect party =>
      exact tended.fire (fun _ _ => rfl) (fun _ _ stays => stays) (eq_none_of_all rfl)
        (eq_none_of_all rfl) (fun _ is => is) (List.forall_mem_nil _) tended.added
    | update cd tcs registered =>
      refine tended.fire (fun _ _ => rfl) (fun _ _ stays => stays) (eq_none_of_all rfl)
        (eq_none_of_all rfl) (fun _ is => is) ?_ tended.added
      exact List.forall_mem_singleton.mpr fun party is =>
        Option.some.inj is ▸ tended.added _ registered
    | route tc =>
      obtain ⟨rt, entry⟩ := finds tc rfl
      have entry : mem.router.routes (tcHash md5 tc) = some rt := entry
      rw [Router.ensure_of_some entry, Router.spawned_of_some entry]
      exact tended
    | @added _ party =>
      refine tended.fire (fun _ side => ?_) (fun _ _ stays => ?_) (eq_none_of_all rfl)
        (eq_none_of_all rfl) (fun _ is => is) (List.forall_mem_nil _) fun other is => ?_
      · cases party <;> cases side <;> rfl
      · cases party <;> exact ⟨stays.entry, stays.live⟩
      · by_cases same : other = party
        · exact same ▸ tended.joined _ mem_acting party rfl
        · have is : Function.update mem.added party true other = true := is
          rw [Function.update_of_ne same] at is
          exact tended.added other is
    | @router _ _ _ router _ act =>
      have counts : ∀ rt side, refs router rt side =
          (total (tally counted (side, rt)) (↑left + rest) : ℕ) := by
        intro rt side
        have change := refs_act act (tended.fresh sound) rt side
        have before : refs mem.router rt side = _ := tended.counts rt side
        rw [total_add, Nat.cast_add] at before ⊢
        omega
      refine ⟨counts, fun hash rt stays => ?_, ?_, tended.added⟩
      · rcases stays_before act sound.kept stays with before | ⟨proc, member, is⟩
        · obtain ⟨proc, member, is⟩ := tended.keeper hash rt before
          rcases mem_fire.mp member with acts | others
          · rcases keeps_act act stays proc acts is with
              ⟨after, there, is⟩ | ⟨side, positive⟩
            · exact ⟨after, mem_of_acting there, is⟩
            · -- the last one to leave is not the last on the route
              rw [counts, Nat.cast_pos] at positive
              obtain ⟨other, there, is⟩ := exists_of_total_tally_pos positive
              exact ⟨other, there, keeps_of_counted is⟩
          · exact ⟨proc, mem_of_rest others, is⟩
        · exact ⟨proc, mem_of_acting member, is⟩
      · refine forall_mem_fire tended.joined (fun acts proc member party is => ?_) fun _ _ old => old
        obtain ⟨before, there, same⟩ := partyOf_act act proc member party is
        exact acts before there party same

theorem tended_of_finds (reach : Reach (Routes.Rule md5) (Finds md5) Routes.initial config) :
    Sound config ∧ Tended config := by
  refine reach.invariant (fun config => Sound config ∧ Tended config) ⟨sound_initial, ?_⟩ ?_
  · refine ⟨fun rt side => ?_, fun hash rt stays => ?_, fun proc member => ?_, nofun⟩
    · cases side <;> rfl
    · exact absurd stays.entry nofun
    · exact absurd member (Multiset.notMem_zero _)
  · rintro config event next ⟨sound, tended⟩ finds step
    exact ⟨sound_step sound step, tended_step sound tended finds step⟩

end Runs

/-! ### What the router sees of the calls -/

/-- A goroutine that hands a request on is attached to its route. -/
def idle : RouterProc → RouterProc
  | .holding agent rt _ => .attached (.receiver agent) rt
  | proc => proc

/-- What the router sees of a goroutine. -/
def seen : Proc → Option RouterProc
  | .router proc => some (idle proc)
  | _ => none

section Calls

variable {md5 : GoString → GoString} {config next : State} {event : Event} {proc : RouterProc}

theorem filterMap_seen (procs : List RouterProc) :
    (procs.map Proc.router).filterMap seen = procs.map idle := by
  rw [List.filterMap_map, ← List.filterMap_eq_map]
  rfl

theorem map_idle {procs : List RouterProc} (same : ∀ proc ∈ procs, idle proc = proc) :
    procs.map idle = procs := (List.map_congr_left same).trans (List.map_id procs)

theorem idle_spawned (r : Router) (hash : GoString) : ∀ proc ∈ r.spawned hash, idle proc = proc :=
  Router.forall_mem_spawned (fun _ => rfl) hash

theorem idle_rule {mem mem' : Shared} {acting left : List RouterProc} {event : Routes.Event}
    (rule : Routes.Rule md5 event mem acting mem' left) :
    (∀ proc ∈ acting, idle proc = proc) ∧ ∀ proc ∈ left, idle proc = proc := by
  cases rule with
  | route tc => exact ⟨List.forall_mem_nil _, idle_spawned _ _⟩
  | router act =>
    cases act with
    | lookup | drop =>
      exact ⟨List.forall_mem_singleton.mpr rfl, List.forall_mem_cons.mpr ⟨rfl, idle_spawned _ _⟩⟩
    | _ => simp [idle]
  | _ => simp [idle]

theorem reach_seen (reach : Reach (Rule md5) (Known md5) start config) :
    Reach (Routes.Rule md5) (Finds md5) Routes.initial (config.view id seen) := by
  refine reach.view id seen fun {label mem mem' acting left rest} _ known rule => ?_
  cases rule with
  | @router _ _ event acting left other rule =>
    obtain ⟨sameActing, sameLeft⟩ := idle_rule rule
    refine .inr ⟨event, fun tc is => absurd is (other tc), ?_⟩
    rw [filterMap_seen, filterMap_seen, map_idle sameActing, map_idle sameLeft]
    exact rule
  | @route _ req tc given =>
    refine .inr ⟨.route tc, fun other is => ?_, ?_⟩
    · cases is
      exact known.route tc rfl
    · rw [List.filterMap_cons_none rfl, filterMap_seen, map_idle (idle_spawned _ _)]
      exact .route tc
  | _ => exact .inl ⟨rfl, rfl⟩

/-- The agent to whom this goroutine hands a request on. -/
def handsTo : Proc → Option AgentId
  | .router (.holding agent _ _) => some agent
  | _ => none

def Handing (config : State) : Prop := ∀ proc ∈ config.procs, ∀ agent, handsTo proc = some agent →
  config.mem.done (.receiver agent) = false

theorem handsTo_of_idle {procs : List RouterProc} (same : ∀ proc ∈ procs, idle proc = proc) :
    ∀ proc ∈ procs.map Proc.router, handsTo proc = none := by
  refine List.forall_mem_map.mpr fun proc member => ?_
  have same := same proc member
  cases proc with
  | holding => cases same
  | _ => rfl

theorem done_rule {mem mem' : Shared} {acting left : List RouterProc} {event : Routes.Event}
    (rule : Routes.Rule md5 event mem acting mem' left) {party : Party} (live : mem.done party = false)
    (other : event ≠ .disconnect party) : mem'.done party = false := by
  cases rule with
  | disconnect gone =>
    have differs : party ≠ gone := fun same => other (same ▸ rfl)
    exact (Function.update_of_ne differs _ _).trans live
  | _ => exact live

theorem handing_step (handing : Handing config) (known : Known md5 config event)
    (step : Step (Rule md5) config event next) : Handing next := by
  cases step with
  | @fire _ mem mem' acting left rest rule =>
    cases rule with
    | @router _ _ event acting left other rule =>
      refine forall_mem_fire handing
        (fun _ => forall_named_of_none (handsTo_of_idle (idle_rule rule).2)) ?_
      intro proc member live agent is
      refine done_rule rule (live agent is) ?_
      rintro rfl
      cases proc with
      | router proc =>
        cases proc with
        | holding agent' rt req =>
          cases is
          exact known.disconnect agent rfl rt req (mem_of_rest member)
        | _ => cases is
      | _ => cases is
    | route given =>
      refine forall_mem_fire handing (fun _ => forall_named_of_none ?_) fun _ _ old => old
      exact List.forall_mem_cons.mpr ⟨rfl, handsTo_of_idle (idle_spawned _ _)⟩
    | receive =>
      refine forall_mem_fire handing (fun _ => ?_) fun _ _ old => old
      refine List.forall_mem_singleton.mpr fun agent is => ?_
      exact Option.some.inj is ▸ known.receive _ rfl
    | _ =>
      exact forall_mem_fire handing (fun _ => forall_named_of_none (eq_none_of_all rfl))
        fun _ _ old => old

/-! ### Quiet states -/

theorem Quiet.notMem (quiet : Quiet md5 config) {mem' : Shared}
    {left : List RouterProc} (rule : Routes.Rule md5 .internal config.mem [proc] mem' left) :
    .router proc ∉ config.procs := by
  intro member
  have rule : Rule md5 (.router .internal) config.mem [.router proc] mem' (left.map .router) :=
    .router (fun _ => Routes.Event.noConfusion) rule
  obtain ⟨next, step⟩ := Step.exists_of_le (Multiset.singleton_le.mpr member) rule
  exact absurd (quiet _ _ step) nofun

theorem Quiet.attachedTo_of_keeps (quiet : Quiet md5 config) {rt : RouteId}
    (member : .router proc ∈ config.procs) (is : keeps (idle proc) = some rt) :
    attachedTo (.router proc) = some rt := by
  cases proc with
  | attached | holding => exact is
  | found => exact absurd member (quiet.notMem (.router .attach))
  | leaving party rt' =>
    by_cases more : 0 < config.mem.router.refCount rt' party - 1
    · exact absurd member (quiet.notMem (.router (.dec more)))
    · exact absurd member (quiet.notMem (.router (.decLast (not_lt.mp more))))
  | unused party rt' =>
    by_cases used : 0 < config.mem.router.otherRefCount rt' party
    · exact absurd member (quiet.notMem (.router (.stillUsed used)))
    · exact absurd member (quiet.notMem (.router (.cancelUnused (not_lt.mp used))))
  | cancelling => exact absurd member (quiet.notMem (.router .cancel))
  | _ => cases is

theorem mem_seen (member : proc ∈ (config.view id seen).procs) :
    ∃ real, .router real ∈ config.procs ∧ idle real = proc := by
  obtain ⟨real, there, is⟩ := (Multiset.mem_filterMap _ _).mp member
  cases real with
  | router real => exact ⟨real, there, Option.some.inj is⟩
  | _ => cases is

theorem seen_mem (member : .router proc ∈ config.procs) : idle proc ∈ (config.view id seen).procs :=
  (Multiset.mem_filterMap _ _).mpr ⟨_, member, rfl⟩

/-- **No orphan routes**, in every run in which `Route` is called for toolchains whose route exists, and
no agent goes while a request is being handed on to it. -/
theorem noOrphans_of_known (reach : Reach (Rule md5) (Known md5) start config) :
    NoOrphans md5 config := by
  intro quiet
  obtain ⟨sound, tended⟩ := tended_of_finds (reach_seen reach)
  have handing : Handing config := reach.invariant Handing
    (fun proc member => absurd member (Multiset.notMem_zero _)) handing_step
  have attached : ∀ hash rt, config.mem.router.routes hash = some rt →
      ∃ proc ∈ config.procs, attachedTo proc = some rt := by
    intro hash rt entry
    cases live : (config.mem.router.route rt).cancelled with
    | true =>
      -- its closer would go on
      have own : (config.mem.router.route rt).hash = hash := sound.kept.own hash rt entry
      have listed : listed config.mem.router rt = 1 := listed_eq_one.mpr (own.symm ▸ entry)
      have counted : 0 < total (tally closes rt) (config.view id seen).procs := by
        rw [← sound.closers rt]
        exact listed.symm ▸ Nat.one_pos
      obtain ⟨proc, member, is⟩ := exists_of_total_tally_pos counted
      obtain ⟨real, there, rfl⟩ := mem_seen member
      cases real with
      | closer rt' =>
        obtain rfl : rt' = rt := Option.some.inj is
        exact absurd there (quiet.notMem (.router (.close live)))
      | _ => cases is
    | false =>
      obtain ⟨proc, member, is⟩ := tended.keeper hash rt ⟨entry, live⟩
      obtain ⟨real, there, rfl⟩ := mem_seen member
      exact ⟨_, there, quiet.attachedTo_of_keeps there is⟩
  refine ⟨attached, fun gone hash => ?_⟩
  cases entry : config.mem.router.routes hash with
  | none => rfl
  | some rt =>
    obtain ⟨proc, member, is⟩ := attached hash rt entry
    cases proc with
    | router proc =>
      have joined := tended.joined _ (seen_mem member)
      cases proc with
      | attached party rt' =>
        exact absurd member (quiet.notMem (.router (.partyDone (gone party (joined party rfl)))))
      | holding agent rt' req =>
        have live := handing _ member agent rfl
        exact absurd (live.symm.trans (gone _ (joined _ rfl))) nofun
      | _ => cases is
    | _ => cases is

theorem quiet_of_waits
    (waits : ∀ proc ∈ config.procs, ∃ real, proc = .router real ∧ Waits config.mem real) :
    Quiet md5 config := by
  intro event next step
  obtain ⟨acting, mem', left, there, rule⟩ := step.exists_rule
  have here : ∀ proc ∈ acting, ∃ real, proc = .router real ∧ Waits config.mem real :=
    fun proc member => waits proc (there proc member)
  cases rule with
  | @router _ _ event acting left other rule =>
    cases event with
    | internal =>
      refine absurd rule (not_rule_of_waits fun proc member => ?_)
      obtain ⟨real, is, waiting⟩ := here _ (List.mem_map_of_mem member)
      cases is
      exact waiting
    | _ => rfl
  | hook | noAgents | offer | receive =>
    obtain ⟨real, is, -⟩ := here _ List.mem_cons_self
    cases is
  | _ => rfl

end Calls

/-! ### Two runs -/

def request : Request := ⟨bytes "id", some clang, [], [], none⟩

theorem known_of_internal {md5 : GoString → GoString} {config : State} {event : Routes.Event}
    (other : ∀ tc, event ≠ .route tc) (stays : ∀ party, event ≠ .disconnect party) :
    Known md5 config (.router event) := by
  refine ⟨fun tc is => ?_, fun agent is => ?_, nofun⟩
  · exact absurd (Event.router.inj is) (other tc)
  · exact absurd (Event.router.inj is) (stays _)

/-- **A call of `Route` for a toolchain that nobody has** leaves a route behind. -/
theorem orphan_of_route : ∃ config, Reach (Rule id) (fun _ _ => True) start config ∧
    Quiet id config ∧ config.procs = {.router (.closer 0)} ∧
    config.mem.router.routes (tcHash id clang) = some 0 ∧ ¬ NoOrphans id config := by
  have h0 : Reach (Rule id) (fun _ _ => True) start (.ofList Routes.initial.mem []) := .start
  have h1 := h0.next [] [] (@Rule.route id _ request clang rfl) trivial (.refl _)
  have h2 := h1.next [.routing request 0] [.router (.closer 0)] (.noAgents rfl) trivial (.refl _)
  refine ⟨_, h2, quiet_of_waits ?_, rfl, rfl, fun noOrphans => ?_⟩
  · exact List.forall_mem_singleton.mpr ⟨_, rfl, rfl⟩
  · obtain ⟨attached, -⟩ := noOrphans (quiet_of_waits (List.forall_mem_singleton.mpr ⟨_, rfl, rfl⟩))
    obtain ⟨proc, member, is⟩ := attached (tcHash id clang) 0 rfl
    obtain rfl := List.mem_singleton.mp member
    cases is

/-- A consumerd is attached to the route of its toolchain, and `Route` is called for it. -/
theorem noOrphans_attached : ∃ config, Reach (Rule id) (Known id) start config ∧ Quiet id config ∧
    config.mem.router.routes (tcHash id clang) = some 0 ∧ NoOrphans id config := by
  have inner : ∀ config, Known id config (.router .internal) := fun config =>
    known_of_internal (fun _ => Routes.Event.noConfusion) fun _ => Routes.Event.noConfusion
  have h0 : Reach (Rule id) (Known id) start (.ofList Routes.initial.mem []) := .start
  have h1 := h0.next [] [] (.router (fun _ => Routes.Event.noConfusion) (.connectSender 0 [clang] rfl))
    (known_of_internal (fun _ => Routes.Event.noConfusion) fun _ => Routes.Event.noConfusion) (.refl _)
  have h2 := h1.next [.router (.add (.sender 0) [clang])] []
    (.router (fun _ => Routes.Event.noConfusion) (.router (.lock rfl))) (inner _) (.refl _)
  have h3 := h2.next [.router (.attaching (.sender 0) [clang] true)] []
    (.router (fun _ => Routes.Event.noConfusion) (.router .lookup)) (inner _) (.refl _)
  have h4 := h3.next [.router (.found (.sender 0) 0 [] true)] [.router (.closer 0)]
    (.router (fun _ => Routes.Event.noConfusion) (.router .attach)) (inner _) (.refl _)
  have h5 := h4.next [.router (.attaching (.sender 0) [] true)]
    [.router (.attached (.sender 0) 0), .router (.closer 0)]
    (.router (fun _ => Routes.Event.noConfusion) .added) (inner _) (.refl _)
  have h6 := h5.next [] [.router (.attached (.sender 0) 0), .router (.closer 0)]
    (@Rule.route id _ request clang rfl)
    ⟨fun tc is => by cases is; exact ⟨0, rfl⟩, nofun, nofun⟩ (.refl _)
  have h7 := h6.next [.routing request 0] [.router (.attached (.sender 0) 0), .router (.closer 0)]
    (.noAgents rfl) (inner _) (.refl _)
  refine ⟨_, h7, quiet_of_waits ?_, rfl, noOrphans_of_known h7⟩
  exact List.forall_mem_cons.mpr ⟨⟨_, rfl, rfl⟩, List.forall_mem_singleton.mpr ⟨_, rfl, rfl⟩⟩

end Kubecc.Scheduler.Orphans
