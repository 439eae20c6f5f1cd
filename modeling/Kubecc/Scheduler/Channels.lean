/-
**Sends on a route's channel.**

`Route` looks its route up under `routesMutex` and uses it outside; the goroutine of `newRoute` closes
the channel when the route is cancelled, whoever still uses it. A send on a closed channel panics.

* `noSendOnClosed_of_no_close_in_use` — in every run in which no channel is closed while a call of
  `Route` uses its route, no call offers a request on a closed channel.
* `update_closes_channel_in_use` — a run in which a consumerd drops a toolchain while a request for it
  is on offer, and the scheduler can panic.
-/

import Kubecc.Scheduler.Broker

namespace Kubecc.Scheduler

open Kubecc.Lib Kubecc.Go Kubecc.Types

/-- The route that a call of `Route` has looked up. -/
def CallPhase.usedRoute : CallPhase → Option RouteId
  | .hook rt | .hit rt _ | .check rt | .offer rt => some rt
  | _ => none

def Proc.usedRoute : Proc → Option RouteId
  | .call _ phase => phase.usedRoute
  | _ => none

/-- **No send on a closed channel**: whenever a call of `Route` is in its select, the channel it sends on
is open. -/
def NoSendOnClosed (config : State) : Prop :=
  ∀ call rt, .call call (.offer rt) ∈ config.procs → (config.mem.router.route rt).closed = false

/-- The runs in which no channel is closed while a call of `Route` that looked its route up is in
progress. -/
def NoCloseInUse (config : State) : Event → Prop
  | .close rt => ∀ proc ∈ config.procs, proc.usedRoute ≠ some rt
  | _ => True

structure RoutesOpen (config : State) : Prop where
  kept : config.mem.router.Kept
  isOpen : ∀ proc ∈ config.procs, ∀ rt, proc.usedRoute = some rt →
    (config.mem.router.route rt).closed = false

section Steps

variable {md5 : GoString → GoString} {event : Event} {mem mem' : Mem} {acting left : List Proc}

theorem kept_rule (rule : Rule md5 event mem acting mem' left) (kept : mem.router.Kept) :
    mem'.router.Kept := by
  cases rule with
  | env act =>
    cases act with
    | connectConsumerd => exact ⟨kept.isOpen, kept.own, kept.made⟩
    | _ => exact kept
  | stream act =>
    cases act with
    | @serveConsumerd _ cd => exact Router.kept_setMutex kept false (.sender cd)
    | @startAgent _ agent => exact Router.kept_setMutex kept false (.receiver agent)
    | _ => exact kept
  | router act => exact kept_act act kept
  | call act =>
    cases act with
    | lookup => exact Router.kept_ensure kept _
    | _ => exact kept
  | exchange act => cases act <;> exact kept
  | token => exact kept
  | send act => cases act <;> exact kept
  | cleanup act => cases act <;> exact kept
  | queue act => cases act <;> exact kept

theorem closed_rule (rule : Rule md5 event mem acting mem' left) {rt : RouteId}
    (isOpen : (mem.router.route rt).closed = false) (notThis : event ≠ .close rt) :
    (mem'.router.route rt).closed = false := by
  cases rule with
  | env act => cases act <;> exact isOpen
  | stream act => cases act <;> simpa using isOpen
  | @router _ label _ _ _ act => exact closed_act act isOpen fun same => notThis (by rw [same]; rfl)
  | call act =>
    cases act with
    | lookup => exact Router.ensure_closed _ isOpen
    | _ => exact isOpen
  | exchange act => cases act <;> exact isOpen
  | token => exact isOpen
  | send act => cases act <;> exact isOpen
  | cleanup act => cases act <;> exact isOpen
  | queue act => cases act <;> exact isOpen

theorem usedRoute_rule (rule : Rule md5 event mem acting mem' left) (kept : mem.router.Kept) :
    ∀ proc ∈ left, ∀ rt, proc.usedRoute = some rt →
      (∃ before ∈ acting, before.usedRoute = some rt) ∨ (mem'.router.route rt).closed = false := by
  cases rule with
  | env act | stream act | send act | cleanup act =>
    cases act <;> exact forall_named_of_none (eq_none_of_all rfl)
  | router act | token act => exact forall_named_of_none (List.forall_mem_map.mpr fun _ _ => rfl)
  | call act =>
    cases act with
    | @lookup _ call tc _ =>
      rintro proc member rt used
      rcases List.mem_cons.mp member with rfl | spawned
      · obtain rfl : mem.router.routeFor (tcHash md5 tc) = rt := Option.some.inj used
        exact .inr (Router.routeFor_isOpen kept _)
      · obtain ⟨inner, -, rfl⟩ := List.mem_map.mp spawned
        cases used
    | failedNonexistent => exact forall_named_of_none (forall_mem_back (fun _ => rfl) _)
    | noCache | pullHit | pullMiss | pullFails | hitNonexistent | canSend | sendClosed =>
      rintro proc member rt used
      obtain rfl := List.mem_singleton.mp member
      exact .inl ⟨_, List.mem_singleton_self _, used⟩
    | _ => exact forall_named_of_none (eq_none_of_all rfl)
  | exchange act =>
    cases act with
    | receive | announce =>
      exact forall_named_of_none
        (List.forall_mem_cons.mpr ⟨rfl, forall_mem_back (fun _ => rfl) _⟩)
    | _ => exact forall_named_of_none (eq_none_of_all rfl)
  | queue act =>
    cases act with
    | answer | answerFails =>
      exact forall_named_of_none (List.forall_mem_cons.mpr ⟨rfl, forall_mem_caching (fun _ _ => rfl) _ _ _⟩)
    | _ => exact forall_named_of_none (eq_none_of_all rfl)

end Steps

variable {md5 : GoString → GoString} {config next : State} {event : Event}

theorem routesOpen_step (inv : RoutesOpen config) (allowed : NoCloseInUse config event)
    (step : Step (Act md5) config event next) : RoutesOpen next := by
  cases step with
  | @fire _ mem mem' acting left rest fires =>
    have stays : ∀ proc ∈ (↑acting + rest : Multiset Proc), ∀ rt, proc.usedRoute = some rt →
        (mem'.router.route rt).closed = false := by
      intro proc member rt used
      refine closed_rule fires.2 (inv.isOpen proc member rt used) ?_
      rintro rfl
      exact allowed proc member used
    refine ⟨kept_rule fires.2 inv.kept, forall_mem_fire stays (fun acted proc member rt used => ?_)
      fun _ _ still => still⟩
    rcases usedRoute_rule fires.2 inv.kept proc member rt used with ⟨earlier, did, same⟩ | isOpen
    · exact acted earlier did rt same
    · exact isOpen

theorem routesOpen_initial : RoutesOpen initial := by
  refine ⟨⟨nofun, nofun, nofun⟩, fun proc member rt used => ?_⟩
  obtain rfl : proc = .queue .idle := by simpa [initial, Config.ofList] using member
  cases used

/-- **No call of `Route` sends on a closed channel**, in every run in which no channel is closed while
a call of `Route` that looked its route up is in progress. -/
theorem noSendOnClosed_of_no_close_in_use
    (reach : Reach (Act md5) NoCloseInUse initial config) : NoSendOnClosed config := by
  have inv := reach.invariant RoutesOpen routesOpen_initial routesOpen_step
  exact fun call rt member => inv.isOpen _ member rt rfl

/-- **A consumerd drops a toolchain while a request for it is on offer.** The route is cancelled and its
channel closed, and the call that offers the request can panic. -/
theorem update_closes_channel_in_use :
    ∃ config, Reach (Act id) (fun _ _ => True) initial config ∧ ¬ NoSendOnClosed config ∧
      ∃ next, Step (Act id) config .panic next := by
  obtain ⟨mem, h0, running, unlocked, toolchains, entry, -⟩ :=
    @offering_run (fun _ _ => True) (fun _ _ _ => trivial) fun _ _ _ _ _ => trivial
  have h1 := reach_rule h0 [.watch 0]
    [.call (callOf (bytes "1")) (.offer 0), .router (.attaching (.receiver 0) [] true),
      .router (.attached (.receiver 0) 0), .router (.attached (.sender 0) 0), .router (.closer 0),
      .queue .idle] running (.env (.update 0 [])) trivial (by decide)
  have h2 := reach_router h1 [.update 0 []] _ running (.updateLock unlocked) trivial (.refl _)
  rw [toolchains] at h2
  have drops : RouterAct id mem.done none (mem.router.setMutex true (.sender 0))
      [.dropping 0 [gnu] []] (mem.router.setMutex true (.sender 0)) [.cancelling 0 0 [] []] := by
    have entry : (mem.router.setMutex true (.sender 0)).routes (tcHash id gnu) = some 0 := entry
    have act := @RouterAct.drop id mem.done (mem.router.setMutex true (.sender 0)) 0 gnu [] [] rfl
    rwa [Router.ensure_of_some entry, Router.routeFor_of_some entry,
      Router.spawned_of_some entry] at act
  have h3 := reach_router h2 [.dropping 0 [gnu] []] _ running drops trivial (.refl _)
  have h4 := reach_router h3 [.cancelling 0 0 [] []] _ running .cancel trivial (.refl _)
  have cancelled : (((mem.router.setMutex true (.sender 0)).cancel 0).route 0).cancelled = true := by
    simp [Router.cancel, Router.setRoute]
  have h5 := reach_router h4 [.closer 0]
    [.router (.dropping 0 [] []), .call (callOf (bytes "1")) (.offer 0),
      .router (.attaching (.receiver 0) [] true), .router (.attached (.receiver 0) 0),
      .router (.attached (.sender 0) 0), .queue .idle] running (.close cancelled) trivial (by decide)
  have closed : ((((mem.router.setMutex true (.sender 0)).cancel 0).close 0).route 0).closed =
      true := by simp [Router.close, Router.setRoute]
  refine ⟨_, h5, fun safe => ?_, _, .ofList [.call (callOf (bytes "1")) (.offer 0)]
    [.router (.dropping 0 [] []), .router (.attaching (.receiver 0) [] true),
      .router (.attached (.receiver 0) 0), .router (.attached (.sender 0) 0), .queue .idle]
    ⟨running, .call (.sendClosed closed)⟩ (by decide)⟩
  have isOpen := safe (callOf (bytes "1")) 0 (by simp [Config.ofList])
  exact absurd (isOpen.symm.trans closed) (by decide)

/-- A request is on offer, and its channel is open. -/
theorem noSendOnClosed_offering : ∃ config, Reach (Act id) NoCloseInUse initial config ∧
    .call (callOf (bytes "1")) (.offer 0) ∈ config.procs ∧ NoSendOnClosed config := by
  obtain ⟨mem, reach, -⟩ := @offering_run NoCloseInUse
    (fun _ event plain => by cases event <;> first | exact trivial | cases plain)
    fun _ _ _ _ _ => trivial
  exact ⟨_, reach, by simp [Config.ofList], noSendOnClosed_of_no_close_in_use reach⟩

end Kubecc.Scheduler
