/-
**The scheduler's router.**

`pkg/scheduler/router.go` without `Route`, which is called by the broker. Routes are found under the
hash of a toolchain. A consumerd attaches to the routes of its toolchains as a sender, an agent as a
receiver; each attachment is a goroutine that lives until its party's stream is done, and counts on
the route. A route whose counts are both gone, or whose toolchain a consumerd has dropped, is
cancelled, and the goroutine made with it then closes its channel.

* `Router` — the table and the routes.
* `RouterAct` — the steps of `AddSender`, `AddReceiver`, `UpdateSenderToolchains`, of the attached
  goroutines and of the goroutine of `newRoute`.
* `Router.Kept` — the table holds open routes only, each under its own hash (`kept_act`).
* `RouterProc.knows` — the route of a goroutine, which was made (`knows_act`).
-/

import Kubecc.Lib.Process
import Kubecc.Types.Toolchain

namespace Kubecc.Scheduler

open Kubecc.Lib Kubecc.Go Kubecc.Types

/-- An `Agent`: the record of one agent stream. -/
abbrev AgentId := Nat

/-- A `Consumerd`: the record of one consumerd stream. -/
abbrev ConsumerdId := Nat

abbrev RouteId := Nat

inductive Party
  | sender (cd : ConsumerdId)
  | receiver (agent : AgentId)
deriving DecidableEq

/-- `types.CompileRequest`, as it arrives on a consumerd's stream. -/
structure Request where
  requestID : GoString
  toolchain : Option Toolchain
  args : List GoString
  preprocessedSource : GoString
  managedFields : Option GoString
deriving DecidableEq

/-- `tcHash`, with the digest as a parameter. -/
def tcHash (md5 : GoString → GoString) (tc : Toolchain) : GoString := md5 tc.hash

/-- `route`: `closed` is the state of its channel, `cancelled` that of its context. -/
structure Route where
  hash : GoString
  closed : Bool
  cancelled : Bool
  rxRefCount : Int
  txRefCount : Int
deriving DecidableEq

def newRoute (hash : GoString) : Route := ⟨hash, false, false, 0, 0⟩

/-- `Router`: its table, the route objects, its mutexes, and the `Toolchains` field of each sender. -/
structure Router where
  routes : GoString → Option RouteId
  route : RouteId → Route
  nextRoute : RouteId
  sendersMutex : Bool
  receiversMutex : Bool
  toolchains : ConsumerdId → List Toolchain

inductive RouterProc
  /-- `AddSender` or `AddReceiver`, called. -/
  | add (party : Party) (tcs : List Toolchain)
  /-- In the loop over the toolchains; or, if not `serve`, in the deferred calls of
  `UpdateSenderToolchains`. -/
  | attaching (party : Party) (tcs : List Toolchain) (serve : Bool)
  /-- `routeForToolchain` has returned. -/
  | found (party : Party) (rt : RouteId) (tcs : List Toolchain) (serve : Bool)
  /-- The goroutine of `attachSender` or `attachReceiver`, in its select. -/
  | attached (party : Party) (rt : RouteId)
  /-- The goroutine of `attachReceiver`, with a request for `filteredOutput`. -/
  | holding (agent : AgentId) (rt : RouteId) (req : Request)
  /-- Before `decRxRefCount` or `decTxRefCount`. -/
  | leaving (party : Party) (rt : RouteId)
  /-- The count has gone to zero; the other one is still to be read. -/
  | unused (party : Party) (rt : RouteId)
  /-- The goroutine of `newRoute`. -/
  | closer (rt : RouteId)
  /-- `UpdateSenderToolchains`, called. -/
  | update (cd : ConsumerdId) (tcs : List Toolchain)
  /-- In its first loop, with the old toolchains still to be looked at. -/
  | dropping (cd : ConsumerdId) (old : List Toolchain) (tcs : List Toolchain)
  /-- `routeForToolchain` has returned a route to cancel. -/
  | cancelling (cd : ConsumerdId) (rt : RouteId) (old : List Toolchain) (tcs : List Toolchain)
deriving DecidableEq

namespace Router

/-- The route that `routeForToolchain` returns. -/
def routeFor (r : Router) (hash : GoString) : RouteId := (r.routes hash).getD r.nextRoute

/-- `routeForToolchain`: the router after the call. -/
def ensure (r : Router) (hash : GoString) : Router :=
  match r.routes hash with
  | some _ => r
  | none =>
    { r with
      routes := Function.update r.routes hash (some r.nextRoute)
      route := Function.update r.route r.nextRoute (newRoute hash)
      nextRoute := r.nextRoute + 1 }

/-- `routeForToolchain`: the goroutine `newRoute` starts, if it is called. -/
def spawned (r : Router) (hash : GoString) : List RouterProc :=
  match r.routes hash with
  | some _ => []
  | none => [.closer r.nextRoute]

def setRoute (r : Router) (rt : RouteId) (route : Route) : Router :=
  { r with route := Function.update r.route rt route }

def cancel (r : Router) (rt : RouteId) : Router :=
  r.setRoute rt { r.route rt with cancelled := true }

/-- The reference count that the party's attachments count on. -/
def refCount (r : Router) (rt : RouteId) : Party → Int
  | .sender _ => (r.route rt).txRefCount
  | .receiver _ => (r.route rt).rxRefCount

/-- The reference count of the other side. -/
def otherRefCount (r : Router) (rt : RouteId) : Party → Int
  | .sender _ => (r.route rt).rxRefCount
  | .receiver _ => (r.route rt).txRefCount

/-- `incTxRefCount`, `incRxRefCount` and the decrements. -/
def addRefCount (r : Router) (rt : RouteId) (change : Int) : Party → Router
  | .sender _ => r.setRoute rt { r.route rt with txRefCount := (r.route rt).txRefCount + change }
  | .receiver _ => r.setRoute rt { r.route rt with rxRefCount := (r.route rt).rxRefCount + change }

/-- What the goroutine of `newRoute` does under `routesMutex`. -/
def close (r : Router) (rt : RouteId) : Router :=
  { r.setRoute rt { r.route rt with closed := true } with
    routes := Function.update r.routes (r.route rt).hash none }

def mutex (r : Router) : Party → Bool
  | .sender _ => r.sendersMutex
  | .receiver _ => r.receiversMutex

def setMutex (r : Router) (locked : Bool) : Party → Router
  | .sender _ => { r with sendersMutex := locked }
  | .receiver _ => { r with receiversMutex := locked }

end Router

def stillExists (tcs : List Toolchain) (oldTc : Toolchain) : Bool := tcs.any (oldTc.equivalentTo ·)

def isNew (old : List Toolchain) (newTc : Toolchain) : Bool := !old.any (newTc.equivalentTo ·)

/-- The toolchains that the deferred calls attach: one call for each new toolchain, and all of them
read the loop variable after the loop. -/
def deferred (old tcs : List Toolchain) : List Toolchain :=
  match tcs.getLast? with
  | none => []
  | some newTc => List.replicate (tcs.filter (isNew old)).length newTc

/-- **The steps of the router.** `done` says whose stream is done; the label is the route whose channel
the step closes, if any. -/
inductive RouterAct (md5 : GoString → GoString) (done : Party → Bool) :
    Rules Router RouterProc (Option RouteId)
  -- AddSender, AddReceiver
  | lock {r} {party : Party} {tcs : List Toolchain} : r.mutex party = false →
      RouterAct md5 done none r [.add party tcs] (r.setMutex true party) [.attaching party tcs true]
  | lookup {r} {party : Party} {tc : Toolchain} {tcs : List Toolchain} {serve : Bool} :
      RouterAct md5 done none r [.attaching party (tc :: tcs) serve] (r.ensure (tcHash md5 tc))
        (.found party (r.routeFor (tcHash md5 tc)) tcs serve :: r.spawned (tcHash md5 tc))
  | attach {r} {party : Party} {rt : RouteId} {tcs : List Toolchain} {serve : Bool} :
      RouterAct md5 done none r [.found party rt tcs serve] (r.addRefCount rt 1 party)
        [.attaching party tcs serve, .attached party rt]
  | unlock {r} {party : Party} :
      RouterAct md5 done none r [.attaching party [] false] (r.setMutex false party) []
  -- the attached goroutines
  | partyDone {r} {party : Party} {rt : RouteId} : done party = true →
      RouterAct md5 done none r [.attached party rt] r [.leaving party rt]
  | channelClosed {r} {agent : AgentId} {rt : RouteId} : (r.route rt).closed = true →
      RouterAct md5 done none r [.attached (.receiver agent) rt] r [.leaving (.receiver agent) rt]
  | decLast {r} {party : Party} {rt : RouteId} : r.refCount rt party - 1 ≤ 0 →
      RouterAct md5 done none r [.leaving party rt] (r.addRefCount rt (-1) party) [.unused party rt]
  | dec {r} {party : Party} {rt : RouteId} : 0 < r.refCount rt party - 1 →
      RouterAct md5 done none r [.leaving party rt] (r.addRefCount rt (-1) party) []
  | cancelUnused {r} {party : Party} {rt : RouteId} : r.otherRefCount rt party ≤ 0 →
      RouterAct md5 done none r [.unused party rt] (r.cancel rt) []
  | stillUsed {r} {party : Party} {rt : RouteId} : 0 < r.otherRefCount rt party →
      RouterAct md5 done none r [.unused party rt] r []
  -- newRoute
  | close {r} {rt : RouteId} : (r.route rt).cancelled = true →
      RouterAct md5 done (some rt) r [.closer rt] (r.close rt) []
  -- UpdateSenderToolchains
  | updateLock {r} {cd : ConsumerdId} {tcs : List Toolchain} : r.mutex (.sender cd) = false →
      RouterAct md5 done none r [.update cd tcs] (r.setMutex true (.sender cd))
        [.dropping cd (r.toolchains cd) tcs]
  | keep {r} {cd : ConsumerdId} {oldTc : Toolchain} {old tcs : List Toolchain} :
      stillExists tcs oldTc = true →
      RouterAct md5 done none r [.dropping cd (oldTc :: old) tcs] r [.dropping cd old tcs]
  | drop {r} {cd : ConsumerdId} {oldTc : Toolchain} {old tcs : List Toolchain} :
      stillExists tcs oldTc = false →
      RouterAct md5 done none r [.dropping cd (oldTc :: old) tcs] (r.ensure (tcHash md5 oldTc))
        (.cancelling cd (r.routeFor (tcHash md5 oldTc)) old tcs :: r.spawned (tcHash md5 oldTc))
  | cancel {r} {cd : ConsumerdId} {rt : RouteId} {old tcs : List Toolchain} :
      RouterAct md5 done none r [.cancelling cd rt old tcs] (r.cancel rt) [.dropping cd old tcs]
  | update {r} {cd : ConsumerdId} {tcs : List Toolchain} :
      RouterAct md5 done none r [.dropping cd [] tcs]
        { r with toolchains := Function.update r.toolchains cd tcs }
        [.attaching (.sender cd) (deferred (r.toolchains cd) tcs) false]

/-! ### The table -/

namespace Router

variable {r : Router} {rt : RouteId} {hash : GoString} {route : Route}

/-! A look-up that finds a route changes nothing. -/

theorem routeFor_of_some (entry : r.routes hash = some rt) :
    r.routeFor hash = rt := by rw [routeFor, entry, Option.getD_some]

theorem ensure_of_some (entry : r.routes hash = some rt) : r.ensure hash = r := by
  rw [ensure, entry]

theorem spawned_of_some (entry : r.routes hash = some rt) : r.spawned hash = [] := by rw [spawned, entry]

theorem forall_mem_spawned {P : RouterProc → Prop} (closer : ∀ rt, P (.closer rt)) (hash : GoString) :
    ∀ proc ∈ r.spawned hash, P proc := by
  unfold spawned
  split
  · exact List.forall_mem_nil _
  · exact List.forall_mem_singleton.mpr (closer _)

@[simp] theorem setMutex_route (locked : Bool) (party : Party) :
    (r.setMutex locked party).route = r.route := by cases party <;> rfl

theorem setRoute_closed (rt' : RouteId) (same : route.closed = (r.route rt').closed) :
    ((r.setRoute rt' route).route rt).closed = (r.route rt).closed := by
  unfold setRoute
  by_cases here : rt = rt'
  · subst here
    simp [same]
  · simp [Function.update_of_ne here]

theorem setRoute_hash (rt' : RouteId) (same : route.hash = (r.route rt').hash) :
    ((r.setRoute rt' route).route rt).hash = (r.route rt).hash := by
  unfold setRoute
  by_cases here : rt = rt'
  · subst here
    simp [same]
  · simp [Function.update_of_ne here]

@[simp] theorem cancel_closed (rt' : RouteId) :
    ((r.cancel rt').route rt).closed = (r.route rt).closed := setRoute_closed rt' rfl

@[simp] theorem addRefCount_closed (rt' : RouteId) (change : Int) (party : Party) :
    ((r.addRefCount rt' change party).route rt).closed = (r.route rt).closed := by
  cases party <;> exact setRoute_closed rt' rfl

/-- **The table is kept**: its routes are open, stand under their own hash, and have been made. -/
structure Kept (r : Router) : Prop where
  isOpen : ∀ hash rt, r.routes hash = some rt → (r.route rt).closed = false
  own : ∀ hash rt, r.routes hash = some rt → (r.route rt).hash = hash
  made : ∀ hash rt, r.routes hash = some rt → rt < r.nextRoute

theorem kept_setRoute (kept : r.Kept) (sameHash : route.hash = (r.route rt).hash)
    (sameClosed : route.closed = (r.route rt).closed) : (r.setRoute rt route).Kept := by
  refine ⟨fun hash rt' entry => ?_, fun hash rt' entry => ?_, kept.made⟩
  · exact (setRoute_closed rt sameClosed).trans (kept.isOpen hash rt' entry)
  · exact (setRoute_hash rt sameHash).trans (kept.own hash rt' entry)

theorem kept_addRefCount (kept : r.Kept) (change : Int) (party : Party) :
    (r.addRefCount rt change party).Kept := by
  cases party <;> exact kept_setRoute kept rfl rfl

theorem kept_setMutex (kept : r.Kept) (locked : Bool) (party : Party) :
    (r.setMutex locked party).Kept := by
  cases party <;> exact ⟨kept.isOpen, kept.own, kept.made⟩

theorem kept_ensure (kept : r.Kept) (hash : GoString) : (r.ensure hash).Kept := by
  unfold ensure
  cases entry : r.routes hash with
  | some rt => exact kept
  | none =>
    have other : ∀ hash' rt, hash' ≠ hash →
        Function.update r.routes hash (some r.nextRoute) hash' = some rt → r.routes hash' = some rt :=
      fun hash' rt differs there => by rwa [Function.update_of_ne differs] at there
    have unchanged : ∀ rt, rt < r.nextRoute →
        Function.update r.route r.nextRoute (newRoute hash) rt = r.route rt :=
      fun rt old => Function.update_of_ne (Nat.ne_of_lt old) _ _
    refine ⟨fun hash' rt there => ?_, fun hash' rt there => ?_, fun hash' rt there => ?_⟩ <;>
      by_cases same : hash' = hash
    · subst same
      obtain rfl : r.nextRoute = rt := by simpa using there
      simp [newRoute]
    · have there := other hash' rt same there
      show (Function.update r.route r.nextRoute (newRoute hash) rt).closed = false
      rw [unchanged rt (kept.made hash' rt there)]
      exact kept.isOpen hash' rt there
    · subst same
      obtain rfl : r.nextRoute = rt := by simpa using there
      simp [newRoute]
    · have there := other hash' rt same there
      show (Function.update r.route r.nextRoute (newRoute hash) rt).hash = hash'
      rw [unchanged rt (kept.made hash' rt there)]
      exact kept.own hash' rt there
    · subst same
      obtain rfl : r.nextRoute = rt := by simpa using there
      exact Nat.lt_succ_self _
    · exact Nat.lt_succ_of_lt (kept.made hash' rt (other hash' rt same there))

theorem kept_close (kept : r.Kept) (rt : RouteId) : (r.close rt).Kept := by
  have still : ∀ hash rt', (r.close rt).routes hash = some rt' →
      r.routes hash = some rt' ∧ rt' ≠ rt := by
    intro hash rt' there
    have differs : hash ≠ (r.route rt).hash := by
      rintro rfl
      simp [close] at there
    have before : r.routes hash = some rt' := (Function.update_of_ne differs _ _).symm.trans there
    refine ⟨before, ?_⟩
    rintro rfl
    exact differs (kept.own hash rt' before).symm
  have unchanged : ∀ rt', rt' ≠ rt → (r.close rt).route rt' = r.route rt' :=
    fun rt' differs => Function.update_of_ne differs _ _
  refine ⟨fun hash rt' there => ?_, fun hash rt' there => ?_, fun hash rt' there => ?_⟩
  · rw [unchanged rt' (still hash rt' there).2]
    exact kept.isOpen hash rt' (still hash rt' there).1
  · rw [unchanged rt' (still hash rt' there).2]
    exact kept.own hash rt' (still hash rt' there).1
  · exact kept.made hash rt' (still hash rt' there).1

theorem ensure_routes_self (hash : GoString) :
    (r.ensure hash).routes hash = some (r.routeFor hash) := by
  unfold ensure routeFor
  cases entry : r.routes hash with
  | some rt => simp [entry]
  | none => simp

theorem routeFor_isOpen (kept : r.Kept) (hash : GoString) :
    ((r.ensure hash).route (r.routeFor hash)).closed = false :=
  (kept_ensure kept hash).isOpen hash _ (ensure_routes_self hash)

theorem ensure_closed (hash : GoString) (isOpen : (r.route rt).closed = false) :
    ((r.ensure hash).route rt).closed = false := by
  unfold ensure
  split
  · exact isOpen
  · by_cases same : rt = r.nextRoute
    · simp [same, newRoute]
    · simpa [Function.update_of_ne same] using isOpen

/-! The routes that were made. -/

theorem ensure_route_of_lt (hash : GoString) {rt : RouteId} (made : rt < r.nextRoute) :
    (r.ensure hash).route rt = r.route rt := by
  unfold ensure
  split
  · rfl
  · exact Function.update_of_ne (Nat.ne_of_lt made) _ _

theorem ensure_toolchains (hash : GoString) : (r.ensure hash).toolchains = r.toolchains := by
  unfold ensure
  split <;> rfl

theorem le_nextRoute_ensure (hash : GoString) : r.nextRoute ≤ (r.ensure hash).nextRoute := by
  unfold ensure
  split
  · exact le_rfl
  · exact Nat.le_succ _

theorem routeFor_lt (kept : r.Kept) (hash : GoString) :
    r.routeFor hash < (r.ensure hash).nextRoute := by
  unfold routeFor ensure
  cases entry : r.routes hash with
  | some rt => exact kept.made hash rt entry
  | none => exact Nat.lt_succ_self _

end Router

/-- The route that a goroutine has to do with. -/
def RouterProc.knows : RouterProc → Option RouteId
  | .found _ rt _ _ | .attached _ rt | .holding _ rt _ | .leaving _ rt | .unused _ rt | .closer rt
  | .cancelling _ rt _ _ => some rt
  | _ => none

section Steps

variable {md5 : GoString → GoString} {done : Party → Bool} {label : Option RouteId} {r r' : Router}
  {acting left : List RouterProc}

theorem kept_act (act : RouterAct md5 done label r acting r' left) (kept : r.Kept) : r'.Kept := by
  cases act with
  | lock | unlock | updateLock => exact Router.kept_setMutex kept _ _
  | lookup | drop => exact Router.kept_ensure kept _
  | attach | decLast | dec => exact Router.kept_addRefCount kept _ _
  | cancelUnused | cancel => exact Router.kept_setRoute kept rfl rfl
  | close => exact Router.kept_close kept _
  | update => exact ⟨kept.isOpen, kept.own, kept.made⟩
  | partyDone | channelClosed | stillUsed | keep => exact kept

theorem closed_act (act : RouterAct md5 done label r acting r' left) {rt : RouteId}
    (isOpen : (r.route rt).closed = false) (notThis : label ≠ some rt) :
    (r'.route rt).closed = false := by
  cases act with
  | lookup | drop => exact Router.ensure_closed _ isOpen
  | @close _ rt' _ =>
    have here : rt ≠ rt' := fun same => notThis (same ▸ rfl)
    simpa [Router.close, Router.setRoute, Function.update_of_ne here] using isOpen
  | _ => simpa using isOpen

theorem Router.spawned_knows (hash : GoString) :
    ∀ proc ∈ r.spawned hash, ∀ rt, proc.knows = some rt → rt < (r.ensure hash).nextRoute := by
  unfold Router.spawned Router.ensure
  cases r.routes hash with
  | some _ => exact List.forall_mem_nil _
  | none =>
    refine List.forall_mem_singleton.mpr fun rt is => ?_
    rw [← Option.some.inj is]
    exact Nat.lt_succ_self _

theorem knows_act (act : RouterAct md5 done label r acting r' left) (kept : r.Kept)
    (made : ∀ proc ∈ acting, ∀ rt, proc.knows = some rt → rt < r.nextRoute) :
    ∀ proc ∈ left, ∀ rt, proc.knows = some rt → rt < r'.nextRoute := by
  cases act with
  | lookup | drop =>
    refine List.forall_mem_cons.mpr ⟨fun rt is => ?_, Router.spawned_knows _⟩
    rw [← Option.some.inj is]
    exact Router.routeFor_lt kept _
  | @attach _ party rt' =>
    have old := made _ List.mem_cons_self rt' rfl
    refine List.forall_mem_cons.mpr ⟨fun rt is => absurd is nofun,
      List.forall_mem_singleton.mpr fun rt is => ?_⟩
    rw [← Option.some.inj is]
    cases party <;> exact old
  | @decLast _ party rt' =>
    have old := made _ List.mem_cons_self rt' rfl
    refine List.forall_mem_singleton.mpr fun rt is => ?_
    rw [← Option.some.inj is]
    cases party <;> exact old
  | partyDone | channelClosed =>
    exact List.forall_mem_singleton.mpr fun rt is => made _ List.mem_cons_self rt is
  | _ => simp [RouterProc.knows]

theorem nextRoute_act (act : RouterAct md5 done label r acting r' left) :
    r.nextRoute ≤ r'.nextRoute := by
  cases act with
  | lookup | drop => exact Router.le_nextRoute_ensure _
  | @lock _ party | @unlock _ party | @attach _ party | @decLast _ party | @dec _ party =>
    cases party <;> exact le_rfl
  | _ => exact le_rfl

end Steps

end Kubecc.Scheduler
