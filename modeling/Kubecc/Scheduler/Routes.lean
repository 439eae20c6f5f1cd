/-
**Who is attached to which routes.**

`AddSender` and `AddReceiver` attach a party to the routes of its toolchains. `UpdateSenderToolchains`
cancels the routes of the toolchains that a consumerd drops, and attaches it to those of the new ones.
The last party to leave a route cancels it. A route is shared by hash, and cancelled for everybody.

* `Rule` — the router, with parties that come, change their toolchains and go.
* `KeepsRoutes` — when nothing moves, every connected party is attached, under the hash of each of its
  toolchains, to the open route in the table.
* `keepsRoutes_of_orderly` — this holds in every run in which no route is cancelled while somebody else
  uses it, nobody is given a route that is cancelled already, and the new toolchains of an update are
  those that its deferred calls attach.
* `drop_takes_route_away` — a consumerd drops a toolchain, and an agent loses its route.
-/

import Kubecc.Scheduler.Router

namespace Kubecc.Scheduler.Routes

open Kubecc.Lib Kubecc.Go Kubecc.Types

/-- What the parties share. `added` says for whom `AddSender` or `AddReceiver` has returned;
`receivers` holds the `Toolchains` field of each agent. -/
structure Shared where
  router : Router
  connected : Party → Bool
  done : Party → Bool
  added : Party → Bool
  receivers : AgentId → List Toolchain

/-- The toolchains that the party has. -/
def Shared.toolchains (mem : Shared) : Party → List Toolchain
  | .sender cd => mem.router.toolchains cd
  | .receiver agent => mem.receivers agent

abbrev State := Config Shared RouterProc

inductive Event
  | connect (party : Party) (tcs : List Toolchain)
  | disconnect (party : Party)
  | update (cd : ConsumerdId) (tcs : List Toolchain)
  | route (tc : Toolchain)
  | internal
deriving DecidableEq

/-- **The router among its parties.** A party connects once; `UpdateSenderToolchains` does nothing for a
consumerd that `AddSender` has not added; `Route` looks its route up. -/
inductive Rule (md5 : GoString → GoString) : Rules Shared RouterProc Event
  | connectSender {mem} (cd : ConsumerdId) (tcs : List Toolchain) :
      mem.connected (.sender cd) = false →
      Rule md5 (.connect (.sender cd) tcs) mem []
        { mem with
          connected := Function.update mem.connected (.sender cd) true
          router := { mem.router with
            toolchains := Function.update mem.router.toolchains cd tcs } }
        [.add (.sender cd) tcs]
  | connectReceiver {mem} (agent : AgentId) (tcs : List Toolchain) :
      mem.connected (.receiver agent) = false →
      Rule md5 (.connect (.receiver agent) tcs) mem []
        { mem with
          connected := Function.update mem.connected (.receiver agent) true
          receivers := Function.update mem.receivers agent tcs }
        [.add (.receiver agent) tcs]
  | disconnect {mem} (party : Party) : mem.connected party = true →
      Rule md5 (.disconnect party) mem [] { mem with done := Function.update mem.done party true } []
  | update {mem} (cd : ConsumerdId) (tcs : List Toolchain) : mem.added (.sender cd) = true →
      Rule md5 (.update cd tcs) mem [] mem [.update cd tcs]
  | route {mem} (tc : Toolchain) :
      Rule md5 (.route tc) mem [] { mem with router := mem.router.ensure (tcHash md5 tc) }
        (mem.router.spawned (tcHash md5 tc))
  | added {mem} {party : Party} :
      Rule md5 .internal mem [.attaching party [] true]
        { mem with
          router := mem.router.setMutex false party
          added := Function.update mem.added party true } []
  | router {mem label acting router left} :
      RouterAct md5 mem.done label mem.router acting router left →
      Rule md5 .internal mem acting { mem with router := router } left

def initial : State :=
  .ofList
    { router := ⟨fun _ => none, fun _ => newRoute [], 0, false, false, fun _ => []⟩
      connected := fun _ => false, done := fun _ => false, added := fun _ => false
      receivers := fun _ => [] } []

def Quiet (md5 : GoString → GoString) (config : State) : Prop :=
  ∀ event next, Step (Rule md5) config event next → event ≠ .internal

/-- **Nobody loses a route**: when nothing moves, every connected party is attached, for each toolchain
that it has, to an open route that stands in the table under the hash of the toolchain. -/
def KeepsRoutes (md5 : GoString → GoString) (config : State) : Prop :=
  Quiet md5 config → ∀ party, config.mem.connected party = true → config.mem.done party = false →
    ∀ tc ∈ config.mem.toolchains party, ∃ rt,
      config.mem.router.routes (tcHash md5 tc) = some rt ∧
      (config.mem.router.route rt).closed = false ∧ .attached party rt ∈ config.procs

/-! ### The orderly runs -/

/-- The party that uses a route in this goroutine, or is about to. -/
def uses : RouterProc → Option (Party × RouteId)
  | .attached party rt | .found party rt _ _ => some (party, rt)
  | _ => none

def cancels (r : Router) : RouterProc → Option RouteId
  | .cancelling _ rt _ _ => some rt
  | .unused party rt => if r.otherRefCount rt party ≤ 0 then some rt else none
  | _ => none

structure Orderly (md5 : GoString → GoString) (config : State) (label : Event × List RouterProc) :
    Prop where
  /-- No party is given a route that is cancelled. -/
  lookups : ∀ party tc tcs serve, label.2 = [.attaching party (tc :: tcs) serve] →
    ∀ rt, config.mem.router.routes (tcHash md5 tc) = some rt →
      (config.mem.router.route rt).cancelled = false
  /-- No route is cancelled that a party uses whose stream goes on, unless this is the consumerd that
  drops it, and no new toolchain of that has the same hash. -/
  cancels : ∀ proc ∈ label.2, ∀ rt, cancels config.mem.router proc = some rt →
    ∀ user ∈ config.procs, ∀ party, uses user = some (party, rt) → config.mem.done party = false →
      ∃ cd old tcs, proc = .cancelling cd rt old tcs ∧ party = .sender cd ∧
        ∀ tc ∈ tcs, tcHash md5 tc ≠ (config.mem.router.route rt).hash
  /-- The toolchains of an update have the hashes of old ones, or of those that it attaches. -/
  updates : ∀ cd tcs, label.2 = [.dropping cd [] tcs] → ∀ tc ∈ tcs,
    ∃ other ∈ config.mem.router.toolchains cd ++ deferred (config.mem.router.toolchains cd) tcs,
      tcHash md5 other = tcHash md5 tc

/-! ### The table and its closers -/

/-- The route that this goroutine closes once it is cancelled. -/
def closes : RouterProc → Option RouteId
  | .closer rt => some rt
  | _ => none

inductive Side
  | senders
  | receivers
deriving DecidableEq

def sideOf : Party → Side
  | .sender _ => .senders
  | .receiver _ => .receivers

def locks : RouterProc → Option Side
  | .attaching party _ _ | .found party _ _ _ => some (sideOf party)
  | .dropping .. | .cancelling .. => some .senders
  | _ => none

def mutex (r : Router) : Side → Bool
  | .senders => r.sendersMutex
  | .receivers => r.receiversMutex

/-- Whether the route stands in the table, as a number. -/
def listed (r : Router) (rt : RouteId) : ℕ := if r.routes (r.route rt).hash = some rt then 1 else 0

section Table

variable {md5 : GoString → GoString} {done : Party → Bool} {label : Option RouteId} {r r' : Router}
  {acting left : List RouterProc}

theorem listed_le_one (r : Router) (rt : RouteId) : listed r rt ≤ 1 := by
  unfold listed
  split <;> decide

theorem listed_eq_one {rt : RouteId} : listed r rt = 1 ↔ r.routes (r.route rt).hash = some rt := by
  unfold listed
  split <;> simp_all

theorem listed_setRoute {route : Route} {rt' : RouteId} (same : route.hash = (r.route rt').hash)
    (rt : RouteId) : listed (r.setRoute rt' route) rt = listed r rt := by
  rw [listed, listed, Router.setRoute_hash rt' same]
  rfl

@[simp] theorem listed_cancel (rt rt' : RouteId) : listed (r.cancel rt') rt = listed r rt :=
  listed_setRoute (by rfl) rt

@[simp] theorem listed_addRefCount (rt rt' : RouteId) (change : Int) (party : Party) :
    listed (r.addRefCount rt' change party) rt = listed r rt := by
  cases party <;> exact listed_setRoute (by rfl) rt

theorem listed_ensure (kept : r.Kept) (hash : GoString) (rt : RouteId) :
    listed (r.ensure hash) rt = listed r rt + total (tally closes rt) ↑(r.spawned hash) := by
  unfold Router.ensure Router.spawned
  cases entry : r.routes hash with
  | some _ => rfl
  | none =>
    unfold listed
    by_cases new : rt = r.nextRoute
    · subst new
      have unlisted : r.routes (r.route r.nextRoute).hash ≠ some r.nextRoute := fun there =>
        Nat.lt_irrefl _ (kept.made _ _ there)
      simp [unlisted, newRoute, tally, closes]
    · simp only [Function.update_of_ne new]
      by_cases here : (r.route rt).hash = hash
      · simp [here, entry, tally, closes, Ne.symm new]
      · simp [Function.update_of_ne here, tally, closes, Ne.symm new]

theorem listed_close {rt' : RouteId} (there : r.routes (r.route rt').hash = some rt') (rt : RouteId) :
    listed (r.close rt') rt + (if rt' = rt then 1 else 0) = listed r rt := by
  unfold listed Router.close Router.setRoute
  by_cases here : rt = rt'
  · subst here
    simp [there]
  · simp only [Function.update_of_ne here, if_neg (Ne.symm here)]
    by_cases shared : (r.route rt).hash = (r.route rt').hash
    · simp [shared, there, Ne.symm here]
    · simp [Function.update_of_ne shared]

theorem listed_act (act : RouterAct md5 done label r acting r' left) (kept : r.Kept)
    (there : ∀ proc ∈ acting, ∀ rt, closes proc = some rt → r.routes (r.route rt).hash = some rt)
    (rt : RouteId) :
    listed r' rt + total (tally closes rt) ↑acting = listed r rt + total (tally closes rt) ↑left := by
  cases act with
  | lookup | drop =>
    rw [listed_ensure kept]
    simp [tally, closes]
  | @lock _ party | @unlock _ party => cases party <;> rfl
  | updateLock | update => rfl
  | @close _ rt' =>
    rw [← listed_close (there _ List.mem_cons_self rt' rfl) rt]
    simp [tally, closes]
  | _ => simp [tally, closes]

theorem mutex_setMutex (locked : Bool) (party : Party) (side : Side) :
    mutex (r.setMutex locked party) side =
      if sideOf party = side then locked else mutex r side := by
  cases party <;> cases side <;> rfl

theorem mutex_side (party : Party) : mutex r (sideOf party) = r.mutex party := by
  cases party <;> rfl

theorem toNat_mutex_lock {party : Party} (isFree : r.mutex party = false) (side : Side) :
    (mutex (r.setMutex true party) side).toNat =
      (mutex r side).toNat + if sideOf party = side then 1 else 0 := by
  rw [mutex_setMutex]
  by_cases same : sideOf party = side
  · subst same
    simp [mutex_side, isFree]
  · simp [same]

theorem toNat_mutex_unlock {party : Party} (isHeld : mutex r (sideOf party) = true) (side : Side) :
    (mutex (r.setMutex false party) side).toNat + (if sideOf party = side then 1 else 0) =
      (mutex r side).toNat := by
  rw [mutex_setMutex]
  by_cases same : sideOf party = side
  · subst same
    simp [isHeld]
  · simp [same]

theorem mutex_ensure (hash : GoString) (side : Side) : mutex (r.ensure hash) side = mutex r side := by
  unfold Router.ensure
  split
  · rfl
  · cases side <;> rfl

theorem mutex_act (act : RouterAct md5 done label r acting r' left)
    (held : ∀ proc ∈ acting, ∀ side, locks proc = some side → mutex r side = true) (side : Side) :
    (mutex r' side).toNat + total (tally locks side) ↑acting =
      (mutex r side).toNat + total (tally locks side) ↑left := by
  have closer : ∀ hash, total (tally locks side) ↑(r.spawned hash) = 0 := fun hash =>
    total_tally_eq_zero (Router.forall_mem_spawned (fun _ => rfl) hash) side
  cases act with
  | lock isFree =>
    rw [toNat_mutex_lock isFree]
    simp [tally, locks]
  | updateLock isFree =>
    rw [toNat_mutex_lock isFree]
    simp [tally, locks]
    rfl
  | unlock =>
    rw [← toNat_mutex_unlock (held _ List.mem_cons_self _ rfl) side]
    simp [tally, locks]
  | lookup | drop =>
    rw [mutex_ensure]
    simp [tally, locks, closer]
  | @attach _ party | @decLast _ party | @dec _ party =>
    cases party <;> cases side <;> simp [tally, locks, mutex, Router.addRefCount, Router.setRoute]
  | cancelUnused | cancel | close | update =>
    cases side <;> simp [tally, locks, mutex, Router.cancel, Router.close, Router.setRoute, sideOf]
  | _ => simp [tally, locks]

end Table

/-! ### The routes that a party is owed -/

/-- The route stands in the table under this hash, and is not cancelled. -/
structure Stays (r : Router) (hash : GoString) (rt : RouteId) : Prop where
  entry : r.routes hash = some rt
  live : (r.route rt).cancelled = false

/-- The goroutine attaches the party to the route of this hash, or will. -/
def Covers (md5 : GoString → GoString) (r : Router) (party : Party) (hash : GoString) :
    RouterProc → Prop
  | .add other tcs | .attaching other tcs _ => other = party ∧ ∃ tc ∈ tcs, tcHash md5 tc = hash
  | .found other rt tcs _ =>
    other = party ∧ (Stays r hash rt ∨ ∃ tc ∈ tcs, tcHash md5 tc = hash)
  | .attached other rt => other = party ∧ Stays r hash rt
  | _ => False

/-- The consumerd whose toolchains this goroutine replaces, and the new ones. -/
def replaces : RouterProc → Option (ConsumerdId × List Toolchain)
  | .dropping cd _ tcs | .cancelling cd _ _ tcs => some (cd, tcs)
  | _ => none

/-- The party is connected, has a toolchain of this hash, and keeps it. -/
structure Owed (md5 : GoString → GoString) (config : State) (party : Party) (hash : GoString) :
    Prop where
  connected : config.mem.connected party = true
  live : config.mem.done party = false
  has : ∃ tc ∈ config.mem.toolchains party, tcHash md5 tc = hash
  keeps : ∀ proc ∈ config.procs, ∀ cd tcs, replaces proc = some (cd, tcs) → party = .sender cd →
    ∃ tc ∈ tcs, tcHash md5 tc = hash

section Covering

variable {md5 : GoString → GoString} {done : Party → Bool} {label : Option RouteId} {r r' : Router}
  {acting left : List RouterProc} {hash : GoString} {rt : RouteId} {party : Party}

theorem Stays.congr (stays : Stays r hash rt) (routes : r'.routes hash = r.routes hash)
    (route : (r'.route rt).cancelled = (r.route rt).cancelled) : Stays r' hash rt :=
  ⟨routes.trans stays.entry, route.trans stays.live⟩

theorem Stays.ensure (stays : Stays r hash rt) (kept : r.Kept) (other : GoString) :
    Stays (r.ensure other) hash rt := by
  refine stays.congr ?_ ?_
  · unfold Router.ensure
    split
    · rfl
    · next absent =>
      refine Function.update_of_ne ?_ _ _
      rintro rfl
      exact absurd (absent.symm.trans stays.entry) nofun
  · rw [Router.ensure_route_of_lt _ (kept.made _ _ stays.entry)]

theorem stays_routeFor (live : ∀ rt, r.routes hash = some rt → (r.route rt).cancelled = false) :
    Stays (r.ensure hash) hash (r.routeFor hash) := by
  cases entry : r.routes hash with
  | some rt =>
    rw [Router.ensure_of_some entry, Router.routeFor_of_some entry]
    exact ⟨entry, live rt entry⟩
  | none =>
    unfold Router.ensure Router.routeFor
    rw [entry]
    exact ⟨by simp, by simp [newRoute]⟩

theorem addRefCount_cancelled (rt' : RouteId) (change : Int) (party : Party) :
    ((r.addRefCount rt' change party).route rt).cancelled = (r.route rt).cancelled := by
  unfold Router.addRefCount Router.setRoute
  by_cases here : rt = rt'
  · subst here
    cases party <;> simp
  · cases party <;> simp [Function.update_of_ne here]

theorem Stays.act (stays : Stays r hash rt) (act : RouterAct md5 done label r acting r' left)
    (kept : r.Kept)
    (there : ∀ proc ∈ acting, ∀ rt, closes proc = some rt → r.routes (r.route rt).hash = some rt)
    (kind : ∀ proc ∈ acting, cancels r proc ≠ some rt) : Stays r' hash rt := by
  have cancelled : ∀ rt', rt' ≠ rt → Stays (r.cancel rt') hash rt := fun rt' differs => by
    refine stays.congr rfl ?_
    simp [Router.cancel, Router.setRoute, Function.update_of_ne (Ne.symm differs)]
  cases act with
  | lookup | drop => exact stays.ensure kept _
  | @lock _ party | @unlock _ party => cases party <;> exact ⟨stays.entry, stays.live⟩
  | updateLock | update => exact ⟨stays.entry, stays.live⟩
  | @attach _ party | @decLast _ party | @dec _ party =>
    refine stays.congr ?_ (addRefCount_cancelled _ _ _)
    cases party <;> rfl
  | @cancelUnused _ party rt' unused =>
    refine cancelled rt' fun same => kind _ List.mem_cons_self ?_
    rw [cancels, if_pos unused, same]
  | @cancel _ cd rt' =>
    refine cancelled rt' fun same => kind _ List.mem_cons_self ?_
    rw [cancels, same]
  | @close _ rt' isCancelled =>
    have differs : rt ≠ rt' := by
      rintro rfl
      exact absurd (stays.live.symm.trans isCancelled) Bool.false_ne_true
    have elsewhere : hash ≠ (r.route rt').hash := by
      rintro rfl
      have entry := there _ List.mem_cons_self rt' rfl
      exact differs (Option.some.inj (stays.entry.symm.trans entry))
    refine stays.congr (Function.update_of_ne elsewhere _ _) ?_
    simp [Router.close, Router.setRoute, Function.update_of_ne differs]
  | partyDone | channelClosed | stillUsed | keep => exact stays

theorem covers_act (act : RouterAct md5 done label r acting r' left) (kept : r.Kept)
    (live : done party = false)
    (lookups : ∀ party tc tcs serve, acting = [.attaching party (tc :: tcs) serve] →
      ∀ rt, r.routes (tcHash md5 tc) = some rt → (r.route rt).cancelled = false) :
    ∀ proc ∈ acting, Covers md5 r party hash proc → ∃ proc ∈ left, Covers md5 r' party hash proc := by
  cases act with
  | lock => exact List.forall_mem_singleton.mpr fun covers => ⟨_, List.mem_cons_self, covers⟩
  | @lookup _ other tc tcs serve =>
    refine List.forall_mem_singleton.mpr fun ⟨same, tc', member, is⟩ => ?_
    refine ⟨_, List.mem_cons_self, same, ?_⟩
    rcases List.mem_cons.mp member with rfl | later
    · rw [← is]
      exact .inl (stays_routeFor (lookups _ _ _ _ rfl))
    · exact .inr ⟨tc', later, is⟩
  | @attach _ other rt' tcs serve =>
    refine List.forall_mem_singleton.mpr fun ⟨same, covers⟩ => ?_
    rcases covers with stays | later
    · refine ⟨.attached other rt', by simp, same, stays.congr ?_ (addRefCount_cancelled _ _ _)⟩
      cases other <;> rfl
    · exact ⟨_, List.mem_cons_self, same, later⟩
  | unlock => exact List.forall_mem_singleton.mpr fun ⟨_, tc, member, _⟩ => absurd member nofun
  | partyDone isDone =>
    refine List.forall_mem_singleton.mpr fun ⟨same, _⟩ => ?_
    rw [same] at isDone
    exact absurd (live.symm.trans isDone) Bool.false_ne_true
  | channelClosed isClosed =>
    refine List.forall_mem_singleton.mpr fun ⟨_, stays⟩ => ?_
    exact absurd ((kept.isOpen _ _ stays.entry).symm.trans isClosed) Bool.false_ne_true
  | _ => exact List.forall_mem_singleton.mpr fun covers => covers.elim

theorem replaces_act (act : RouterAct md5 done label r acting r' left) :
    ∀ proc ∈ acting, ∀ cd tcs, replaces proc = some (cd, tcs) →
      (∃ proc ∈ left, replaces proc = some (cd, tcs)) ∨ acting = [.dropping cd [] tcs] := by
  cases act with
  | keep | drop | cancel =>
    exact List.forall_mem_singleton.mpr fun cd tcs is => .inl ⟨_, List.mem_cons_self, is⟩
  | update =>
    refine List.forall_mem_singleton.mpr fun cd tcs is => .inr ?_
    cases is
    rfl
  | _ => exact List.forall_mem_singleton.mpr fun cd tcs is => absurd is nofun

theorem toolchains_act (act : RouterAct md5 done label r acting r' left) :
    (r'.toolchains = r.toolchains ∧ ∀ cd tcs, acting ≠ [.dropping cd [] tcs]) ∨
      ∃ cd tcs, acting = [.dropping cd [] tcs] ∧
        r'.toolchains = Function.update r.toolchains cd tcs ∧
        left = [.attaching (.sender cd) (deferred (r.toolchains cd) tcs) false] := by
  cases act with
  | lookup | drop => exact .inl ⟨Router.ensure_toolchains _, by simp⟩
  | @lock _ party | @unlock _ party | @attach _ party | @decLast _ party | @dec _ party =>
    cases party <;> exact .inl ⟨rfl, by simp⟩
  | update => exact .inr ⟨_, _, rfl, rfl, rfl⟩
  | _ => exact .inl ⟨rfl, by simp⟩

theorem Covers.mono {proc : RouterProc} (covers : Covers md5 r party hash proc)
    (stay : ∀ rt, uses proc = some (party, rt) → Stays r hash rt → Stays r' hash rt) :
    Covers md5 r' party hash proc := by
  cases proc with
  | found other rt tcs serve =>
    obtain ⟨rfl, stays | later⟩ := covers
    · exact ⟨rfl, .inl (stay rt rfl stays)⟩
    · exact ⟨rfl, .inr later⟩
  | attached other rt =>
    obtain ⟨rfl, stays⟩ := covers
    exact ⟨rfl, stay rt rfl stays⟩
  | add | attaching => exact covers
  | _ => exact covers.elim

end Covering

/-! ### Runs -/

/-- **What holds in every run**: the table is kept, a route stands in it as long as its closer lives, and
a mutex is held by one goroutine. -/
structure Sound (config : State) : Prop where
  kept : config.mem.router.Kept
  made : ∀ proc ∈ config.procs, ∀ rt, proc.knows = some rt → rt < config.mem.router.nextRoute
  closers : ∀ rt, listed config.mem.router rt = total (tally closes rt) config.procs
  lockers : ∀ side, (mutex config.mem.router side).toNat = total (tally locks side) config.procs

section Runs

variable {md5 : GoString → GoString} {config next : State} {event : Event} {proc : RouterProc}
  {acting left : List RouterProc} {mem mem' : Shared} {rest : Multiset RouterProc} {hash : GoString}
  {party : Party}

theorem Sound.there (sound : Sound config) (member : proc ∈ config.procs)
    {rt : RouteId} (is : closes proc = some rt) :
    config.mem.router.routes (config.mem.router.route rt).hash = some rt := by
  have counted := one_le_total_tally member is
  rw [← sound.closers] at counted
  exact listed_eq_one.mp (Nat.le_antisymm (listed_le_one _ _) counted)

theorem Sound.held (sound : Sound config) (member : proc ∈ config.procs)
    {side : Side} (is : locks proc = some side) : mutex config.mem.router side = true := by
  have counted := one_le_total_tally member is
  rw [← sound.lockers] at counted
  cases held : mutex config.mem.router side with
  | true => rfl
  | false => simp [held] at counted

theorem Sound.fire (sound : Sound ⟨mem, ↑acting + rest⟩) (kept : mem'.router.Kept)
    (later : mem.router.nextRoute ≤ mem'.router.nextRoute)
    (made : (∀ proc ∈ acting, ∀ rt, proc.knows = some rt → rt < mem.router.nextRoute) →
      ∀ proc ∈ left, ∀ rt, proc.knows = some rt → rt < mem'.router.nextRoute)
    (closers : ∀ rt, listed mem'.router rt + total (tally closes rt) ↑acting =
      listed mem.router rt + total (tally closes rt) ↑left)
    (lockers : ∀ side, (mutex mem'.router side).toNat + total (tally locks side) ↑acting =
      (mutex mem.router side).toNat + total (tally locks side) ↑left) :
    Sound ⟨mem', ↑left + rest⟩ := by
  refine ⟨kept, ?_, fun rt => ?_, fun side => ?_⟩
  · refine forall_mem_fire sound.made made fun proc _ old rt is => ?_
    exact Nat.lt_of_lt_of_le (old rt is) later
  · have change := closers rt
    have before : listed mem.router rt = _ := sound.closers rt
    rw [total_add] at before ⊢
    show listed mem'.router rt = _
    omega
  · have change := lockers side
    have before : (mutex mem.router side).toNat = _ := sound.lockers side
    rw [total_add] at before ⊢
    show (mutex mem'.router side).toNat = _
    omega

theorem sound_step (sound : Sound config) (step : Step (Rule md5) config event next) :
    Sound next := by
  cases step with
  | @fire _ mem mem' acting left rest rule =>
    have there : ∀ proc ∈ acting, ∀ rt, closes proc = some rt →
        mem.router.routes (mem.router.route rt).hash = some rt := fun proc member rt is =>
      sound.there (mem_of_acting member) is
    have held : ∀ proc ∈ acting, ∀ side, locks proc = some side → mutex mem.router side = true :=
      fun proc member side is =>
        sound.held (mem_of_acting member) is
    cases rule with
    | connectSender cd tcs =>
      refine sound.fire ⟨sound.kept.isOpen, sound.kept.own, sound.kept.made⟩ le_rfl
        (fun _ => by simp [RouterProc.knows]) (fun rt => ?_) fun side => ?_
      · simp [tally, closes, listed]
      · cases side <;> simp [tally, locks, mutex]
    | connectReceiver agent tcs | disconnect party | update cd tcs =>
      exact sound.fire sound.kept le_rfl (fun _ => by simp [RouterProc.knows])
        (fun rt => by simp [tally, closes]) fun side => by simp [tally, locks]
    | route tc =>
      refine sound.fire (Router.kept_ensure sound.kept _) (Router.le_nextRoute_ensure _)
        (fun _ => Router.spawned_knows _) (fun rt => ?_) fun side => ?_
      · rw [listed_ensure sound.kept]
        rfl
      · rw [mutex_ensure, total_tally_eq_zero (Router.forall_mem_spawned (fun _ => rfl) _)]
        rfl
    | @added _ party =>
      refine sound.fire (Router.kept_setMutex sound.kept _ _) ?_ (fun _ => List.forall_mem_nil _)
        (fun rt => ?_) fun side => ?_
      · cases party <;> exact le_rfl
      · cases party <;> rfl
      · rw [← toNat_mutex_unlock (held _ List.mem_cons_self _ rfl) side]
        simp [tally, locks]
    | router act =>
      exact sound.fire (kept_act act sound.kept) (nextRoute_act act) (knows_act act sound.kept)
        (listed_act act sound.kept there) (mutex_act act held)

theorem sound_initial : Sound initial := by
  refine ⟨⟨nofun, nofun, nofun⟩, fun proc member => absurd member (Multiset.notMem_zero _),
    fun rt => rfl, fun side => ?_⟩
  cases side <;> rfl

def Covered (md5 : GoString → GoString) (config : State) : Prop :=
  ∀ party hash, Owed md5 config party hash →
    ∃ proc ∈ config.procs, Covers md5 config.mem.router party hash proc

/-- What the party keeps after a step of the router it had before, or an update has just begun to
attach it. -/
theorem owed_act {mem : Shared} {label : Option RouteId} {router : Router}
    (act : RouterAct md5 mem.done label mem.router acting router left)
    (ok : Orderly md5 ⟨mem, ↑acting + rest⟩ (event, acting))
    (owed : Owed md5 ⟨{ mem with router := router }, ↑left + rest⟩ party hash) :
    Owed md5 ⟨mem, ↑acting + rest⟩ party hash ∨ ∃ proc ∈ left, Covers md5 router party hash proc := by
  have others : ∀ proc ∈ rest, ∀ cd tcs, replaces proc = some (cd, tcs) → party = .sender cd →
      ∃ tc ∈ tcs, tcHash md5 tc = hash := fun proc member =>
    owed.keeps proc (mem_of_rest member)
  rcases toolchains_act act with ⟨same, notLast⟩ | ⟨cd, tcs, rfl, changed, rfl⟩
  · refine .inl ⟨owed.connected, owed.live, ?_, fun proc member cd tcs is whose => ?_⟩
    · obtain ⟨tc, has, is⟩ := owed.has
      refine ⟨tc, ?_, is⟩
      cases party with
      | sender cd =>
        have has : tc ∈ router.toolchains cd := has
        rwa [same] at has
      | receiver agent => exact has
    · rcases mem_fire.mp member with acts | stays
      · rcases replaces_act act proc acts cd tcs is with ⟨after, there, is⟩ | last
        · exact owed.keeps after (Multiset.mem_add.mpr (.inl there)) cd tcs is whose
        · exact absurd last (notLast cd tcs)
      · exact others proc stays cd tcs is whose
  · by_cases whose : party = .sender cd
    · subst whose
      obtain ⟨tc, has, is⟩ := owed.has
      have new : tc ∈ tcs := by
        have has : tc ∈ router.toolchains cd := has
        rwa [changed, Function.update_self] at has
      obtain ⟨other, member, same⟩ := ok.updates cd tcs rfl tc new
      rcases List.mem_append.mp member with old | attached
      · refine .inl ⟨owed.connected, owed.live, ⟨other, old, same.trans is⟩, ?_⟩
        intro proc member cd' tcs' replaced whose
        rcases mem_fire.mp member with acts | stays
        · obtain rfl := List.mem_singleton.mp acts
          cases replaced
          exact ⟨tc, new, is⟩
        · exact others proc stays cd' tcs' replaced whose
      · exact .inr ⟨_, List.mem_cons_self, rfl, other, attached, same.trans is⟩
    · refine .inl ⟨owed.connected, owed.live, ?_, fun proc member cd' tcs' is whose' => ?_⟩
      · obtain ⟨tc, has, is⟩ := owed.has
        refine ⟨tc, ?_, is⟩
        cases party with
        | sender other =>
          have has : tc ∈ router.toolchains other := has
          have differs : other ≠ cd := fun same => whose (same ▸ rfl)
          rwa [changed, Function.update_of_ne differs] at has
        | receiver agent => exact has
      · rcases mem_fire.mp member with acts | stays
        · obtain rfl := List.mem_singleton.mp acts
          cases is
          exact absurd whose' whose
        · exact others proc stays cd' tcs' is whose'

theorem Owed.before (owed : Owed md5 ⟨mem', ↑left + rest⟩ party hash)
    (connected : mem.connected party = true) (live : mem.done party = false)
    (same : mem'.toolchains party = mem.toolchains party)
    (none : ∀ proc ∈ acting, replaces proc = none) : Owed md5 ⟨mem, ↑acting + rest⟩ party hash := by
  refine ⟨connected, live, ?_, fun proc member cd tcs is => ?_⟩
  · have has : ∃ tc ∈ mem'.toolchains party, tcHash md5 tc = hash := owed.has
    rwa [same] at has
  · rcases mem_fire.mp member with acts | stays
    · exact absurd ((none proc acts).symm.trans is) nofun
    · exact owed.keeps proc (mem_of_rest stays) cd tcs is

theorem Covered.fire (covered : Covered md5 ⟨mem, ↑acting + rest⟩)
    (before : Owed md5 ⟨mem, ↑acting + rest⟩ party hash)
    (others : ∀ proc ∈ acting, ¬ Covers md5 mem.router party hash proc)
    (stay : ∀ rt, Stays mem.router hash rt → Stays mem'.router hash rt) :
    ∃ proc ∈ (↑left + rest : Multiset RouterProc), Covers md5 mem'.router party hash proc :=
  exists_mem_fire (covered party hash before)
    (fun proc member covers => absurd covers (others proc member))
    fun _ _ covers => covers.mono fun rt _ => stay rt

theorem covered_step {label : Event × List RouterProc} (sound : Sound config)
    (covered : Covered md5 config) (ok : Orderly md5 config label)
    (step : Step (Acting (Rule md5)) config label next) : Covered md5 next := by
  intro party hash owed
  obtain ⟨event, acts⟩ := label
  cases step with
  | @fire _ mem mem' acting left rest fires =>
    obtain ⟨rule, rfl⟩ := fires
    cases rule with
    | connectSender cd tcs =>
      by_cases whose : party = .sender cd
      · subst whose
        obtain ⟨tc, has, is⟩ := owed.has
        have new : tc ∈ tcs := by
          have has : tc ∈ Function.update mem.router.toolchains cd tcs cd := has
          rwa [Function.update_self] at has
        exact ⟨_, mem_acting, rfl, tc, new, is⟩
      · have connected : Function.update mem.connected (.sender cd) true party = true := owed.connected
        rw [Function.update_of_ne whose] at connected
        refine covered.fire (owed.before connected owed.live ?_ (List.forall_mem_nil _))
          (List.forall_mem_nil _) fun rt stays => ⟨stays.entry, stays.live⟩
        cases party with
        | sender other =>
          have differs : other ≠ cd := fun same => whose (same ▸ rfl)
          exact Function.update_of_ne differs _ _
        | receiver agent => rfl
    | connectReceiver agent tcs =>
      by_cases whose : party = .receiver agent
      · subst whose
        obtain ⟨tc, has, is⟩ := owed.has
        have new : tc ∈ tcs := by
          have has : tc ∈ Function.update mem.receivers agent tcs agent := has
          rwa [Function.update_self] at has
        exact ⟨_, mem_acting, rfl, tc, new, is⟩
      · have connected : Function.update mem.connected (.receiver agent) true party = true :=
          owed.connected
        rw [Function.update_of_ne whose] at connected
        refine covered.fire (owed.before connected owed.live ?_ (List.forall_mem_nil _))
          (List.forall_mem_nil _) fun rt stays => stays
        cases party with
        | sender cd => rfl
        | receiver other =>
          have differs : other ≠ agent := fun same => whose (same ▸ rfl)
          exact Function.update_of_ne differs _ _
    | disconnect other =>
      have live : mem.done party = false := by
        have live : Function.update mem.done other true party = false := owed.live
        by_cases same : party = other
        · rw [same, Function.update_self] at live
          exact absurd live nofun
        · rwa [Function.update_of_ne same] at live
      exact covered.fire (owed.before owed.connected live rfl (List.forall_mem_nil _))
        (List.forall_mem_nil _) fun rt stays => stays
    | update cd tcs =>
      exact covered.fire (owed.before owed.connected owed.live rfl (List.forall_mem_nil _))
        (List.forall_mem_nil _) fun rt stays => stays
    | route tc =>
      refine covered.fire (owed.before owed.connected owed.live ?_ (List.forall_mem_nil _))
        (List.forall_mem_nil _) fun rt stays => stays.ensure sound.kept _
      cases party with
      | sender cd => exact congrFun (Router.ensure_toolchains _) cd
      | receiver agent => rfl
    | @added _ other =>
      refine covered.fire (owed.before owed.connected owed.live ?_ (List.forall_mem_singleton.mpr rfl))
        (List.forall_mem_singleton.mpr fun ⟨_, tc, member, _⟩ => absurd member nofun) fun rt stays => ?_
      · cases other <;> cases party <;> rfl
      · cases other <;> exact ⟨stays.entry, stays.live⟩
    | router act =>
      rcases owed_act act ok owed with before | ⟨proc, member, covers⟩
      · refine exists_mem_fire (covered party hash before)
          (covers_act act sound.kept owed.live ok.lookups) fun proc member covers => ?_
        refine covers.mono fun rt is stays => stays.act act sound.kept (fun proc member rt is => ?_)
          fun canceller acts cancelled => ?_
        · exact sound.there (mem_of_acting member) is
        · -- the party itself drops the route, although it keeps a toolchain of this hash
          obtain ⟨cd, old, tcs, rfl, rfl, none⟩ := ok.cancels canceller acts rt cancelled proc
            (mem_of_rest member) party is owed.live
          rcases replaces_act act _ acts cd tcs rfl with ⟨after, there, replaced⟩ | last
          · obtain ⟨tc, new, same⟩ :=
              owed.keeps after (Multiset.mem_add.mpr (.inl there)) cd tcs replaced rfl
            exact none tc new (same.trans (sound.kept.own _ _ stays.entry).symm)
          · rw [last] at acts
            simp at acts
      · exact ⟨proc, mem_of_acting member, covers⟩

/-! ### Quiet states -/

theorem Quiet.notMem (quiet : Quiet md5 config) {mem' : Shared}
    {left : List RouterProc} (rule : Rule md5 .internal config.mem [proc] mem' left) :
    proc ∉ config.procs := by
  intro member
  obtain ⟨next, step⟩ := Step.exists_of_le (Multiset.singleton_le.mpr member) rule
  exact quiet _ _ step rfl

theorem exists_acting (rule : Rule md5 .internal mem acting mem' left) : ∃ proc, acting = [proc] := by
  cases rule with
  | added => exact ⟨_, rfl⟩
  | router act => cases act <;> exact ⟨_, rfl⟩

theorem exists_rule_of_locks {mem : Shared} {side : Side}
    (is : locks proc = some side) : ∃ mem' left, Rule md5 .internal mem [proc] mem' left := by
  cases proc with
  | attaching party tcs serve =>
    cases tcs with
    | nil =>
      cases serve with
      | true => exact ⟨_, _, .added⟩
      | false => exact ⟨_, _, .router .unlock⟩
    | cons tc tcs => exact ⟨_, _, .router .lookup⟩
  | found party rt tcs serve => exact ⟨_, _, .router .attach⟩
  | dropping cd old tcs =>
    cases old with
    | nil => exact ⟨_, _, .router .update⟩
    | cons oldTc old =>
      cases exists_ : stillExists tcs oldTc with
      | true => exact ⟨_, _, .router (.keep exists_)⟩
      | false => exact ⟨_, _, .router (.drop exists_)⟩
  | cancelling cd rt old tcs => exact ⟨_, _, .router .cancel⟩
  | _ => exact absurd is nofun

theorem Quiet.locks_eq_none (quiet : Quiet md5 config)
    (member : proc ∈ config.procs) : locks proc = none := by
  cases is : locks proc with
  | none => rfl
  | some side =>
    obtain ⟨mem', left, rule⟩ := @exists_rule_of_locks md5 proc config.mem side is
    exact absurd member (quiet.notMem rule)

theorem Quiet.mutex_eq_false (quiet : Quiet md5 config) (sound : Sound config) (party : Party) :
    config.mem.router.mutex party = false := by
  have nobody : total (tally locks (sideOf party)) config.procs = 0 :=
    total_eq_zero fun proc member => tally_eq_zero (quiet.locks_eq_none member) _
  rw [← sound.lockers, mutex_side] at nobody
  exact Bool.toNat_eq_zero.mp nobody

theorem locks_of_replaces {change : ConsumerdId × List Toolchain}
    (is : replaces proc = some change) : locks proc = some .senders := by
  cases proc with
  | dropping | cancelling => rfl
  | _ => exact absurd is nofun

theorem sound_covered (reach : Reach (Acting (Rule md5)) (Orderly md5) initial config) :
    Sound config ∧ Covered md5 config := by
  refine reach.invariant (fun config => Sound config ∧ Covered md5 config) ⟨sound_initial, ?_⟩ ?_
  · exact fun party hash owed => absurd owed.connected Bool.false_ne_true
  · rintro config label next ⟨sound, covered⟩ ok step
    exact ⟨sound_step sound step.ofActing, covered_step sound covered ok step⟩

theorem Quiet.keepsRoutes (quiet : Quiet md5 config) (sound : Sound config)
    (covered : Covered md5 config) (connected : config.mem.connected party = true)
    (live : config.mem.done party = false) {tc : Toolchain}
    (has : tc ∈ config.mem.toolchains party) : ∃ rt,
      config.mem.router.routes (tcHash md5 tc) = some rt ∧
      (config.mem.router.route rt).closed = false ∧ .attached party rt ∈ config.procs := by
  have owed : Owed md5 config party (tcHash md5 tc) := by
    refine ⟨connected, live, ⟨tc, has, rfl⟩, fun proc member cd tcs is => ?_⟩
    exact absurd ((quiet.locks_eq_none member).symm.trans (locks_of_replaces is)) nofun
  obtain ⟨proc, member, covers⟩ := covered party _ owed
  cases proc with
  | attached other rt =>
    obtain ⟨rfl, stays⟩ := covers
    exact ⟨rt, stays.entry, sound.kept.isOpen _ _ stays.entry, member⟩
  | add other tcs =>
    have free := quiet.mutex_eq_false sound other
    exact absurd member (quiet.notMem (.router (.lock free)))
  | attaching | found => exact absurd (quiet.locks_eq_none member) nofun
  | _ => exact covers.elim

/-- **Nobody loses a route**, in every run in which no route is cancelled while somebody else uses it,
nobody is given a route that is cancelled already, and the new toolchains of an update are those that
its deferred calls attach. -/
theorem keepsRoutes_of_orderly (reach : Reach (Acting (Rule md5)) (Orderly md5) initial config) :
    KeepsRoutes md5 config := by
  intro quiet party connected live tc has
  obtain ⟨sound, covered⟩ := sound_covered reach
  exact quiet.keepsRoutes sound covered connected live has

/-- A goroutine that waits for somebody else. -/
def Waits (mem : Shared) : RouterProc → Prop
  | .attached (.sender cd) _ => mem.done (.sender cd) = false
  | .attached (.receiver agent) rt =>
    mem.done (.receiver agent) = false ∧ (mem.router.route rt).closed = false
  | .closer rt => (mem.router.route rt).cancelled = false
  | _ => False

theorem not_rule_of_waits
    (waits : ∀ proc ∈ acting, Waits mem proc) : ¬ Rule md5 .internal mem acting mem' left := by
  intro rule
  cases rule with
  | added => exact waits _ List.mem_cons_self
  | router act =>
    cases act with
    | @partyDone _ party rt isDone =>
      cases party with
      | sender cd => exact absurd ((waits _ List.mem_cons_self).symm.trans isDone) nofun
      | receiver agent => exact absurd ((waits _ List.mem_cons_self).1.symm.trans isDone) nofun
    | channelClosed isClosed =>
      exact absurd ((waits _ List.mem_cons_self).2.symm.trans isClosed) nofun
    | close isCancelled =>
      exact absurd ((waits _ List.mem_cons_self).symm.trans isCancelled) nofun
    | _ => exact waits _ List.mem_cons_self

theorem quiet_of_waits (waits : ∀ proc ∈ config.procs, Waits config.mem proc) :
    Quiet md5 config := by
  rintro event next step rfl
  obtain ⟨acting, mem', left, there, rule⟩ := step.exists_rule
  exact not_rule_of_waits (fun proc member => waits proc (there proc member)) rule

end Runs

/-! ### A run -/

/-- Goroutines about whose steps nothing is assumed. -/
def plain : RouterProc → Bool
  | .attaching _ (_ :: _) _ | .cancelling .. | .unused .. | .dropping _ [] _ => false
  | _ => true

theorem orderly_of_plain {md5 : GoString → GoString} {config : State} {event : Event}
    {acting : List RouterProc} (all : acting.all plain = true) :
    Orderly md5 config (event, acting) := by
  rw [List.all_eq_true] at all
  refine ⟨?_, fun proc member rt is => ?_, ?_⟩
  · rintro party tc tcs serve rfl
    exact absurd (all _ List.mem_cons_self) nofun
  · cases proc with
    | cancelling | unused => exact absurd (all _ member) nofun
    | _ => exact absurd is nofun
  · rintro cd tcs rfl
    exact absurd (all _ List.mem_cons_self) nofun

theorem orderly_lookup {md5 : GoString → GoString} {config : State} {event : Event}
    {party : Party} {tc : Toolchain} {tcs : List Toolchain} {serve : Bool}
    (live : ∀ rt, config.mem.router.routes (tcHash md5 tc) = some rt →
      (config.mem.router.route rt).cancelled = false) :
    Orderly md5 config (event, [.attaching party (tc :: tcs) serve]) := by
  refine ⟨fun _ _ _ _ is => ?_, fun proc member rt is => ?_, fun _ _ is => absurd is (by simp)⟩
  · cases is
    exact live
  · obtain rfl := List.mem_singleton.mp member
    exact absurd is nofun

def clang : Toolchain :=
  ⟨2, 1, bytes "/usr/bin/clang", bytes "amd64", bytes "12", false, false⟩

theorem attached_run {allowed : State → Event × List RouterProc → Prop}
    (orderly : ∀ config label, Orderly id config label → allowed config label) :
    ∃ mem, Reach (Acting (Rule id)) allowed initial
        (.ofList mem [.attached (.receiver 0) 0, .attached (.sender 0) 0, .closer 0]) ∧
      mem.router.sendersMutex = false ∧ mem.router.toolchains 0 = [clang] ∧
      mem.router.routes = Function.update (fun _ => none) (tcHash id clang) (some 0) ∧
      mem.router.route 0 = ⟨tcHash id clang, false, false, 1, 1⟩ ∧ mem.receivers 0 = [clang] ∧
      mem.connected (.receiver 0) = true ∧ mem.done = (fun _ => false) ∧
      mem.added (.sender 0) = true := by
  have h0 : Reach (Acting (Rule id)) allowed initial (.ofList initial.mem []) := .start
  have h1 := h0.nextActing [] [] (.connectSender 0 [clang] rfl)
    (orderly _ _ (orderly_of_plain rfl)) (.refl _)
  have h2 := h1.nextActing [.add (.sender 0) [clang]] [] (.router (.lock rfl))
    (orderly _ _ (orderly_of_plain rfl)) (.refl _)
  have h3 := h2.nextActing [.attaching (.sender 0) [clang] true] [] (.router .lookup)
    (orderly _ _ (orderly_lookup nofun)) (.refl _)
  have h4 := h3.nextActing [.found (.sender 0) 0 [] true] [.closer 0] (.router .attach)
    (orderly _ _ (orderly_of_plain rfl)) (.refl _)
  have h5 := h4.nextActing [.attaching (.sender 0) [] true] [.attached (.sender 0) 0, .closer 0]
    .added (orderly _ _ (orderly_of_plain rfl)) (.refl _)
  have h6 := h5.nextActing [] _ (.connectReceiver 0 [clang] rfl)
    (orderly _ _ (orderly_of_plain rfl)) (.refl _)
  have h7 := h6.nextActing [.add (.receiver 0) [clang]] _ (.router (.lock rfl))
    (orderly _ _ (orderly_of_plain rfl)) (.refl _)
  have h8 := h7.nextActing [.attaching (.receiver 0) [clang] true] _ (.router .lookup)
    (orderly _ _ (orderly_lookup fun rt is => by cases is; rfl)) (.refl _)
  have h9 := h8.nextActing [.found (.receiver 0) 0 [] true] _ (.router .attach)
    (orderly _ _ (orderly_of_plain rfl)) (.refl _)
  have h10 := h9.nextActing [.attaching (.receiver 0) [] true]
    [.attached (.receiver 0) 0, .attached (.sender 0) 0, .closer 0] .added
    (orderly _ _ (orderly_of_plain rfl)) (.refl _)
  exact ⟨_, h10, rfl, rfl, rfl, rfl, rfl, rfl, rfl, rfl⟩

/-- **A consumerd drops a toolchain, and an agent loses its route.** The route is cancelled and closed
under the agent, whose goroutine leaves it; nothing attaches the agent to another one. -/
theorem drop_takes_route_away : ∃ config,
    Reach (Acting (Rule id)) (fun _ _ => True) initial config ∧ ¬ KeepsRoutes id config := by
  obtain ⟨mem, h0, unlocked, toolchains, routes, route, receivers, connected, nobody, added⟩ :=
    @attached_run (fun _ _ => True) fun _ _ _ => trivial
  have h1 := h0.nextActing [] _ (.update 0 [] added) trivial (.refl _)
  have h2 := h1.nextActing [.update 0 []] _ (.router (.updateLock unlocked)) trivial (.refl _)
  rw [toolchains] at h2
  have entry : mem.router.routes (tcHash id clang) = some 0 := by rw [routes, Function.update_self]
  have drops : RouterAct id mem.done none (mem.router.setMutex true (.sender 0))
      [.dropping 0 [clang] []] (mem.router.setMutex true (.sender 0)) [.cancelling 0 0 [] []] := by
    have entry : (mem.router.setMutex true (.sender 0)).routes (tcHash id clang) = some 0 := entry
    have act := @RouterAct.drop id mem.done (mem.router.setMutex true (.sender 0)) 0 clang [] [] rfl
    rwa [Router.ensure_of_some entry, Router.routeFor_of_some entry,
      Router.spawned_of_some entry] at act
  have h3 := h2.nextActing [.dropping 0 [clang] []] _ (.router drops) trivial (.refl _)
  have h4 := h3.nextActing [.cancelling 0 0 [] []] _ (.router .cancel) trivial (.refl _)
  have h5 := h4.nextActing [.dropping 0 [] []] _ (.router .update) trivial (.refl _)
  have h6 := h5.nextActing [.attaching (.sender 0) [] false] _ (.router .unlock) trivial (.refl _)
  have cancelled : (((mem.router.setMutex true (.sender 0)).cancel 0).route 0).cancelled = true := by
    simp [Router.cancel, Router.setRoute]
  have h7 := h6.nextActing [.closer 0] [.attached (.receiver 0) 0, .attached (.sender 0) 0]
    (.router (.close cancelled)) trivial (by decide)
  have h8 := h7.nextActing [.attached (.receiver 0) 0] _
    (.router (.channelClosed (by simp [Router.close, Router.setRoute]))) trivial (.refl _)
  have h9 := h8.nextActing [.leaving (.receiver 0) 0] _
    (.router (.decLast (by
      simp [Router.refCount, Router.close, Router.cancel, Router.setRoute, Router.setMutex, route])))
    trivial (.refl _)
  have h10 := h9.nextActing [.unused (.receiver 0) 0] _
    (.router (.stillUsed (by
      simp [Router.otherRefCount, Router.addRefCount, Router.close, Router.cancel, Router.setRoute,
        Router.setMutex, route]))) trivial (.refl _)
  refine ⟨_, h10, fun keeps => ?_⟩
  have free : ∀ party, mem.done party = false := fun party => by rw [nobody]
  have has : clang ∈ mem.receivers 0 := by rw [receivers]; exact List.mem_cons_self
  obtain ⟨rt, there, -⟩ := keeps (quiet_of_waits (List.forall_mem_singleton.mpr (free _)))
    (.receiver 0) connected (free _) clang has
  have hash : (((mem.router.setMutex true (.sender 0)).cancel 0).route 0).hash = tcHash id clang := by
    simp [Router.cancel, Router.setRoute, Router.setMutex, route]
  have gone : Function.update mem.router.routes
      (((mem.router.setMutex true (.sender 0)).cancel 0).route 0).hash none (tcHash id clang) =
      none := by
    rw [hash, Function.update_self]
  cases gone.symm.trans there

/-- A consumerd and an agent share a toolchain, and both are attached to its route. -/
theorem keepsRoutes_attached : ∃ config, Reach (Acting (Rule id)) (Orderly id) initial config ∧
    Quiet id config ∧ config.mem.connected (.receiver 0) = true ∧
    config.mem.toolchains (.receiver 0) = [clang] ∧ KeepsRoutes id config := by
  obtain ⟨mem, reach, -, -, -, route, receivers, connected, nobody, -⟩ :=
    @attached_run (Orderly id) fun _ _ orderly => orderly
  refine ⟨_, reach, quiet_of_waits ?_, connected, receivers, keepsRoutes_of_orderly reach⟩
  have free : ∀ party, mem.done party = false := fun party => by rw [nobody]
  refine List.forall_mem_cons.mpr ⟨⟨free _, ?_⟩, List.forall_mem_cons.mpr ⟨free _,
    List.forall_mem_singleton.mpr ?_⟩⟩
  · exact congrArg Route.closed route
  · exact congrArg Route.cancelled route

end Kubecc.Scheduler.Routes
