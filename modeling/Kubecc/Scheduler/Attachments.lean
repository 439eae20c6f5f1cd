/-
**The receivers of a route, and the requests on offer.**

`Route` tests the count of receivers of its route once, then offers the request on the route's
channel until somebody takes it or the stream of the requester ends. The count is that of the
goroutines of `attachReceiver`, each of which counts until it has detached.

* `rxRefCount_eq` — the count of a route is the number of these goroutines, in every run.
* `served_of_attended` — in every run in which an agent leaves only when it is handed no request and
  no request on offer depends on it alone, no request goes to an agent that has left, and the count
  is tested only while nobody is about to detach, a request on offer has a connected agent attached
  to its route, and without one `Route` returns `ErrNoAgents`.
* `offer_outlives_agent` — the only agent leaves while a request is on offer, and the request stays.
-/

import Kubecc.Scheduler.Channels

namespace Kubecc.Scheduler

open Kubecc.Lib Kubecc.Go Kubecc.Types

/-! ### The count of receivers -/

/-- The route on which this goroutine counts as a receiver. -/
def RouterProc.receivesFrom : RouterProc → Option RouteId
  | .attached (.receiver _) rt => some rt
  | .holding _ rt _ => some rt
  | .leaving (.receiver _) rt => some rt
  | _ => none

def Proc.receivesFrom : Proc → Option RouteId
  | .router proc => proc.receivesFrom
  | _ => none

def Proc.knows : Proc → Option RouteId
  | .router proc => proc.knows
  | .call _ phase => phase.usedRoute
  | _ => none

/-- **The count of a route is the number of its receivers**, and goroutines know only of routes that
were made. -/
structure Counted (config : State) : Prop where
  count : ∀ rt,
    (config.mem.router.route rt).rxRefCount = total (tally Proc.receivesFrom rt) config.procs
  made : ∀ proc ∈ config.procs, ∀ rt, proc.knows = some rt → rt < config.mem.router.nextRoute

section Count

variable {md5 : GoString → GoString} {done : Party → Bool} {label : Option RouteId} {r r' : Router}

theorem Router.ensure_rxRefCount (hash : GoString) (new : (r.route r.nextRoute).rxRefCount = 0)
    (rt : RouteId) : ((r.ensure hash).route rt).rxRefCount = (r.route rt).rxRefCount := by
  unfold Router.ensure
  split
  · rfl
  · by_cases same : rt = r.nextRoute
    · subst same
      simp [newRoute, new]
    · simp [Function.update_of_ne same]

theorem Router.cancel_rxRefCount (rt other : RouteId) :
    ((r.cancel rt).route other).rxRefCount = (r.route other).rxRefCount := by
  unfold Router.cancel Router.setRoute
  by_cases same : other = rt
  · subst same
    simp
  · simp [Function.update_of_ne same]

theorem Router.close_rxRefCount (rt other : RouteId) :
    ((r.close rt).route other).rxRefCount = (r.route other).rxRefCount := by
  unfold Router.close Router.setRoute
  by_cases same : other = rt
  · subst same
    simp
  · simp [Function.update_of_ne same]

theorem Router.addRefCount_rxRefCount (rt other : RouteId) (change : Int) (party : Party) :
    ((r.addRefCount rt change party).route other).rxRefCount = (r.route other).rxRefCount +
      if rt = other then (match party with | .sender _ => 0 | .receiver _ => change) else 0 := by
  unfold Router.addRefCount Router.setRoute
  by_cases same : other = rt
  · subst same
    cases party <;> simp
  · cases party <;> simp [Function.update_of_ne same, Ne.symm same]

theorem rxRefCount_act {acting left : List RouterProc}
    (act : RouterAct md5 done label r acting r' left) (new : (r.route r.nextRoute).rxRefCount = 0)
    (rt : RouteId) :
    (r'.route rt).rxRefCount + total (tally RouterProc.receivesFrom rt) ↑acting =
      (r.route rt).rxRefCount + total (tally RouterProc.receivesFrom rt) ↑left := by
  have nothing : ∀ hash, total (tally RouterProc.receivesFrom rt) ↑(r.spawned hash) = 0 :=
    fun hash => total_tally_eq_zero (Router.forall_mem_spawned (fun _ => rfl) hash) rt
  cases act with
  | lookup | drop =>
    rw [Router.ensure_rxRefCount _ new]
    simp [nothing, tally, RouterProc.receivesFrom]
  | @attach _ party rt' | @decLast _ party rt' | @dec _ party rt' =>
    rw [Router.addRefCount_rxRefCount]
    cases party <;> by_cases same : rt' = rt <;> simp [tally, RouterProc.receivesFrom, same]
  | cancelUnused | cancel =>
    rw [Router.cancel_rxRefCount]
    rfl
  | close =>
    rw [Router.close_rxRefCount]
    rfl
  | @partyDone _ party rt' => cases party <;> rfl
  | _ => simp [tally, RouterProc.receivesFrom]

variable {event : Event} {mem mem' : Mem} {acting left : List Proc}

theorem rxRefCount_rule (rule : Rule md5 event mem acting mem' left)
    (new : (mem.router.route mem.router.nextRoute).rxRefCount = 0) (rt : RouteId) :
    (mem'.router.route rt).rxRefCount + total (tally Proc.receivesFrom rt) ↑acting =
      (mem.router.route rt).rxRefCount + total (tally Proc.receivesFrom rt) ↑left := by
  have inert : (mem'.router.route rt).rxRefCount = (mem.router.route rt).rxRefCount →
      (∀ proc ∈ acting, proc.receivesFrom = none) → (∀ proc ∈ left, proc.receivesFrom = none) →
      (mem'.router.route rt).rxRefCount + total (tally Proc.receivesFrom rt) ↑acting =
        (mem.router.route rt).rxRefCount + total (tally Proc.receivesFrom rt) ↑left :=
    fun same acts leaves => by rw [same, total_tally_eq_zero acts, total_tally_eq_zero leaves]
  cases rule with
  | env act =>
    cases act <;> exact inert rfl (eq_none_of_all rfl)
      (eq_none_of_all rfl)
  | stream act => cases act <;> simp [tally, Proc.receivesFrom, RouterProc.receivesFrom]
  | router act =>
    rw [total_coe_map, total_coe_map]
    exact rxRefCount_act act new rt
  | call act =>
    cases act with
    | lookup =>
      refine inert (Router.ensure_rxRefCount _ new rt) (List.forall_mem_singleton.mpr rfl)
        (List.forall_mem_cons.mpr ⟨rfl, List.forall_mem_map.mpr ?_⟩)
      exact Router.forall_mem_spawned (fun _ => rfl) _
    | failedNonexistent =>
      exact inert rfl (List.forall_mem_singleton.mpr rfl) (forall_mem_back (fun _ => rfl) _)
    | _ => exact inert rfl (List.forall_mem_singleton.mpr rfl) (List.forall_mem_singleton.mpr rfl)
  | exchange act =>
    cases act with
    | @receive _ call =>
      have back : total (tally Proc.receivesFrom rt) ↑call.back = 0 :=
        total_tally_eq_zero (forall_mem_back (fun _ => rfl) call) rt
      simp [tally, Proc.receivesFrom, RouterProc.receivesFrom, back]
    | handOver => simp [tally, Proc.receivesFrom, RouterProc.receivesFrom]
    | announce =>
      exact inert rfl (eq_none_of_all rfl)
        (List.forall_mem_cons.mpr ⟨rfl, forall_mem_back (fun _ => rfl) _⟩)
    | _ => exact inert rfl (eq_none_of_all rfl) (eq_none_of_all rfl)
  | token act => exact inert rfl (by simp [Proc.receivesFrom]) (by simp [Proc.receivesFrom])
  | send act | cleanup act =>
    cases act <;> exact inert rfl (eq_none_of_all rfl) (eq_none_of_all rfl)
  | queue act =>
    cases act with
    | answer | answerFails =>
      exact inert rfl (List.forall_mem_singleton.mpr rfl)
        (List.forall_mem_cons.mpr ⟨rfl, forall_mem_caching (fun _ _ => rfl) _ _ _⟩)
    | _ => exact inert rfl (eq_none_of_all rfl) (eq_none_of_all rfl)

theorem nextRoute_rule (rule : Rule md5 event mem acting mem' left) :
    mem.router.nextRoute ≤ mem'.router.nextRoute := by
  cases rule with
  | env act => cases act <;> exact le_rfl
  | stream act => cases act <;> exact le_rfl
  | router act => exact nextRoute_act act
  | call act =>
    cases act with
    | lookup => exact Router.le_nextRoute_ensure _
    | _ => exact le_rfl
  | exchange act => cases act <;> exact le_rfl
  | token act => exact le_rfl
  | send act => cases act <;> exact le_rfl
  | cleanup act => cases act <;> exact le_rfl
  | queue act => cases act <;> exact le_rfl

theorem knows_rule (rule : Rule md5 event mem acting mem' left) (kept : mem.router.Kept)
    (made : ∀ proc ∈ acting, ∀ rt, proc.knows = some rt → rt < mem.router.nextRoute) :
    ∀ proc ∈ left, ∀ rt, proc.knows = some rt → rt < mem'.router.nextRoute := by
  cases rule with
  | env act =>
    cases act <;>
      exact forall_named_of_none (by simp [Proc.knows, RouterProc.knows, CallPhase.usedRoute])
  | stream act | send act | cleanup act =>
    cases act <;> exact forall_named_of_none (eq_none_of_all rfl)
  | router act =>
    rw [List.forall_mem_map] at made ⊢
    exact knows_act act kept made
  | call act =>
    cases act with
    | lookup =>
      refine List.forall_mem_cons.mpr ⟨fun rt is => ?_, List.forall_mem_map.mpr ?_⟩
      · rw [← Option.some.inj is]
        exact Router.routeFor_lt kept _
      · exact Router.spawned_knows _
    | failedNonexistent => exact forall_named_of_none (forall_mem_back (fun _ => rfl) _)
    | noCache | pullHit | pullMiss | pullFails | hitNonexistent | canSend | sendClosed =>
      exact List.forall_mem_singleton.mpr fun rt is => made _ List.mem_cons_self rt is
    | _ => exact forall_named_of_none (List.forall_mem_singleton.mpr rfl)
  | exchange act =>
    cases act with
    | receive =>
      refine List.forall_mem_cons.mpr ⟨fun rt is => made _ List.mem_cons_self rt is, ?_⟩
      exact forall_named_of_none (forall_mem_back (fun _ => rfl) _)
    | handOver =>
      refine List.forall_mem_cons.mpr ⟨fun rt is => made _ List.mem_cons_self rt is, ?_⟩
      exact forall_named_of_none (List.forall_mem_singleton.mpr rfl)
    | announce =>
      exact forall_named_of_none (List.forall_mem_cons.mpr ⟨rfl, forall_mem_back (fun _ => rfl) _⟩)
    | _ => exact forall_named_of_none (eq_none_of_all rfl)
  | token act => exact forall_named_of_none (List.forall_mem_map.mpr fun _ _ => rfl)
  | queue act =>
    cases act with
    | answer | answerFails =>
      exact forall_named_of_none
        (List.forall_mem_cons.mpr ⟨rfl, forall_mem_caching (fun _ _ => rfl) _ _ _⟩)
    | _ => exact forall_named_of_none (by simp [Proc.knows, CallPhase.usedRoute])

end Count

section Counting

variable {md5 : GoString → GoString} {config next : State} {event : Event}

theorem receivesFrom_cases {proc : Proc} {rt : RouteId} (is : proc.receivesFrom = some rt) :
    ∃ agent, proc = .router (.attached (.receiver agent) rt) ∨
      (∃ req, proc = .router (.holding agent rt req)) ∨
      proc = .router (.leaving (.receiver agent) rt) := by
  cases proc with
  | router proc =>
    cases proc with
    | attached party rt' =>
      cases party with
      | receiver agent => exact ⟨agent, .inl (by rw [Option.some.inj is])⟩
      | sender => exact absurd is nofun
    | leaving party rt' =>
      cases party with
      | receiver agent => exact ⟨agent, .inr (.inr (by rw [Option.some.inj is]))⟩
      | sender => exact absurd is nofun
    | holding agent rt' req => exact ⟨agent, .inr (.inl ⟨req, by rw [Option.some.inj is]⟩)⟩
    | _ => exact absurd is nofun
  | _ => exact absurd is nofun

theorem knows_of_receivesFrom {proc : Proc} {rt : RouteId} (is : proc.receivesFrom = some rt) :
    proc.knows = some rt := by
  obtain ⟨agent, rfl | ⟨req, rfl⟩ | rfl⟩ := receivesFrom_cases is <;> rfl

theorem Counted.new (counted : Counted config) :
    (config.mem.router.route config.mem.router.nextRoute).rxRefCount = 0 := by
  rw [counted.count, total_eq_zero, Nat.cast_zero]
  refine fun proc member => if_neg fun is => ?_
  exact Nat.lt_irrefl _ (counted.made proc member _ (knows_of_receivesFrom is))

theorem counted_step (kept : config.mem.router.Kept) (counted : Counted config)
    (step : Step (Act md5) config event next) : Counted next := by
  cases step with
  | @fire _ mem mem' acting left rest fires =>
    constructor
    · intro rt
      have change := rxRefCount_rule fires.2 counted.new rt
      have before : (mem.router.route rt).rxRefCount = _ := counted.count rt
      rw [total_add] at before ⊢
      show (mem'.router.route rt).rxRefCount = _
      omega
    · refine forall_mem_fire counted.made (knows_rule fires.2 kept) fun proc _ old rt is => ?_
      exact Nat.lt_of_lt_of_le (old rt is) (nextRoute_rule fires.2)

theorem counted_initial : Counted initial := by
  refine ⟨fun rt => rfl, fun proc member rt is => ?_⟩
  obtain rfl : proc = .queue .idle := by simpa [initial, Config.ofList] using member
  cases is

/-- **The count of a route is the number of its receivers**, in every run. -/
theorem rxRefCount_eq {allowed : State → Event → Prop}
    (reach : Reach (Act md5) allowed initial config) (rt : RouteId) :
    (config.mem.router.route rt).rxRefCount = total (tally Proc.receivesFrom rt) config.procs := by
  have both : config.mem.router.Kept ∧ Counted config := by
    refine reach.invariant (fun config => config.mem.router.Kept ∧ Counted config)
      ⟨routesOpen_initial.kept, counted_initial⟩ ?_
    rintro config event next ⟨kept, counted⟩ _ step
    refine ⟨?_, counted_step kept counted step⟩
    cases step with
    | fire rest fires => exact kept_rule fires.2 kept
  exact both.2.count rt

theorem rxRefCount_offered : ∃ config : State, (config.mem.router.route 0).rxRefCount = 1 ∧
    (config.mem.router.route 0).rxRefCount = total (tally Proc.receivesFrom 0) config.procs := by
  obtain ⟨mem, reach, -, -, -, -, -, -, -, -, route, -⟩ :=
    @offering_run (fun _ _ => True) (fun _ _ _ => trivial) fun _ _ _ _ _ => trivial
  exact ⟨_, congrArg Route.rxRefCount route, rxRefCount_eq reach 0⟩

end Counting

/-! ### Requests on offer -/

structure Mem.Connected (mem : Mem) (agent : AgentId) : Prop where
  connected : mem.connected (.receiver agent) = true
  live : mem.done (.receiver agent) = false

/-- The agent and the route of a goroutine of `attachReceiver`, until it leaves. -/
def Proc.serves : Proc → Option (AgentId × RouteId)
  | .router (.attached (.receiver taker) rt) => some (taker, rt)
  | .router (.holding taker rt _) => some (taker, rt)
  | _ => none

structure Receives (config : State) (agent : AgentId) (rt : RouteId) : Prop where
  connected : config.mem.Connected agent
  attached : ∃ proc ∈ config.procs, proc.serves = some (agent, rt)

/-- A detach step is pending: the goroutine of an attachment has to leave, or is leaving. -/
def DetachPending (mem : Mem) : Proc → Prop
  | .router (.attached (.sender cd) _) => mem.done (.sender cd) = true
  | .router (.attached (.receiver agent) rt) =>
    mem.done (.receiver agent) = true ∨ (mem.router.route rt).closed = true
  | .router (.leaving _ _) | .router (.unused _ _) => True
  | _ => False

/-- The call of `Route` is blocked: it offers its request on an open channel, and the stream of the
requester goes on. -/
structure Blocked (config : State) (call : Call) (rt : RouteId) : Prop where
  offers : .call call (.offer rt) ∈ config.procs
  isOpen : (config.mem.router.route rt).closed = false
  live : config.mem.done (.sender call.consumerd) = false

/-- **A request waits only where somebody can take it**: with no detach step pending, a call of
`Route` that is blocked has a connected agent attached to its route; and when there is none, all that
a call can do that is about to test the count is to return `ErrNoAgents`. -/
structure Served (md5 : GoString → GoString) (config : State) : Prop where
  waits : (∀ proc ∈ config.procs, ¬ DetachPending config.mem proc) →
    ∀ call rt, Blocked config call rt → ∃ agent, Receives config agent rt
  fails : (∀ proc ∈ config.procs, ¬ DetachPending config.mem proc) →
    ∀ call rt, .call call (.check rt) ∈ config.procs → (¬ ∃ agent, Receives config agent rt) →
    ∀ event mem' left, Rule md5 event config.mem [.call call (.check rt)] mem' left ↔
      event = .internal ∧ mem' = config.mem ∧ left = [.call call .failed]

/-- **The runs in which requests are attended.** -/
structure Attended (config : State) (label : Event × List Proc) : Prop where
  /-- An agent leaves only when it is handed no request, and every request on offer can be taken by
  another one. -/
  leaves : ∀ agent, label.1 = .disconnect (.receiver agent) →
    (∀ rt req, .router (.holding agent rt req) ∉ config.procs) ∧
      ∀ call rt, Blocked config call rt → ∃ other, other ≠ agent ∧ Receives config other rt
  /-- No request is taken for an agent that has left. -/
  takes : ∀ agent req, label.1 = .receive agent req → config.mem.done (.receiver agent) = false
  /-- The count of a route is tested while none of its receivers is about to detach. -/
  tests : ∀ call rt, label.2 = [.call call (.check rt)] →
    ∀ proc ∈ config.procs, proc.receivesFrom = some rt → ¬ DetachPending config.mem proc

/-- The agent for whom a goroutine was started. -/
def RouterProc.agent : RouterProc → Option AgentId
  | .add (.receiver agent) _ | .attaching (.receiver agent) _ _ | .found (.receiver agent) _ _ _
  | .attached (.receiver agent) _ | .leaving (.receiver agent) _ | .holding agent _ _ => some agent
  | _ => none

/-- The agent of this goroutine has connected; and if it is handed a request, it is still there. -/
def AgentThere (mem : Mem) : Proc → Prop
  | .router (.holding agent _ _) => mem.Connected agent
  | .router proc => ∀ agent, proc.agent = some agent → mem.connected (.receiver agent) = true
  | _ => True

section Rules

variable {md5 : GoString → GoString} {event : Event} {mem mem' : Mem} {acting left : List Proc}
  {rt : RouteId}

theorem done_rule (rule : Rule md5 event mem acting mem' left) {party : Party}
    (live : mem.done party = false) (notThis : event ≠ .disconnect party) :
    mem'.done party = false := by
  by_contra isDone
  rcases (parties_rule rule party).2.1 (Bool.eq_true_of_not_eq_false isDone) with before | is
  · exact absurd (live.symm.trans before) Bool.false_ne_true
  · exact notThis is

theorem agentThere_act {done : Party → Bool} {label : Option RouteId} {router : Router}
    {acts lefts : List RouterProc} (act : RouterAct md5 done label mem.router acts router lefts)
    (there : ∀ proc ∈ acts, AgentThere mem (.router proc)) :
    ∀ proc ∈ lefts, AgentThere { mem with router := router } (.router proc) := by
  have new : ∀ hash, ∀ proc ∈ mem.router.spawned hash,
      AgentThere { mem with router := router } (.router proc) := fun hash =>
    Router.forall_mem_spawned (fun rt agent is => absurd is nofun) hash
  cases act with
  | @lock _ party | @partyDone _ party =>
    refine List.forall_mem_singleton.mpr fun agent is => there _ List.mem_cons_self agent ?_
    cases party <;> exact is
  | channelClosed =>
    exact List.forall_mem_singleton.mpr fun agent is => there _ List.mem_cons_self agent is
  | @lookup _ party =>
    refine List.forall_mem_cons.mpr ⟨fun agent is => there _ List.mem_cons_self agent ?_, new _⟩
    cases party <;> exact is
  | @attach _ party =>
    refine List.forall_mem_cons.mpr ⟨fun agent is => there _ List.mem_cons_self agent ?_,
      List.forall_mem_singleton.mpr fun agent is => there _ List.mem_cons_self agent ?_⟩
    · cases party <;> exact is
    · cases party <;> exact is
  | drop => exact List.forall_mem_cons.mpr ⟨fun agent is => absurd is nofun, new _⟩
  | unlock | dec | cancelUnused | stillUsed | close => exact List.forall_mem_nil _
  | decLast | updateLock | keep | cancel | update =>
    exact List.forall_mem_singleton.mpr fun agent is => absurd is nofun

theorem agentThere_rule (rule : Rule md5 event mem acting mem' left)
    (takes : ∀ agent req, event = .receive agent req → mem.done (.receiver agent) = false)
    (there : ∀ proc ∈ acting, AgentThere mem proc) : ∀ proc ∈ left, AgentThere mem' proc := by
  cases rule with
  | env act =>
    cases act with
    | connectConsumerd | update => exact List.forall_mem_singleton.mpr fun agent is => absurd is nofun
    | connectAgent agent =>
      refine List.forall_mem_singleton.mpr fun other is => ?_
      rw [← Option.some.inj is]
      exact Function.update_self _ _ _
    | disconnect | cacheAvailable | cacheEvicts => exact List.forall_mem_nil _
    | request | response => exact List.forall_mem_singleton.mpr trivial
  | stream act => cases act <;> simp [AgentThere]
  | router act =>
    rw [List.forall_mem_map] at there ⊢
    exact agentThere_act act there
  | call act =>
    cases act with
    | lookup =>
      refine List.forall_mem_cons.mpr ⟨trivial, List.forall_mem_map.mpr ?_⟩
      exact Router.forall_mem_spawned (fun rt agent is => absurd is nofun) _
    | failedNonexistent => exact forall_mem_back (fun _ => trivial) _
    | _ => exact List.forall_mem_singleton.mpr trivial
  | exchange act =>
    cases act with
    | @receive _ call rt agent =>
      refine List.forall_mem_cons.mpr
        ⟨⟨?_, takes agent _ rfl⟩, forall_mem_back (fun _ => trivial) _⟩
      exact there (.router (.attached (.receiver agent) rt)) (by simp) agent rfl
    | handOver =>
      refine List.forall_mem_cons.mpr ⟨fun agent is => ?_, List.forall_mem_singleton.mpr trivial⟩
      rw [← Option.some.inj is]
      exact (there _ List.mem_cons_self).connected
    | announce => exact List.forall_mem_cons.mpr ⟨trivial, forall_mem_back (fun _ => trivial) _⟩
    | _ => simp [AgentThere]
  | token act => simp [AgentThere]
  | send act => cases act <;> simp [AgentThere]
  | cleanup act => cases act <;> simp [AgentThere]
  | queue act =>
    cases act with
    | answer | answerFails =>
      exact List.forall_mem_cons.mpr ⟨trivial, forall_mem_caching (fun _ _ => trivial) _ _ _⟩
    | _ => simp [AgentThere]

/-- A goroutine that serves a route goes on, unless its agent leaves or the route is closed. -/
theorem serves_rule (rule : Rule md5 event mem acting mem' left) {agent : AgentId}
    (live : mem.done (.receiver agent) = false) (isOpen : (mem.router.route rt).closed = false) :
    ∀ proc ∈ acting, proc.serves = some (agent, rt) →
      ∃ proc ∈ left, proc.serves = some (agent, rt) := by
  have none_serves : (∀ proc ∈ acting, proc.serves = none) → ∀ proc ∈ acting,
      proc.serves = some (agent, rt) → ∃ proc ∈ left, proc.serves = some (agent, rt) :=
    fun none proc member is => nomatch (none proc member).symm.trans is
  cases rule with
  | env act | stream act | call act | send act | cleanup act | queue act =>
    cases act <;> exact none_serves (eq_none_of_all rfl)
  | router act =>
    rw [List.forall_mem_map]
    cases act with
    | @partyDone _ party rt' isDone =>
      refine List.forall_mem_singleton.mpr fun is => ?_
      cases party with
      | sender => exact absurd is nofun
      | receiver other =>
        obtain ⟨rfl, rfl⟩ : other = agent ∧ rt' = rt := by simpa [Proc.serves] using is
        exact absurd (live.symm.trans isDone) Bool.false_ne_true
    | @channelClosed _ other rt' isClosed =>
      refine List.forall_mem_singleton.mpr fun is => ?_
      obtain ⟨rfl, rfl⟩ : other = agent ∧ rt' = rt := by simpa [Proc.serves] using is
      exact absurd (isOpen.symm.trans isClosed) Bool.false_ne_true
    | _ => exact List.forall_mem_singleton.mpr fun is => absurd is nofun
  | exchange act =>
    cases act with
    | receive =>
      refine List.forall_mem_cons.mpr ⟨fun is => absurd is nofun, ?_⟩
      exact List.forall_mem_singleton.mpr fun is => ⟨_, List.mem_cons_self, is⟩
    | handOver =>
      refine List.forall_mem_cons.mpr ⟨fun is => ⟨_, List.mem_cons_self, is⟩, ?_⟩
      exact List.forall_mem_singleton.mpr fun is => absurd is nofun
    | _ => exact none_serves (eq_none_of_all rfl)
  | token act => exact none_serves (by simp [Proc.serves])

theorem call_notMem_back (call other : Call) (phase : CallPhase) : .call other phase ∉ call.back :=
  fun member => forall_mem_back (P := fun proc => proc ≠ .call other phase) nofun call _ member rfl

theorem call_notMem_caching (cache : Cache) (inflight : InflightRequest) (resp : Response)
    (call : Call) (phase : CallPhase) : .call call phase ∉ caching cache inflight resp :=
  fun member => forall_mem_caching (P := fun proc => proc ≠ .call call phase) nofun cache inflight
    resp _ member rfl

theorem offer_rule (rule : Rule md5 event mem acting mem' left) {call : Call}
    (offers : .call call (.offer rt) ∈ left) :
    (acting = [.call call (.check rt)] ∧ mem' = mem ∧ (mem.router.route rt).rxRefCount ≠ 0) ∨
      (mem'.router.route rt).closed = true := by
  cases rule with
  | env act => cases act <;> simp at offers
  | stream act => cases act <;> simp at offers
  | router act => simp at offers
  | call act =>
    cases act with
    | lookup => simp at offers
    | failedNonexistent => exact absurd offers (call_notMem_back _ _ _)
    | canSend counted =>
      obtain ⟨rfl, rfl⟩ : _ ∧ _ := by simpa using offers
      exact .inl ⟨rfl, rfl, counted⟩
    | sendClosed isClosed =>
      obtain ⟨rfl, rfl⟩ : _ ∧ _ := by simpa using offers
      exact .inr isClosed
    | _ => simp at offers
  | exchange act => cases act <;> simp [call_notMem_back] at offers
  | token act => simp at offers
  | send act => cases act <;> simp at offers
  | cleanup act => cases act <;> simp at offers
  | queue act => cases act <;> simp [call_notMem_caching] at offers

theorem closed_of_closed_act {done : Party → Bool} {label : Option RouteId} {r r' : Router}
    {acts lefts : List RouterProc} (act : RouterAct md5 done label r acts r' lefts)
    (made : rt < r.nextRoute) (isClosed : (r.route rt).closed = true) :
    (r'.route rt).closed = true := by
  cases act with
  | lookup | drop => rwa [Router.ensure_route_of_lt _ made]
  | @close _ rt' =>
    by_cases same : rt = rt'
    · subst same
      simp [Router.close, Router.setRoute]
    · simpa [Router.close, Router.setRoute, Function.update_of_ne same] using isClosed
  | _ => simpa using isClosed

theorem closed_of_closed_rule (rule : Rule md5 event mem acting mem' left)
    (made : rt < mem.router.nextRoute) (isClosed : (mem.router.route rt).closed = true) :
    (mem'.router.route rt).closed = true := by
  cases rule with
  | env act => cases act <;> exact isClosed
  | stream act => cases act <;> simpa using isClosed
  | router act => exact closed_of_closed_act act made isClosed
  | call act =>
    cases act with
    | lookup => exact (congrArg Route.closed (Router.ensure_route_of_lt _ made)).trans isClosed
    | _ => exact isClosed
  | exchange act => cases act <;> exact isClosed
  | token act => exact isClosed
  | send act => cases act <;> exact isClosed
  | cleanup act => cases act <;> exact isClosed
  | queue act => cases act <;> exact isClosed

theorem check_rule {call : Call} (rule : Rule md5 event mem acting mem' left)
    (tests : acting = [.call call (.check rt)]) : event = .internal ∧ mem' = mem ∧
      ((mem.router.route rt).rxRefCount = 0 ∧ left = [.call call .failed] ∨
        (mem.router.route rt).rxRefCount ≠ 0 ∧ left = [.call call (.offer rt)]) := by
  cases rule with
  | env act => cases act <;> simp at tests
  | stream act => cases act <;> simp at tests
  | @router _ _ acts _ _ act => cases acts <;> simp at tests
  | call act =>
    cases act with
    | noAgents none =>
      obtain ⟨rfl, rfl⟩ : _ ∧ _ := by simpa using tests
      exact ⟨rfl, rfl, .inl ⟨none, rfl⟩⟩
    | canSend some =>
      obtain ⟨rfl, rfl⟩ : _ ∧ _ := by simpa using tests
      exact ⟨rfl, rfl, .inr ⟨some, rfl⟩⟩
    | _ => simp at tests
  | exchange act => cases act <;> simp at tests
  | @token _ acts _ _ _ act => cases acts <;> simp at tests
  | send act => cases act <;> simp at tests
  | cleanup act => cases act <;> simp at tests
  | queue act => cases act <;> simp at tests

end Rules

/-- What holds in the runs in which requests are attended. -/
structure Attending (config : State) : Prop where
  kept : config.mem.router.Kept
  counted : Counted config
  there : ∀ proc ∈ config.procs, AgentThere config.mem proc
  offered : ∀ call rt, Blocked config call rt → ∃ agent, Receives config agent rt

section Attending

variable {md5 : GoString → GoString} {config next : State} {event : Event} {label : Event × List Proc}

theorem Attending.receives (inv : Attending config) {rt : RouteId}
    (staying : ∀ proc ∈ config.procs, proc.receivesFrom = some rt → ¬ DetachPending config.mem proc)
    (counted : (config.mem.router.route rt).rxRefCount ≠ 0) :
    ∃ agent, Receives config agent rt := by
  have positive : 0 < total (tally Proc.receivesFrom rt) config.procs := by
    have count := inv.counted.count rt
    omega
  obtain ⟨proc, member, is⟩ := exists_of_total_tally_pos positive
  have stays := staying proc member is
  have there := inv.there proc member
  obtain ⟨agent, rfl | ⟨req, rfl⟩ | rfl⟩ := receivesFrom_cases is
  · have live : config.mem.done (.receiver agent) = false := by
      simpa using fun isDone => stays (.inl isDone)
    exact ⟨agent, ⟨there agent rfl, live⟩, _, member, rfl⟩
  · exact ⟨agent, there, _, member, rfl⟩
  · exact absurd trivial stays

theorem Receives.step {agent : AgentId} {rt : RouteId}
    (receives : Receives config agent rt) (isOpen : (config.mem.router.route rt).closed = false)
    (stays : label.1 ≠ .disconnect (.receiver agent))
    (step : Step (Acting (Act md5)) config label next) : Receives next agent rt := by
  cases step with
  | fire rest fires =>
    have rule := fires.1.2
    have live := receives.connected.live
    refine ⟨⟨(parties_rule rule _).1 receives.connected.connected, done_rule rule live stays⟩, ?_⟩
    exact exists_mem_fire receives.attached (serves_rule rule live isOpen) fun _ _ is => is

theorem AgentThere.rule {mem mem' : Mem} {acting left : List Proc} {proc : Proc}
    (there : AgentThere mem proc) (rule : Rule md5 event mem acting mem' left)
    (leaves : ∀ agent, event = .disconnect (.receiver agent) →
      ∀ rt req, proc ≠ .router (.holding agent rt req)) : AgentThere mem' proc := by
  cases proc with
  | router proc =>
    cases proc with
    | holding agent rt req =>
      refine ⟨(parties_rule rule _).1 there.connected, done_rule rule there.live fun is => ?_⟩
      exact leaves agent is rt req rfl
    | _ => exact fun agent is => (parties_rule rule _).1 (there agent is)
  | _ => trivial

theorem offered_step (inv : Attending config)
    (allowed : Attended config label) (step : Step (Acting (Act md5)) config label next) :
    ∀ call rt, Blocked next call rt → ∃ agent, Receives next agent rt := by
  intro call rt blocked
  have goes : ∀ agent, Receives config agent rt → (config.mem.router.route rt).closed = false →
      label.1 ≠ .disconnect (.receiver agent) → ∃ agent, Receives next agent rt :=
    fun agent receives isOpen stays => ⟨agent, receives.step isOpen stays step⟩
  cases step with
  | @fire _ mem mem' acting left rest fires =>
    obtain ⟨⟨-, rule⟩, acts⟩ := fires
    rcases mem_fire.mp blocked.offers with new | old
    · -- the call has just tested the count, which nobody was about to lower
      rcases offer_rule rule new with ⟨tests, same, counted⟩ | isClosed
      · subst same
        obtain ⟨agent, receives⟩ := inv.receives (allowed.tests call rt (acts.trans tests)) counted
        refine goes agent receives blocked.isOpen fun is => ?_
        have internal := (check_rule rule tests).1
        exact absurd (is.symm.trans internal) nofun
      · exact absurd (isClosed.symm.trans blocked.isOpen) nofun
    · have member : .call call (.offer rt) ∈ (↑acting + rest : Multiset Proc) :=
        mem_of_rest old
      have made := inv.counted.made _ member rt rfl
      have isOpen : (mem.router.route rt).closed = false := by
        by_contra isClosed
        have still := closed_of_closed_rule rule made (Bool.eq_true_of_not_eq_false isClosed)
        exact absurd (still.symm.trans blocked.isOpen) nofun
      have live : mem.done (.sender call.consumerd) = false := by
        by_contra isDone
        have still := (parties_rule rule _).2.2 (Bool.eq_true_of_not_eq_false isDone)
        exact absurd (still.symm.trans blocked.live) nofun
      have before : Blocked ⟨mem, ↑acting + rest⟩ call rt := ⟨member, isOpen, live⟩
      by_cases leaves : ∃ agent, label.1 = .disconnect (.receiver agent)
      · obtain ⟨agent, is⟩ := leaves
        obtain ⟨other, differs, receives⟩ := (allowed.leaves agent is).2 call rt before
        refine goes other receives isOpen fun same => differs ?_
        rw [is] at same
        cases same
        rfl
      · obtain ⟨agent, receives⟩ := inv.offered call rt before
        exact goes agent receives isOpen fun is => leaves ⟨agent, is⟩

theorem attending_step (inv : Attending config)
    (allowed : Attended config label) (step : Step (Acting (Act md5)) config label next) :
    Attending next := by
  have offered := offered_step inv allowed step
  cases step with
  | fire rest fires =>
    have rule := fires.1.2
    have counted := counted_step inv.kept inv.counted (.fire rest fires.1)
    refine ⟨kept_rule rule inv.kept, counted, ?_, offered⟩
    refine forall_mem_fire inv.there (agentThere_rule rule allowed.takes) ?_
    intro proc member there
    refine there.rule rule fun agent is rt req same => (allowed.leaves agent is).1 rt req ?_
    rw [← same]
    exact mem_of_rest member

theorem attending_initial : Attending initial := by
  refine ⟨routesOpen_initial.kept, counted_initial, fun proc member => ?_,
    fun call rt blocked => ?_⟩
  · obtain rfl : proc = .queue .idle := by simpa [initial, Config.ofList] using member
    trivial
  · exact absurd blocked.offers (by simp [initial, Config.ofList])

/-- **A request waits only where somebody can take it**, in every run in which an agent leaves only
when it is handed no request and every request on offer can go to another agent, no request goes to
an agent that has left, and the count of a route is tested only while none of its receivers is about
to detach. -/
theorem served_of_attended (reach : Reach (Acting (Act md5)) Attended initial config) :
    Served md5 config := by
  have inv := reach.invariant Attending attending_initial attending_step
  refine ⟨fun _ => inv.offered, fun staying call rt _ nobody event mem' left => ?_⟩
  have none : (config.mem.router.route rt).rxRefCount = 0 := by
    by_contra counted
    exact nobody (inv.receives (fun proc member _ => staying proc member) counted)
  constructor
  · intro rule
    obtain ⟨internal, same, ⟨-, fails⟩ | ⟨counted, -⟩⟩ := check_rule rule rfl
    · exact ⟨internal, same, fails⟩
    · exact absurd none counted
  · rintro ⟨rfl, rfl, rfl⟩
    exact .call (.noAgents none)

end Attending

/-! ### Runs -/

theorem Attended.internal {config : State} {acting : List Proc}
    (other : ∀ call rt, acting ≠ [.call call (.check rt)]) : Attended config (.internal, acting) :=
  ⟨nofun, nofun, fun call rt is => absurd is (other call rt)⟩

theorem Attended.call {config : State} {call : Call} {phase : CallPhase}
    (other : ∀ rt, phase ≠ .check rt) : Attended config (.internal, [.call call phase]) := by
  refine .internal fun _ rt is => other rt ?_
  cases is
  rfl

section Waiting

variable {allowed : State → Event × List Proc → Prop}

theorem reach_acting {event : Event} {mem mem' : Mem} {alive left : List Proc}
    (reach : Reach (Acting (Act id)) allowed initial (.ofList mem alive)) (acting rest : List Proc)
    (running : mem.crashed = false) (rule : Rule id event mem acting mem' left)
    (ok : allowed (.ofList mem alive) (event, acting)) (split : alive.Perm (acting ++ rest)) :
    Reach (Acting (Act id)) allowed initial (.ofList mem' (left ++ rest)) :=
  reach.nextActing acting rest ⟨running, rule⟩ ok split

/-- A consumerd and an agent are attached, and a request is on offer. -/
theorem waiting_run (attended : ∀ config label, Attended config label → allowed config label) :
    ∃ mem, Reach (Acting (Act id)) allowed initial (.ofList mem
        [.call (callOf (bytes "1")) (.offer 0), .router (.attaching (.receiver 0) [] true),
          .router (.attached (.receiver 0) 0), .watch 0, .router (.attached (.sender 0) 0),
          .router (.closer 0), .queue .idle]) ∧
      mem.crashed = false ∧ mem.connected (.receiver 0) = true ∧ mem.done = (fun _ => false) ∧
      mem.router.route 0 = ⟨tcHash id gnu, false, false, 1, 1⟩ := by
  have h0 : Reach (Acting (Act id)) allowed initial (.ofList initial.mem [.queue .idle]) := .start
  have h1 := reach_acting h0 [] [.queue .idle] rfl (.env (.connectConsumerd 0 [gnu] rfl))
    (attended _ _ ⟨nofun, nofun, nofun⟩) (.refl _)
  have h2 := reach_acting h1 [.router (.add (.sender 0) [gnu])] [.queue .idle]
    rfl (.router (.lock rfl)) (attended _ _ (.internal nofun)) (.refl _)
  have h3 := reach_acting h2 [.router (.attaching (.sender 0) [gnu] true)] [.queue .idle]
    rfl (.router .lookup) (attended _ _ (.internal nofun)) (.refl _)
  have h4 := reach_acting h3 [.router (.found (.sender 0) 0 [] true)]
    [.router (.closer 0), .queue .idle] rfl (.router .attach) (attended _ _ (.internal nofun))
    (.refl _)
  have h5 := reach_acting h4 [.router (.attaching (.sender 0) [] true)]
    [.router (.attached (.sender 0) 0), .router (.closer 0), .queue .idle]
    rfl (.stream .serveConsumerd) (attended _ _ (.internal nofun)) (.refl _)
  have h6 := reach_acting h5 [] _ rfl (.env (.connectAgent 0 [gnu] 1 rfl rfl (by decide)))
    (attended _ _ ⟨nofun, nofun, nofun⟩) (.refl _)
  have h7 := reach_acting h6 [.router (.add (.receiver 0) [gnu])] _ rfl (.router (.lock rfl))
    (attended _ _ (.internal nofun)) (.refl _)
  have h8 := reach_acting h7 [.router (.attaching (.receiver 0) [gnu] true)] _ rfl (.router .lookup)
    (attended _ _ (.internal nofun)) (.refl _)
  have h9 := reach_acting h8 [.router (.found (.receiver 0) 0 [] true)]
    [.consumerd 0, .watch 0, .router (.attached (.sender 0) 0), .router (.closer 0), .queue .idle]
    rfl (.router .attach) (attended _ _ (.internal nofun)) (by decide)
  have h10 := reach_acting h9 [.consumerd 0]
    [.router (.attaching (.receiver 0) [] true), .router (.attached (.receiver 0) 0), .watch 0,
      .router (.attached (.sender 0) 0), .router (.closer 0), .queue .idle]
    rfl (.env (.request 0 (compile (bytes "1")))) (attended _ _ ⟨nofun, nofun, nofun⟩) (by decide)
  have h11 := reach_acting h10 [.call (callOf (bytes "1")) .store] _ rfl (.call .store)
    (attended _ _ (.call nofun)) (.refl _)
  have h12 := reach_acting h11 [.call (callOf (bytes "1")) .route] _ rfl (.call (.lookup rfl))
    (attended _ _ (.call nofun)) (.refl _)
  have h13 := reach_acting h12 [.call (callOf (bytes "1")) (.hook 0)]
    [.router (.attaching (.receiver 0) [] true), .router (.attached (.receiver 0) 0), .watch 0,
      .router (.attached (.sender 0) 0), .router (.closer 0), .queue .idle]
    rfl (.call (.noCache rfl)) (attended _ _ (.call nofun)) (by decide)
  have h14 := reach_acting h13 [.call (callOf (bytes "1")) (.check 0)] _
    rfl (.call (.canSend (by decide))) (attended _ _ ⟨nofun, nofun, ?_⟩) (.refl _)
  · exact ⟨_, h14, rfl, rfl, rfl, rfl⟩
  · refine fun _ _ _ => List.forall_mem_cons.mpr ⟨fun _ => id, List.forall_mem_cons.mpr
      ⟨fun _ => id, List.forall_mem_cons.mpr ⟨fun _ pending => ?_, ?_⟩⟩⟩
    · exact pending.elim Bool.false_ne_true Bool.false_ne_true
    · simp [Proc.receivesFrom, RouterProc.receivesFrom]

end Waiting

/-- **The only agent leaves while a request is on offer.** Its goroutine detaches, and nobody tells
the call of `Route`, which had tested the count before. -/
theorem offer_outlives_agent : ∃ config,
    Reach (Acting (Act id)) (fun _ _ => True) initial config ∧ ¬ Served id config := by
  obtain ⟨mem, h0, running, connected, nobody, route⟩ :=
    @waiting_run (fun _ _ => True) fun _ _ _ => trivial
  have h1 := h0.nextActing [] _ ⟨running, .env (.disconnect (.receiver 0) connected)⟩ trivial
    (.refl _)
  have gone : Function.update mem.done (.receiver 0) true (.receiver 0) = true :=
    Function.update_self _ _ _
  have h2 := h1.nextActing [.router (.attached (.receiver 0) 0)]
    [.call (callOf (bytes "1")) (.offer 0), .router (.attaching (.receiver 0) [] true), .watch 0,
      .router (.attached (.sender 0) 0), .router (.closer 0), .queue .idle]
    ⟨running, .router (.partyDone gone)⟩ trivial (by decide)
  have h3 := h2.nextActing [.router (.leaving (.receiver 0) 0)] _
    ⟨running, .router (.decLast (by simp [Router.refCount, route]))⟩ trivial (.refl _)
  have used : 0 < (mem.router.addRefCount 0 (-1) (.receiver 0)).otherRefCount 0 (.receiver 0) := by
    simp [Router.otherRefCount, Router.addRefCount, Router.setRoute, route]
  have h4 := h3.nextActing [.router (.unused (.receiver 0) 0)] _
    ⟨running, .router (.stillUsed used)⟩ trivial (.refl _)
  have nobodyServes : ∀ proc ∈ ([.call (callOf (bytes "1")) (.offer 0),
      .router (.attaching (.receiver 0) [] true), .watch 0, .router (.attached (.sender 0) 0),
      .router (.closer 0), .queue .idle] : List Proc), proc.serves = none := by decide
  have live : Function.update mem.done (.receiver 0) true (.sender 0) = false := by simp [nobody]
  have isOpen : ((mem.router.addRefCount 0 (-1) (.receiver 0)).route 0).closed = false := by
    simp [route]
  refine ⟨_, h4, fun served => ?_⟩
  have waits := served.waits (List.forall_mem_cons.mpr ⟨id, List.forall_mem_cons.mpr ⟨id,
    List.forall_mem_cons.mpr ⟨id, List.forall_mem_cons.mpr
      ⟨fun pending => Bool.false_ne_true (live.symm.trans pending),
        List.forall_mem_cons.mpr ⟨id, List.forall_mem_singleton.mpr id⟩⟩⟩⟩⟩)
  obtain ⟨agent, receives⟩ := waits (callOf (bytes "1")) 0
    ⟨Multiset.mem_coe.mpr List.mem_cons_self, isOpen, live⟩
  obtain ⟨proc, member, is⟩ := receives.attached
  cases is.symm.trans (nobodyServes proc member)

/-- A request is on offer, and an agent is there to take it. -/
theorem served_waiting : ∃ config, Reach (Acting (Act id)) Attended initial config ∧
    .call (callOf (bytes "1")) (.offer 0) ∈ config.procs ∧ Served id config := by
  obtain ⟨mem, reach, -⟩ := @waiting_run Attended fun _ _ attended => attended
  exact ⟨_, reach, by simp [Config.ofList], served_of_attended reach⟩

end Kubecc.Scheduler
