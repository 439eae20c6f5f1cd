/-
**No request is stranded.**

When nothing moves any more unless somebody outside acts, a request that was received from a consumerd
still connected, and not answered, is in flight at an agent still connected, or on offer on its route;
or the goroutine attached to the route has taken it for a connected agent that has no token left, and
waits for one.

The last case is how the router works: the goroutine of `attachReceiver` takes a request before its
agent's send goroutine is ready for it (`held_without_token`). The statement is about runs with clean
hand-overs: a request that is taken for an agent whose stream is done stays in that goroutine's hands
(`held_for_lost_agent`).

* `Quiet.not_rule`, `Settling.queue_idle`, … — what does not hold in a quiet state.
* `notStranded` — the result.
-/

import Kubecc.Scheduler.Settling
import Kubecc.Scheduler.Tokens

namespace Kubecc.Scheduler

open Kubecc.Lib Kubecc.Go

/-! ### Where a request may rest -/

/-- The request was received from a consumerd still connected, and is not answered. -/
structure Unanswered (config : State) (cd : ConsumerdId) (id : GoString) : Prop where
  received : (cd, id) ∈ config.mem.requests.received
  running : config.mem.done (.sender cd) = false
  notSent : ∀ resp, (cd, resp) ∈ config.mem.requests.sent → resp.requestID ≠ id

def AgentConnected (config : State) (agent : AgentId) : Prop :=
  config.mem.connected (.receiver agent) = true ∧ config.mem.done (.receiver agent) = false

def InFlight (config : State) (id : GoString) : Prop :=
  ∃ inflight agent, config.mem.requests.inflight id = some inflight ∧
    inflight.agent = some agent ∧ AgentConnected config agent

def Offered (config : State) (id : GoString) : Prop :=
  ∃ call rt, Proc.call call (.offer rt) ∈ config.procs ∧ call.request.requestID = id

/-- The goroutine attached to the route has taken the request for a connected agent, all of whose tokens
are in use. -/
def WaitsForToken (config : State) (id : GoString) : Prop :=
  ∃ agent rt req, Proc.router (.holding agent rt req) ∈ config.procs ∧ req.requestID = id ∧
    AgentConnected config agent ∧ (config.mem.tokens agent).available = 0

/-- The runs with fresh IDs and clean hand-overs. -/
def Orderly (config : State) (event : Event) : Prop :=
  FreshIDs config event ∧ CleanHandOver config event

/-! ### Quiet states -/

section Quiet

variable {md5 : GoString → GoString} {config : State} {mem' : Mem} {left : List Proc}

theorem Quiet.not_rule (quiet : Quiet md5 config) (settling : Settling config) {acting : List Proc}
    (there : (↑acting : Multiset Proc) ≤ config.procs)
    (rule : Rule md5 .internal config.mem acting mem' left) : False := by
  have fires : Act md5 .internal config.mem acting mem' left := ⟨settling.running, rule⟩
  obtain ⟨next, step⟩ := Step.exists_of_le there fires
  exact absurd (quiet _ next step) nofun

theorem Quiet.not_single (quiet : Quiet md5 config) (settling : Settling config) {proc : Proc}
    (member : proc ∈ config.procs) (rule : Rule md5 .internal config.mem [proc] mem' left) : False :=
  quiet.not_rule settling (Multiset.singleton_le.mpr member) rule

theorem Quiet.not_pair (quiet : Quiet md5 config) (settling : Settling config) {first second : Proc}
    (one : first ∈ config.procs) (two : second ∈ config.procs) (differ : first ≠ second)
    (rule : Rule md5 .internal config.mem [first, second] mem' left) : False := by
  refine quiet.not_rule settling ((Multiset.le_iff_subset ?_).mpr ?_) rule
  · simpa using differ
  · intro proc member
    rcases List.mem_pair.mp (Multiset.mem_coe.mp member) with rfl | rfl
    · exact one
    · exact two

variable (quiet : Quiet md5 config) (settling : Settling config)

include quiet settling

theorem queue_idle : Proc.queue .idle ∈ config.procs := by
  obtain ⟨proc, member, isQueue⟩ := settling.queue
  cases proc with
  | queue phase =>
    cases phase with
    | idle => exact member
    | got resp =>
      cases stored : config.mem.requests.inflight resp.requestID with
      | none => exact (quiet.not_single settling member (.queue (.unknown stored))).elim
      | some inflight => exact (quiet.not_single settling member (.queue (.take stored))).elim
    | taken resp inflight =>
      by_cases defunct : resp.compileResult = .defunct
      · exact (quiet.not_single settling member (.queue (.requeue defunct))).elim
      · exact (quiet.not_single settling member (.queue (.answer defunct))).elim
  | _ => exact isQueue.elim

theorem not_cleans {proc : Proc} (member : proc ∈ config.procs) : ¬ proc.Cleans := by
  intro cleans
  cases proc with
  | cleanup agent phase =>
    cases phase with
    | waiting => exact cleans
    | ranging keys =>
      cases keys with
      | nil => exact quiet.not_single settling member (.cleanup .finish)
      | cons id keys =>
        by_cases own : (config.mem.requests.inflight id).bind (·.agent) = some agent
        · exact quiet.not_single settling member (.cleanup (.visit own))
        · exact quiet.not_single settling member (.cleanup (.pass own))
    | sending id keys =>
      exact quiet.not_pair settling member (queue_idle quiet settling) nofun (.exchange .defunct)
  | _ => exact cleans

theorem not_adds {proc : Proc} (member : proc ∈ config.procs) : ¬ proc.Adds := by
  intro adds
  cases proc with
  | router proc =>
    cases proc with
    | attaching party tcs serve =>
      cases tcs with
      | nil =>
        cases party with
        | sender cd => exact absurd adds nofun
        | receiver agent =>
          cases serve with
          | false => exact quiet.not_single settling member (.router .unlock)
          | true => exact quiet.not_single settling member (.stream .startAgent)
      | cons tc tcs => exact quiet.not_single settling member (.router .lookup)
    | found party rt tcs serve => exact quiet.not_single settling member (.router .attach)
    | _ => exact adds
  | _ => exact adds

theorem agentsMutex_free : config.mem.agentsMutex = false := by
  by_contra held
  obtain ⟨proc, member, cleans⟩ := settling.cleans (Bool.eq_true_of_not_eq_false held)
  exact not_cleans quiet settling member cleans

theorem receiversMutex_free : config.mem.router.receiversMutex = false := by
  by_contra held
  obtain ⟨proc, member, adds⟩ := settling.adds (Bool.eq_true_of_not_eq_false held)
  exact not_adds quiet settling member adds

theorem exists_send {agent : AgentId} (kept : AgentKept (agentConfig agent config))
    (connected : config.mem.connected (.receiver agent) = true) :
    ∃ phase, Proc.agent agent (.send phase) ∈ config.procs := by
  have some : 0 < total AgentProc.serves (agentConfig agent config).procs := by
    rw [kept.serving, show (agentConfig agent config).mem.connected = true from connected]
    exact Nat.one_pos
  obtain ⟨part, seen, serves⟩ := total_pos_iff.mp some
  obtain ⟨proc, member, is⟩ := (Multiset.mem_filterMap (Proc.ofAgent agent) _).mp seen
  unfold Proc.ofAgent at is
  split at is
  · rename_i other proc
    obtain ⟨rfl, rfl⟩ : other = agent ∧ proc = part := by simpa using is
    cases proc with
    | starting =>
      have free := agentsMutex_free quiet settling
      exact (quiet.not_single settling member (.stream (.serveAgent free))).elim
    | send phase => exact ⟨phase, member⟩
    | recv => exact absurd serves nofun
  · rename_i other tcs
    have free : config.mem.router.mutex (.receiver other) = false :=
      receiversMutex_free quiet settling
    exact (quiet.not_single settling member (.router (.lock free))).elim
  · exact (not_adds quiet settling member rfl).elim
  · exact (not_adds quiet settling member rfl).elim
  · exact absurd is nofun

/-- The send goroutine of a connected agent waits for a request, or for a token when there is none. -/
theorem send_waits {agent : AgentId} {phase : SendPhase} (kept : AgentKept (agentConfig agent config))
    (carried : Carried config) (member : Proc.agent agent (.send phase) ∈ config.procs)
    (running : config.mem.done (.receiver agent) = false) :
    phase = .await ∨ phase = .select ∧ (config.mem.tokens agent).available = 0 := by
  have not_token : ∀ {tokens after}, ¬ TokenAct (config.mem.done (.receiver agent))
      (config.mem.tokens agent) [.send phase] tokens after := fun act =>
    quiet.not_single settling member (.token act)
  have seen : AgentProc.send phase ∈ (agentConfig agent config).procs :=
    (Multiset.mem_filterMap _ _).mpr ⟨_, member, if_pos rfl⟩
  have not_stopped : AgentProc.stopped (.send phase) = 0 := by
    by_contra stopped
    have done := kept.stopped (total_pos_iff.mpr ⟨_, seen, Nat.pos_of_ne_zero stopped⟩)
    cases running.symm.trans done
  cases phase with
  | select =>
    refine .inr ⟨rfl, ?_⟩
    by_contra some
    obtain ⟨rest, is⟩ := Nat.exists_eq_succ_of_ne_zero some
    exact not_token (.takeToken is)
  | token =>
    -- the token in hand is one of at most MaxTokens, so the locked ones are fewer
    have inHand := @weight_le_total _ AgentProc.inHand _ _ seen
    have tokens := kept.tokens
    have limited := kept.limited
    simp only [AgentProc.inHand] at inHand
    have room : (config.mem.tokens agent).locked < maxTokens := by
      show (agentConfig agent config).mem.tokens.locked < maxTokens
      omega
    exact (not_token (.lockToken room)).elim
  | await => exact .inl rfl
  | received req =>
    obtain ⟨pending, there⟩ := Option.ne_none_iff_exists'.mp (carried.pending_of_mem member rfl)
    exact (quiet.not_single settling member (.send (.load there))).elim
  | loaded req pending => exact (quiet.not_single settling member (.send .record)).elim
  | recorded req => exact (not_token .send).elim
  | failed | returned => cases not_stopped

theorem not_holds {proc : Proc} (member : proc ∈ config.procs) : proc.holds = none := by
  unfold Proc.holds
  split
  · exact (quiet.not_single settling member (.call .store)).elim
  · exact (quiet.not_single settling member (.call .record)).elim
  · exact (quiet.not_single settling member (.send .record)).elim
  · rename_i resp inflight
    by_cases defunct : resp.compileResult = .defunct
    · exact (quiet.not_single settling member (.queue (.requeue defunct))).elim
    · exact (quiet.not_single settling member (.queue (.answer defunct))).elim
  · rfl

theorem holding_waits {agent : AgentId} {rt : RouteId} {req : Request}
    (kept : AgentKept (agentConfig agent config)) (carried : Carried config)
    (member : Proc.router (.holding agent rt req) ∈ config.procs) :
    WaitsForToken config req.requestID := by
  have connected := settling.worksFor _ member agent rfl
  have running := settling.handing _ member agent rfl
  obtain ⟨phase, sender⟩ := exists_send quiet settling kept connected
  rcases send_waits quiet settling kept carried sender running with rfl | ⟨rfl, none⟩
  · exact (quiet.not_pair settling member sender nofun (.exchange .handOver)).elim
  · exact ⟨agent, rt, req, member, rfl, ⟨connected, running⟩, none⟩

theorem carrier_rests (kept : ∀ agent, AgentKept (agentConfig agent config)) (carried : Carried config)
    {proc : Proc} {id : GoString} (member : proc ∈ config.procs) (carries : proc.carries = some id) :
    Offered config id ∨ WaitsForToken config id := by
  obtain ⟨pending, there⟩ := Option.ne_none_iff_exists'.mp (carried.pending_of_mem member carries)
  unfold Proc.carries at carries
  split at carries <;> cases carries
  · rename_i call
    cases toolchain : call.request.toolchain with
    | none => exact (quiet.not_single settling member (.call (.noToolchain toolchain))).elim
    | some tc => exact (quiet.not_single settling member (.call (.lookup toolchain))).elim
  · cases available : config.mem.cache.available with
    | false => exact (quiet.not_single settling member (.call (.noCache available))).elim
    | true => exact (quiet.not_single settling member (.call (.pullFails available))).elim
  · exact (quiet.not_single settling member (.call (.loadHit there))).elim
  · rename_i call rt
    by_cases agents : (config.mem.router.route rt).rxRefCount = 0
    · exact (quiet.not_single settling member (.call (.noAgents agents))).elim
    · exact (quiet.not_single settling member (.call (.canSend agents))).elim
  · exact .inl ⟨_, _, member, rfl⟩
  · exact (quiet.not_single settling member (.call (.loadFailed there))).elim
  · exact .inr (holding_waits quiet settling (kept _) carried member)
  · exact (quiet.not_single settling member (.send (.load there))).elim

theorem inflight_rests (custody : Custody config) {id : GoString} {inflight : InflightRequest}
    (stored : config.mem.requests.inflight id = some inflight) : InFlight config id := by
  obtain ⟨proc, member, settles⟩ := settling.settles id inflight stored
  unfold Proc.Settles at settles
  split at settles
  · rename_i resp
    subst settles
    exact (quiet.not_single settling member (.queue (.take stored))).elim
  · exact (quiet.not_pair settling member (queue_idle quiet settling) nofun (.exchange .announce)).elim
  · rename_i agent
    have connected := settling.agents id inflight agent stored settles
    refine ⟨inflight, agent, stored, settles, connected, ?_⟩
    by_contra done
    have free := agentsMutex_free quiet settling
    have covers : ∀ id, (config.mem.requests.inflight id).isSome = true →
        id ∈ (config.mem.requests.received.map Prod.snd).dedup := by
      intro id some
      obtain ⟨record, there⟩ := Option.isSome_iff_exists.mp some
      rw [List.mem_dedup]
      exact List.mem_map_of_mem (custody.traced.requests.inflight id record there).2
    exact quiet.not_single settling member
      (.cleanup (.start (Bool.eq_true_of_not_eq_false done) free (List.nodup_dedup _) covers))
  · exact (not_cleans quiet settling member trivial).elim
  · exact (not_cleans quiet settling member trivial).elim
  · exact settles.elim

end Quiet

/-! ### The result -/

theorem Custody.sender_unique {config : State} (custody : Custody config) {cd other : ConsumerdId}
    {id : GoString} (one : (cd, id) ∈ config.mem.requests.received)
    (two : (other, id) ∈ config.mem.requests.received) : cd = other := by
  have distinct : (config.mem.requests.received.map Prod.snd).Nodup :=
    List.nodup_iff_count_le_one.mpr custody.unique
  exact congrArg Prod.fst (List.inj_on_of_nodup_map distinct one two rfl)

theorem Unanswered.not_finished {config : State} {cd : ConsumerdId} {id : GoString}
    (unanswered : Unanswered config cd id) (custody : Custody config) (settling : Settling config) :
    config.mem.requests.finished id = 0 := by
  refine Nat.add_eq_zero_iff.mpr ⟨List.count_eq_zero.mpr fun sent => ?_,
    List.count_eq_zero.mpr fun dropped => ?_⟩
  · obtain ⟨⟨other, resp⟩, member, rfl⟩ := List.mem_map.mp sent
    obtain rfl := custody.sender_unique unanswered.received
      (custody.traced.requests.sent other resp member)
    exact unanswered.notSent resp member rfl
  · obtain ⟨⟨other, id⟩, member, rfl⟩ := List.mem_map.mp dropped
    obtain rfl := custody.sender_unique unanswered.received
      (custody.traced.requests.dropped other id member)
    exact absurd (unanswered.running.symm.trans (settling.dropped cd id member)) nofun

/-- **No request is stranded**: in every quiet state of every orderly run, a request that was received
from a consumerd still connected, and not answered, is in flight under a connected agent, or on offer on
its route, or waits for a token of a connected agent. -/
theorem notStranded {md5 : GoString → GoString} {config : State} {cd : ConsumerdId} {id : GoString}
    (reach : Reach (Act md5) Orderly initial config) (quiet : Quiet md5 config)
    (unanswered : Unanswered config cd id) :
    InFlight config id ∨ Offered config id ∨ WaitsForToken config id := by
  obtain ⟨⟨custody, carried⟩, settling⟩ := reach.invariant
    (fun config => (Custody config ∧ Carried config) ∧ Settling config)
    ⟨⟨custody_initial, carried_initial⟩, settling_initial⟩ fun inv ok step =>
      ⟨⟨custody_step inv.1.1 ok.1 step, carried_step inv.1.1 inv.1.2 step⟩,
        settling_step inv.1.1 inv.2 ok.2 step⟩
  have kept : ∀ agent, AgentKept (agentConfig agent config) := fun agent =>
    reach_agentKept agent (fun _ _ ok => ok.1) reach
  have arrived : 0 < config.mem.requests.arrived id :=
    List.count_pos_iff.mpr (List.mem_map_of_mem unanswered.received)
  have held : total (tally Proc.holds id) config.procs = 0 :=
    total_eq_zero fun proc member => tally_eq_zero (not_holds quiet settling member) id
  have account := custody.account id
  rw [held, unanswered.not_finished custody settling, Requests.stored] at account
  cases pending : config.mem.requests.pending id with
  | some record =>
    obtain ⟨proc, member, carries⟩ := carried.exists_of_pending pending
    exact .inr (carrier_rests quiet settling kept carried member carries)
  | none =>
    cases inflight : config.mem.requests.inflight id with
    | some record => exact .inl (inflight_rests quiet settling custody inflight)
    | none =>
      rw [present_eq_zero.mpr pending, present_eq_zero.mpr inflight] at account
      omega

/-! ### Requests in other hands -/

/-- The goroutines once the agent has its only token locked for a first request, and a second one has
been taken for it. -/
def heldProcs : List Proc :=
  [.router (.holding 0 0 (compile (bytes "2"))), .consumerd 0, .agent 0 (.send .select),
    .agent 0 (.recv .recv), .cleanup 0 .waiting, .watch 0, .router (.attached (.sender 0) 0),
    .router (.closer 0), .queue .idle]

theorem heldProcs_quiet {mem : Mem} (alive : ∀ party, mem.done party = false)
    (route : (mem.router.route 0).cancelled = false) (tokens : (mem.tokens 0).available = 0) :
    Quiet id (.ofList mem heldProcs) := by
  intro event next step
  obtain ⟨acting, mem', left, there, -, rule⟩ := step.exists_rule
  replace there : ∀ proc ∈ acting, proc ∈ heldProcs := there
  unfold heldProcs at there
  cases rule with
  | env act => cases act <;> rfl
  | stream act | router act | call act | exchange act | token act | send act | cleanup act
  | queue act => cases act <;> simp_all [Config.ofList]

/-- The second request is taken while the agent works on the first. -/
theorem holding_run : ∃ mem, Reach (Act id) Orderly initial (.ofList mem heldProcs) ∧
    (∀ party, mem.done party = false) ∧ (mem.router.route 0).cancelled = false ∧
    (mem.tokens 0).available = 0 ∧ (0, bytes "2") ∈ mem.requests.received ∧
    mem.requests.sent = [] ∧ mem.requests.inflight (bytes "2") = none := by
  obtain ⟨mem, h0, running, entry, route, nobody, tokens, noCache, received, sent, inflight, -⟩ :=
    @sending_run Orderly
      (fun _ event plain => by cases event <;> first | (cases plain; done) | exact ⟨trivial, trivial⟩)
      (fun config _ _ none _ => ⟨by simp [FreshIDs, none], trivial⟩)
      fun config agent _ alive => ⟨trivial, congrFun alive (.receiver agent)⟩
  have fresh : Orderly (.ofList mem
      [.agent 0 (.send .select), .router (.attached (.receiver 0) 0), .consumerd 0,
        .agent 0 (.recv .recv), .cleanup 0 .waiting, .watch 0, .router (.attached (.sender 0) 0),
        .router (.closer 0), .queue .idle]) (.request 0 (compile (bytes "2"))) := by
    refine ⟨?_, trivial⟩
    show bytes "2" ∉ mem.requests.received.map Prod.snd
    rw [received]
    decide
  have h1 := reach_rule h0 [.consumerd 0]
    [.router (.attached (.receiver 0) 0), .agent 0 (.send .select), .agent 0 (.recv .recv),
      .cleanup 0 .waiting, .watch 0, .router (.attached (.sender 0) 0), .router (.closer 0),
      .queue .idle] running (.env (.request 0 (compile (bytes "2")))) fresh (by decide)
  have h2 := reach_rule h1 [.call (callOf (bytes "2")) .store] _ running (.call .store)
    ⟨trivial, trivial⟩ (.refl _)
  have h3 := reach_rule h2 [.call (callOf (bytes "2")) .route] _ running
    (.call (lookup_of_some rfl entry)) ⟨trivial, trivial⟩ (.refl _)
  have h4 := reach_rule h3 [.call (callOf (bytes "2")) (.hook 0)] _ running (.call (.noCache noCache))
    ⟨trivial, trivial⟩ (.refl _)
  have agents : (mem.router.route 0).rxRefCount ≠ 0 := by
    rw [route]
    decide
  have h5 := reach_rule h4 [.call (callOf (bytes "2")) (.check 0)] _ running (.call (.canSend agents))
    ⟨trivial, trivial⟩ (.refl _)
  have isOpen : (mem.router.route 0).closed = false := by rw [route]
  have h6 := reach_rule h5
    [.call (callOf (bytes "2")) (.offer 0), .router (.attached (.receiver 0) 0)] _ running
    (.exchange (.receive isOpen)) ⟨trivial, congrFun nobody (.receiver 0)⟩ (.refl _)
  refine ⟨_, h6, congrFun nobody, ?_, ?_, List.mem_cons_self, sent, ?_⟩
  · show (mem.router.route 0).cancelled = false
    rw [route]
  · show (mem.tokens 0).available = 0
    rw [tokens]
  · show mem.requests.inflight (bytes "2") = none
    rw [inflight]
    rfl

theorem unanswered_of_nil {config : State} {cd : ConsumerdId} {id : GoString}
    (received : (cd, id) ∈ config.mem.requests.received)
    (running : config.mem.done (.sender cd) = false) (none : config.mem.requests.sent = []) :
    Unanswered config cd id := by
  refine ⟨received, running, fun resp member => ?_⟩
  rw [none] at member
  exact absurd member List.not_mem_nil

/-- **A request may rest with the goroutine attached to its route**, neither in flight nor on offer: the
agent it was taken for has no token. -/
theorem held_without_token : ∃ config : State, Reach (Act id) Orderly initial config ∧
    Quiet id config ∧ Unanswered config 0 (bytes "2") ∧ ¬ InFlight config (bytes "2") ∧
    ¬ Offered config (bytes "2") := by
  obtain ⟨mem, reach, alive, route, tokens, received, sent, inflight⟩ := holding_run
  refine ⟨_, reach, heldProcs_quiet alive route tokens, unanswered_of_nil received (alive _) sent,
    ?_, ?_⟩
  · rintro ⟨record, agent, stored, -⟩
    exact absurd (inflight.symm.trans stored) nofun
  · rintro ⟨call, rt, member, -⟩
    simp [Config.ofList, heldProcs] at member

theorem notStranded_holding : ∃ config : State, Reach (Act id) Orderly initial config ∧
    Quiet id config ∧ Unanswered config 0 (bytes "2") ∧
    (InFlight config (bytes "2") ∨ Offered config (bytes "2") ∨ WaitsForToken config (bytes "2")) := by
  obtain ⟨mem, reach, alive, route, tokens, received, sent, -⟩ := holding_run
  have quiet := heldProcs_quiet alive route tokens
  have unanswered : Unanswered (.ofList mem heldProcs) 0 (bytes "2") :=
    unanswered_of_nil received (alive _) sent
  exact ⟨_, reach, quiet, unanswered, notStranded reach quiet unanswered⟩

/-- The goroutines once an agent's stream has ended, and a request was taken for it all the same. -/
def lostProcs : List Proc :=
  [.agent 0 (.recv .returned), .agent 0 (.send .returned),
    .router (.holding 0 0 (compile (bytes "1"))), .consumerd 0, .watch 0,
    .router (.attached (.sender 0) 0), .router (.closer 0), .queue .idle]

theorem lostProcs_quiet {mem : Mem} (alive : mem.done (.sender 0) = false)
    (route : (mem.router.route 0).cancelled = false) : Quiet id (.ofList mem lostProcs) := by
  intro event next step
  obtain ⟨acting, mem', left, there, -, rule⟩ := step.exists_rule
  replace there : ∀ proc ∈ acting, proc ∈ lostProcs := there
  unfold lostProcs at there
  cases rule with
  | env act => cases act <;> rfl
  | stream act | router act | call act | exchange act | token act | send act | cleanup act
  | queue act => cases act <;> simp_all [Config.ofList]

/-- **Without clean hand-overs a request is lost**: the agent's stream ends, the goroutine attached for it
takes the request nevertheless, and nobody takes it from there. -/
theorem held_for_lost_agent : ∃ config : State, Reach (Act id) FreshIDs initial config ∧
    Quiet id config ∧ Unanswered config 0 (bytes "1") ∧ ¬ InFlight config (bytes "1") ∧
    ¬ Offered config (bytes "1") ∧ ¬ WaitsForToken config (bytes "1") := by
  obtain ⟨mem, h0, running, -, -, -, -, requests, -, unlocked, route, nobody, -, connected, -⟩ :=
    @offering_run FreshIDs
      (fun _ event plain => by cases event <;> first | exact trivial | cases plain)
      fun config _ _ none _ => by simp [FreshIDs, none]
  have isOpen : (mem.router.route 0).closed = false := by rw [route]
  have gone : (Function.update mem.done (.receiver 0) true) (.receiver 0) = true :=
    Function.update_self _ _ _
  have h1 := reach_rule h0 [] _ running (.env (.disconnect (.receiver 0) connected)) trivial (.refl _)
  have h2 := reach_rule h1 [.call (callOf (bytes "1")) (.offer 0), .router (.attached (.receiver 0) 0)]
    [.router (.attaching (.receiver 0) [] true), .watch 0, .router (.attached (.sender 0) 0),
      .router (.closer 0), .queue .idle] running (.exchange (.receive isOpen)) trivial (by decide)
  have h3 := reach_rule h2 [.router (.attaching (.receiver 0) [] true)]
    [.router (.holding 0 0 (compile (bytes "1"))), .consumerd 0, .watch 0,
      .router (.attached (.sender 0) 0), .router (.closer 0), .queue .idle] running
    (.stream .startAgent) trivial (by decide)
  have h4 := reach_rule h3 [.agent 0 .starting] _ running (.stream (.serveAgent unlocked)) trivial
    (.refl _)
  have h5 := reach_token 0 h4 _ running (.sendStops gone) trivial (.refl _)
  have h6 := reach_rule h5 [.cleanup 0 .waiting]
    [.agent 0 (.send .returned), .agent 0 (.recv .recv), .router (.holding 0 0 (compile (bytes "1"))),
      .consumerd 0, .watch 0, .router (.attached (.sender 0) 0), .router (.closer 0), .queue .idle]
    running (.cleanup (.start gone unlocked List.nodup_nil
      (show ∀ id, (mem.requests.inflight id).isSome = true → id ∈ [] by simp [requests]))) trivial
    (by decide)
  have h7 := reach_rule h6 [.cleanup 0 (.ranging [])] _ running (.cleanup .finish) trivial (.refl _)
  have h8 := reach_token 0 h7
    [.agent 0 (.send .returned), .router (.holding 0 0 (compile (bytes "1"))), .consumerd 0, .watch 0,
      .router (.attached (.sender 0) 0), .router (.closer 0), .queue .idle] running (.recvStops gone)
    trivial (by decide)
  have alive : Function.update mem.done (.receiver 0) true (.sender 0) = false := by
    rw [nobody]
    rfl
  have inUse : (mem.router.route 0).cancelled = false := by rw [route]
  refine ⟨_, h8, lostProcs_quiet alive inUse, unanswered_of_nil ?_ alive ?_, ?_, ?_, ?_⟩
  · show (0, bytes "1") ∈ mem.requests.received
    rw [requests]
    exact List.mem_singleton_self _
  · show mem.requests.sent = []
    rw [requests]
  · rintro ⟨record, agent, stored, -⟩
    replace stored : mem.requests.inflight (bytes "1") = some record := stored
    rw [requests] at stored
    cases stored
  · rintro ⟨call, rt, member, -⟩
    simp [Config.ofList] at member
  · rintro ⟨agent, rt, req, member, -, connected, -⟩
    obtain rfl : agent = 0 := by
      have here : agent = 0 ∧ rt = 0 ∧ req = compile (bytes "1") := by
        simpa [Config.ofList] using member
      exact here.1
    cases gone.symm.trans connected.2

end Kubecc.Scheduler
