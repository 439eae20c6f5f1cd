/-
**Tokens are conserved.**

An agent's tokens go from `AvailableTokens` through the send goroutine's hand to `LockedTokens`, and
back through the receive goroutine's hand. A token is locked before there is a request for it, and it
is released for any response; that this comes out even is a matter of counting.

The agent's two goroutines, its tokens and its stream are taken out of the scheduler as a system of
their own.

* `AgentAct` — the steps of that system; `agent_rule`: a step of the scheduler is one of them, or leaves
  it alone.
* `Balanced` — the three accounts: of tokens, of the requests that hold a locked one, and of responses.
* `tokensConserved` — what follows for the scheduler, for an agent that answers a request it was sent at
  most once.
-/

import Kubecc.Scheduler.Carriers

namespace Kubecc.Scheduler

open Kubecc.Lib Kubecc.Go

/-! ### One agent -/

/-- What the goroutines of one agent share. -/
structure AgentState where
  connected : Bool
  done : Bool
  tokens : Tokens

/-- **The steps of one agent's goroutines**, labelled with the ID of the response received. The request
taken from `filteredOutput` is always pending (`Carried`), so there is no step for one that is not. -/
inductive AgentAct : Rules AgentState AgentProc (Option GoString)
  | connect {s} (limit : Nat) : s.connected = false → limit ≤ maxTokens →
      AgentAct none s [] { s with connected := true, tokens := ⟨limit, limit, 0, [], [], 0⟩ } [.starting]
  | disconnect {s} : AgentAct none s [] { s with done := true } []
  | start {s} : AgentAct none s [.starting] s [.send .select, .recv .recv]
  | token {s acting tokens left} : TokenAct s.done s.tokens acting tokens left →
      AgentAct none s acting { s with tokens := tokens } left
  | receive {s} {req : Request} : AgentAct none s [.send .await] s [.send (.received req)]
  | load {s} {req : Request} {pending : PendingRequest} :
      AgentAct none s [.send (.received req)] s [.send (.loaded req pending)]
  | record {s} {req : Request} {pending : PendingRequest} :
      AgentAct none s [.send (.loaded req pending)] s [.send (.recorded req)]
  | response {s} {resp : Response} :
      AgentAct (some resp.requestID) s [.recv .recv]
        { s with tokens := { s.tokens with responded := resp.requestID :: s.tokens.responded } }
        [.recv (.response resp)]
  | forward {s} {resp : Response} : AgentAct none s [.recv (.forward resp)] s [.recv .recv]

def Obeys (config : Config AgentState AgentProc) (label : Option GoString) : Prop :=
  ∀ id ∈ label, config.mem.tokens.responded.count id < config.mem.tokens.sent.count id

def AgentProc.inHand : AgentProc → ℕ
  | .send .token | .recv (.token _) => 1
  | _ => 0

/-- The send goroutine has locked a token and has not sent a request for it. -/
def AgentProc.engaged : AgentProc → ℕ
  | .send .await | .send (.received _) | .send (.loaded _ _) | .send (.recorded _)
  | .send .failed => 1
  | _ => 0

/-- The receive goroutine has a response and has not taken a token for it. -/
def AgentProc.responding : AgentProc → ℕ
  | .recv (.response _) => 1
  | _ => 0

/-- The send goroutine, or the goroutine that will start it. -/
def AgentProc.serves : AgentProc → ℕ
  | .starting | .send _ => 1
  | .recv _ => 0

def AgentProc.stopped : AgentProc → ℕ
  | .send .returned | .send .failed => 1
  | _ => 0

/-! ### What holds of any agent -/

/-- **What holds of any agent**: its tokens add up to its limit; it has one send goroutine once it has
connected, and no goroutines before; and the send goroutine ends with the stream. -/
structure AgentKept (config : Config AgentState AgentProc) : Prop where
  tokens : config.mem.tokens.available + config.mem.tokens.locked +
    total AgentProc.inHand config.procs = config.mem.tokens.limit
  limited : config.mem.tokens.limit ≤ maxTokens
  serving : total AgentProc.serves config.procs = config.mem.connected.toNat
  absent : config.mem.connected = false → config.procs = 0
  stopped : 0 < total AgentProc.stopped config.procs → config.mem.done = true

section Steps

variable {t t' : Tokens} {s s' : AgentState} {acting left : List AgentProc}
  {rest : Multiset AgentProc} {label : Option GoString}

theorem AgentKept.connected (kept : AgentKept ⟨s, ↑acting + rest⟩) (some : acting ≠ []) :
    s.connected = true := by
  by_contra never
  have none : (↑acting + rest : Multiset AgentProc) = 0 :=
    kept.absent (Bool.eq_false_of_not_eq_true never)
  exact some (Multiset.coe_eq_zero _ |>.mp (add_eq_zero.mp none).1)

theorem tokens_token {done : Bool} (act : TokenAct done t acting t' left) :
    t'.available + t'.locked + total AgentProc.inHand ↑left =
        t.available + t.locked + total AgentProc.inHand ↑acting ∧ t'.limit = t.limit := by
  cases act <;> simp [AgentProc.inHand] <;> omega

theorem serves_act (act : AgentAct label s acting s' left) (some : acting ≠ []) :
    total AgentProc.serves ↑left = total AgentProc.serves ↑acting ∧ s'.connected = s.connected ∧
      s'.done = s.done := by
  cases act with
  | connect | disconnect => exact absurd rfl some
  | token act => cases act <;> simp [AgentProc.serves]
  | _ => simp [AgentProc.serves]

theorem stopped_act (act : AgentAct label s acting s' left) (running : s.done = false) :
    total AgentProc.stopped ↑left = 0 := by
  cases act with
  | token act => cases act <;> simp_all [AgentProc.stopped]
  | _ => simp [AgentProc.stopped]

theorem done_act (act : AgentAct label s acting s' left) (done : s.done = true) :
    s'.done = true := by
  cases act <;> simp [done]

theorem tokens_act (act : AgentAct label s acting s' left) (some : acting ≠ []) :
    s'.tokens.available + s'.tokens.locked + total AgentProc.inHand ↑left =
        s.tokens.available + s.tokens.locked + total AgentProc.inHand ↑acting ∧
      s'.tokens.limit = s.tokens.limit := by
  cases act with
  | connect | disconnect => exact absurd rfl some
  | token act => exact tokens_token act
  | _ => simp [AgentProc.inHand]

end Steps

variable {config next : Config AgentState AgentProc} {label : Option GoString}

theorem agentKept_step (kept : AgentKept config) (step : Step AgentAct config label next) :
    AgentKept next := by
  cases step with
  | @fire _ s s' acting left rest act =>
    have stopped : 0 < total AgentProc.stopped (↑left + rest) → s'.done = true := by
      intro some
      by_cases done : s.done = true
      · exact done_act act done
      · rw [total_add, stopped_act act (Bool.eq_false_of_not_eq_true done)] at some
        have before := kept.stopped (by rw [total_add]; omega)
        exact absurd before done
    by_cases some : acting = []
    · subst some
      cases act with
      | connect limit fresh within =>
        obtain rfl : rest = 0 := by simpa using kept.absent fresh
        exact ⟨by simp [AgentProc.inHand], within, by simp [AgentProc.serves], nofun, stopped⟩
      | disconnect => exact ⟨kept.tokens, kept.limited, kept.serving, kept.absent, stopped⟩
      | token act => cases act
    · obtain ⟨sameServes, sameConnected, -⟩ := serves_act act some
      obtain ⟨sameTokens, sameLimit⟩ := tokens_act act some
      have tokens := kept.tokens
      have serving := kept.serving
      simp only [total_add] at tokens serving
      refine ⟨?_, ?_, ?_, fun never => ?_, stopped⟩
      · simp only [total_add]
        omega
      · rw [sameLimit]
        exact kept.limited
      · rwa [total_add, sameServes, sameConnected]
      · exact absurd (sameConnected.symm.trans never) (by rw [kept.connected some]; nofun)

/-! ### An agent that obeys -/

/-- **The accounts of an agent that obeys**: every locked token stands for a request sent and not yet
accounted for, or for the one the send goroutine is at; and responses have released as many. -/
structure Balanced (config : Config AgentState AgentProc) : Prop where
  locked : config.mem.tokens.locked + config.mem.tokens.released =
    config.mem.tokens.sent.length + total AgentProc.engaged config.procs
  responses : config.mem.tokens.released + total AgentProc.responding config.procs =
    config.mem.tokens.responded.length
  obedient : ∀ id, config.mem.tokens.responded.count id ≤ config.mem.tokens.sent.count id

/-- There are no more responses than requests sent, so a response finds a locked token. -/
theorem Balanced.locked_pos (balanced : Balanced config)
    (responding : 0 < total AgentProc.responding config.procs) : 0 < config.mem.tokens.locked := by
  have fewer : config.mem.tokens.responded.length ≤ config.mem.tokens.sent.length :=
    (List.subperm_ext_iff.mpr fun id _ => balanced.obedient id).length_le
  have locked := balanced.locked
  have responses := balanced.responses
  omega

theorem accounts_token {done : Bool} {t t' : Tokens} {acting left : List AgentProc}
    (act : TokenAct done t acting t' left)
    (locked : 0 < total AgentProc.responding ↑acting → 0 < t.locked) :
    t'.locked + t'.released + (t.sent.length + total AgentProc.engaged ↑acting) =
        t.locked + t.released + (t'.sent.length + total AgentProc.engaged ↑left) ∧
      t'.released + total AgentProc.responding ↑left =
        t.released + total AgentProc.responding ↑acting ∧
      t'.responded = t.responded ∧ ∀ id, t.sent.count id ≤ t'.sent.count id := by
  cases act with
  | imbalance empty =>
    have some := locked (by simp [AgentProc.responding])
    omega
  | send =>
    exact ⟨by simp [AgentProc.engaged], by simp [AgentProc.responding], rfl,
      fun id => List.count_le_count_cons⟩
  | _ =>
    refine ⟨?_, ?_, rfl, fun id => Nat.le_refl _⟩ <;>
      simp [AgentProc.engaged, AgentProc.responding] <;> omega

theorem Balanced.replace {s : AgentState} {acting left : List AgentProc} {rest : Multiset AgentProc}
    (balanced : Balanced ⟨s, ↑acting + rest⟩)
    (engaged : total AgentProc.engaged ↑left = total AgentProc.engaged ↑acting)
    (responding : total AgentProc.responding ↑left = total AgentProc.responding ↑acting) :
    Balanced ⟨s, ↑left + rest⟩ := by
  obtain ⟨locked, responses, obedient⟩ := balanced
  simp only [total_add] at locked responses
  exact ⟨by rwa [total_add, engaged], by rwa [total_add, responding], obedient⟩

theorem balanced_step (kept : AgentKept config) (balanced : Balanced config)
    (obeys : Obeys config label) (step : Step AgentAct config label next) : Balanced next := by
  cases step with
  | @fire _ s s' acting left rest act =>
    have locked := balanced.locked
    have responses := balanced.responses
    simp only [total_add] at locked responses
    cases act with
    | connect limit fresh =>
      obtain rfl : rest = 0 := by simpa using kept.absent fresh
      exact ⟨by simp [AgentProc.engaged], by simp [AgentProc.responding], fun id => Nat.le_refl _⟩
    | disconnect => exact ⟨balanced.locked, balanced.responses, balanced.obedient⟩
    | token act =>
      obtain ⟨sameLocked, sameReleased, sameResponded, more⟩ := accounts_token act fun some =>
        balanced.locked_pos (by rw [total_add]; omega)
      refine ⟨?_, ?_, fun id => ?_⟩
      · simp only [total_add]
        omega
      · simp only [total_add, sameResponded]
        omega
      · rw [sameResponded]
        exact (balanced.obedient id).trans (more id)
    | response =>
      refine ⟨?_, ?_, fun id => ?_⟩
      · simpa [AgentProc.engaged] using locked
      · simp [AgentProc.responding] at responses ⊢
        omega
      · have before := balanced.obedient id
        have below := obeys _ rfl
        simp only [List.count_cons, beq_iff_eq]
        split
        · rename_i same
          subst same
          exact below
        · exact before
    | _ => exact balanced.replace rfl rfl

/-! ### The agent in the scheduler -/

/-- The scheduler's goroutine, as one of this agent's. Before `handleAgentStream` its stream is served
by `AddReceiver`. -/
def Proc.ofAgent (agent : AgentId) : Proc → Option AgentProc
  | .agent other proc => if other = agent then some proc else none
  | .router (.add (.receiver other) _) | .router (.attaching (.receiver other) _ true)
  | .router (.found (.receiver other) _ _ true) => if other = agent then some .starting else none
  | _ => none

/-- What the scheduler keeps for this agent. -/
def Mem.agentState (agent : AgentId) (mem : Mem) : AgentState :=
  ⟨mem.connected (.receiver agent), mem.done (.receiver agent), mem.tokens agent⟩

/-- The ID of the response received on this agent's stream. -/
def Event.responseOf (agent : AgentId) : Event → Option GoString
  | .response other resp => if other = agent then some resp.requestID else none
  | _ => none

section View

variable {md5 : GoString → GoString} {event : Event} {mem mem' : Mem} {acting left : List Proc}

theorem ofAgent_none {agent : AgentId} (acts : ∀ proc ∈ acting, proc.ofAgent agent = none)
    (leaves : ∀ proc ∈ left, proc.ofAgent agent = none) :
    left.filterMap (Proc.ofAgent agent) = acting.filterMap (Proc.ofAgent agent) := by
  rw [List.filterMap_eq_nil_iff.mpr acts, List.filterMap_eq_nil_iff.mpr leaves]

theorem filterMap_ofAgent_self (agent : AgentId) (procs : List AgentProc) :
    (procs.map (Proc.agent agent)).filterMap (Proc.ofAgent agent) = procs := by
  have same : Proc.ofAgent agent ∘ Proc.agent agent = some := by
    funext proc
    simp [Proc.ofAgent]
  rw [List.filterMap_map, same, List.filterMap_some]

theorem ofAgent_other {agent other : AgentId} (differs : other ≠ agent) (procs : List AgentProc) :
    ∀ proc ∈ procs.map (Proc.agent other), proc.ofAgent agent = none := by
  refine List.forall_mem_map.mpr fun proc _ => ?_
  simp [Proc.ofAgent, differs]

/-- What happens is a step of the agent, or leaves it alone. -/
def AgentView (agent : AgentId) (event : Event) (mem : Mem) (acting : List Proc) (mem' : Mem)
    (left : List Proc) : Prop :=
  mem'.agentState agent = mem.agentState agent ∧
      left.filterMap (Proc.ofAgent agent) = acting.filterMap (Proc.ofAgent agent) ∨
    AgentAct (event.responseOf agent) (mem.agentState agent)
      (acting.filterMap (Proc.ofAgent agent)) (mem'.agentState agent)
      (left.filterMap (Proc.ofAgent agent))

theorem agentView_env (agent : AgentId) (act : EnvAct event mem acting mem' left) :
    AgentView agent event mem acting mem' left := by
  cases act with
  | connectConsumerd => exact .inl ⟨by simp [Mem.agentState], rfl⟩
  | connectAgent other tcs limit fresh unlocked within =>
    by_cases here : other = agent
    · subst here
      right
      simpa [Mem.agentState, Proc.ofAgent, Event.responseOf] using
        AgentAct.connect (s := mem.agentState other) limit fresh within
    · left
      simp [Mem.agentState, Proc.ofAgent, here, Ne.symm here]
  | disconnect party =>
    cases party with
    | sender cd => exact .inl ⟨by simp [Mem.agentState], rfl⟩
    | receiver other =>
      by_cases here : other = agent
      · subst here
        right
        simpa [Mem.agentState, Event.responseOf] using AgentAct.disconnect (s := mem.agentState other)
      · left
        simp [Mem.agentState, Ne.symm here]
  | response other resp =>
    by_cases here : other = agent
    · subst here
      right
      simpa [Mem.agentState, Proc.ofAgent, Event.responseOf] using
        AgentAct.response (s := mem.agentState other)
    · left
      simp [Mem.agentState, Proc.ofAgent, here, Ne.symm here]
  | request | update | cacheAvailable | cacheEvicts => exact .inl ⟨rfl, rfl⟩

theorem agentView_stream (agent : AgentId) (act : StreamAct event mem acting mem' left) :
    AgentView agent event mem acting mem' left := by
  cases act with
  | startAgent => exact .inl ⟨rfl, rfl⟩
  | @serveAgent _ other =>
    by_cases here : other = agent
    · subst here
      right
      simpa [Proc.ofAgent, Event.responseOf, List.filterMap_cons] using
        AgentAct.start (s := mem.agentState other)
    · left
      simp [Proc.ofAgent, here]
  | serveConsumerd | consumerdStops | watchStops => exact .inl ⟨rfl, rfl⟩

theorem agentView_router (agent : AgentId) {label : Option RouteId} {router : Router}
    {acts leaves : List RouterProc} (act : RouterAct md5 mem.done label mem.router acts router leaves) :
    AgentView agent event mem (acts.map .router) { mem with router := router }
      (leaves.map .router) := by
  refine .inl ⟨rfl, ?_⟩
  have spawned : ∀ hash, ((mem.router.spawned hash).map Proc.router).filterMap (Proc.ofAgent agent) =
      [] := fun hash =>
    List.filterMap_eq_nil_iff.mpr
      (List.forall_mem_map.mpr (Router.forall_mem_spawned (fun _ => rfl) hash))
  cases act with
  | @lock _ party => cases party <;> rfl
  | @lookup _ party _ _ serve =>
    rw [List.map_cons, List.filterMap_cons, spawned]
    cases party <;> cases serve <;> rfl
  | @attach _ party _ _ serve => cases party <;> cases serve <;> rfl
  | @unlock _ party => cases party <;> rfl
  | drop =>
    rw [List.map_cons, List.filterMap_cons, spawned]
    rfl
  | _ => rfl

theorem agentView_agent (agent other : AgentId) {proc after : AgentProc}
    (same : mem'.agentState agent = mem.agentState agent)
    (acts : acting.filterMap (Proc.ofAgent agent) =
      [Proc.agent other proc].filterMap (Proc.ofAgent agent))
    (leaves : left.filterMap (Proc.ofAgent agent) =
      [Proc.agent other after].filterMap (Proc.ofAgent agent))
    (act : AgentAct none (mem.agentState agent) [proc] (mem.agentState agent) [after]) :
    AgentView agent .internal mem acting mem' left := by
  unfold AgentView
  rw [same, acts, leaves]
  by_cases here : other = agent
  · right
    simpa [Proc.ofAgent, here, Event.responseOf] using act
  · left
    simp [Proc.ofAgent, here]

theorem agentView_rule (agent : AgentId) (rule : Rule md5 event mem acting mem' left)
    (carried : ∀ proc ∈ acting, ∀ id, proc.carries = some id → mem.requests.pending id ≠ none) :
    AgentView agent event mem acting mem' left := by
  have alone : mem'.agentState agent = mem.agentState agent →
      (∀ proc ∈ acting, proc.ofAgent agent = none) → (∀ proc ∈ left, proc.ofAgent agent = none) →
      AgentView agent event mem acting mem' left := fun same acts leaves =>
    .inl ⟨same, ofAgent_none acts leaves⟩
  cases rule with
  | env act => exact agentView_env agent act
  | stream act => exact agentView_stream agent act
  | router act => exact agentView_router agent act
  | call act =>
    cases act with
    | lookup =>
      refine alone rfl (by simp [Proc.ofAgent]) (List.forall_mem_cons.mpr ⟨rfl, ?_⟩)
      exact List.forall_mem_map.mpr (Router.forall_mem_spawned (fun _ => rfl) _)
    | failedNonexistent => exact alone rfl (by simp [Proc.ofAgent]) (forall_mem_back (fun _ => rfl) _)
    | _ => exact .inl ⟨rfl, rfl⟩
  | exchange act =>
    cases act with
    | receive | announce =>
      exact alone rfl (by simp [Proc.ofAgent])
        (List.forall_mem_cons.mpr ⟨rfl, forall_mem_back (fun _ => rfl) _⟩)
    | @handOver _ other => exact agentView_agent agent other rfl rfl rfl .receive
    | @forward _ other => exact agentView_agent agent other rfl rfl rfl .forward
    | defunct => exact .inl ⟨rfl, rfl⟩
  | @token _ acts _ leaves other act =>
    by_cases here : other = agent
    · subst here
      right
      rw [filterMap_ofAgent_self, filterMap_ofAgent_self]
      simpa [Mem.agentState, Event.responseOf] using AgentAct.token (s := mem.agentState other) act
    · exact alone (by simp [Mem.agentState, Ne.symm here]) (ofAgent_other here _) (ofAgent_other here _)
  | send act =>
    cases act with
    | @load _ other => exact agentView_agent agent other rfl rfl rfl .load
    | @record _ other => exact agentView_agent agent other rfl rfl rfl .record
    | nonexistent absent =>
      exact absurd absent (carried _ (List.mem_singleton_self _) _ rfl)
  | cleanup act => cases act <;> exact .inl ⟨rfl, rfl⟩
  | queue act =>
    cases act with
    | answer | answerFails =>
      exact alone rfl (by simp [Proc.ofAgent])
        (List.forall_mem_cons.mpr ⟨rfl, forall_mem_caching (fun _ _ => rfl) _ _ _⟩)
    | _ => exact .inl ⟨rfl, rfl⟩

end View

/-- What the scheduler's state is for this agent. -/
def agentConfig (agent : AgentId) (config : State) : Config AgentState AgentProc :=
  config.view (Mem.agentState agent) (Proc.ofAgent agent)

section Runs

variable {md5 : GoString → GoString} {allowed : State → Event → Prop} {config : State}
  (agent : AgentId)

theorem reach_agentConfig {obeys : Config AgentState AgentProc → Option GoString → Prop}
    (fresh : ∀ config event, allowed config event → FreshIDs config event)
    (implies : ∀ config event, allowed config event →
      obeys (agentConfig agent config) (event.responseOf agent))
    (reach : Reach (Act md5) allowed initial config) :
    Reach AgentAct obeys (agentConfig agent initial) (agentConfig agent config) := by
  refine reach.view (Mem.agentState agent) (Proc.ofAgent agent) ?_
  intro event mem mem' acting left rest reach ok fires
  have carried := (reach_carried fresh reach).2
  have present : ∀ proc ∈ acting, ∀ id, proc.carries = some id → mem.requests.pending id ≠ none :=
    fun proc member id carries =>
      carried.pending_of_mem (mem_of_acting member) carries
  rcases agentView_rule agent fires.2 present with alone | act
  · exact .inl alone
  · exact .inr ⟨_, implies _ _ ok, act⟩

theorem agentKept_initial : AgentKept (agentConfig agent initial) :=
  ⟨rfl, Nat.zero_le _, rfl, fun _ => rfl, nofun⟩

theorem balanced_initial : Balanced (agentConfig agent initial) :=
  ⟨rfl, rfl, fun _ => Nat.le_refl _⟩

theorem reach_agentKept (fresh : ∀ config event, allowed config event → FreshIDs config event)
    (reach : Reach (Act md5) allowed initial config) : AgentKept (agentConfig agent config) := by
  have run : Reach AgentAct (fun _ _ => True) (agentConfig agent initial) (agentConfig agent config) :=
    reach_agentConfig agent fresh (fun _ _ _ => trivial) reach
  exact run.invariant AgentKept (agentKept_initial agent) fun kept _ step => agentKept_step kept step

theorem reach_balanced (fresh : ∀ config event, allowed config event → FreshIDs config event)
    (obeys : ∀ config event, allowed config event →
      Obeys (agentConfig agent config) (event.responseOf agent))
    (reach : Reach (Act md5) allowed initial config) : Balanced (agentConfig agent config) :=
  ((reach_agentConfig agent fresh obeys reach).invariant
    (fun config => AgentKept config ∧ Balanced config) ⟨agentKept_initial agent, balanced_initial agent⟩
    fun inv ok step => ⟨agentKept_step inv.1 step, balanced_step inv.1 inv.2 ok step⟩).2

end Runs

/-! ### Conservation -/

/-- The agent whose token a goroutine has in its hand. -/
def Proc.tokenInHand : Proc → Option AgentId
  | .agent a (.send .token) | .agent a (.recv (.token _)) => some a
  | _ => none

/-- The requests that are outstanding: sent, and no locked token taken for the response. -/
def Tokens.outstanding (t : Tokens) : Int := t.sent.length - t.released

/-- **The agent's tokens are conserved**: those available, locked and in a hand add up to the limit; the
locked ones are as many as the outstanding requests, or one more; no more requests are outstanding than
the limit; a response finds a locked token, and a request received from the route is pending. -/
structure TokensConserved (config : State) (agent : AgentId) : Prop where
  conserved : (config.mem.tokens agent).available + (config.mem.tokens agent).locked +
    total (tally Proc.tokenInHand agent) config.procs = (config.mem.tokens agent).limit
  locked : ((config.mem.tokens agent).locked : Int) = (config.mem.tokens agent).outstanding ∨
    ((config.mem.tokens agent).locked : Int) = (config.mem.tokens agent).outstanding + 1
  bounded : (config.mem.tokens agent).outstanding ≤ (config.mem.tokens agent).limit
  balanced : ∀ resp, Proc.agent agent (.recv (.response resp)) ∈ config.procs →
    (config.mem.tokens agent).locked ≠ 0
  existent : ∀ req, Proc.agent agent (.send (.received req)) ∈ config.procs →
    config.mem.requests.pending req.requestID ≠ none

/-- The runs with fresh IDs in which this agent sends at most one response for each request it was
sent. -/
def Obedient (agent : AgentId) (config : State) (event : Event) : Prop :=
  FreshIDs config event ∧ ∀ id ∈ event.responseOf agent,
    (config.mem.tokens agent).responded.count id < (config.mem.tokens agent).sent.count id

variable {md5 : GoString → GoString} {config : State} {agent : AgentId}

theorem total_inHand (procs : Multiset Proc) :
    total AgentProc.inHand (procs.filterMap (Proc.ofAgent agent)) =
      total (tally Proc.tokenInHand agent) procs := by
  have own : ∀ other proc, tally Proc.tokenInHand agent (.agent other proc) =
      if other = agent then AgentProc.inHand proc else 0 := by
    intro other proc
    cases proc with
    | starting => simp [tally, Proc.tokenInHand, AgentProc.inHand]
    | send phase | recv phase => cases phase <;> simp [tally, Proc.tokenInHand, AgentProc.inHand]
  rw [total_filterMap]
  refine total_congr fun proc _ => ?_
  cases proc with
  | agent other proc =>
    rw [own]
    by_cases here : other = agent <;> simp [Proc.ofAgent, here]
  | router proc =>
    -- a goroutine that still starts has no token
    unfold Proc.ofAgent
    split <;> first | rfl | contradiction | (split <;> rfl)
  | consumerd | watch | call | cleanup | queue | cacheTransaction => rfl

theorem AgentKept.engaged_le {config : Config AgentState AgentProc} (kept : AgentKept config) :
    total AgentProc.engaged config.procs ≤ 1 := by
  have below : ∀ proc : AgentProc, proc.engaged ≤ proc.serves := by
    intro proc
    cases proc with
    | starting => exact Nat.zero_le _
    | send phase => cases phase <;> simp [AgentProc.engaged, AgentProc.serves]
    | recv phase => exact Nat.zero_le _
  calc total AgentProc.engaged config.procs ≤ total AgentProc.serves config.procs :=
        total_le_total below _
    _ = config.mem.connected.toNat := kept.serving
    _ ≤ 1 := Bool.toNat_le _

/-- **Tokens are conserved**, in every state of every run in which the agent obeys. -/
theorem tokensConserved (reach : Reach (Act md5) (Obedient agent) initial config) :
    TokensConserved config agent := by
  have kept := reach_agentKept agent (fun _ _ ok => ok.1) reach
  have balanced := reach_balanced agent (fun _ _ ok => ok.1) (fun _ _ ok => ok.2) reach
  have carried := (reach_carried (fun _ _ ok => ok.1) reach).2
  have tokens : (config.mem.tokens agent).available + (config.mem.tokens agent).locked +
      total (tally Proc.tokenInHand agent) config.procs = (config.mem.tokens agent).limit := by
    rw [← total_inHand]
    exact kept.tokens
  have account : (config.mem.tokens agent).locked + (config.mem.tokens agent).released =
      (config.mem.tokens agent).sent.length + total AgentProc.engaged (agentConfig agent config).procs :=
    balanced.locked
  have engaged := kept.engaged_le
  refine ⟨tokens, ?_, ?_, fun resp member => ?_, fun req member => carried.pending_of_mem member rfl⟩
  · unfold Tokens.outstanding
    omega
  · unfold Tokens.outstanding
    omega
  · have responding : 0 < total AgentProc.responding (agentConfig agent config).procs :=
      total_pos_iff.mpr ⟨.recv (.response resp), (Multiset.mem_filterMap _ _).mpr
        ⟨_, member, if_pos rfl⟩, Nat.one_pos⟩
    exact Nat.pos_iff_ne_zero.mp (balanced.locked_pos responding)

/-- The agent's only token is locked for the request it was sent. -/
theorem tokensConserved_sending : ∃ config : State, Reach (Act id) (Obedient 0) initial config ∧
    config.mem.tokens 0 = ⟨1, 0, 1, [bytes "1"], [], 0⟩ ∧ TokensConserved config 0 := by
  obtain ⟨mem, reach, -, -, -, -, tokens, -⟩ := @sending_run (Obedient 0)
    (fun _ event plain => by
      cases event <;> first | (cases plain; done) | exact ⟨trivial, by simp [Event.responseOf]⟩)
    (fun config _ _ none _ => ⟨by simp [FreshIDs, none], by simp [Event.responseOf]⟩)
    fun _ _ _ _ => ⟨trivial, by simp [Event.responseOf]⟩
  exact ⟨_, reach, tokens, tokensConserved reach⟩

end Kubecc.Scheduler
