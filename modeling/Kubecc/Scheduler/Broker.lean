/-
**The scheduler's broker.**

`pkg/scheduler/broker.go`, with `Router.Route` of `router.go`: a request is received from a consumerd,
stored as pending, offered on its route, taken by the goroutine attached there for some agent, handed
to that agent's send goroutine, recorded as in flight and sent. Responses of agents, of the cache, of
failed routing and of the clean-up of a lost agent meet in `handleResponseQueue`, which answers the
consumerd or routes the request again.

Each goroutine is a process; each access to what goroutines share is a step. The two sides of an
unbuffered channel step together.

* `Mem`, `Proc`, `Event` — what is shared, the goroutines, the labels of the steps.
* `TokenAct` — the steps of one agent's send and receive goroutines on its tokens.
* `Act` — the steps of the scheduler; there is none after a panic.
* `Quiet` — nothing happens unless somebody outside acts.
-/

import Kubecc.Scheduler.Router

namespace Kubecc.Scheduler

open Kubecc.Lib Kubecc.Go Kubecc.Types

/-! ### Messages -/

inductive CompileResult
  | success
  | fail
  | internalError
  | defunct
  | retry
deriving DecidableEq

inductive RetryAction
  | unknown
  | retry
  | doNotRetry
deriving DecidableEq

inductive ResponseData
  | error (text : GoString)
  | compiledSource (data : GoString)
  | retryAction (action : RetryAction)
deriving DecidableEq

structure Response where
  requestID : GoString
  compileResult : CompileResult
  data : Option ResponseData
deriving DecidableEq

def Response.compiledSource (resp : Response) : GoString :=
  match resp.data with
  | some (.compiledSource data) => data
  | _ => []

def cachedResponse (req : Request) (data : GoString) : Response :=
  ⟨req.requestID, .success, some (.compiledSource data)⟩

def retryResponse (req : Request) (action : RetryAction) : Response :=
  ⟨req.requestID, .retry, some (.retryAction action)⟩

def defunctResponse (id : GoString) : Response :=
  ⟨id, .defunct, some (.error (bytes "The agent handling this task is no longer available."))⟩

/-- The text that `CompileRequest.Hash` writes. `Route` has turned a nil toolchain away. -/
def Request.hash (req : Request) : GoString :=
  match req.toolchain with
  | some tc => (CompileRequest.mk tc req.args req.preprocessedSource).hash
  | none => []

/-! ### What the goroutines share -/

structure PendingRequest where
  request : Request
  requester : ConsumerdId
deriving DecidableEq

/-- `inflightRequest`; the agent is nil for a response that the scheduler makes itself. -/
structure InflightRequest extends PendingRequest where
  agent : Option AgentId
deriving DecidableEq

def maxTokens : Nat := 1000

/-- The token channels of an agent. `sent` and `responded` record the requests sent on its stream and
the responses received on it, `released` the locked tokens taken for responses. -/
structure Tokens where
  limit : Nat
  available : Nat
  locked : Nat
  sent : List GoString
  responded : List GoString
  released : Nat
deriving DecidableEq

/-- `pendingRequests` and `inflightRequests`. `received` records the requests received on each
consumerd's stream, `sent` the responses sent on it, and `dropped` those that could not be sent. -/
structure Requests where
  pending : GoString → Option PendingRequest
  inflight : GoString → Option InflightRequest
  received : List (ConsumerdId × GoString)
  sent : List (ConsumerdId × Response)
  dropped : List (ConsumerdId × GoString)

/-- The cache server, and the `ManagedFields` of each request object. `available` is that there is a
cache client and `cacheAvailable` is set. -/
structure Cache where
  available : Bool
  objects : GoString → Option GoString
  managed : GoString → Option GoString

structure Stats where
  requestCount : Int
  completedTasks : Int
  failedTasks : Int

/-- **The shared memory.** `done` says whose stream's context is done. -/
structure Mem where
  router : Router
  connected : Party → Bool
  done : Party → Bool
  tokens : AgentId → Tokens
  requests : Requests
  cache : Cache
  stats : Stats
  agentsMutex : Bool
  crashed : Bool

namespace Requests

def setPending (r : Requests) (id : GoString) (value : Option PendingRequest) : Requests :=
  { r with pending := Function.update r.pending id value }

def setInflight (r : Requests) (id : GoString) (value : Option InflightRequest) : Requests :=
  { r with inflight := Function.update r.inflight id value }

end Requests

/-- The counters once `handleResponseQueue` has looked at the result. -/
def Stats.count (stats : Stats) : CompileResult → Stats
  | .fail | .internalError => { stats with failedTasks := stats.failedTasks + 1 }
  | .success => { stats with completedTasks := stats.completedTasks + 1 }
  | _ => stats

/-- `requestCount.Inc` and `Dec`. -/
def Stats.addRequests (stats : Stats) (change : Int) : Stats :=
  { stats with requestCount := stats.requestCount + change }

/-! ### The goroutines -/

/-- Where an agent's send goroutine stands. It is `failed` after an error of `Send`. -/
inductive SendPhase
  | select
  | token
  | await
  | received (req : Request)
  | loaded (req : Request) (pending : PendingRequest)
  | recorded (req : Request)
  | failed
  | returned
deriving DecidableEq

inductive RecvPhase
  | recv
  | response (resp : Response)
  | token (resp : Response)
  | forward (resp : Response)
  | returned
deriving DecidableEq

/-- The goroutine that serves an agent's stream, before `handleAgentStream` has started the other two,
and these two. -/
inductive AgentProc
  | starting
  | send (phase : SendPhase)
  | recv (phase : RecvPhase)
deriving DecidableEq

/-- A call of `routeNewRequest`: by the goroutine that receives from the consumerd's stream, or by a
goroutine of its own. -/
structure Call where
  consumerd : ConsumerdId
  request : Request
  ifRouteFails : RetryAction
  fromStream : Bool
deriving DecidableEq

/-- Where a call of `routeNewRequest` stands: from `hook` to `offer` it is in `Route`, with the route
it looked up. -/
inductive CallPhase
  | store
  | route
  | hook (rt : RouteId)
  | hit (rt : RouteId) (data : GoString)
  | check (rt : RouteId)
  | offer (rt : RouteId)
  | failed
  | loaded (pending : PendingRequest) (resp : Response)
  | announce (resp : Response)
deriving DecidableEq

/-- Where the goroutine that ends in `cleanupAgent` stands; `keys` are still to be visited. -/
inductive CleanupPhase
  | waiting
  | ranging (keys : List GoString)
  | sending (id : GoString) (keys : List GoString)
deriving DecidableEq

inductive QueuePhase
  | idle
  | got (resp : Response)
  | taken (resp : Response) (inflight : InflightRequest)
deriving DecidableEq

inductive Proc
  | router (proc : RouterProc)
  | consumerd (cd : ConsumerdId)
  | watch (cd : ConsumerdId)
  | call (call : Call) (phase : CallPhase)
  | agent (agent : AgentId) (proc : AgentProc)
  | cleanup (agent : AgentId) (phase : CleanupPhase)
  | queue (phase : QueuePhase)
  | cacheTransaction (hash : GoString) (data : GoString)
deriving DecidableEq

/-- What is left of a call that returns. -/
def Call.back (call : Call) : List Proc :=
  if call.fromStream then [.consumerd call.consumerd] else []

/-- The goroutine that stores a response in the cache, if one is started. -/
def caching (cache : Cache) (inflight : InflightRequest) (resp : Response) : List Proc :=
  match resp.compileResult, cache.managed inflight.request.requestID with
  | .success, some hash => [.cacheTransaction hash resp.compiledSource]
  | _, _ => []

theorem forall_mem_back {P : Proc → Prop} (consumerd : ∀ cd, P (.consumerd cd)) (call : Call) :
    ∀ proc ∈ call.back, P proc := by
  unfold Call.back
  split
  · exact List.forall_mem_singleton.mpr (consumerd _)
  · exact List.forall_mem_nil _

theorem forall_mem_caching {P : Proc → Prop} (caches : ∀ hash data, P (.cacheTransaction hash data))
    (cache : Cache) (inflight : InflightRequest) (resp : Response) :
    ∀ proc ∈ caching cache inflight resp, P proc := by
  unfold caching
  split
  · exact List.forall_mem_singleton.mpr (caches _ _)
  · exact List.forall_mem_nil _

/-- The steps that are told apart: those of the outside, the closing of a route's channel, the taking
of a request for an agent, and a panic. -/
inductive Event
  | connectConsumerd (cd : ConsumerdId) (tcs : List Toolchain)
  | connectAgent (agent : AgentId) (tcs : List Toolchain) (limit : Nat)
  | disconnect (party : Party)
  | request (cd : ConsumerdId) (req : Request)
  | response (agent : AgentId) (resp : Response)
  | update (cd : ConsumerdId) (tcs : List Toolchain)
  | cacheChanges
  | close (rt : RouteId)
  | receive (agent : AgentId) (req : Request)
  | panic
  | internal
deriving DecidableEq

def Event.external : Event → Bool
  | .connectConsumerd .. | .connectAgent .. | .disconnect .. | .request .. | .response ..
  | .update .. | .cacheChanges => true
  | _ => false

abbrev State := Config Mem Proc

/-! ### The steps -/

/-- **The steps of an agent's two goroutines on its tokens and its stream**; `done` is the stream's
context. -/
inductive TokenAct (done : Bool) : Tokens → List AgentProc → Tokens → List AgentProc → Prop
  -- the send goroutine
  | takeToken {t} {rest : Nat} : t.available = rest + 1 →
      TokenAct done t [.send .select] { t with available := rest } [.send .token]
  | lockToken {t} : t.locked < maxTokens →
      TokenAct done t [.send .token] { t with locked := t.locked + 1 } [.send .await]
  | sendStops {t} : done = true → TokenAct done t [.send .select] t [.send .returned]
  | send {t} {req : Request} :
      TokenAct done t [.send (.recorded req)] { t with sent := req.requestID :: t.sent }
        [.send .select]
  | sendFails {t} {req : Request} : done = true →
      TokenAct done t [.send (.recorded req)] t [.send .failed]
  -- the receive goroutine
  | recvStops {t} : done = true → TokenAct done t [.recv .recv] t [.recv .returned]
  | takeLocked {t} {resp : Response} {rest : Nat} : t.locked = rest + 1 →
      TokenAct done t [.recv (.response resp)]
        { t with locked := rest, released := t.released + 1 } [.recv (.token resp)]
  | imbalance {t} {resp : Response} : t.locked = 0 →
      TokenAct done t [.recv (.response resp)] t [.recv (.forward resp)]
  | putBack {t} {resp : Response} : t.available < maxTokens →
      TokenAct done t [.recv (.token resp)] { t with available := t.available + 1 }
        [.recv (.forward resp)]

/-- **The outside.** A party connects once; a stream that connects again is another record. The
tokens of an agent are filled in before its goroutines start. -/
inductive EnvAct : Rules Mem Proc Event
  | connectConsumerd {mem} (cd : ConsumerdId) (tcs : List Toolchain) :
      mem.connected (.sender cd) = false →
      EnvAct (.connectConsumerd cd tcs) mem []
        { mem with
          connected := Function.update mem.connected (.sender cd) true
          router := { mem.router with
            toolchains := Function.update mem.router.toolchains cd tcs } }
        [.router (.add (.sender cd) tcs)]
  | connectAgent {mem} (agent : AgentId) (tcs : List Toolchain) (limit : Nat) :
      mem.connected (.receiver agent) = false → mem.agentsMutex = false → limit ≤ maxTokens →
      EnvAct (.connectAgent agent tcs limit) mem []
        { mem with
          connected := Function.update mem.connected (.receiver agent) true
          tokens := Function.update mem.tokens agent ⟨limit, limit, 0, [], [], 0⟩ }
        [.router (.add (.receiver agent) tcs)]
  | disconnect {mem} (party : Party) : mem.connected party = true →
      EnvAct (.disconnect party) mem [] { mem with done := Function.update mem.done party true } []
  | request {mem} (cd : ConsumerdId) (req : Request) :
      EnvAct (.request cd req) mem [.consumerd cd]
        { mem with
          requests := { mem.requests with
            received := (cd, req.requestID) :: mem.requests.received }
          cache := { mem.cache with
            managed := Function.update mem.cache.managed req.requestID req.managedFields } }
        [.call ⟨cd, req, .doNotRetry, true⟩ .store]
  | response {mem} (agent : AgentId) (resp : Response) :
      EnvAct (.response agent resp) mem [.agent agent (.recv .recv)]
        { mem with tokens := Function.update mem.tokens agent { mem.tokens agent with
            responded := resp.requestID :: (mem.tokens agent).responded } }
        [.agent agent (.recv (.response resp))]
  | update {mem} (cd : ConsumerdId) (tcs : List Toolchain) :
      EnvAct (.update cd tcs) mem [.watch cd] mem [.router (.update cd tcs)]
  | cacheAvailable {mem} (available : Bool) :
      EnvAct .cacheChanges mem [] { mem with cache := { mem.cache with available := available } } []
  | cacheEvicts {mem} (hash : GoString) :
      EnvAct .cacheChanges mem []
        { mem with cache := { mem.cache with
            objects := Function.update mem.cache.objects hash none } } []

/-- **The streams**: what `NewConsumerdTaskStream` and `NewAgentTaskStream` start once the party is
attached, and the ends of the goroutines that wait on a consumerd's stream. -/
inductive StreamAct : Rules Mem Proc Event
  | serveConsumerd {mem} {cd : ConsumerdId} :
      StreamAct .internal mem [.router (.attaching (.sender cd) [] true)]
        { mem with router := mem.router.setMutex false (.sender cd) } [.consumerd cd, .watch cd]
  | startAgent {mem} {agent : AgentId} :
      StreamAct .internal mem [.router (.attaching (.receiver agent) [] true)]
        { mem with router := mem.router.setMutex false (.receiver agent) } [.agent agent .starting]
  | serveAgent {mem} {agent : AgentId} : mem.agentsMutex = false →
      StreamAct .internal mem [.agent agent .starting] mem
        [.agent agent (.send .select), .agent agent (.recv .recv), .cleanup agent .waiting]
  | consumerdStops {mem} {cd : ConsumerdId} : mem.done (.sender cd) = true →
      StreamAct .internal mem [.consumerd cd] mem []
  | watchStops {mem} {cd : ConsumerdId} : mem.done (.sender cd) = true →
      StreamAct .internal mem [.watch cd] mem []

/-- **`routeNewRequest`**, with `Route` and `PreReceive`. -/
inductive CallAct (md5 : GoString → GoString) : Rules Mem Proc Event
  | store {mem} {call : Call} :
      CallAct md5 .internal mem [.call call .store]
        { mem with
          requests := mem.requests.setPending call.request.requestID
            (some ⟨call.request, call.consumerd⟩)
          stats := mem.stats.addRequests 1 }
        [.call call .route]
  -- Route
  | noToolchain {mem} {call : Call} : call.request.toolchain = none →
      CallAct md5 .internal mem [.call call .route] mem [.call call .failed]
  | lookup {mem} {call : Call} {tc : Toolchain} : call.request.toolchain = some tc →
      CallAct md5 .internal mem [.call call .route]
        { mem with router := mem.router.ensure (tcHash md5 tc) }
        (.call call (.hook (mem.router.routeFor (tcHash md5 tc))) ::
          (mem.router.spawned (tcHash md5 tc)).map .router)
  -- PreReceive
  | noCache {mem} {call : Call} {rt : RouteId} : mem.cache.available = false →
      CallAct md5 .internal mem [.call call (.hook rt)] mem [.call call (.check rt)]
  | pullHit {mem} {call : Call} {rt : RouteId} {data : GoString} : mem.cache.available = true →
      mem.cache.objects (md5 call.request.hash) = some data →
      CallAct md5 .internal mem [.call call (.hook rt)] mem [.call call (.hit rt data)]
  | pullMiss {mem} {call : Call} {rt : RouteId} : mem.cache.available = true →
      mem.cache.objects (md5 call.request.hash) = none →
      CallAct md5 .internal mem [.call call (.hook rt)]
        { mem with cache := { mem.cache with
            managed := Function.update mem.cache.managed call.request.requestID
              (some (md5 call.request.hash)) } }
        [.call call (.check rt)]
  | pullFails {mem} {call : Call} {rt : RouteId} : mem.cache.available = true →
      CallAct md5 .internal mem [.call call (.hook rt)] mem [.call call (.check rt)]
  | loadHit {mem} {call : Call} {rt : RouteId} {data : GoString} {pending : PendingRequest} :
      mem.requests.pending call.request.requestID = some pending →
      CallAct md5 .internal mem [.call call (.hit rt data)]
        { mem with requests := mem.requests.setPending call.request.requestID none }
        [.call call (.loaded pending (cachedResponse call.request data))]
  | hitNonexistent {mem} {call : Call} {rt : RouteId} {data : GoString} :
      mem.requests.pending call.request.requestID = none →
      CallAct md5 .internal mem [.call call (.hit rt data)] mem [.call call (.check rt)]
  -- Route, after its hooks
  | noAgents {mem} {call : Call} {rt : RouteId} : (mem.router.route rt).rxRefCount = 0 →
      CallAct md5 .internal mem [.call call (.check rt)] mem [.call call .failed]
  | canSend {mem} {call : Call} {rt : RouteId} : (mem.router.route rt).rxRefCount ≠ 0 →
      CallAct md5 .internal mem [.call call (.check rt)] mem [.call call (.offer rt)]
  | contextDone {mem} {call : Call} {rt : RouteId} : mem.done (.sender call.consumerd) = true →
      CallAct md5 .internal mem [.call call (.offer rt)] mem [.call call .failed]
  | sendClosed {mem} {call : Call} {rt : RouteId} : (mem.router.route rt).closed = true →
      CallAct md5 .panic mem [.call call (.offer rt)] { mem with crashed := true }
        [.call call (.offer rt)]
  -- routeNewRequest, after an error of Route
  | loadFailed {mem} {call : Call} {pending : PendingRequest} :
      mem.requests.pending call.request.requestID = some pending →
      CallAct md5 .internal mem [.call call .failed]
        { mem with
          requests := mem.requests.setPending call.request.requestID none
          stats := mem.stats.addRequests (-1) }
        [.call call (.loaded pending (retryResponse call.request call.ifRouteFails))]
  | failedNonexistent {mem} {call : Call} :
      mem.requests.pending call.request.requestID = none →
      CallAct md5 .internal mem [.call call .failed] mem call.back
  -- both paths
  | record {mem} {call : Call} {pending : PendingRequest} {resp : Response} :
      CallAct md5 .internal mem [.call call (.loaded pending resp)]
        { mem with
          requests := mem.requests.setInflight call.request.requestID (some ⟨pending, none⟩) }
        [.call call (.announce resp)]

/-- **The unbuffered channels**: both sides of a route's channel, of an agent's `filteredOutput`, and of
the response queue. -/
inductive ExchangeAct : Rules Mem Proc Event
  | receive {mem} {call : Call} {rt : RouteId} {agent : AgentId} :
      (mem.router.route rt).closed = false →
      ExchangeAct (.receive agent call.request) mem
        [.call call (.offer rt), .router (.attached (.receiver agent) rt)] mem
        (.router (.holding agent rt call.request) :: call.back)
  | handOver {mem} {agent : AgentId} {rt : RouteId} {req : Request} :
      ExchangeAct .internal mem
        [.router (.holding agent rt req), .agent agent (.send .await)] mem
        [.router (.attached (.receiver agent) rt), .agent agent (.send (.received req))]
  | announce {mem} {call : Call} {resp : Response} :
      ExchangeAct .internal mem [.call call (.announce resp), .queue .idle] mem
        (.queue (.got resp) :: call.back)
  | forward {mem} {agent : AgentId} {resp : Response} :
      ExchangeAct .internal mem [.agent agent (.recv (.forward resp)), .queue .idle] mem
        [.agent agent (.recv .recv), .queue (.got resp)]
  | defunct {mem} {agent : AgentId} {id : GoString} {keys : List GoString} :
      ExchangeAct .internal mem [.cleanup agent (.sending id keys), .queue .idle] mem
        [.cleanup agent (.ranging keys), .queue (.got (defunctResponse id))]

/-- **The send goroutine of an agent on the request maps.** -/
inductive SendAct : Rules Mem Proc Event
  | load {mem} {agent : AgentId} {req : Request} {pending : PendingRequest} :
      mem.requests.pending req.requestID = some pending →
      SendAct .internal mem [.agent agent (.send (.received req))]
        { mem with requests := mem.requests.setPending req.requestID none }
        [.agent agent (.send (.loaded req pending))]
  | nonexistent {mem} {agent : AgentId} {req : Request} :
      mem.requests.pending req.requestID = none →
      SendAct .internal mem [.agent agent (.send (.received req))] mem [.agent agent (.send .select)]
  | record {mem} {agent : AgentId} {req : Request} {pending : PendingRequest} :
      SendAct .internal mem [.agent agent (.send (.loaded req pending))]
        { mem with
          requests := mem.requests.setInflight req.requestID (some ⟨pending, some agent⟩) }
        [.agent agent (.send (.recorded req))]

/-- **`cleanupAgent`.** `Range` visits the keys it finds at its start, in any order, among them possibly
some that have been deleted, and reads each value when it gets there. -/
inductive CleanupAct : Rules Mem Proc Event
  | start {mem} {agent : AgentId} {keys : List GoString} : mem.done (.receiver agent) = true →
      mem.agentsMutex = false → keys.Nodup →
      (∀ id, (mem.requests.inflight id).isSome = true → id ∈ keys) →
      CleanupAct .internal mem [.cleanup agent .waiting] { mem with agentsMutex := true }
        [.cleanup agent (.ranging keys)]
  | visit {mem} {agent : AgentId} {id : GoString} {keys : List GoString} :
      (mem.requests.inflight id).bind (·.agent) = some agent →
      CleanupAct .internal mem [.cleanup agent (.ranging (id :: keys))] mem
        [.cleanup agent (.sending id keys)]
  | pass {mem} {agent : AgentId} {id : GoString} {keys : List GoString} :
      (mem.requests.inflight id).bind (·.agent) ≠ some agent →
      CleanupAct .internal mem [.cleanup agent (.ranging (id :: keys))] mem
        [.cleanup agent (.ranging keys)]
  | finish {mem} {agent : AgentId} :
      CleanupAct .internal mem [.cleanup agent (.ranging [])] { mem with agentsMutex := false } []

/-- **`handleResponseQueue`** and `cacheTransaction`. -/
inductive QueueAct : Rules Mem Proc Event
  | unknown {mem} {resp : Response} : mem.requests.inflight resp.requestID = none →
      QueueAct .internal mem [.queue (.got resp)] mem [.queue .idle]
  | take {mem} {resp : Response} {inflight : InflightRequest} :
      mem.requests.inflight resp.requestID = some inflight →
      QueueAct .internal mem [.queue (.got resp)]
        { mem with
          requests := mem.requests.setInflight resp.requestID none
          stats := mem.stats.addRequests 1 }
        [.queue (.taken resp inflight)]
  | requeue {mem} {resp : Response} {inflight : InflightRequest} :
      resp.compileResult = .defunct →
      QueueAct .internal mem [.queue (.taken resp inflight)] mem
        [.queue .idle, .call ⟨inflight.requester, inflight.request, .retry, false⟩ .store]
  | answer {mem} {resp : Response} {inflight : InflightRequest} : resp.compileResult ≠ .defunct →
      QueueAct .internal mem [.queue (.taken resp inflight)]
        { mem with
          requests := { mem.requests with
            sent := (inflight.requester, resp) :: mem.requests.sent }
          stats := mem.stats.count resp.compileResult }
        (.queue .idle :: caching mem.cache inflight resp)
  | answerFails {mem} {resp : Response} {inflight : InflightRequest} :
      resp.compileResult ≠ .defunct → mem.done (.sender inflight.requester) = true →
      QueueAct .internal mem [.queue (.taken resp inflight)]
        { mem with
          requests := { mem.requests with
            dropped := (inflight.requester, resp.requestID) :: mem.requests.dropped }
          stats := mem.stats.count resp.compileResult }
        (.queue .idle :: caching mem.cache inflight resp)
  | push {mem} {hash data : GoString} : hash ≠ [] → mem.cache.objects hash = none →
      QueueAct .internal mem [.cacheTransaction hash data]
        { mem with cache := { mem.cache with
            objects := Function.update mem.cache.objects hash (some data) } } []
  | pushFails {mem} {hash data : GoString} :
      QueueAct .internal mem [.cacheTransaction hash data] mem []

inductive Rule (md5 : GoString → GoString) : Rules Mem Proc Event
  | env {event mem acting mem' left} : EnvAct event mem acting mem' left →
      Rule md5 event mem acting mem' left
  | stream {event mem acting mem' left} : StreamAct event mem acting mem' left →
      Rule md5 event mem acting mem' left
  | router {mem label acting router left} :
      RouterAct md5 mem.done label mem.router acting router left →
      Rule md5 (label.elim .internal .close) mem (acting.map .router)
        { mem with router := router } (left.map .router)
  | call {event mem acting mem' left} : CallAct md5 event mem acting mem' left →
      Rule md5 event mem acting mem' left
  | exchange {event mem acting mem' left} : ExchangeAct event mem acting mem' left →
      Rule md5 event mem acting mem' left
  | token {mem acting tokens left} {agent : AgentId} :
      TokenAct (mem.done (.receiver agent)) (mem.tokens agent) acting tokens left →
      Rule md5 .internal mem (acting.map (.agent agent))
        { mem with tokens := Function.update mem.tokens agent tokens } (left.map (.agent agent))
  | send {event mem acting mem' left} : SendAct event mem acting mem' left →
      Rule md5 event mem acting mem' left
  | cleanup {event mem acting mem' left} : CleanupAct event mem acting mem' left →
      Rule md5 event mem acting mem' left
  | queue {event mem acting mem' left} : QueueAct event mem acting mem' left →
      Rule md5 event mem acting mem' left

def Act (md5 : GoString → GoString) : Rules Mem Proc Event := fun event mem acting mem' left =>
  mem.crashed = false ∧ Rule md5 event mem acting mem' left

def initial : State :=
  .ofList
    { router := ⟨fun _ => none, fun _ => newRoute [], 0, false, false, fun _ => []⟩
      connected := fun _ => false, done := fun _ => false
      tokens := fun _ => ⟨0, 0, 0, [], [], 0⟩
      requests := ⟨fun _ => none, fun _ => none, [], [], []⟩
      cache := ⟨false, fun _ => none, fun _ => none⟩
      stats := ⟨0, 0, 0⟩, agentsMutex := false, crashed := false }
    [.queue .idle]

def Quiet (md5 : GoString → GoString) (config : State) : Prop :=
  ∀ event next, Step (Act md5) config event next → event.external = true

/-! ### The parties -/

theorem parties_rule {md5 : GoString → GoString} {event : Event} {mem mem' : Mem}
    {acting left : List Proc} (rule : Rule md5 event mem acting mem' left) (party : Party) :
    (mem.connected party = true → mem'.connected party = true) ∧
      (mem'.done party = true → mem.done party = true ∨ event = .disconnect party) ∧
      (mem.done party = true → mem'.done party = true) := by
  have same : mem'.connected = mem.connected → mem'.done = mem.done → _ := fun connected done =>
    show (mem.connected party = true → mem'.connected party = true) ∧
      (mem'.done party = true → mem.done party = true ∨ event = .disconnect party) ∧
      (mem.done party = true → mem'.done party = true) by
    rw [connected, done]
    exact ⟨id, .inl, id⟩
  cases rule with
  | env act =>
    cases act with
    | connectConsumerd cd | connectAgent agent =>
      refine ⟨fun connected => ?_, .inl, id⟩
      simp only [Function.update_apply]
      split <;> simp [connected]
    | disconnect other =>
      by_cases here : party = other
      · subst here
        exact ⟨id, fun _ => .inr rfl, fun _ => by simp⟩
      · simp [Function.update_of_ne here]
        exact .inl
    | _ => exact same rfl rfl
  | router | token => exact same rfl rfl
  | stream act | call act | exchange act | send act | cleanup act | queue act =>
    cases act <;> exact same rfl rfl

/-! ### A run -/

section Run

variable {md5 : GoString → GoString} {allowed : State → Event → Prop} {mem : Mem} {alive : List Proc}

theorem lookup_of_some {call : Call} {tc : Toolchain} {rt : RouteId}
    (toolchain : call.request.toolchain = some tc)
    (entry : mem.router.routes (tcHash md5 tc) = some rt) :
    CallAct md5 .internal mem [.call call .route] mem [.call call (.hook rt)] := by
  have act := @CallAct.lookup md5 mem call tc toolchain
  rw [Router.routeFor_of_some entry, Router.ensure_of_some entry, Router.spawned_of_some entry] at act
  exact act

theorem reach_rule {event : Event} {mem' : Mem} {left : List Proc}
    (reach : Reach (Act md5) allowed initial (.ofList mem alive)) (acting rest : List Proc)
    (running : mem.crashed = false) (rule : Rule md5 event mem acting mem' left)
    (ok : allowed (.ofList mem alive) event) (split : alive.Perm (acting ++ rest)) :
    Reach (Act md5) allowed initial (.ofList mem' (left ++ rest)) :=
  reach.next acting rest ⟨running, rule⟩ ok split

theorem reach_router {label : Option RouteId} {router : Router} {left : List RouterProc}
    (reach : Reach (Act md5) allowed initial (.ofList mem alive)) (acting : List RouterProc)
    (rest : List Proc) (running : mem.crashed = false)
    (act : RouterAct md5 mem.done label mem.router acting router left)
    (ok : allowed (.ofList mem alive) (label.elim .internal .close))
    (split : alive.Perm (acting.map .router ++ rest)) :
    Reach (Act md5) allowed initial
      (.ofList { mem with router := router } (left.map .router ++ rest)) :=
  reach.next (acting.map .router) rest ⟨running, .router act⟩ ok split

theorem reach_token (agent : AgentId) {acting left : List AgentProc} {tokens : Tokens}
    (reach : Reach (Act md5) allowed initial (.ofList mem alive)) (rest : List Proc)
    (running : mem.crashed = false)
    (act : TokenAct (mem.done (.receiver agent)) (mem.tokens agent) acting tokens left)
    (ok : allowed (.ofList mem alive) .internal)
    (split : alive.Perm (acting.map (.agent agent) ++ rest)) :
    Reach (Act md5) allowed initial
      (.ofList { mem with tokens := Function.update mem.tokens agent tokens }
        (left.map (.agent agent) ++ rest)) :=
  reach.next (acting.map (.agent agent)) rest ⟨running, .token act⟩ ok split

def gnu : Toolchain :=
  ⟨1, 1, bytes "/usr/bin/gcc", bytes "amd64", bytes "11", false, false⟩

def compile (id : GoString) : Request := ⟨id, some gnu, [bytes "-c", bytes "foo.c"], [], none⟩

def callOf (id : GoString) : Call := ⟨0, compile id, .doNotRetry, true⟩

/-- A connection, or a step that is not told apart. -/
def Event.plain : Event → Bool
  | .connectConsumerd .. | .connectAgent .. | .internal => true
  | _ => false

/-- A consumerd and an agent with one token have connected, and a request is on offer. -/
theorem offering_run (plain : ∀ config event, event.plain = true → allowed config event)
    (first : ∀ (config : State) cd req, config.mem.requests.received = [] →
      req.managedFields = none → allowed config (.request cd req)) :
    ∃ mem, Reach (Act id) allowed initial (.ofList mem
        [.call (callOf (bytes "1")) (.offer 0), .router (.attaching (.receiver 0) [] true),
          .router (.attached (.receiver 0) 0), .watch 0, .router (.attached (.sender 0) 0),
          .router (.closer 0), .queue .idle]) ∧
      mem.crashed = false ∧ mem.router.sendersMutex = false ∧ mem.router.toolchains 0 = [gnu] ∧
      mem.router.routes (tcHash id gnu) = some 0 ∧ mem.tokens 0 = ⟨1, 1, 0, [], [], 0⟩ ∧
      mem.requests = ⟨Function.update (fun _ => none) (bytes "1") (some ⟨compile (bytes "1"), 0⟩),
        fun _ => none, [(0, bytes "1")], [], []⟩ ∧
      mem.connected (.sender 0) = true ∧ mem.agentsMutex = false ∧
      mem.router.route 0 = ⟨tcHash id gnu, false, false, 1, 1⟩ ∧ mem.done = (fun _ => false) ∧
      mem.cache.available = false ∧ mem.connected (.receiver 0) = true ∧ mem.stats = ⟨1, 0, 0⟩ := by
  have h0 : Reach (Act id) allowed initial (.ofList initial.mem [.queue .idle]) := .start
  have h1 := reach_rule h0 [] [.queue .idle] rfl (.env (.connectConsumerd 0 [gnu] rfl))
    (plain _ _ rfl) (.refl _)
  have h2 := reach_router h1 [.add (.sender 0) [gnu]] [.queue .idle] rfl (.lock rfl) (plain _ _ rfl)
    (.refl _)
  have h3 := reach_router h2 [.attaching (.sender 0) [gnu] true] [.queue .idle] rfl .lookup
    (plain _ _ rfl) (.refl _)
  have h4 := reach_router h3 [.found (.sender 0) 0 [] true] [.router (.closer 0), .queue .idle] rfl
    .attach (plain _ _ rfl) (.refl _)
  have h5 := reach_rule h4 [.router (.attaching (.sender 0) [] true)]
    [.router (.attached (.sender 0) 0), .router (.closer 0), .queue .idle] rfl
    (.stream .serveConsumerd) (plain _ _ rfl) (.refl _)
  have h6 := reach_rule h5 [] _ rfl (.env (.connectAgent 0 [gnu] 1 rfl rfl (by decide)))
    (plain _ _ rfl) (.refl _)
  have h7 := reach_router h6 [.add (.receiver 0) [gnu]] _ rfl (.lock rfl) (plain _ _ rfl) (.refl _)
  have h8 := reach_router h7 [.attaching (.receiver 0) [gnu] true] _ rfl .lookup (plain _ _ rfl)
    (.refl _)
  have h9 := reach_router h8 [.found (.receiver 0) 0 [] true]
    [.consumerd 0, .watch 0, .router (.attached (.sender 0) 0), .router (.closer 0), .queue .idle]
    rfl .attach (plain _ _ rfl) (by decide)
  have h10 := reach_rule h9 [.consumerd 0]
    [.router (.attaching (.receiver 0) [] true), .router (.attached (.receiver 0) 0), .watch 0,
      .router (.attached (.sender 0) 0), .router (.closer 0), .queue .idle] rfl
    (.env (.request 0 (compile (bytes "1")))) (first _ _ _ rfl rfl) (by decide)
  have h11 := reach_rule h10 [.call (callOf (bytes "1")) .store] _ rfl (.call .store)
    (plain _ _ rfl) (.refl _)
  have h12 := reach_rule h11 [.call (callOf (bytes "1")) .route] _ rfl (.call (.lookup rfl))
    (plain _ _ rfl) (.refl _)
  have h13 := reach_rule h12 [.call (callOf (bytes "1")) (.hook 0)]
    [.router (.attaching (.receiver 0) [] true), .router (.attached (.receiver 0) 0), .watch 0,
      .router (.attached (.sender 0) 0), .router (.closer 0), .queue .idle] rfl
    (.call (.noCache rfl)) (plain _ _ rfl) (by decide)
  have h14 := reach_rule h13 [.call (callOf (bytes "1")) (.check 0)] _ rfl
    (.call (.canSend (by decide))) (plain _ _ rfl) (.refl _)
  exact ⟨_, h14, rfl, rfl, rfl, rfl, rfl, rfl, rfl, rfl, rfl, rfl, rfl, rfl, rfl⟩

/-- The request goes to the agent: its only token is locked. -/
theorem sending_run (plain : ∀ config event, event.plain = true → allowed config event)
    (first : ∀ (config : State) cd req, config.mem.requests.received = [] →
      req.managedFields = none → allowed config (.request cd req))
    (take : ∀ (config : State) agent req, config.mem.done = (fun _ => false) →
      allowed config (.receive agent req)) :
    ∃ mem, Reach (Act id) allowed initial (.ofList mem
        [.agent 0 (.send .select), .router (.attached (.receiver 0) 0), .consumerd 0,
          .agent 0 (.recv .recv), .cleanup 0 .waiting, .watch 0, .router (.attached (.sender 0) 0),
          .router (.closer 0), .queue .idle]) ∧
      mem.crashed = false ∧ mem.router.routes (tcHash id gnu) = some 0 ∧
      mem.router.route 0 = ⟨tcHash id gnu, false, false, 1, 1⟩ ∧ mem.done = (fun _ => false) ∧
      mem.tokens 0 = ⟨1, 0, 1, [bytes "1"], [], 0⟩ ∧ mem.cache.available = false ∧
      mem.requests.received = [(0, bytes "1")] ∧ mem.requests.sent = [] ∧
      mem.requests.inflight = Function.update (fun _ => none) (bytes "1")
        (some ⟨⟨compile (bytes "1"), 0⟩, some 0⟩) ∧ mem.stats = ⟨1, 0, 0⟩ := by
  obtain ⟨mem, h0, running, -, -, entry, tokens, requests, -, unlocked, route, nobody, noCache, -,
    stats⟩ := offering_run plain first
  have h1 := reach_rule h0 [.router (.attaching (.receiver 0) [] true)]
    [.call (callOf (bytes "1")) (.offer 0), .router (.attached (.receiver 0) 0), .watch 0,
      .router (.attached (.sender 0) 0), .router (.closer 0), .queue .idle] running
    (.stream .startAgent) (plain _ _ rfl) (by decide)
  have h2 := reach_rule h1 [.agent 0 .starting] _ running (.stream (.serveAgent unlocked))
    (plain _ _ rfl) (.refl _)
  have take1 : TokenAct (mem.done (.receiver 0)) (mem.tokens 0) [.send .select]
      ⟨1, 0, 0, [], [], 0⟩ [.send .token] := by
    rw [tokens]
    exact .takeToken rfl
  have h3 := reach_token 0 h2 _ running take1 (plain _ _ rfl) (.refl _)
  have lock1 : TokenAct (mem.done (.receiver 0)) ⟨1, 0, 0, [], [], 0⟩ [.send .token]
      ⟨1, 0, 1, [], [], 0⟩ [.send .await] := .lockToken (by decide)
  have h4 := reach_token 0 h3 _ running lock1 (plain _ _ rfl) (.refl _)
  have h5 := reach_rule h4
    [.call (callOf (bytes "1")) (.offer 0), .router (.attached (.receiver 0) 0)]
    [.agent 0 (.send .await), .agent 0 (.recv .recv), .cleanup 0 .waiting, .watch 0,
      .router (.attached (.sender 0) 0), .router (.closer 0), .queue .idle] running
    (.exchange (.receive (show (mem.router.route 0).closed = false by rw [route])))
    (take _ _ _ nobody) (by decide)
  have h6 := reach_rule h5
    [.router (.holding 0 0 (compile (bytes "1"))), .agent 0 (.send .await)]
    [.consumerd 0, .agent 0 (.recv .recv), .cleanup 0 .waiting, .watch 0,
      .router (.attached (.sender 0) 0), .router (.closer 0), .queue .idle] running
    (.exchange .handOver) (plain _ _ rfl) (by decide)
  have h7 := reach_rule h6 [.agent 0 (.send (.received (compile (bytes "1"))))]
    [.router (.attached (.receiver 0) 0), .consumerd 0, .agent 0 (.recv .recv), .cleanup 0 .waiting,
      .watch 0, .router (.attached (.sender 0) 0), .router (.closer 0), .queue .idle] running
    (.send (.load (show mem.requests.pending (bytes "1") = some ⟨compile (bytes "1"), 0⟩ by
      rw [requests]
      rfl))) (plain _ _ rfl) (by decide)
  have h8 := reach_rule h7
    [.agent 0 (.send (.loaded (compile (bytes "1")) ⟨compile (bytes "1"), 0⟩))] _ running
    (.send .record) (plain _ _ rfl) (.refl _)
  have send1 : TokenAct (mem.done (.receiver 0)) ⟨1, 0, 1, [], [], 0⟩
      [.send (.recorded (compile (bytes "1")))] ⟨1, 0, 1, [bytes "1"], [], 0⟩ [.send .select] := .send
  have h9 := reach_token 0 h8 _ running send1 (plain _ _ rfl) (.refl _)
  refine ⟨_, h9, running, entry, route, nobody, rfl, noCache, ?_, ?_, ?_, stats⟩
  · show mem.requests.received = _
    rw [requests]
  · show mem.requests.sent = _
    rw [requests]
  · show Function.update mem.requests.inflight _ _ = _
    rw [requests]
    rfl

def answer : Response := ⟨bytes "1", .success, some (.compiledSource [7])⟩

/-- The agent answers, and the consumerd gets the answer. -/
theorem answered_run (plain : ∀ config event, event.plain = true → allowed config event)
    (first : ∀ (config : State) cd req, config.mem.requests.received = [] →
      req.managedFields = none → allowed config (.request cd req))
    (take : ∀ (config : State) agent req, config.mem.done = (fun _ => false) →
      allowed config (.receive agent req))
    (respond : ∀ (config : State) agent resp, resp.requestID ∈ (config.mem.tokens agent).sent →
      allowed config (.response agent resp)) :
    ∃ config, Reach (Act id) allowed initial config ∧ config.mem.requests.sent = [(0, answer)] ∧
      config.mem.requests.received = [(0, bytes "1")] ∧ config.mem.stats = ⟨2, 1, 0⟩ := by
  obtain ⟨mem, h0, running, -, -, -, tokens, -, received, sent, inflight, stats⟩ :=
    sending_run plain first take
  have h1 := reach_rule h0 [.agent 0 (.recv .recv)]
    [.agent 0 (.send .select), .router (.attached (.receiver 0) 0), .consumerd 0,
      .cleanup 0 .waiting, .watch 0, .router (.attached (.sender 0) 0), .router (.closer 0),
      .queue .idle] running (.env (.response 0 answer))
    (respond _ _ _ (show answer.requestID ∈ (mem.tokens 0).sent by rw [tokens]; decide)) (by decide)
  have unlock : TokenAct (mem.done (.receiver 0))
      (Function.update mem.tokens 0
        { mem.tokens 0 with responded := bytes "1" :: (mem.tokens 0).responded } 0)
      [.recv (.response answer)] ⟨1, 0, 0, [bytes "1"], [bytes "1"], 1⟩ [.recv (.token answer)] := by
    rw [Function.update_self, tokens]
    exact .takeLocked rfl
  have h2 := reach_token 0 h1 _ running unlock (plain _ _ rfl) (.refl _)
  have release : TokenAct (mem.done (.receiver 0)) ⟨1, 0, 0, [bytes "1"], [bytes "1"], 1⟩
      [.recv (.token answer)] ⟨1, 1, 0, [bytes "1"], [bytes "1"], 1⟩ [.recv (.forward answer)] :=
    .putBack (by decide)
  have h3 := reach_token 0 h2 _ running release (plain _ _ rfl) (.refl _)
  have h4 := reach_rule h3 [.agent 0 (.recv (.forward answer)), .queue .idle]
    [.agent 0 (.send .select), .router (.attached (.receiver 0) 0), .consumerd 0,
      .cleanup 0 .waiting, .watch 0, .router (.attached (.sender 0) 0), .router (.closer 0)] running
    (.exchange .forward) (plain _ _ rfl) (by decide)
  have h5 := reach_rule h4 [.queue (.got answer)]
    [.agent 0 (.recv .recv), .agent 0 (.send .select), .router (.attached (.receiver 0) 0),
      .consumerd 0, .cleanup 0 .waiting, .watch 0, .router (.attached (.sender 0) 0),
      .router (.closer 0)] running
    (.queue (.take (show mem.requests.inflight (bytes "1") =
      some (InflightRequest.mk ⟨compile (bytes "1"), 0⟩ (some 0)) by rw [inflight]; rfl))) (plain _ _ rfl)
    (by decide)
  have h6 := reach_rule h5 [.queue (.taken answer (InflightRequest.mk ⟨compile (bytes "1"), 0⟩ (some 0)))]
    _ running (.queue (.answer (by decide))) (plain _ _ rfl)
    (.refl _)
  refine ⟨_, h6, ?_, received, ?_⟩
  · show (0, answer) :: mem.requests.sent = _
    rw [sent]
  · show (mem.stats.addRequests 1).count .success = _
    rw [stats]
    rfl

end Run

end Kubecc.Scheduler
