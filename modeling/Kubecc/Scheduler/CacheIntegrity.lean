/-
**What the cache holds.**

A miss in `PreReceive` stamps the request object with its hash; the stamp outlives re-queueing, and it
is read when a response for the request is taken from the queue, possibly much later. So the hash, the
request object, the in-flight entry and the response have to be tied together wherever they are.

* `Gave` — some agent was handed a request with this hash and answered it with this data.
* `Honest` — a response that claims success carries data that was given for its own request.
* `Proc.Sourced`, `Sourced` — every request object is one that was received, every stamp is the hash of
  its request, and every response under way is honest.
* `cacheIntegrity` — so is every object in the cache, and every response sent to a consumerd.
-/

import Kubecc.Scheduler.Carriers

namespace Kubecc.Scheduler

open Kubecc.Lib Kubecc.Go Kubecc.Types

/-! ### The property -/

section Property

variable (md5 : GoString → GoString) (trace : List Event)

/-- The request object was received from a consumerd. -/
def Known (req : Request) : Prop := ∃ cd, Event.request cd req ∈ trace

/-- **An agent gave this data for this hash**: it was handed a request with the hash, and its response to
the request is a success with the data. -/
def Gave (hash data : GoString) : Prop :=
  ∃ agent req resp, Event.receive agent req ∈ trace ∧ Event.response agent resp ∈ trace ∧
    resp.requestID = req.requestID ∧ resp.compileResult = .success ∧ md5 req.hash = hash ∧
    resp.compiledSource = data

/-- **The cache is sound**: what it holds was given for its key, and what a consumerd is sent as a
success was given for the hash of the request it answers. -/
structure CacheIntegrity (mem : Mem) : Prop where
  objects : ∀ hash data, mem.cache.objects hash = some data → Gave md5 trace hash data
  answers : ∀ cd resp, (cd, resp) ∈ mem.requests.sent → resp.compileResult = .success →
    ∃ req, Event.request cd req ∈ trace ∧ req.requestID = resp.requestID ∧
      Gave md5 trace (md5 req.hash) resp.compiledSource

/-- What is assumed: request IDs are unique, consumerds send no `ManagedFields`, and agents answer only
requests they were sent. -/
def Assumed (config : State) : Event → Prop
  | .request cd req => FreshIDs config (.request cd req) ∧ req.managedFields = none
  | .response agent resp => resp.requestID ∈ (config.mem.tokens agent).sent
  | _ => True

/-- The response, if it is a success, carries data given for its own request. -/
def Honest (resp : Response) : Prop :=
  resp.compileResult = .success → ∃ req, Known trace req ∧ req.requestID = resp.requestID ∧
    Gave md5 trace (md5 req.hash) resp.compiledSource

end Property

/-! ### The invariant -/

/-- The goroutine works on a request that was received, and with what was given for it. -/
def Proc.Sourced (md5 : GoString → GoString) (trace : List Event) : Proc → Prop
  | .call c (.hit _ data) => Known trace c.request ∧ Gave md5 trace (md5 c.request.hash) data
  | .call c (.loaded pending resp) =>
    Known trace c.request ∧ Known trace pending.request ∧ Honest md5 trace resp
  | .call c (.announce resp) => Known trace c.request ∧ Honest md5 trace resp
  | .call c _ => Known trace c.request
  | .router (.holding a _ req) => Event.receive a req ∈ trace
  | .agent a (.send (.received req)) => Event.receive a req ∈ trace
  | .agent a (.send (.loaded req pending)) =>
    Event.receive a req ∈ trace ∧ Known trace pending.request
  | .agent a (.send (.recorded req)) => Event.receive a req ∈ trace
  | .agent _ (.recv (.response resp)) | .agent _ (.recv (.token resp))
  | .agent _ (.recv (.forward resp)) => Honest md5 trace resp
  | .queue (.got resp) => Honest md5 trace resp
  | .queue (.taken resp inflight) => Honest md5 trace resp ∧ Known trace inflight.request
  | .cacheTransaction hash data => Gave md5 trace hash data
  | _ => True

structure Mem.Sourced (md5 : GoString → GoString) (trace : List Event) (mem : Mem) : Prop where
  pending : ∀ id pending, mem.requests.pending id = some pending → Known trace pending.request
  inflight : ∀ id inflight, mem.requests.inflight id = some inflight → Known trace inflight.request
  answers : ∀ cd resp, (cd, resp) ∈ mem.requests.sent → Honest md5 trace resp
  objects : ∀ hash data, mem.cache.objects hash = some data → Gave md5 trace hash data
  managed : ∀ id hash, mem.cache.managed id = some hash →
    ∃ req, Known trace req ∧ req.requestID = id ∧ md5 req.hash = hash
  handed : ∀ agent id, id ∈ (mem.tokens agent).sent →
    ∃ req, Event.receive agent req ∈ trace ∧ req.requestID = id

/-- What the past says: a request handed to an agent was received, and an ID stands for one request. -/
structure Past (trace : List Event) (mem : Mem) : Prop where
  handed : ∀ agent req, Event.receive agent req ∈ trace → Known trace req
  received : ∀ req, Known trace req → req.requestID ∈ mem.requests.received.map Prod.snd
  logged : ∀ cd id, (cd, id) ∈ mem.requests.received →
    ∃ req, Event.request cd req ∈ trace ∧ req.requestID = id
  unique : ∀ req req', Known trace req → Known trace req' → req.requestID = req'.requestID → req = req'

structure Sourced (md5 : GoString → GoString) (trace : List Event) (config : State) : Prop where
  past : Past trace config.mem
  mem : config.mem.Sourced md5 trace
  procs : ∀ proc ∈ config.procs, proc.Sourced md5 trace

/-! ### The past is not forgotten -/

section Mono

variable {md5 : GoString → GoString} {trace : List Event}

theorem Known.cons {req : Request} (known : Known trace req) (event : Event) :
    Known (event :: trace) req := by
  obtain ⟨cd, member⟩ := known
  exact ⟨cd, List.mem_cons_of_mem _ member⟩

theorem Gave.cons {hash data : GoString} (gave : Gave md5 trace hash data) (event : Event) :
    Gave md5 (event :: trace) hash data := by
  obtain ⟨agent, req, resp, handed, answered, facts⟩ := gave
  exact ⟨agent, req, resp, List.mem_cons_of_mem _ handed, List.mem_cons_of_mem _ answered, facts⟩

theorem Honest.cons {resp : Response} (honest : Honest md5 trace resp) (event : Event) :
    Honest md5 (event :: trace) resp := by
  intro success
  obtain ⟨req, known, same, gave⟩ := honest success
  exact ⟨req, known.cons event, same, gave.cons event⟩

theorem honest_of_ne {resp : Response} (other : resp.compileResult ≠ .success) :
    Honest md5 trace resp := fun success => absurd success other

theorem Proc.Sourced.cons {proc : Proc} (sourced : proc.Sourced md5 trace) (event : Event) :
    proc.Sourced md5 (event :: trace) := by
  unfold Proc.Sourced at sourced ⊢
  split at sourced
  · exact ⟨sourced.1.cons event, sourced.2.cons event⟩
  · exact ⟨sourced.1.cons event, sourced.2.1.cons event, sourced.2.2.cons event⟩
  · exact ⟨sourced.1.cons event, sourced.2.cons event⟩
  · exact sourced.cons event
  · exact List.mem_cons_of_mem _ sourced
  · exact List.mem_cons_of_mem _ sourced
  · exact ⟨List.mem_cons_of_mem _ sourced.1, sourced.2.cons event⟩
  · exact List.mem_cons_of_mem _ sourced
  · exact sourced.cons event
  · exact sourced.cons event
  · exact sourced.cons event
  · exact sourced.cons event
  · exact ⟨sourced.1.cons event, sourced.2.cons event⟩
  · exact sourced.cons event
  · trivial

theorem Mem.Sourced.cons {mem : Mem} (sourced : mem.Sourced md5 trace) (event : Event) :
    mem.Sourced md5 (event :: trace) where
  pending id pending stored := (sourced.pending id pending stored).cons event
  inflight id inflight stored := (sourced.inflight id inflight stored).cons event
  answers cd resp sent := (sourced.answers cd resp sent).cons event
  objects hash data there := (sourced.objects hash data there).cons event
  managed id hash stamped := by
    obtain ⟨req, known, facts⟩ := sourced.managed id hash stamped
    exact ⟨req, known.cons event, facts⟩
  handed agent id sent := by
    obtain ⟨req, handed, same⟩ := sourced.handed agent id sent
    exact ⟨req, List.mem_cons_of_mem _ handed, same⟩

end Mono

/-! ### The steps -/

section Rules

variable {md5 : GoString → GoString} {trace : List Event} {event : Event} {mem mem' : Mem}
  {acting left : List Proc}

theorem Proc.Sourced.known {c : Call} {phase : CallPhase}
    (sourced : (Proc.call c phase).Sourced md5 trace) : Known trace c.request := by
  cases phase with
  | hit | loaded | announce => exact sourced.1
  | store | route | hook | check | offer | failed => exact sourced

/-- Whoever answers a request was handed it, and so the answer is honest. -/
theorem honest_response {a : AgentId} {resp : Response} (past : Past trace mem)
    (sourced : mem.Sourced md5 trace) (sent : resp.requestID ∈ (mem.tokens a).sent) :
    Honest md5 (.response a resp :: trace) resp := by
  intro success
  obtain ⟨req, handed, same⟩ := sourced.handed a _ sent
  exact ⟨req, (past.handed a req handed).cons _, same,
    ⟨a, req, resp, List.mem_cons_of_mem _ handed, List.mem_cons_self, same.symm, success, rfl, rfl⟩⟩

/-- **The stamp of the request is the hash of the request**: what is stored under it was given for it. -/
theorem sourced_caching {inflight : InflightRequest} {resp : Response} (past : Past trace mem)
    (sourced : mem.Sourced md5 trace) (honest : Honest md5 trace resp)
    (same : inflight.request.requestID = resp.requestID) :
    ∀ proc ∈ caching mem.cache inflight resp, proc.Sourced md5 trace := by
  unfold caching
  split
  · rename_i hash success stamped
    obtain ⟨req, known, reqID, hashes⟩ := sourced.managed _ _ stamped
    obtain ⟨req', known', reqID', gave⟩ := honest success
    obtain rfl := past.unique req req' known known' (by rw [reqID, same, reqID'])
    exact List.forall_mem_singleton.mpr (hashes ▸ gave)
  · exact List.forall_mem_nil _

theorem sourced_router {proc : RouterProc} (none : (Proc.router proc).carries = none) :
    (Proc.router proc).Sourced md5 trace := by
  cases proc with
  | holding => exact absurd none nofun
  | add | attaching | found | attached | leaving | unused | closer | update | dropping | cancelling =>
    trivial

theorem sourced_of_acting {proc : Proc} {others : List Proc}
    (procs : ∀ proc ∈ acting, proc.Sourced md5 trace) (is : acting = proc :: others) :
    proc.Sourced md5 (event :: trace) :=
  (procs proc (is ▸ List.mem_cons_self)).cons event

theorem sourced_left_rule (rule : Rule md5 event mem acting mem' left) (past : Past trace mem)
    (sourced : mem.Sourced md5 trace) (procs : ∀ proc ∈ acting, proc.Sourced md5 trace)
    (traced : ∀ proc ∈ acting, proc.Traced mem.requests.received)
    (ok : ∀ a resp, event = .response a resp → resp.requestID ∈ (mem.tokens a).sent) :
    ∀ proc ∈ left, proc.Sourced md5 (event :: trace) := by
  have single {proc others} := @sourced_of_acting _ _ event acting proc others procs
  cases rule with
  | env act =>
    cases act with
    | request cd req => exact List.forall_mem_singleton.mpr ⟨cd, List.mem_cons_self⟩
    | response a resp =>
      exact List.forall_mem_singleton.mpr (honest_response past sourced (ok a resp rfl))
    | _ => simp [Proc.Sourced]
  | stream act | cleanup act => cases act <;> simp [Proc.Sourced]
  | router act =>
    refine List.forall_mem_map.mpr fun proc member => ?_
    exact sourced_router ((carries_router act).2 proc member)
  | token act =>
    cases act with
    | takeLocked | imbalance | putBack =>
      have received := single rfl
      exact List.forall_mem_singleton.mpr received
    | _ => simp [Proc.Sourced]
  | call act =>
    cases act with
    | store | noToolchain | noCache | pullMiss | pullFails | hitNonexistent | noAgents | canSend
    | contextDone | sendClosed => exact List.forall_mem_singleton.mpr (single rfl).known
    | lookup =>
      refine List.forall_mem_cons.mpr ⟨(single rfl).known, ?_⟩
      refine List.forall_mem_map.mpr (Router.forall_mem_spawned (fun _ => trivial) _)
    | pullHit _ there =>
      exact List.forall_mem_singleton.mpr ⟨(single rfl).known, (sourced.objects _ _ there).cons _⟩
    | loadHit stored =>
      have hit := single rfl
      refine List.forall_mem_singleton.mpr ⟨hit.1, (sourced.pending _ _ stored).cons _, fun _ => ?_⟩
      exact ⟨_, hit.1, rfl, hit.2⟩
    | loadFailed stored =>
      exact List.forall_mem_singleton.mpr
        ⟨single rfl, (sourced.pending _ _ stored).cons _, honest_of_ne nofun⟩
    | record => exact List.forall_mem_singleton.mpr ⟨(single rfl).1, (single rfl).2.2⟩
    | failedNonexistent => exact forall_mem_back (fun _ => trivial) _
  | exchange act =>
    cases act with
    | receive =>
      exact List.forall_mem_cons.mpr ⟨List.mem_cons_self, forall_mem_back (fun _ => trivial) _⟩
    | handOver | forward =>
      have brought := single rfl
      exact List.forall_mem_cons.mpr ⟨trivial, List.forall_mem_singleton.mpr brought⟩
    | announce =>
      exact List.forall_mem_cons.mpr ⟨(single rfl).2, forall_mem_back (fun _ => trivial) _⟩
    | defunct =>
      exact List.forall_mem_cons.mpr ⟨trivial, List.forall_mem_singleton.mpr (honest_of_ne nofun)⟩
  | send act =>
    cases act with
    | load stored =>
      exact List.forall_mem_singleton.mpr ⟨single rfl, (sourced.pending _ _ stored).cons _⟩
    | nonexistent => exact List.forall_mem_singleton.mpr trivial
    | record => exact List.forall_mem_singleton.mpr (single rfl).1
  | queue act =>
    cases act with
    | unknown => exact List.forall_mem_singleton.mpr trivial
    | take stored =>
      exact List.forall_mem_singleton.mpr ⟨single rfl, (sourced.inflight _ _ stored).cons _⟩
    | requeue => exact List.forall_mem_cons.mpr ⟨trivial, List.forall_mem_singleton.mpr (single rfl).2⟩
    | answer | answerFails =>
      have taken := procs _ List.mem_cons_self
      have same := (traced _ List.mem_cons_self).1
      refine List.forall_mem_cons.mpr ⟨trivial, fun proc member => ?_⟩
      exact (sourced_caching past sourced taken.1 same proc member).cons _
    | push | pushFails => exact List.forall_mem_nil _

theorem forall_update_some {α : Type} {P : α → Prop} {map : GoString → Option α} {id : GoString}
    {value : Option α} (all : ∀ id a, map id = some a → P a) (new : ∀ a ∈ value, P a) :
    ∀ id' a, Function.update map id value id' = some a → P a := by
  intro id' a there
  by_cases same : id' = id
  · subst same
    exact new a (by simpa using there)
  · exact all id' a (by simpa [Function.update_of_ne same] using there)

theorem sent_tokenAct {done : Bool} {tokens tokens' : Tokens} {acts leaves : List AgentProc}
    (act : TokenAct done tokens acts tokens' leaves) :
    tokens'.sent = tokens.sent ∨
      ∃ req, acts = [.send (.recorded req)] ∧ tokens'.sent = req.requestID :: tokens.sent := by
  cases act with
  | send => exact .inr ⟨_, rfl, rfl⟩
  | _ => exact .inl rfl

theorem sourced_mem_rule (rule : Rule md5 event mem acting mem' left)
    (sourced : mem.Sourced md5 trace) (procs : ∀ proc ∈ acting, proc.Sourced md5 trace)
    (ok : ∀ cd req, event = .request cd req → req.managedFields = none) :
    mem'.Sourced md5 (event :: trace) := by
  have before := sourced.cons event
  have single {proc others} := @sourced_of_acting _ _ event acting proc others procs
  cases rule with
  | env act =>
    cases act with
    | request cd req =>
      refine { before with managed := fun id hash stamped => ?_ }
      by_cases same : id = req.requestID
      · subst same
        simp [ok cd req rfl] at stamped
      · exact before.managed id hash (by simpa [Function.update_of_ne same] using stamped)
    | connectAgent a =>
      refine { before with handed := fun other id sent => ?_ }
      by_cases same : other = a
      · subst same
        simp at sent
      · exact before.handed other id (by simpa [Function.update_of_ne same] using sent)
    | response a resp =>
      refine { before with handed := fun other id sent => ?_ }
      by_cases same : other = a
      · subst same
        exact before.handed other id (by simpa using sent)
      · exact before.handed other id (by simpa [Function.update_of_ne same] using sent)
    | cacheEvicts hash =>
      refine { before with objects := fun hash' data there => ?_ }
      by_cases same : hash' = hash
      · subst same
        simp at there
      · exact before.objects hash' data (by simpa [Function.update_of_ne same] using there)
    | _ => exact { before with }
  | @token _ _ _ _ a act =>
    refine { before with handed := fun other id sent => ?_ }
    by_cases same : other = a
    · subst same
      simp only [Function.update_self] at sent
      rcases sent_tokenAct act with unchanged | ⟨req, rfl, grown⟩
      · exact before.handed other id (unchanged ▸ sent)
      · rw [grown] at sent
        rcases List.mem_cons.mp sent with rfl | sent
        · exact ⟨req, single rfl, rfl⟩
        · exact before.handed other id sent
    · exact before.handed other id (by simpa [Function.update_of_ne same] using sent)
  | call act =>
    cases act with
    | store =>
      refine { before with pending := forall_update_some before.pending fun pending is => ?_ }
      obtain rfl := Option.some.inj is
      exact (single rfl).known
    | loadHit | loadFailed =>
      exact { before with pending := forall_update_some before.pending nofun }
    | record =>
      refine { before with inflight := forall_update_some before.inflight fun inflight is => ?_ }
      obtain rfl := Option.some.inj is
      exact (single rfl).2.1
    | @pullMiss _ c =>
      refine { before with managed := fun id hash stamped => ?_ }
      by_cases same : id = c.request.requestID
      · subst same
        exact ⟨c.request, (single rfl).known, rfl, by simpa using stamped⟩
      · exact before.managed id hash (by simpa [Function.update_of_ne same] using stamped)
    | _ => exact { before with }
  | send act =>
    cases act with
    | load => exact { before with pending := forall_update_some before.pending nofun }
    | nonexistent => exact before
    | record =>
      refine { before with inflight := forall_update_some before.inflight fun inflight is => ?_ }
      obtain rfl := Option.some.inj is
      exact (single rfl).2
  | queue act =>
    cases act with
    | take => exact { before with inflight := forall_update_some before.inflight nofun }
    | answer =>
      refine { before with answers := fun cd resp sent => ?_ }
      rcases List.mem_cons.mp sent with same | sent
      · cases same
        exact (single rfl).1
      · exact before.answers cd resp sent
    | @push _ hash data =>
      refine { before with objects := fun hash' data' there => ?_ }
      by_cases same : hash' = hash
      · subst same
        obtain rfl : data = data' := by simpa using there
        exact single rfl
      · exact before.objects hash' data' (by simpa [Function.update_of_ne same] using there)
    | _ => exact { before with }
  | router => exact { before with }
  | stream act | exchange act | cleanup act => cases act <;> exact { before with }

theorem handed_rule (rule : Rule md5 event mem acting mem' left) {a : AgentId} {req : Request}
    (receives : event = .receive a req) :
    ∃ c phase, Proc.call c phase ∈ acting ∧ c.request = req := by
  cases rule with
  | exchange act =>
    cases act with
    | receive =>
      cases receives
      exact ⟨_, _, List.mem_cons_self, rfl⟩
    | _ => cases receives
  | env act | stream act | call act | send act | cleanup act | queue act => cases act <;> cases receives
  | @router _ label => cases label <;> cases receives
  | token => cases receives

theorem known_cons_iff {req : Request} (other : ∀ cd req, event ≠ .request cd req) :
    Known (event :: trace) req ↔ Known trace req := by
  refine ⟨fun ⟨cd, member⟩ => ⟨cd, ?_⟩, fun known => known.cons event⟩
  exact (List.mem_cons.mp member).resolve_left fun is => other cd req is.symm

theorem past_rule (rule : Rule md5 event mem acting mem' left) (past : Past trace mem)
    (procs : ∀ proc ∈ acting, proc.Sourced md5 trace)
    (fresh : ∀ cd req, event = .request cd req →
      req.requestID ∉ mem.requests.received.map Prod.snd) :
    Past (event :: trace) mem' := by
  have handed : ∀ a req, Event.receive a req ∈ event :: trace → Known (event :: trace) req := by
    intro a req member
    rcases List.mem_cons.mp member with is | member
    · obtain ⟨c, phase, acts, rfl⟩ := handed_rule rule is.symm
      exact (procs _ acts).known.cons event
    · exact (past.handed a req member).cons event
  rcases received_rule rule with ⟨other, same⟩ | ⟨cd, req, rfl, grown⟩
  · refine ⟨handed, fun old known => ?_, fun cd id member => ?_, fun one two knownOne knownTwo => ?_⟩
    · rw [same]
      exact past.received old ((known_cons_iff other).mp known)
    · obtain ⟨old, there, isID⟩ := past.logged cd id (same ▸ member)
      exact ⟨old, List.mem_cons_of_mem _ there, isID⟩
    · exact past.unique one two ((known_cons_iff other).mp knownOne)
        ((known_cons_iff other).mp knownTwo)
  · have known : ∀ {old}, Known (.request cd req :: trace) old → old = req ∨ Known trace old := by
      rintro old ⟨cd', member⟩
      rcases List.mem_cons.mp member with is | member
      · exact .inl (Event.request.inj is).2
      · exact .inr ⟨cd', member⟩
    have new : ∀ {old}, Known trace old → old.requestID ≠ req.requestID := fun old same =>
      fresh cd req rfl (same ▸ past.received _ old)
    refine ⟨handed, ?_, ?_, ?_⟩
    · intro old isKnown
      rw [grown]
      rcases known isKnown with rfl | old
      · exact List.mem_cons_self
      · exact List.mem_cons_of_mem _ (past.received _ old)
    · intro cd' id member
      rw [grown] at member
      rcases List.mem_cons.mp member with is | member
      · obtain ⟨rfl, rfl⟩ := Prod.mk.inj is
        exact ⟨req, List.mem_cons_self, rfl⟩
      · obtain ⟨old, there, same⟩ := past.logged cd' id member
        exact ⟨old, List.mem_cons_of_mem _ there, same⟩
    · intro one two knownOne knownTwo same
      rcases known knownOne with rfl | oldOne <;> rcases known knownTwo with rfl | oldTwo
      · rfl
      · exact absurd same.symm (new oldTwo)
      · exact absurd same (new oldOne)
      · exact past.unique one two oldOne oldTwo same

end Rules

/-! ### The runs -/

section Runs

variable {md5 : GoString → GoString} {trace : List Event} {config next : State} {event : Event}

theorem sourced_step (sourced : Sourced md5 trace config) (traced : Traced config)
    (ok : Assumed config event) (step : Step (Act md5) config event next) :
    Sourced md5 (event :: trace) next := by
  cases step with
  | @fire _ mem mem' acting left rest fires =>
    have acts : ∀ proc ∈ acting, proc ∈ (↑acting + rest : Multiset Proc) := fun proc member =>
      mem_of_acting member
    have procs : ∀ proc ∈ acting, proc.Sourced md5 trace := fun proc member =>
      sourced.procs proc (acts proc member)
    refine ⟨past_rule fires.2 sourced.past procs ?_, sourced_mem_rule fires.2 sourced.mem procs ?_, ?_⟩
    · rintro cd req rfl
      exact ok.1
    · rintro cd req rfl
      exact ok.2
    · refine forall_mem_fire sourced.procs (fun _ => ?_) fun proc _ before => before.cons event
      refine sourced_left_rule fires.2 sourced.past sourced.mem procs
        (fun proc member => traced.procs proc (acts proc member)) ?_
      rintro a resp rfl
      exact ok

theorem sourced_initial : Sourced md5 [] initial := by
  refine ⟨⟨nofun, nofun, nofun, nofun⟩, ⟨nofun, nofun, nofun, nofun, nofun, nofun⟩, ?_⟩
  intro proc member
  obtain rfl : proc = .queue .idle := by simpa [initial, Config.ofList] using member
  trivial

theorem run_sourced (run : Run (Act md5) Assumed initial trace config) :
    Traced config ∧ Sourced md5 trace config := by
  induction run with
  | start => exact ⟨traced_initial, sourced_initial⟩
  | step _ ok step ih => exact ⟨traced_step ih.1 step, sourced_step ih.2 ih.1 ok step⟩

/-- **The cache is sound**, in every state of every run: whatever it holds, and whatever a consumerd is
sent as a success, some agent gave for that hash. -/
theorem cacheIntegrity (run : Run (Act md5) Assumed initial trace config) :
    CacheIntegrity md5 trace config.mem := by
  obtain ⟨traced, sourced⟩ := run_sourced run
  refine ⟨sourced.mem.objects, fun cd resp sent success => ?_⟩
  obtain ⟨req, known, same, gave⟩ := sourced.mem.answers cd resp sent success
  obtain ⟨own, member, ownID⟩ := sourced.past.logged cd _ (traced.requests.sent cd resp sent)
  obtain rfl := sourced.past.unique req own known ⟨cd, member⟩ (same.trans ownID.symm)
  exact ⟨req, member, same, gave⟩

/-- The agent answers the request it was sent, and the consumerd gets the answer. -/
theorem cacheIntegrity_answer : ∃ trace config, Run (Act id) Assumed initial trace config ∧
    config.mem.requests.sent = [(0, answer)] ∧ CacheIntegrity id trace config.mem := by
  obtain ⟨config, reach, sent, -⟩ := @answered_run Assumed
    (fun _ event plain => by cases event <;> first | (cases plain; done) | exact trivial)
    (fun config _ _ none unmanaged => ⟨by simp [FreshIDs, none], unmanaged⟩) (fun _ _ _ _ => trivial)
    fun _ _ _ known => known
  obtain ⟨trace, run⟩ := reach.exists_run
  exact ⟨trace, config, run, sent, cacheIntegrity run⟩

end Runs

end Kubecc.Scheduler
