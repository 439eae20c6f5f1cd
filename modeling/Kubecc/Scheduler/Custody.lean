/-
**At most one answer, to the right client.**

A request's record travels from a goroutine's hands to `pendingRequests`, to hands again, to
`inflightRequests`, to the hands of `handleResponseQueue`, and from there to the consumerd or back to
the start. At every moment it is in exactly one of these places, or its request has been answered.

* `Traced` — every record comes from a request received on its requester's stream.
* `Custody` — the account: what is held, stored and finished is what was received.
* `atMostOneAnswer` — in every run in which request IDs are not reused, every response sent on a
  consumerd's stream answers a request received on it, and no ID is sent back twice.
-/

import Kubecc.Scheduler.Broker

namespace Kubecc.Scheduler

open Kubecc.Lib Kubecc.Go Kubecc.Types

/-! ### Where a record comes from -/

/-- The record is that of the request with this ID, received on its requester's stream. -/
def PendingRequest.From (pending : PendingRequest) (received : List (ConsumerdId × GoString))
    (id : GoString) : Prop :=
  pending.request.requestID = id ∧ (pending.requester, id) ∈ received

/-- The record that a goroutine has in its hands comes from a request received. -/
def Proc.Traced (received : List (ConsumerdId × GoString)) : Proc → Prop
  | .call c .store => (c.consumerd, c.request.requestID) ∈ received
  | .call c (.loaded pending resp) =>
    pending.From received c.request.requestID ∧ resp.requestID = c.request.requestID
  | .agent _ (.send (.loaded req pending)) => pending.From received req.requestID
  | .queue (.taken resp inflight) => inflight.toPendingRequest.From received resp.requestID
  | _ => True

/-- The records in the maps come from requests received, and so do the responses. -/
structure Requests.Traced (r : Requests) : Prop where
  pending : ∀ id pending, r.pending id = some pending → pending.From r.received id
  inflight : ∀ id inflight, r.inflight id = some inflight →
    inflight.toPendingRequest.From r.received id
  sent : ∀ cd resp, (cd, resp) ∈ r.sent → (cd, resp.requestID) ∈ r.received
  dropped : ∀ cd id, (cd, id) ∈ r.dropped → (cd, id) ∈ r.received

/-- **Every record is traced to a request received.** -/
structure Traced (config : State) : Prop where
  requests : config.mem.requests.Traced
  procs : ∀ proc ∈ config.procs, proc.Traced config.mem.requests.received

namespace Requests

variable {r : Requests} {id : GoString}

theorem traced_setPending {value : Option PendingRequest} (traced : r.Traced)
    (new : ∀ pending ∈ value, pending.From r.received id) : (r.setPending id value).Traced := by
  refine ⟨fun id' pending stored => ?_, traced.inflight, traced.sent, traced.dropped⟩
  by_cases same : id' = id
  · subst same
    exact new pending (by simpa [setPending] using stored)
  · exact traced.pending id' pending (by simpa [setPending, Function.update_of_ne same] using stored)

theorem traced_setInflight {value : Option InflightRequest} (traced : r.Traced)
    (new : ∀ inflight ∈ value, inflight.toPendingRequest.From r.received id) :
    (r.setInflight id value).Traced := by
  refine ⟨traced.pending, fun id' inflight stored => ?_, traced.sent, traced.dropped⟩
  by_cases same : id' = id
  · subst same
    exact new inflight (by simpa [setInflight] using stored)
  · exact traced.inflight id' inflight
      (by simpa [setInflight, Function.update_of_ne same] using stored)

end Requests

section Tracing

variable {md5 : GoString → GoString} {event : Event} {mem mem' : Mem} {acting left : List Proc}

theorem received_rule (rule : Rule md5 event mem acting mem' left) :
    (∀ cd req, event ≠ .request cd req) ∧ mem'.requests.received = mem.requests.received ∨
      ∃ cd req, event = .request cd req ∧
        mem'.requests.received = (cd, req.requestID) :: mem.requests.received := by
  cases rule with
  | env act =>
    cases act with
    | request cd req => exact .inr ⟨cd, req, rfl, rfl⟩
    | _ => exact .inl ⟨nofun, rfl⟩
  | stream act | call act | exchange act | send act | cleanup act | queue act =>
    cases act <;> exact .inl ⟨nofun, rfl⟩
  | @router _ label => cases label <;> exact .inl ⟨nofun, rfl⟩
  | token => exact .inl ⟨nofun, rfl⟩

theorem received_subset (rule : Rule md5 event mem acting mem' left) :
    mem.requests.received ⊆ mem'.requests.received := by
  rcases received_rule rule with ⟨-, same⟩ | ⟨cd, req, -, grown⟩
  · rw [same]
    exact List.Subset.refl _
  · rw [grown]
    exact List.subset_cons_self _ _

theorem traced_requests_rule (rule : Rule md5 event mem acting mem' left)
    (traced : mem.requests.Traced) (procs : ∀ proc ∈ acting, proc.Traced mem.requests.received) :
    mem'.requests.Traced := by
  cases rule with
  | env act =>
    cases act with
    | request cd req =>
      have grows : ∀ {pending : PendingRequest} {id}, pending.From mem.requests.received id →
          pending.From ((cd, req.requestID) :: mem.requests.received) id :=
        fun came => ⟨came.1, List.mem_cons_of_mem _ came.2⟩
      exact ⟨fun id pending stored => grows (traced.pending id pending stored),
        fun id inflight stored => grows (traced.inflight id inflight stored),
        fun cd resp sent => List.mem_cons_of_mem _ (traced.sent cd resp sent),
        fun cd id dropped => List.mem_cons_of_mem _ (traced.dropped cd id dropped)⟩
    | _ => exact traced
  | call act =>
    cases act with
    | store =>
      refine Requests.traced_setPending traced fun pending is => ?_
      obtain rfl := Option.some.inj is
      exact ⟨rfl, procs _ (List.mem_singleton_self _)⟩
    | loadHit | loadFailed => exact Requests.traced_setPending traced nofun
    | record =>
      refine Requests.traced_setInflight traced fun inflight is => ?_
      obtain rfl := Option.some.inj is
      exact (procs _ (List.mem_singleton_self _)).1
    | _ => exact traced
  | send act =>
    cases act with
    | load => exact Requests.traced_setPending traced nofun
    | record =>
      refine Requests.traced_setInflight traced fun inflight is => ?_
      obtain rfl := Option.some.inj is
      exact procs _ (List.mem_singleton_self _)
    | nonexistent => exact traced
  | queue act =>
    cases act with
    | take => exact Requests.traced_setInflight traced nofun
    | answer =>
      refine ⟨traced.pending, traced.inflight, fun cd resp sent => ?_, traced.dropped⟩
      rcases List.mem_cons.mp sent with same | sent
      · cases same
        exact (procs _ (List.mem_singleton_self _)).2
      · exact traced.sent cd resp sent
    | answerFails =>
      refine ⟨traced.pending, traced.inflight, traced.sent, fun cd id dropped => ?_⟩
      rcases List.mem_cons.mp dropped with same | dropped
      · cases same
        exact (procs _ (List.mem_singleton_self _)).2
      · exact traced.dropped cd id dropped
    | _ => exact traced
  | stream act | exchange act | cleanup act => cases act <;> exact traced
  | router | token => exact traced

theorem traced_left_rule (rule : Rule md5 event mem acting mem' left)
    (traced : mem.requests.Traced) (procs : ∀ proc ∈ acting, proc.Traced mem.requests.received) :
    ∀ proc ∈ left, proc.Traced mem'.requests.received := by
  cases rule with
  | env act => cases act <;> simp [Proc.Traced]
  | stream act | cleanup act => cases act <;> simp [Proc.Traced]
  | router => simp [Proc.Traced]
  | token act => cases act <;> simp [Proc.Traced]
  | call act =>
    cases act with
    | lookup => simp [Proc.Traced]
    | loadHit stored | loadFailed stored =>
      exact List.forall_mem_singleton.mpr ⟨traced.pending _ _ stored, rfl⟩
    | failedNonexistent => exact forall_mem_back (fun _ => trivial) _
    | _ => simp [Proc.Traced]
  | exchange act =>
    cases act with
    | receive | announce => exact List.forall_mem_cons.mpr ⟨trivial, forall_mem_back (fun _ => trivial) _⟩
    | _ => simp [Proc.Traced]
  | send act =>
    cases act with
    | load stored => exact List.forall_mem_singleton.mpr (traced.pending _ _ stored)
    | _ => simp [Proc.Traced]
  | queue act =>
    cases act with
    | take stored => exact List.forall_mem_singleton.mpr (traced.inflight _ _ stored)
    | requeue =>
      obtain ⟨same, received⟩ := procs _ (List.mem_singleton_self _)
      refine List.forall_mem_cons.mpr ⟨trivial, List.forall_mem_singleton.mpr ?_⟩
      rw [← same] at received
      exact received
    | answer | answerFails =>
      exact List.forall_mem_cons.mpr ⟨trivial, forall_mem_caching (fun _ _ => trivial) _ _ _⟩
    | _ => simp [Proc.Traced]

end Tracing

theorem Proc.Traced.mono {received more : List (ConsumerdId × GoString)} (grows : received ⊆ more)
    {proc : Proc} (traced : proc.Traced received) : proc.Traced more := by
  have came : ∀ {pending : PendingRequest} {id}, pending.From received id → pending.From more id :=
    fun came => ⟨came.1, grows came.2⟩
  unfold Proc.Traced at traced ⊢
  split at traced
  · exact grows traced
  · exact ⟨came traced.1, traced.2⟩
  · exact came traced
  · exact came traced
  · trivial

variable {md5 : GoString → GoString} {config next : State} {event : Event}

theorem traced_step (traced : Traced config) (step : Step (Act md5) config event next) :
    Traced next := by
  cases step with
  | @fire _ mem mem' acting left rest fires =>
    have acted : ∀ proc ∈ acting, proc.Traced mem.requests.received := fun proc member =>
      traced.procs proc (mem_of_acting member)
    exact ⟨traced_requests_rule fires.2 traced.requests acted,
      forall_mem_fire traced.procs (traced_left_rule fires.2 traced.requests)
        fun proc _ came => came.mono (received_subset fires.2)⟩

theorem traced_initial : Traced initial := by
  refine ⟨⟨nofun, nofun, nofun, nofun⟩, fun proc member => ?_⟩
  obtain rfl : proc = .queue .idle := by simpa [initial, Config.ofList] using member
  trivial

/-! ### Where a record is -/

/-- The request whose record a goroutine has in its hands. -/
def Proc.holds : Proc → Option GoString
  | .call c .store => some c.request.requestID
  | .call c (.loaded _ _) => some c.request.requestID
  | .agent _ (.send (.loaded req _)) => some req.requestID
  | .queue (.taken resp _) => some resp.requestID
  | _ => none

namespace Requests

/-- How often the request's record is in the maps. -/
def stored (r : Requests) (id : GoString) : ℕ := present r.pending id + present r.inflight id

/-- How often a response for this ID was sent, or failed to be sent. -/
def finished (r : Requests) (id : GoString) : ℕ :=
  (r.sent.map (·.2.requestID)).count id + (r.dropped.map Prod.snd).count id

/-- How often a request with this ID was received. -/
def arrived (r : Requests) (id : GoString) : ℕ := (r.received.map Prod.snd).count id

variable {r : Requests} {id : GoString}

theorem absent_of_stored (zero : r.stored id = 0) : r.pending id = none ∧ r.inflight id = none := by
  rwa [stored, Nat.add_eq_zero_iff, present_eq_zero, present_eq_zero] at zero

end Requests

section Holding

variable {md5 : GoString → GoString} {event : Event} {mem mem' : Mem} {acting left : List Proc}

theorem held_unchanged (acts : ∀ proc ∈ acting, proc.holds = none)
    (leaves : ∀ proc ∈ left, proc.holds = none) (same : mem'.requests = mem.requests)
    (id : GoString) :
    total (tally Proc.holds id) ↑left + mem'.requests.stored id + mem'.requests.finished id +
        mem.requests.arrived id =
      total (tally Proc.holds id) ↑acting + mem.requests.stored id + mem.requests.finished id +
        mem'.requests.arrived id := by
  rw [total_tally_eq_zero acts, total_tally_eq_zero leaves, same]

theorem held_put {proc after : Proc} {name : GoString} (holds : proc.holds = some name)
    (frees : after.holds = none) {r r' : Requests}
    (stored : ∀ id, r'.stored id = r.stored id + if name = id then 1 else 0)
    (finished : r'.finished = r.finished) (arrived : r'.arrived = r.arrived) (id : GoString) :
    total (tally Proc.holds id) ↑[after] + r'.stored id + r'.finished id + r.arrived id =
      total (tally Proc.holds id) ↑[proc] + r.stored id + r.finished id + r'.arrived id := by
  rw [total_coe_cons, total_coe_cons, total_coe_nil, tally_of_eq_some holds, tally_eq_zero frees,
    stored, finished, arrived]
  omega

theorem held_take {proc after : Proc} {name : GoString} (holds : after.holds = some name)
    (free : proc.holds = none) {r r' : Requests}
    (stored : ∀ id, r.stored id = r'.stored id + if name = id then 1 else 0)
    (finished : r'.finished = r.finished) (arrived : r'.arrived = r.arrived) (id : GoString) :
    total (tally Proc.holds id) ↑[after] + r'.stored id + r'.finished id + r.arrived id =
      total (tally Proc.holds id) ↑[proc] + r.stored id + r.finished id + r'.arrived id := by
  rw [total_coe_cons, total_coe_cons, total_coe_nil, tally_of_eq_some holds, tally_eq_zero free,
    stored, finished, arrived]
  omega

namespace Requests

variable {r : Requests} {name : GoString}

theorem stored_setPending_some (absent : r.pending name = none) (value : PendingRequest)
    (id : GoString) :
    (r.setPending name (some value)).stored id = r.stored id + if name = id then 1 else 0 := by
  have put := present_update_some absent value id
  simp only [stored, setPending]
  omega

theorem stored_setPending_none {value : PendingRequest} (there : r.pending name = some value)
    (id : GoString) :
    r.stored id = (r.setPending name none).stored id + if name = id then 1 else 0 := by
  have taken := present_update_none there id
  simp only [stored, setPending]
  omega

theorem stored_setInflight_some (absent : r.inflight name = none) (value : InflightRequest)
    (id : GoString) :
    (r.setInflight name (some value)).stored id = r.stored id + if name = id then 1 else 0 := by
  have put := present_update_some absent value id
  simp only [stored, setInflight]
  omega

theorem stored_setInflight_none {value : InflightRequest} (there : r.inflight name = some value)
    (id : GoString) :
    r.stored id = (r.setInflight name none).stored id + if name = id then 1 else 0 := by
  have taken := present_update_none there id
  simp only [stored, setInflight]
  omega

end Requests

theorem absent_of_holds {proc : Proc} {name : GoString} {r : Requests}
    (holds : proc.holds = some name)
    (single : total (tally Proc.holds name) ↑[proc] + r.stored name ≤ 1) :
    r.pending name = none ∧ r.inflight name = none := by
  rw [total_coe_cons, total_coe_nil, tally_of_eq_some holds, if_pos rfl] at single
  exact Requests.absent_of_stored (by omega)

/-- **A step moves a record from one place to another.** Whoever stores a record overwrites none,
since there is at most one. -/
theorem held_rule (rule : Rule md5 event mem acting mem' left)
    (single : ∀ id, total (tally Proc.holds id) ↑acting + mem.requests.stored id ≤ 1)
    (traced : ∀ proc ∈ acting, proc.Traced mem.requests.received) (id : GoString) :
    total (tally Proc.holds id) ↑left + mem'.requests.stored id + mem'.requests.finished id +
        mem.requests.arrived id =
      total (tally Proc.holds id) ↑acting + mem.requests.stored id + mem.requests.finished id +
        mem'.requests.arrived id := by
  have unchanged : (∀ proc ∈ acting, proc.holds = none) → (∀ proc ∈ left, proc.holds = none) →
      mem'.requests = mem.requests → _ := fun acts leaves same =>
    held_unchanged acts leaves same id
  cases rule with
  | env act =>
    cases act with
    | request cd req =>
      simp [tally, Proc.holds, Requests.stored, Requests.finished, Requests.arrived, List.count_cons]
      omega
    | _ => exact unchanged (by simp [Proc.holds]) (by simp [Proc.holds]) rfl
  | stream act | cleanup act | token act =>
    cases act <;> exact unchanged (by simp [Proc.holds]) (by simp [Proc.holds]) rfl
  | router => exact unchanged (by simp [Proc.holds]) (by simp [Proc.holds]) rfl
  | call act =>
    cases act with
    | store =>
      exact held_put rfl rfl (Requests.stored_setPending_some (absent_of_holds rfl (single _)).1 _)
        rfl rfl id
    | loadHit there | loadFailed there =>
      exact held_take rfl rfl (Requests.stored_setPending_none there) rfl rfl id
    | record =>
      exact held_put rfl rfl (Requests.stored_setInflight_some (absent_of_holds rfl (single _)).2 _)
        rfl rfl id
    | failedNonexistent => exact unchanged (by simp [Proc.holds]) (forall_mem_back (fun _ => rfl) _) rfl
    | _ => exact unchanged (by simp [Proc.holds]) (by simp [Proc.holds]) rfl
  | exchange act =>
    cases act with
    | receive | announce =>
      exact unchanged (by simp [Proc.holds])
        (List.forall_mem_cons.mpr ⟨rfl, forall_mem_back (fun _ => rfl) _⟩) rfl
    | _ => exact unchanged (by simp [Proc.holds]) (by simp [Proc.holds]) rfl
  | send act =>
    cases act with
    | load there => exact held_take rfl rfl (Requests.stored_setPending_none there) rfl rfl id
    | nonexistent => exact unchanged (by simp [Proc.holds]) (by simp [Proc.holds]) rfl
    | record =>
      exact held_put rfl rfl (Requests.stored_setInflight_some (absent_of_holds rfl (single _)).2 _)
        rfl rfl id
  | queue act =>
    cases act with
    | take there => exact held_take rfl rfl (Requests.stored_setInflight_none there) rfl rfl id
    | requeue =>
      -- the record goes on under the ID it was received with
      have same := (traced _ (List.mem_singleton_self _)).1
      simp [tally, Proc.holds, same]
    | answer | answerFails =>
      rw [total_coe_cons, total_coe_cons, total_coe_nil,
        total_tally_eq_zero (forall_mem_caching (fun _ _ => rfl) _ _ _)]
      simp [tally, Proc.holds, Requests.stored, Requests.finished, Requests.arrived, List.count_cons]
      omega
    | _ => exact unchanged (by simp [Proc.holds]) (by simp [Proc.holds]) rfl

end Holding

/-! ### The account -/

/-- The runs in which no request ID is received twice. -/
def FreshIDs (config : State) : Event → Prop
  | .request _ req => req.requestID ∉ config.mem.requests.received.map Prod.snd
  | _ => True

/-- **Custody**: every request received is in one place, as often as it was received, and that is at
most once. -/
structure Custody (config : State) : Prop where
  traced : Traced config
  unique : ∀ id, config.mem.requests.arrived id ≤ 1
  account : ∀ id, total (tally Proc.holds id) config.procs + config.mem.requests.stored id +
    config.mem.requests.finished id = config.mem.requests.arrived id

theorem Custody.single_acting {mem : Mem} {acting : List Proc} {rest : Multiset Proc}
    (custody : Custody ⟨mem, ↑acting + rest⟩) (id : GoString) :
    total (tally Proc.holds id) ↑acting + mem.requests.stored id ≤ 1 := by
  have account := custody.account id
  have unique : mem.requests.arrived id ≤ 1 := custody.unique id
  simp only [total_add] at account
  omega

theorem unique_step (custody : Custody config) (fresh : FreshIDs config event)
    (step : Step (Act md5) config event next) : ∀ id, next.mem.requests.arrived id ≤ 1 := by
  intro id
  have before := custody.unique id
  cases step with
  | fire rest fires =>
    rcases received_rule fires.2 with ⟨-, same⟩ | ⟨cd, req, rfl, grown⟩
    · simpa only [Requests.arrived, same] using before
    · have new := List.count_eq_zero.mpr fresh
      simp only [Requests.arrived, grown, List.map_cons, List.count_cons, beq_iff_eq] at before ⊢
      split
      · rename_i same
        subst same
        exact (Nat.add_le_add_right (Nat.le_of_eq new) 1)
      · exact before

theorem account_step (custody : Custody config) (step : Step (Act md5) config event next) :
    ∀ id, total (tally Proc.holds id) next.procs + next.mem.requests.stored id +
      next.mem.requests.finished id = next.mem.requests.arrived id := by
  cases step with
  | @fire _ mem mem' acting left rest fires =>
    have acted : ∀ proc ∈ acting, proc.Traced mem.requests.received := fun proc member =>
      custody.traced.procs proc (mem_of_acting member)
    intro id
    have moves := held_rule fires.2 custody.single_acting acted id
    have here := custody.account id
    simp only [total_add] at here ⊢
    omega

theorem custody_step (custody : Custody config) (fresh : FreshIDs config event)
    (step : Step (Act md5) config event next) : Custody next :=
  ⟨traced_step custody.traced step, unique_step custody fresh step, account_step custody step⟩

theorem custody_initial : Custody initial := by
  refine ⟨traced_initial, fun id => Nat.zero_le _, fun id => ?_⟩
  rfl

/-- **The answers are right**: every response sent on a consumerd's stream carries the ID of a request
received on that stream, and no ID is sent back twice. -/
structure AnswersRight (r : Requests) : Prop where
  own : ∀ cd resp, (cd, resp) ∈ r.sent → (cd, resp.requestID) ∈ r.received
  once : (r.sent.map (·.2.requestID)).Nodup

/-- **At most one answer, to the right client**, in every run in which no request ID is received
twice. -/
theorem atMostOneAnswer (reach : Reach (Act md5) FreshIDs initial config) :
    AnswersRight config.mem.requests := by
  have custody := reach.invariant Custody custody_initial custody_step
  refine ⟨custody.traced.requests.sent, List.nodup_iff_count_le_one.mpr fun id => ?_⟩
  have account := custody.account id
  have unique := custody.unique id
  unfold Requests.finished at account
  omega

/-- The consumerd goes while its request is on offer: the request is answered, once. -/
theorem atMostOneAnswer_retry : ∃ config : State, Reach (Act id) FreshIDs initial config ∧
    config.mem.requests.sent = [(0, retryResponse (compile (bytes "1")) .doNotRetry)] ∧
    AnswersRight config.mem.requests := by
  obtain ⟨mem, h0, running, -, -, -, -, requests, connected, -⟩ := @offering_run FreshIDs
    (fun _ event plain => by cases event <;> first | exact trivial | cases plain)
    fun config _ _ none _ => by simp [FreshIDs, none]
  have h1 := reach_rule h0 [] _ running (.env (.disconnect (.sender 0) connected)) trivial (.refl _)
  have h2 := reach_rule h1 [.call (callOf (bytes "1")) (.offer 0)] _ running
    (.call (.contextDone (by simp [callOf]))) trivial (.refl _)
  have h3 := reach_rule h2 [.call (callOf (bytes "1")) .failed] _ running
    (.call (.loadFailed (show _ = some ⟨compile (bytes "1"), 0⟩ by rw [requests]; rfl))) trivial
    (.refl _)
  have h4 := reach_rule h3 [.call (callOf (bytes "1")) (.loaded ⟨compile (bytes "1"), 0⟩
      (retryResponse (compile (bytes "1")) .doNotRetry))] _ running (.call .record) trivial (.refl _)
  have h5 := reach_rule h4
    [.call (callOf (bytes "1")) (.announce (retryResponse (compile (bytes "1")) .doNotRetry)),
      .queue .idle]
    [.router (.attaching (.receiver 0) [] true), .router (.attached (.receiver 0) 0), .watch 0,
      .router (.attached (.sender 0) 0), .router (.closer 0)] running (.exchange .announce) trivial
    (by decide)
  have h6 := reach_rule h5 [.queue (.got (retryResponse (compile (bytes "1")) .doNotRetry))] _ running
    (.queue (.take (show _ = some (InflightRequest.mk ⟨compile (bytes "1"), 0⟩ none) from rfl)))
    trivial (.refl _)
  have h7 := reach_rule h6 [.queue (.taken (retryResponse (compile (bytes "1")) .doNotRetry)
      (InflightRequest.mk ⟨compile (bytes "1"), 0⟩ none))] _ running
    (.queue (.answer (by decide))) trivial (.refl _)
  refine ⟨_, h7, ?_, atMostOneAnswer h7⟩
  show (0, retryResponse (compile (bytes "1")) .doNotRetry) :: mem.requests.sent = _
  rw [requests]

end Kubecc.Scheduler
