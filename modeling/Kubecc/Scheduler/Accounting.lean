/-
**What `requestCount` counts.**

`TaskStats` publishes `requestCount` as the number of scheduling requests. `routeNewRequest` adds one
when it begins and takes it back when `Route` fails; `handleResponseQueue` adds one for every response
whose request is in flight, the one that `routeNewRequest` makes itself among them. A request that is
routed in vain ends up counted once, every other one twice, and each time a request is queued again it
is counted once more.

* `Proc.recounts` — the steps that are counted on top: a request is recorded as in flight for an agent or
  with a response of the cache, or it is queued again.
* `Books` — what a step does to the counters, checked on its own goroutines.
* `requestCount_eq` — when nothing is in progress, `requestCount` is the number of requests received and
  of these steps.
* `accounted_iff` — so it is the number of requests received if and only if there are none; and
  `completedTasks` and `failedTasks` never exceed it.
* `counted_twice` — one request that is compiled.
-/

import Kubecc.Scheduler.Custody

namespace Kubecc.Scheduler

open Kubecc.Lib Kubecc.Go

/-! ### The property -/

/-- The step of this goroutine is counted on top of the request: it records a request as in flight that
was not routed in vain, or queues one again. -/
def Proc.recounts : Proc → Bool
  | .call _ (.loaded _ resp) => resp.compileResult ≠ .retry
  | .agent _ (.send (.loaded _ _)) => true
  | .queue (.taken resp _) => resp.compileResult = .defunct
  | _ => false

/-- Nothing is in progress: no request is pending or in flight, and no goroutine has one in its hands. -/
structure Idle (config : State) : Prop where
  pending : ∀ id, config.mem.requests.pending id = none
  inflight : ∀ id, config.mem.requests.inflight id = none
  procs : ∀ proc ∈ config.procs, proc.holds = none

/-- **The counters are right**: the tasks completed and failed are not more than the requests counted,
and when nothing is in progress, the requests counted are those received. -/
structure Accounted (config : State) : Prop where
  tasks : config.mem.stats.completedTasks + config.mem.stats.failedTasks ≤
    config.mem.stats.requestCount
  requests : Idle config →
    config.mem.stats.requestCount = (config.mem.requests.received.length : ℕ)

/-! ### What is counted where -/

/-- The goroutine is about to count the request it has begun to route. -/
def Proc.storing : Proc → ℕ
  | .call _ .store => 1
  | _ => 0

/-- The goroutine is in `Route`, or has to take back what it has counted. -/
def Proc.routing : Proc → ℕ
  | .call _ .route | .call _ (.hook _) | .call _ (.hit _ _) | .call _ (.check _) | .call _ (.offer _)
  | .call _ .failed => 1
  | _ => 0

/-- The goroutine has taken back what it has counted. -/
def Proc.retrying : Proc → ℕ
  | .call _ (.loaded _ resp) => if resp.compileResult = .retry then 1 else 0
  | _ => 0

/-- The request that `handleResponseQueue` has counted, and not yet answered or queued again. -/
def Proc.answers : Proc → Option GoString
  | .queue (.taken resp _) => some resp.requestID
  | _ => none

/-- The request that the step of this goroutine records as in flight. -/
def Proc.records : Proc → Option GoString
  | .call c (.loaded _ _) => some c.request.requestID
  | .agent _ (.send (.loaded req _)) => some req.requestID
  | _ => none

/-- The request that the step of this goroutine queues again. -/
def Proc.requeues : Proc → Option GoString
  | .queue (.taken resp _) => if resp.compileResult = .defunct then some resp.requestID else none
  | _ => none

/-- How often the step of this goroutine is counted on top. -/
def Proc.recounted (proc : Proc) : ℕ := proc.recounts.toNat

/-- The number of responses that `handleResponseQueue` has sent, or failed to send. -/
def Requests.answered (r : Requests) : ℕ := r.sent.length + r.dropped.length

/-- A goroutine with no request in its hands counts for nothing but what it routes. -/
structure Proc.Uncounted (proc : Proc) : Prop where
  storing : proc.storing = 0
  retrying : proc.retrying = 0
  answers : proc.answers = none
  records : proc.records = none
  requeues : proc.requeues = none

theorem Proc.uncounted_of_free {proc : Proc} (free : proc.holds = none) : proc.Uncounted := by
  cases proc with
  | call c phase =>
    cases phase with
    | store | loaded => exact absurd free nofun
    | _ => exact ⟨rfl, rfl, rfl, rfl, rfl⟩
  | agent a proc =>
    cases proc with
    | send phase =>
      cases phase with
      | loaded => exact absurd free nofun
      | _ => exact ⟨rfl, rfl, rfl, rfl, rfl⟩
    | _ => exact ⟨rfl, rfl, rfl, rfl, rfl⟩
  | queue phase =>
    cases phase with
    | taken => exact absurd free nofun
    | _ => exact ⟨rfl, rfl, rfl, rfl, rfl⟩
  | _ => exact ⟨rfl, rfl, rfl, rfl, rfl⟩

/-! ### One step -/

/-- **What a step does to the counters.** The goroutines in `acting` have acted. -/
structure Books (mem : Mem) (acting : List Proc) (mem' : Mem) (left : List Proc) : Prop where
  count : mem'.stats.requestCount + (total Proc.storing ↑left + total Proc.retrying ↑left +
      mem.requests.received.length + mem.requests.answered + total (named Proc.answers) ↑acting : ℕ) =
    mem.stats.requestCount + (total Proc.storing ↑acting + mem'.requests.received.length +
      mem'.requests.answered + 2 * total (named Proc.requeues) ↑acting +
      total (named Proc.answers) ↑left : ℕ)
  recorded : ∀ id, total (tally Proc.records id) ↑acting + mem.requests.finished id +
      total (tally Proc.answers id) ↑acting + present mem.requests.inflight id =
    mem'.requests.finished id + total (tally Proc.requeues id) ↑acting +
      total (tally Proc.answers id) ↑left + present mem'.requests.inflight id
  bound : mem.stats.requestCount + (mem'.requests.answered + total (named Proc.answers) ↑left +
      total Proc.routing ↑left : ℕ) ≤
    mem'.stats.requestCount + (mem.requests.answered + total (named Proc.answers) ↑acting +
      total Proc.routing ↑acting : ℕ)
  tasks : mem'.stats.completedTasks + mem'.stats.failedTasks + (mem.requests.answered : ℕ) ≤
    mem.stats.completedTasks + mem.stats.failedTasks + (mem'.requests.answered : ℕ)

section Books

variable {md5 : GoString → GoString} {event : Event} {mem mem' : Mem} {acting left : List Proc}

theorem Books.quiet (acts : ∀ proc ∈ acting, proc.holds = none)
    (leaves : ∀ proc ∈ left, proc.holds = none) (requests : mem'.requests = mem.requests)
    (stats : mem'.stats = mem.stats)
    (routing : total Proc.routing ↑left ≤ total Proc.routing ↑acting) : Books mem acting mem' left := by
  have free {procs : List Proc} (none : ∀ proc ∈ procs, proc.holds = none) :
      ∀ proc ∈ procs, proc.Uncounted := fun proc member => Proc.uncounted_of_free (none proc member)
  have storing {procs : List Proc} (none : ∀ proc ∈ procs, proc.holds = none) :
      total Proc.storing ↑procs = 0 := total_eq_zero fun proc member => (free none proc member).storing
  have retrying : total Proc.retrying ↑left = 0 :=
    total_eq_zero fun proc member => (free leaves proc member).retrying
  have answers {procs : List Proc} (none : ∀ proc ∈ procs, proc.holds = none) :
      ∀ proc ∈ procs, proc.answers = Option.none := fun proc member => (free none proc member).answers
  have requeues : ∀ proc ∈ acting, proc.requeues = none := fun proc member =>
    (free acts proc member).requeues
  refine ⟨?_, fun id => ?_, ?_, ?_⟩
  · rw [storing acts, storing leaves, retrying, total_named_eq_zero (answers acts),
      total_named_eq_zero (answers leaves), total_named_eq_zero requeues, requests, stats]
  · rw [total_tally_eq_zero fun proc member => (free acts proc member).records,
      total_tally_eq_zero (answers acts), total_tally_eq_zero (answers leaves),
      total_tally_eq_zero requeues, requests]
    omega
  · rw [total_named_eq_zero (answers acts), total_named_eq_zero (answers leaves), requests, stats]
    omega
  · rw [requests, stats]

theorem present_record {proc : Proc} {name : GoString} {r : Requests} (holds : proc.holds = some name)
    (single : ∀ id, total (tally Proc.holds id) ↑[proc] + r.stored id ≤ 1) (value : InflightRequest)
    (id : GoString) :
    present (r.setInflight name (some value)).inflight id =
      present r.inflight id + if name = id then 1 else 0 :=
  present_update_some (absent_of_holds holds (single name)).2 value id

theorem Stats.requestCount_count (stats : Stats) (result : CompileResult) :
    (stats.count result).requestCount = stats.requestCount := by
  cases result <;> rfl

theorem Stats.tasks_count_le (stats : Stats) (result : CompileResult) :
    (stats.count result).completedTasks + (stats.count result).failedTasks ≤
      stats.completedTasks + stats.failedTasks + 1 := by
  cases result <;> simp only [Stats.count] <;> omega

theorem total_routing_router (procs : List RouterProc) : total Proc.routing ↑(procs.map Proc.router) = 0 := by
  rw [total_coe_map]
  exact total_eq_zero fun _ _ => rfl

theorem total_routing_back (call : Call) : total Proc.routing ↑call.back = 0 :=
  total_eq_zero (forall_mem_back (fun _ => rfl) call)

theorem addRequests_zero (stats : Stats) : stats.addRequests 0 = stats := by
  rw [Stats.addRequests, add_zero]

theorem Books.single {proc after : Proc} (change : Int)
    (received : mem'.requests.received = mem.requests.received)
    (sent : mem'.requests.sent = mem.requests.sent)
    (dropped : mem'.requests.dropped = mem.requests.dropped)
    (stats : mem'.stats = mem.stats.addRequests change)
    (count : change + (after.storing + after.retrying + named Proc.answers proc : ℕ) =
      (proc.storing + 2 * named Proc.requeues proc + named Proc.answers after : ℕ))
    (recorded : ∀ id, tally Proc.records id proc + tally Proc.answers id proc +
        present mem.requests.inflight id =
      tally Proc.requeues id proc + tally Proc.answers id after + present mem'.requests.inflight id)
    (bound : (named Proc.answers after + after.routing : ℕ) ≤
      change + (named Proc.answers proc + proc.routing : ℕ)) :
    Books mem [proc] mem' [after] := by
  have answered : mem'.requests.answered = mem.requests.answered := by
    rw [Requests.answered, sent, dropped, Requests.answered]
  refine ⟨?_, fun id => ?_, ?_, ?_⟩
  · simp only [total_coe_cons, total_coe_nil, add_zero, received, answered, stats, Stats.addRequests]
    omega
  · have here := recorded id
    simp only [total_coe_cons, total_coe_nil, add_zero, Requests.finished, sent, dropped]
    omega
  · simp only [total_coe_cons, total_coe_nil, add_zero, answered, stats, Stats.addRequests]
    omega
  · rw [answered, stats]
    exact le_rfl

theorem Books.answer {resp : Response} {inflight : InflightRequest}
    (other : resp.compileResult ≠ .defunct)
    (received : mem'.requests.received = mem.requests.received)
    (answered : mem'.requests.answered = mem.requests.answered + 1)
    (finished : ∀ id, mem'.requests.finished id =
      mem.requests.finished id + if resp.requestID = id then 1 else 0)
    (same : mem'.requests.inflight = mem.requests.inflight)
    (stats : mem'.stats = mem.stats.count resp.compileResult) :
    Books mem [.queue (.taken resp inflight)] mem'
      (.queue .idle :: caching mem.cache inflight resp) := by
  have free : ∀ proc ∈ Proc.queue .idle :: caching mem.cache inflight resp, proc.Uncounted :=
    List.forall_mem_cons.mpr
      ⟨Proc.uncounted_of_free rfl, forall_mem_caching (fun _ _ => Proc.uncounted_of_free rfl) _ _ _⟩
  have routing : total Proc.routing ↑(Proc.queue .idle :: caching mem.cache inflight resp) = 0 :=
    total_eq_zero (List.forall_mem_cons.mpr ⟨rfl, forall_mem_caching (fun _ _ => rfl) _ _ _⟩)
  have answers := total_named_eq_zero fun proc member => (free proc member).answers
  have kept : Proc.requeues (.queue (.taken resp inflight)) = none := if_neg other
  refine ⟨?_, fun id => ?_, ?_, ?_⟩
  · rw [total_eq_zero fun proc member => (free proc member).storing,
      total_eq_zero fun proc member => (free proc member).retrying, answers, received, answered, stats,
      Stats.requestCount_count, total_named_eq_zero (List.forall_mem_singleton.mpr kept)]
    simp only [total_coe_cons, total_coe_nil, Proc.storing, named, Proc.answers, Option.isSome_some,
      reduceIte]
    omega
  · rw [total_tally_eq_zero fun proc member => (free proc member).answers,
      total_tally_eq_zero (List.forall_mem_singleton.mpr kept), finished, same]
    simp only [total_coe_cons, total_coe_nil, tally, Proc.records, Proc.answers, Option.some_inj,
      reduceCtorEq, reduceIte]
    omega
  · rw [answers, routing, answered, stats, Stats.requestCount_count]
    simp only [total_coe_cons, total_coe_nil, named, Proc.answers, Option.isSome_some, Proc.routing,
      reduceIte]
    omega
  · have most := mem.stats.tasks_count_le resp.compileResult
    rw [answered, stats]
    omega

theorem books_rule (rule : Rule md5 event mem acting mem' left)
    (single : ∀ id, total (tally Proc.holds id) ↑acting + mem.requests.stored id ≤ 1) :
    Books mem acting mem' left := by
  cases rule with
  | env act =>
    cases act with
    | request cd req =>
      refine ⟨?_, fun id => ?_, ?_, ?_⟩
      · simp [Proc.storing, Proc.retrying, named, Proc.answers, Proc.requeues, Requests.answered]
        omega
      · simp [tally, Proc.records, Proc.answers, Proc.requeues, Requests.finished]
      · simp [named, Proc.answers, Proc.routing, Requests.answered]
      · simp [Requests.answered]
    | _ => exact .quiet (eq_none_of_all rfl) (eq_none_of_all rfl) rfl rfl le_rfl
  | stream act | cleanup act | token act =>
    cases act <;> exact .quiet (eq_none_of_all rfl) (eq_none_of_all rfl) rfl rfl le_rfl
  | router =>
    refine .quiet (List.forall_mem_map.mpr fun _ _ => rfl) (List.forall_mem_map.mpr fun _ _ => rfl)
      rfl rfl (Nat.le_of_eq ?_)
    rw [total_routing_router, total_routing_router]
  | call act =>
    cases act with
    | store => exact .single 1 rfl rfl rfl rfl rfl (fun _ => rfl) le_rfl
    | lookup =>
      refine .quiet (eq_none_of_all rfl)
        (List.forall_mem_cons.mpr ⟨rfl, List.forall_mem_map.mpr fun _ _ => rfl⟩) rfl rfl (Nat.le_of_eq ?_)
      rw [total_coe_cons, total_routing_router]
      rfl
    | loadHit =>
      exact .single 0 rfl rfl rfl (addRequests_zero _).symm rfl (fun _ => rfl)
        (show (0 : Int) ≤ 1 by decide)
    | loadFailed => exact .single (-1) rfl rfl rfl rfl rfl (fun _ => rfl) le_rfl
    | record =>
      refine .single 0 rfl rfl rfl (addRequests_zero _).symm rfl (fun id => ?_) le_rfl
      rw [present_record rfl single]
      simp [tally, Proc.records, Proc.answers, Proc.requeues, Nat.add_comm]
    | failedNonexistent =>
      exact .quiet (eq_none_of_all rfl) (forall_mem_back (fun _ => rfl) _) rfl rfl
        (by simp [total_routing_back])
    | _ => exact .quiet (eq_none_of_all rfl) (eq_none_of_all rfl) rfl rfl le_rfl
  | exchange act =>
    cases act with
    | receive | announce =>
      refine .quiet (eq_none_of_all rfl)
        (List.forall_mem_cons.mpr ⟨rfl, forall_mem_back (fun _ => rfl) _⟩) rfl rfl ?_
      rw [total_coe_cons, total_routing_back]
      exact Nat.zero_le _
    | _ => exact .quiet (eq_none_of_all rfl) (eq_none_of_all rfl) rfl rfl le_rfl
  | send act =>
    cases act with
    | load there => exact .single 0 rfl rfl rfl (addRequests_zero _).symm rfl (fun _ => rfl) le_rfl
    | nonexistent => exact .quiet (eq_none_of_all rfl) (eq_none_of_all rfl) rfl rfl le_rfl
    | record =>
      refine .single 0 rfl rfl rfl (addRequests_zero _).symm rfl (fun id => ?_) le_rfl
      rw [present_record rfl single]
      simp [tally, Proc.records, Proc.answers, Proc.requeues, Nat.add_comm]
  | queue act =>
    cases act with
    | take there =>
      refine .single 1 rfl rfl rfl rfl rfl (fun id => ?_) le_rfl
      rw [present_update_none there id]
      simp [tally, Proc.records, Proc.answers, Proc.requeues, Requests.setInflight, Nat.add_comm]
    | requeue defunct =>
      refine ⟨?_, fun id => ?_, ?_, le_rfl⟩
      · simp [Proc.storing, Proc.retrying, named, Proc.answers, Proc.requeues, defunct]
        omega
      · simp [tally, Proc.records, Proc.answers, Proc.requeues, defunct]
      · simp [named, Proc.answers, Proc.routing]
    | answer other =>
      refine .answer other rfl ?_ (fun id => ?_) rfl rfl
      · simp [Requests.answered]
        omega
      · simp [Requests.finished, List.count_cons]
        omega
    | answerFails other =>
      refine .answer other rfl ?_ (fun id => ?_) rfl rfl
      · rfl
      · simp [Requests.finished, List.count_cons, Nat.add_assoc]
    | _ => exact .quiet (eq_none_of_all rfl) (eq_none_of_all rfl) rfl rfl le_rfl

end Books

/-! ### Whole runs -/

/-- **The ledger** of a run, in which these goroutines have acted. -/
structure Ledger (acted : List Proc) (config : State) : Prop where
  count : config.mem.stats.requestCount + (total Proc.storing config.procs +
      total Proc.retrying ↑acted + total Proc.retrying config.procs : ℕ) =
    (config.mem.requests.received.length + 2 * total (named Proc.requeues) ↑acted +
      config.mem.requests.answered + total (named Proc.answers) config.procs : ℕ)
  recorded : ∀ id, total (tally Proc.records id) ↑acted =
    config.mem.requests.finished id + total (tally Proc.requeues id) ↑acted +
      total (tally Proc.answers id) config.procs + present config.mem.requests.inflight id
  bound : (config.mem.requests.answered + total (named Proc.answers) config.procs +
    total Proc.routing config.procs : ℕ) ≤ config.mem.stats.requestCount
  tasks : config.mem.stats.completedTasks + config.mem.stats.failedTasks ≤
    (config.mem.requests.answered : ℕ)

theorem ledger_initial : Ledger [] initial :=
  ⟨rfl, fun _ => rfl, le_rfl, le_rfl⟩

theorem Ledger.step {acted acting left : List Proc} {mem mem' : Mem} {rest : Multiset Proc}
    (ledger : Ledger acted ⟨mem, ↑acting + rest⟩) (books : Books mem acting mem' left) :
    Ledger (acting ++ acted) ⟨mem', ↑left + rest⟩ := by
  obtain ⟨count, recorded, bound, tasks⟩ := ledger
  refine ⟨?_, fun id => ?_, ?_, ?_⟩
  · have moves := books.count
    simp only [← Multiset.coe_add, total_add] at count ⊢
    omega
  · have moves := books.recorded id
    have here := recorded id
    simp only [← Multiset.coe_add, total_add] at here ⊢
    omega
  · have moves := books.bound
    simp only [total_add] at bound ⊢
    omega
  · have moves := books.tasks
    simp only at tasks ⊢
    omega

def acted (trace : List (Event × List Proc)) : List Proc := trace.flatMap Prod.snd

variable {md5 : GoString → GoString} {trace : List (Event × List Proc)} {config : State}

theorem run_ledger
    (run : Run (Acting (Act md5)) (fun config label => FreshIDs config label.1) initial trace config) :
    Custody config ∧ Ledger (acted trace) config := by
  induction run with
  | start => exact ⟨custody_initial, ledger_initial⟩
  | @step trace config next label _ fresh step ih =>
    obtain ⟨custody, ledger⟩ := ih
    refine ⟨custody_step custody fresh step.ofActing, ?_⟩
    cases step with
    | fire rest fires =>
      obtain ⟨⟨-, rule⟩, same⟩ := fires
      rw [acted, List.flatMap_cons, same]
      exact ledger.step (books_rule rule custody.single_acting)

/-- What is recorded as in flight was routed in vain, or is counted on top; what is queued again is
counted on top. -/
theorem named_records_add_requeues (proc : Proc) :
    named Proc.records proc + named Proc.requeues proc = proc.retrying + proc.recounted := by
  cases proc with
  | call c phase =>
    cases phase with
    | loaded pending resp =>
      by_cases retry : resp.compileResult = .retry <;>
        simp [named, Proc.records, Proc.requeues, Proc.retrying, Proc.recounted, Proc.recounts, retry]
    | _ => rfl
  | agent a proc =>
    cases proc with
    | send phase => cases phase <;> rfl
    | _ => rfl
  | queue phase =>
    cases phase with
    | taken resp inflight =>
      by_cases defunct : resp.compileResult = .defunct <;>
        simp [named, Proc.records, Proc.requeues, Proc.retrying, Proc.recounted, Proc.recounts, defunct]
    | _ => rfl
  | _ => rfl

section Idle

variable {history : List Proc}

theorem Custody.received_eq (custody : Custody config) (idle : Idle config) :
    config.mem.requests.received.length = config.mem.requests.answered := by
  have perm : (config.mem.requests.received.map Prod.snd).Perm
      (config.mem.requests.sent.map (·.2.requestID) ++ config.mem.requests.dropped.map Prod.snd) := by
    refine List.perm_iff_count.mpr fun id => ?_
    have account := custody.account id
    have held : total (tally Proc.holds id) config.procs = 0 :=
      total_eq_zero fun proc member => tally_eq_zero (idle.procs proc member) id
    rw [held, Requests.stored, present_eq_zero.mpr (idle.pending id),
      present_eq_zero.mpr (idle.inflight id), zero_add, zero_add, zero_add] at account
    rw [List.count_append]
    exact account.symm
  have lengths := perm.length_eq
  rwa [List.length_append, List.length_map, List.length_map, List.length_map] at lengths

theorem Ledger.recorded_eq (ledger : Ledger history config) (idle : Idle config) :
    total (named Proc.records) ↑history =
      config.mem.requests.answered + total (named Proc.requeues) ↑history := by
  have perm : (history.filterMap Proc.records).Perm
      (config.mem.requests.sent.map (·.2.requestID) ++ config.mem.requests.dropped.map Prod.snd ++
        history.filterMap Proc.requeues) := by
    refine List.perm_iff_count.mpr fun id => ?_
    have recorded := ledger.recorded id
    have free : total (tally Proc.answers id) config.procs = 0 := total_eq_zero fun proc member =>
      tally_eq_zero (Proc.uncounted_of_free (idle.procs proc member)).answers id
    rw [free, present_eq_zero.mpr (idle.inflight id), total_tally_eq_count, total_tally_eq_count]
      at recorded
    rw [List.count_append, List.count_append]
    exact recorded
  have lengths := perm.length_eq
  rwa [List.length_append, List.length_append, List.length_map, List.length_map,
    ← total_named_eq_length, ← total_named_eq_length] at lengths

/-- **What `requestCount` counts**: the requests received, and the steps that are counted on top. -/
theorem requestCount_eq (custody : Custody config) (ledger : Ledger history config)
    (idle : Idle config) :
    config.mem.stats.requestCount =
      (config.mem.requests.received.length + total Proc.recounted ↑history : ℕ) := by
  have free := fun proc member => Proc.uncounted_of_free (idle.procs proc member)
  have unanswered : total (named Proc.answers) config.procs = 0 := by
    refine total_eq_zero fun proc member => ?_
    rw [named, (free proc member).answers]
    rfl
  have count := ledger.count
  rw [total_eq_zero fun proc member => (free proc member).storing,
    total_eq_zero fun proc member => (free proc member).retrying,
    unanswered] at count
  have recorded := ledger.recorded_eq idle
  have received := custody.received_eq idle
  have split : total (fun proc => named Proc.records proc + named Proc.requeues proc) ↑history =
      total (fun proc : Proc => proc.retrying + proc.recounted) ↑history :=
    total_congr fun proc _ => named_records_add_requeues proc
  rw [total_eq_add fun _ _ => rfl, total_eq_add fun _ _ => rfl] at split
  omega

end Idle

theorem total_recounted_eq_zero (trace : List (Event × List Proc)) :
    total Proc.recounted ↑(acted trace) = 0 ↔
      ∀ label ∈ trace, ∀ proc ∈ label.2, proc.recounts = false := by
  constructor
  · intro zero label member proc acts
    have there : proc ∈ (↑(acted trace) : Multiset Proc) := List.mem_flatMap.mpr ⟨label, member, acts⟩
    have most : proc.recounted ≤ total Proc.recounted ↑(acted trace) := weight_le_total there
    rw [zero] at most
    exact Bool.toNat_eq_zero.mp (Nat.le_zero.mp most)
  · intro none
    refine total_eq_zero fun proc there => ?_
    obtain ⟨label, member, acts⟩ := List.mem_flatMap.mp (Multiset.mem_coe.mp there)
    rw [Proc.recounted, none label member proc acts]
    rfl

/-- **The counters are right** if and only if, when nothing is in progress, no step of the run was
counted on top: every request was routed in vain. The tasks never exceed `requestCount`. -/
theorem accounted_iff
    (run : Run (Acting (Act md5)) (fun config label => FreshIDs config label.1) initial trace config) :
    Accounted config ↔
      (Idle config → ∀ label ∈ trace, ∀ proc ∈ label.2, proc.recounts = false) := by
  obtain ⟨custody, ledger⟩ := run_ledger run
  have tasks : config.mem.stats.completedTasks + config.mem.stats.failedTasks ≤
      config.mem.stats.requestCount := by
    have bound := ledger.bound
    have tasks := ledger.tasks
    omega
  have none := total_recounted_eq_zero trace
  constructor
  · intro accounted idle
    have count := requestCount_eq custody ledger idle
    have right := accounted.requests idle
    exact none.mp (by omega)
  · intro vain
    refine ⟨tasks, fun idle => ?_⟩
    rw [requestCount_eq custody ledger idle, none.mpr (vain idle), add_zero]

/-! ### Runs -/

theorem Custody.idle (custody : Custody config)
    (all : ∀ id, config.mem.requests.arrived id ≤ config.mem.requests.finished id) : Idle config := by
  have nowhere : ∀ id, total (tally Proc.holds id) config.procs = 0 ∧
      config.mem.requests.stored id = 0 := fun id => by
    have account := custody.account id
    have answered := all id
    omega
  refine ⟨fun id => (Requests.absent_of_stored (nowhere id).2).1,
    fun id => (Requests.absent_of_stored (nowhere id).2).2, fun proc member => ?_⟩
  cases is : proc.holds with
  | none => rfl
  | some id =>
    have counted := one_le_total_tally member is
    rw [(nowhere id).1] at counted
    exact absurd counted (by decide)

def unroutable : Request := ⟨bytes "1", none, [], [], none⟩

def unroutableCall : Call := ⟨0, unroutable, .doNotRetry, true⟩

/-- A request is routed in vain, and counted once. -/
theorem accounted_unroutable :
    ∃ trace config,
      Run (Acting (Act id)) (fun config label => FreshIDs config label.1) initial trace config ∧
      Idle config ∧ config.mem.stats.requestCount = 1 ∧
      (Accounted config ↔
        (Idle config → ∀ label ∈ trace, ∀ proc ∈ label.2, proc.recounts = false)) := by
  have h0 : Reach (Act id) FreshIDs initial (.ofList initial.mem [.queue .idle]) := .start
  have h1 := reach_rule h0 [] _ rfl (.env (.connectConsumerd 0 [] rfl)) trivial (.refl _)
  have h2 := reach_router h1 [.add (.sender 0) []] _ rfl (.lock rfl) trivial (.refl _)
  have h3 := reach_rule h2 [.router (.attaching (.sender 0) [] true)] _ rfl (.stream .serveConsumerd)
    trivial (.refl _)
  have h4 := reach_rule h3 [.consumerd 0] _ rfl (.env (.request 0 unroutable)) List.not_mem_nil
    (.refl _)
  have h5 := reach_rule h4 [.call unroutableCall .store] _ rfl (.call .store) trivial (.refl _)
  have h6 := reach_rule h5 [.call unroutableCall .route] _ rfl (.call (.noToolchain rfl)) trivial
    (.refl _)
  have h7 := reach_rule h6 [.call unroutableCall .failed] _ rfl
    (.call (.loadFailed (show _ = some ⟨unroutable, 0⟩ from rfl))) trivial (.refl _)
  have h8 := reach_rule h7
    [.call unroutableCall (.loaded ⟨unroutable, 0⟩ (retryResponse unroutable .doNotRetry))] _ rfl
    (.call .record) trivial (.refl _)
  have h9 := reach_rule h8
    [.call unroutableCall (.announce (retryResponse unroutable .doNotRetry)), .queue .idle] [.watch 0]
    rfl (.exchange .announce) trivial (by decide)
  have h10 := reach_rule h9 [.queue (.got (retryResponse unroutable .doNotRetry))] _ rfl
    (.queue (.take (show _ = some (InflightRequest.mk ⟨unroutable, 0⟩ none) from rfl))) trivial
    (.refl _)
  have h11 := reach_rule h10 [.queue (.taken (retryResponse unroutable .doNotRetry)
    (InflightRequest.mk ⟨unroutable, 0⟩ none))] _ rfl (.queue (.answer (by decide))) trivial (.refl _)
  obtain ⟨trace, run⟩ := h11.acting.exists_run
  exact ⟨trace, _, run, (run_ledger run).1.idle fun id => le_rfl, rfl, accounted_iff run⟩

/-- **One request that is compiled is counted twice**: when `routeNewRequest` begins, and when
`handleResponseQueue` finds the request of the response in flight. -/
theorem counted_twice :
    ∃ trace config,
      Run (Acting (Act id)) (fun config label => FreshIDs config label.1) initial trace config ∧
      Idle config ∧ config.mem.requests.received.length = 1 ∧ config.mem.stats.requestCount = 2 ∧
      ¬ Accounted config := by
  obtain ⟨config, reach, sent, received, stats⟩ := @answered_run FreshIDs
    (fun _ event plain => by cases event <;> first | exact trivial | cases plain)
    (fun config _ _ none _ => by simp [FreshIDs, none]) (fun _ _ _ _ => trivial)
    fun _ _ _ _ => trivial
  obtain ⟨trace, run⟩ := reach.acting.exists_run
  have idle : Idle config := by
    refine (run_ledger run).1.idle fun id => ?_
    rw [Requests.arrived, Requests.finished, received, sent]
    exact Nat.le_add_right _ _
  refine ⟨trace, config, run, idle, by rw [received]; rfl, by rw [stats], fun accounted => ?_⟩
  have right := accounted.requests idle
  rw [received, stats] at right
  exact absurd right (by decide)

end Kubecc.Scheduler
