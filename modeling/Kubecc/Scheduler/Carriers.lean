/-
**Who comes for a pending request.**

`pendingRequests` is only ever read with `LoadAndDelete`, under the ID of a request that a goroutine
has with it: a call of `routeNewRequest`, the goroutine attached to the route for some agent, or that
agent's send goroutine. The request passes from one to the other through channels, and the entry stays
until one of them takes it.

* `Proc.carries` — the request a goroutine has with it while its entry is pending.
* `Carried` — every pending request is carried by exactly one goroutine, and a request that is carried
  is pending; so none of the three places that look for a "nonexistent task" ever does
  (`Carried.pending_of_mem`).
-/

import Kubecc.Scheduler.Custody

namespace Kubecc.Scheduler

open Kubecc.Lib Kubecc.Go

/-- The request that a goroutine has with it, to be taken from `pendingRequests`. -/
def Proc.carries : Proc → Option GoString
  | .call c .route | .call c (.hook _) | .call c (.hit _ _) | .call c (.check _)
  | .call c (.offer _) | .call c .failed => some c.request.requestID
  | .router (.holding _ _ req) => some req.requestID
  | .agent _ (.send (.received req)) => some req.requestID
  | _ => none

def Carried (config : State) : Prop :=
  ∀ id, total (tally Proc.carries id) config.procs = present config.mem.requests.pending id

section Rules

variable {md5 : GoString → GoString} {event : Event} {mem mem' : Mem} {acting left : List Proc}

/-- The router's own steps carry nothing: its goroutine gets a request, and passes it on, together with
the broker's. -/
theorem carries_router {done : Party → Bool} {label : Option RouteId} {r r' : Router}
    {acts leaves : List RouterProc} (act : RouterAct md5 done label r acts r' leaves) :
    (∀ proc ∈ acts, (Proc.router proc).carries = none) ∧
      ∀ proc ∈ leaves, (Proc.router proc).carries = none := by
  cases act with
  | lookup | drop =>
    exact ⟨List.forall_mem_singleton.mpr rfl,
      List.forall_mem_cons.mpr ⟨rfl, Router.forall_mem_spawned (fun _ => rfl) _⟩⟩
  | _ => simp [Proc.carries]

theorem carried_unchanged (acts : ∀ proc ∈ acting, proc.carries = none)
    (leaves : ∀ proc ∈ left, proc.carries = none)
    (same : mem'.requests.pending = mem.requests.pending) (id : GoString) :
    total (tally Proc.carries id) ↑left + present mem.requests.pending id =
      total (tally Proc.carries id) ↑acting + present mem'.requests.pending id := by
  rw [total_tally_eq_zero acts, total_tally_eq_zero leaves, same]

theorem carried_passed {proc after : Proc} {others others' : List Proc} {name : GoString}
    (before : proc.carries = some name) (now : after.carries = some name)
    (acts : ∀ proc ∈ others, proc.carries = none) (leaves : ∀ proc ∈ others', proc.carries = none)
    (id : GoString) :
    total (tally Proc.carries id) ↑(after :: others') + present mem.requests.pending id =
      total (tally Proc.carries id) ↑(proc :: others) + present mem.requests.pending id := by
  rw [total_coe_cons, total_coe_cons, total_tally_eq_zero acts, total_tally_eq_zero leaves,
    tally_of_eq_some before, tally_of_eq_some now]

theorem carried_taken {proc after : Proc} {pending : PendingRequest} {name : GoString}
    (before : proc.carries = some name) (now : after.carries = none) {r : Requests}
    (there : r.pending name = some pending) (id : GoString) :
    total (tally Proc.carries id) ↑[after] + present r.pending id =
      total (tally Proc.carries id) ↑[proc] + present (r.setPending name none).pending id := by
  have taken := present_update_none there id
  rw [total_coe_cons, total_coe_cons, total_coe_nil, tally_of_eq_some before, tally_eq_zero now]
  simp only [Requests.setPending]
  omega

theorem absurd_of_carries {proc : Proc} {name : GoString} {r : Requests}
    (carries : proc.carries = some name)
    (carried : total (tally Proc.carries name) ↑[proc] ≤ present r.pending name)
    (absent : r.pending name = none) : False := by
  rw [total_coe_cons, total_coe_nil, tally_of_eq_some carries, if_pos rfl,
    present_eq_zero.mpr absent] at carried
  omega

/-- **What a step does to carriers and to pending requests.** -/
theorem carried_rule (rule : Rule md5 event mem acting mem' left)
    (single : ∀ id, total (tally Proc.holds id) ↑acting + mem.requests.stored id ≤ 1)
    (carried : ∀ id, total (tally Proc.carries id) ↑acting ≤ present mem.requests.pending id)
    (id : GoString) :
    total (tally Proc.carries id) ↑left + present mem.requests.pending id =
      total (tally Proc.carries id) ↑acting + present mem'.requests.pending id := by
  have unchanged : (∀ proc ∈ acting, proc.carries = none) → (∀ proc ∈ left, proc.carries = none) →
      mem'.requests.pending = mem.requests.pending → _ := fun acts leaves same =>
    carried_unchanged acts leaves same id
  cases rule with
  | env act | stream act | token act | cleanup act =>
    cases act <;> exact unchanged (by simp [Proc.carries]) (by simp [Proc.carries]) rfl
  | router act =>
    obtain ⟨acts, leaves⟩ := carries_router act
    exact unchanged (List.forall_mem_map.mpr acts) (List.forall_mem_map.mpr leaves) rfl
  | call act =>
    cases act with
    | @store _ call =>
      have put := present_update_some (absent_of_holds rfl (single call.request.requestID)).1
        ⟨call.request, call.consumerd⟩ id
      simp only [total_coe_cons, total_coe_nil, tally, Proc.carries, Option.some.injEq,
        Requests.setPending]
      simp only [reduceCtorEq, if_false]
      omega
    | lookup =>
      exact carried_passed rfl rfl (List.forall_mem_nil _)
        (List.forall_mem_map.mpr (Router.forall_mem_spawned (fun _ => rfl) _)) id
    | loadHit there | loadFailed there => exact carried_taken rfl rfl there id
    | failedNonexistent absent => exact (absurd_of_carries rfl (carried _) absent).elim
    | record => exact unchanged (by simp [Proc.carries]) (by simp [Proc.carries]) rfl
    | _ => exact carried_passed rfl rfl (List.forall_mem_nil _) (List.forall_mem_nil _) id
  | exchange act =>
    cases act with
    | receive =>
      exact carried_passed rfl rfl (List.forall_mem_singleton.mpr rfl)
        (forall_mem_back (fun _ => rfl) _) id
    | handOver => simp [tally, Proc.carries]
    | announce =>
      exact unchanged (by simp [Proc.carries])
        (List.forall_mem_cons.mpr ⟨rfl, forall_mem_back (fun _ => rfl) _⟩) rfl
    | _ => exact unchanged (by simp [Proc.carries]) (by simp [Proc.carries]) rfl
  | send act =>
    cases act with
    | load there => exact carried_taken rfl rfl there id
    | nonexistent absent => exact (absurd_of_carries rfl (carried _) absent).elim
    | record => exact unchanged (by simp [Proc.carries]) (by simp [Proc.carries]) rfl
  | queue act =>
    cases act with
    | answer | answerFails =>
      exact unchanged (by simp [Proc.carries])
        (List.forall_mem_cons.mpr ⟨rfl, forall_mem_caching (fun _ _ => rfl) _ _ _⟩) rfl
    | _ => exact unchanged (by simp [Proc.carries]) (by simp [Proc.carries]) rfl

end Rules

variable {md5 : GoString → GoString} {config next : State} {event : Event}

theorem carried_step (custody : Custody config) (carried : Carried config)
    (step : Step (Act md5) config event next) : Carried next := by
  cases step with
  | @fire _ mem mem' acting left rest fires =>
    intro id
    have here : ∀ id, total (tally Proc.carries id) ↑acting + total (tally Proc.carries id) rest =
        present mem.requests.pending id := fun id => by
      rw [← carried id, total_add]
    have moves := carried_rule fires.2 custody.single_acting (fun id => by have := here id; omega) id
    have before := here id
    simp only [total_add]
    omega

theorem carried_initial : Carried initial := fun _ => rfl

theorem reach_carried {allowed : State → Event → Prop}
    (fresh : ∀ config event, allowed config event → FreshIDs config event)
    (reach : Reach (Act md5) allowed initial config) : Custody config ∧ Carried config :=
  reach.invariant (fun config => Custody config ∧ Carried config) ⟨custody_initial, carried_initial⟩
    fun inv ok step => ⟨custody_step inv.1 (fresh _ _ ok) step, carried_step inv.1 inv.2 step⟩

theorem Carried.pending_of_mem (carried : Carried config) {proc : Proc} {id : GoString}
    (member : proc ∈ config.procs) (carries : proc.carries = some id) :
    config.mem.requests.pending id ≠ none := by
  intro absent
  have counted := @weight_le_total _ (tally Proc.carries id) _ _ member
  rw [carried id, present_eq_zero.mpr absent, tally_of_eq_some carries, if_pos rfl] at counted
  omega

theorem Carried.exists_of_pending (carried : Carried config) {id : GoString} {pending : PendingRequest}
    (there : config.mem.requests.pending id = some pending) :
    ∃ proc ∈ config.procs, proc.carries = some id := by
  have counted : 0 < total (tally Proc.carries id) config.procs := by
    rw [carried id, present_of_eq_some there]
    exact Nat.one_pos
  exact exists_of_total_tally_pos counted

end Kubecc.Scheduler
