/-
**The worker pool.**

`pkg/run/workerpool.go`, with the upstream queues and the pools that `NewSplitQueue` builds on it.
Each pool has one `manageQueue` goroutine, its workers, and the `Resize` calls in progress. All
pools share `futureTaskPool`, and two pools may read the same channel of tasks.

A task travels in two phases. `manageQueue` first hands an empty `futureTask` to an idle worker
(`accept`), then takes a task from upstream (`select`) and writes it on the channel of that
`futureTask` (`write`), where the worker waits for it. The worker waits in a select that also
listens to the stop queue.

* `Inv` — the hand-off invariant: every `futureTask` has one owner, and where `manageQueue` still
  has to deliver on one, or has delivered, a worker of its pool waits on it.
* `noTaskLost_of_no_stopWaiting` — in every run in which no worker takes its stop signal while it
  waits on a `futureTask`, every task taken from upstream is accounted for.
* `stopWaiting_loses_task` — a run with such a stop, after which the task sits in a channel that
  nobody reads.
-/

import Kubecc.Lib.Process
import Kubecc.Go.Strings

namespace Kubecc.Run

open Kubecc.Lib Kubecc.Go

abbrev PoolId := Nat

abbrev QueueId := Nat

abbrev FutureTask := Nat

variable {Task : Type}

inductive Manager (Task : Type)
  | checkPaused
  | get
  | offer (ft : FutureTask)
  | select (ft : FutureTask)
  | write (ft : FutureTask) (task : Task)
  | returned
deriving DecidableEq

/-- Where a worker stands: in the outer select, in the inner one, with the task before it puts the
`futureTask` back, in its runner, or after `Run` has returned. -/
inductive Worker (Task : Type)
  | idle
  | waiting (ft : FutureTask)
  | received (ft : FutureTask) (task : Task)
  | running (task : Task)
  | returned
  | panicked
deriving DecidableEq

/-- Where a `Resize` call stands; `stopping n` still has `n` stop signals to send. -/
inductive Resize
  | called (count : Int)
  | locked (count : Int)
  | growing (count : Int)
  | stopping (left : Nat)
deriving DecidableEq

inductive Proc (Task : Type)
  | manager (pool : PoolId) (state : Manager Task)
  | worker (pool : PoolId) (state : Worker Task)
  | resize (pool : PoolId) (state : Resize)
deriving DecidableEq

/-- The channels, the pools' fields and `futureTaskPool`. `taken` and `ran` record what
`manageQueue` has removed from upstream and what a runner has returned from. -/
structure Mem (Task : Type) where
  upstream : QueueId → List Task
  closed : QueueId → Bool
  paused : PoolId → Bool
  taskQueueClosed : PoolId → Bool
  workers : PoolId → Nat
  workerLock : PoolId → Bool
  channel : FutureTask → Option Task
  futureTaskPool : List FutureTask
  nextFutureTask : FutureTask
  taken : PoolId → List Task
  ran : PoolId → List Task

abbrev State (Task : Type) := Config (Mem Task) (Proc Task)

/-- The steps that are told apart: those of the environment, and a stop signal taken by a worker
that waits on a `futureTask`. -/
inductive Event (Task : Type)
  | arrive (queue : QueueId) (task : Task)
  | close (queue : QueueId)
  | pause (pool : PoolId)
  | resume (pool : PoolId)
  | resize (pool : PoolId) (count : Int)
  | stopWaiting (pool : PoolId)
  | internal

/-- **The steps of the pools.** `reads pool` lists the channels its `UpstreamQueue` selects from: one
for `singularQueue`, two for `duoQueue`. -/
inductive Act (reads : PoolId → List QueueId) : Rules (Mem Task) (Proc Task) (Event Task)
  -- the environment
  | arrive {mem} (queue : QueueId) (task : Task) : mem.closed queue = false →
      Act reads (.arrive queue task) mem []
        { mem with upstream := Function.update mem.upstream queue (mem.upstream queue ++ [task]) } []
  | close {mem} (queue : QueueId) :
      Act reads (.close queue) mem []
        { mem with closed := Function.update mem.closed queue true } []
  | pause {mem} (pool : PoolId) :
      Act reads (.pause pool) mem [] { mem with paused := Function.update mem.paused pool true } []
  | resume {mem} (pool : PoolId) :
      Act reads (.resume pool) mem [] { mem with paused := Function.update mem.paused pool false } []
  | call {mem} (pool : PoolId) (count : Int) :
      Act reads (.resize pool count) mem [] mem [.resize pool (.called count)]
  -- manageQueue
  | checkPaused {mem} {pool : PoolId} : mem.paused pool = false →
      Act reads .internal mem [.manager pool .checkPaused] mem [.manager pool .get]
  | getPooled {mem} {pool : PoolId} {ft : FutureTask} : ft ∈ mem.futureTaskPool →
      Act reads .internal mem [.manager pool .get]
        { mem with futureTaskPool := mem.futureTaskPool.erase ft } [.manager pool (.offer ft)]
  | getNew {mem} {pool : PoolId} :
      Act reads .internal mem [.manager pool .get]
        { mem with nextFutureTask := mem.nextFutureTask + 1 }
        [.manager pool (.offer mem.nextFutureTask)]
  | accept {mem} {pool : PoolId} {ft : FutureTask} :
      Act reads .internal mem [.manager pool (.offer ft), .worker pool .idle] mem
        [.manager pool (.select ft), .worker pool (.waiting ft)]
  | select {mem} {pool : PoolId} {ft : FutureTask} {queue : QueueId} {task : Task}
      {tasks : List Task} : queue ∈ reads pool → mem.upstream queue = task :: tasks →
      Act reads .internal mem [.manager pool (.select ft)]
        { mem with
          upstream := Function.update mem.upstream queue tasks
          taken := Function.update mem.taken pool (task :: mem.taken pool) }
        [.manager pool (.write ft task)]
  | selectClosed {mem} {pool : PoolId} {ft : FutureTask} {queue : QueueId} : queue ∈ reads pool →
      mem.upstream queue = [] → mem.closed queue = true →
      Act reads .internal mem [.manager pool (.select ft)]
        { mem with taskQueueClosed := Function.update mem.taskQueueClosed pool true }
        [.manager pool .returned]
  | write {mem} {pool : PoolId} {ft : FutureTask} {task : Task} : mem.channel ft = none →
      Act reads .internal mem [.manager pool (.write ft task)]
        { mem with channel := Function.update mem.channel ft (some task) }
        [.manager pool .checkPaused]
  -- worker.Run
  | stopIdle {mem} {pool : PoolId} {left : Nat} :
      Act reads .internal mem [.worker pool .idle, .resize pool (.stopping (left + 1))] mem
        [.worker pool .returned, .resize pool (.stopping left)]
  | stopWaiting {mem} {pool : PoolId} {ft : FutureTask} {left : Nat} :
      Act reads (.stopWaiting pool) mem
        [.worker pool (.waiting ft), .resize pool (.stopping (left + 1))] mem
        [.worker pool .returned, .resize pool (.stopping left)]
  | receive {mem} {pool : PoolId} {ft : FutureTask} {task : Task} : mem.channel ft = some task →
      Act reads .internal mem [.worker pool (.waiting ft)]
        { mem with channel := Function.update mem.channel ft none }
        [.worker pool (.received ft task)]
  | recycle {mem} {pool : PoolId} {ft : FutureTask} {task : Task} :
      Act reads .internal mem [.worker pool (.received ft task)]
        { mem with futureTaskPool := ft :: mem.futureTaskPool } [.worker pool (.running task)]
  | finish {mem} {pool : PoolId} {task : Task} :
      Act reads .internal mem [.worker pool (.running task)]
        { mem with ran := Function.update mem.ran pool (task :: mem.ran pool) } [.worker pool .idle]
  | remove {mem} {pool : PoolId} :
      Act reads .internal mem [.worker pool .returned]
        { mem with workers := Function.update mem.workers pool (mem.workers pool - 1) } []
  -- a closed task queue hands out nil, which the inner select dereferences
  | nilTask {mem} {pool : PoolId} : mem.taskQueueClosed pool = true →
      Act reads .internal mem [.worker pool .idle] mem [.worker pool .panicked]
  -- Resize
  | lock {mem} {pool : PoolId} {count : Int} : mem.workerLock pool = false →
      Act reads .internal mem [.resize pool (.called count)]
        { mem with workerLock := Function.update mem.workerLock pool true }
        [.resize pool (.locked count)]
  | grow {mem} {pool : PoolId} {count : Int} : mem.workers pool < count →
      Act reads .internal mem [.resize pool (.locked count)] mem [.resize pool (.growing count)]
  | shrink {mem} {pool : PoolId} {count : Int} : count < mem.workers pool → 0 ≤ count →
      Act reads .internal mem [.resize pool (.locked count)] mem
        [.resize pool (.stopping (mem.workers pool - count.toNat))]
  | keep {mem} {pool : PoolId} {count : Int} : ¬ mem.workers pool < count →
      ¬ (count < mem.workers pool ∧ 0 ≤ count) →
      Act reads .internal mem [.resize pool (.locked count)]
        { mem with workerLock := Function.update mem.workerLock pool false } []
  | spawn {mem} {pool : PoolId} {count : Int} : (mem.workers pool : Int) ≠ count →
      Act reads .internal mem [.resize pool (.growing count)]
        { mem with workers := Function.update mem.workers pool (mem.workers pool + 1) }
        [.resize pool (.growing count), .worker pool .idle]
  | grown {mem} {pool : PoolId} {count : Int} : (mem.workers pool : Int) = count →
      Act reads .internal mem [.resize pool (.growing count)]
        { mem with workerLock := Function.update mem.workerLock pool false } []
  | stopped {mem} {pool : PoolId} :
      Act reads .internal mem [.resize pool (.stopping 0)]
        { mem with workerLock := Function.update mem.workerLock pool false } []

/-- The pools just made: every `manageQueue` at the top of its loop, no worker yet. -/
def initial (pools : List PoolId) (paused : PoolId → Bool) : State Task where
  mem :=
    { upstream := fun _ => [], closed := fun _ => false, paused := paused
      taskQueueClosed := fun _ => false, workers := fun _ => 0, workerLock := fun _ => false
      channel := fun _ => none, futureTaskPool := [], nextFutureTask := 0
      taken := fun _ => [], ran := fun _ => [] }
  procs := ↑(pools.map fun pool => (Proc.manager pool .checkPaused : Proc Task))

/-! ### Where a task is -/

section Places

variable [DecidableEq Task]

/-- A worker of the pool has the task in hand or runs it. -/
def beingRun (pool : PoolId) (task : Task) : Proc Task → ℕ
  | .worker pool' (.received _ task') => if pool' = pool ∧ task' = task then 1 else 0
  | .worker pool' (.running task') => if pool' = pool ∧ task' = task then 1 else 0
  | _ => 0

/-- `manageQueue` of the pool has taken the task and not yet written it. -/
def held (pool : PoolId) (task : Task) : Proc Task → ℕ
  | .manager pool' (.write _ task') => if pool' = pool ∧ task' = task then 1 else 0
  | _ => 0

/-- A worker of the pool waits on a `futureTask` whose channel holds the task. -/
def delivered (channel : FutureTask → Option Task) (pool : PoolId) (task : Task) : Proc Task → ℕ
  | .worker pool' (.waiting ft) => if pool' = pool ∧ channel ft = some task then 1 else 0
  | _ => 0

/-- **No task is lost**: what `manageQueue` of a pool has taken has been run, is being run, is still
in its hands, or lies where a live worker of the pool waits for it, each task as often as it was
taken. -/
def NoTaskLost (config : State Task) : Prop :=
  ∀ pool task, (config.mem.taken pool).count task =
    (config.mem.ran pool).count task + total (beingRun pool task) config.procs +
      total (held pool task) config.procs +
      total (delivered config.mem.channel pool task) config.procs

end Places

/-! ### The hand-off invariant -/

section Handoff

/-- `manageQueue` of one of the pools has a worker waiting on this `futureTask` and owes it a
task. -/
def owing (pools : PoolId → Bool) (ft : FutureTask) : Proc Task → ℕ
  | .manager pool (.select ft') => if pools pool ∧ ft' = ft then 1 else 0
  | .manager pool (.write ft' _) => if pools pool ∧ ft' = ft then 1 else 0
  | _ => 0

/-- A worker of one of the pools waits on this `futureTask`. -/
def waitingOn (pools : PoolId → Bool) (ft : FutureTask) : Proc Task → ℕ
  | .worker pool (.waiting ft') => if pools pool ∧ ft' = ft then 1 else 0
  | _ => 0

/-- The `futureTask` is offered, waited on, or about to be put back. -/
def owning (ft : FutureTask) : Proc Task → ℕ
  | .manager _ (.offer ft') => if ft' = ft then 1 else 0
  | .worker _ (.waiting ft') => if ft' = ft then 1 else 0
  | .worker _ (.received ft' _) => if ft' = ft then 1 else 0
  | _ => 0

/-- **The hand-off invariant**: a `futureTask` has at most one owner, and a new one none; where
`manageQueue` owes a task, a worker of its pool waits; and a full channel counts as a task owed. -/
structure Inv (config : State Task) : Prop where
  owned : ∀ ft, total (owning ft) config.procs + config.mem.futureTaskPool.count ft ≤ 1
  fresh : ∀ ft, config.mem.nextFutureTask ≤ ft →
    total (owning ft) config.procs + config.mem.futureTaskPool.count ft = 0
  owed : ∀ pools ft, total (owing pools ft) config.procs ≤ total (waitingOn pools ft) config.procs
  full : ∀ ft, (config.mem.channel ft).isSome.toNat + total (owing (fun _ => true) ft) config.procs ≤
    total (waitingOn (fun _ => true) ft) config.procs

/-- The runs in which no worker takes a stop signal in its inner select. -/
def NoStopWaiting (_ : State Task) : Event Task → Prop
  | .stopWaiting _ => False
  | _ => True

variable {reads : PoolId → List QueueId} {config next : State Task}
  {event : Event Task}

theorem total_initial (weight : Proc Task → ℕ)
    (zero : ∀ pool, weight (.manager pool .checkPaused) = 0) (pools : List PoolId)
    (paused : PoolId → Bool) : total weight (initial pools paused).procs = 0 := by
  refine total_eq_zero fun proc member => ?_
  simp only [initial, Multiset.mem_coe, List.mem_map] at member
  obtain ⟨pool, _, rfl⟩ := member
  exact zero pool

theorem inv_initial (pools : List PoolId) (paused : PoolId → Bool) :
    Inv (initial pools paused : State Task) := by
  constructor
  · intro ft
    rw [total_initial _ fun _ => rfl]
    exact Nat.zero_le _
  · intro ft _
    rw [total_initial _ fun _ => rfl]
    rfl
  · intro which ft
    rw [total_initial _ fun _ => rfl]
    exact Nat.zero_le _
  · intro ft
    rw [total_initial _ fun _ => rfl]
    exact Nat.zero_le _

theorem owned_step (inv : Inv config) (step : Step (Act reads) config event next) :
    ∀ ft, total (owning ft) next.procs + next.mem.futureTaskPool.count ft ≤ 1 := by
  intro ft
  cases step with
  | @fire _ mem _ _ _ rest fires =>
    have here := inv.owned ft
    cases fires with
    | @getPooled _ pool ft' member =>
      simp only [total_add, total_coe_cons, total_coe_nil, owning, List.count_erase] at here ⊢
      by_cases same : ft' = ft
      · subst same
        have pooled : 0 < mem.futureTaskPool.count ft' := List.count_pos_iff.mpr member
        simp only [beq_self_eq_true, if_true]
        omega
      · simp only [beq_iff_eq, same, if_false]
        omega
    | getNew =>
      have unowned := inv.fresh mem.nextFutureTask le_rfl
      simp only [total_add, total_coe_cons, total_coe_nil, owning] at here unowned ⊢
      by_cases same : mem.nextFutureTask = ft
      · subst same
        simp only [if_true]
        omega
      · simp only [same, if_false]
        omega
    | _ =>
      simp only [total_add, total_coe_cons, total_coe_nil, owning, List.count_cons, beq_iff_eq]
        at here ⊢
      omega

theorem fresh_step (inv : Inv config) (step : Step (Act reads) config event next) :
    ∀ ft, next.mem.nextFutureTask ≤ ft →
      total (owning ft) next.procs + next.mem.futureTaskPool.count ft = 0 := by
  intro ft later
  cases step with
  | @fire _ mem _ _ _ rest fires =>
    have here := inv.fresh ft
    cases fires with
    | @getPooled _ pool ft' member =>
      have absent := here later
      simp only [total_add, total_coe_cons, total_coe_nil, owning, Nat.add_eq_zero_iff] at absent
      have different : ft' ≠ ft := by
        rintro rfl
        exact absurd member (List.count_eq_zero.mp absent.2)
      simp only [total_add, total_coe_cons, total_coe_nil, owning, if_neg different,
        List.count_erase_of_ne (Ne.symm different)]
      omega
    | getNew =>
      have above : mem.nextFutureTask < ft := later
      have absent := here above.le
      simp only [total_add, total_coe_cons, total_coe_nil, owning] at absent ⊢
      rw [if_neg above.ne]
      omega
    | _ =>
      have absent := here later
      simp only [total_add, total_coe_cons, total_coe_nil, owning, List.count_cons, beq_iff_eq]
        at absent ⊢
      omega

theorem waitingOn_le_owning (pools : PoolId → Bool) (ft : FutureTask) (procs : Multiset (Proc Task)) :
    total (waitingOn pools ft) procs ≤ total (owning ft) procs := by
  refine total_le_total (fun proc => ?_) procs
  cases proc with
  | worker pool state =>
    cases state with
    | waiting ft' => exact ite_one_le_ite_one And.right
    | _ => exact Nat.zero_le _
  | _ => exact Nat.zero_le _

theorem owing_le_all (pools : PoolId → Bool) (ft : FutureTask) (procs : Multiset (Proc Task)) :
    total (owing pools ft) procs ≤ total (owing (fun _ => true) ft) procs := by
  refine total_le_total (fun proc => ?_) procs
  cases proc with
  | manager pool state =>
    cases state with
    | select | write => exact ite_one_le_ite_one fun both => ⟨rfl, both.2⟩
    | _ => exact le_rfl
  | _ => exact le_rfl

/-- **A full channel owes nothing more**: its one owner is the worker that reads it. -/
theorem Inv.full_not_owing (inv : Inv config) {ft : FutureTask} {task : Task}
    (full : config.mem.channel ft = some task) (pools : PoolId → Bool) :
    total (owing pools ft) config.procs = 0 := by
  have reader := inv.full ft
  have owner := inv.owned ft
  have among := waitingOn_le_owning (fun _ => true) ft config.procs
  have below := owing_le_all pools ft config.procs
  rw [full] at reader
  simp only [Option.isSome_some, Bool.toNat_true] at reader
  omega

theorem owed_step (inv : Inv config) (ok : NoStopWaiting config event)
    (step : Step (Act reads) config event next) :
    ∀ pools ft, total (owing pools ft) next.procs ≤ total (waitingOn pools ft) next.procs := by
  intro pools ft
  cases step with
  | @fire _ mem _ _ _ rest fires =>
    have here := inv.owed pools ft
    cases fires with
    | stopWaiting => exact ok.elim
    | @receive _ pool ft' task full =>
      have done := inv.full_not_owing full pools
      simp only [total_add, total_coe_cons, total_coe_nil, owing, waitingOn] at here done ⊢
      by_cases same : ft' = ft
      · subst same
        omega
      · simp only [same, and_false, if_false] at here
        omega
    | _ =>
      simp only [total_add, total_coe_cons, total_coe_nil, owing, waitingOn] at here ⊢
      omega

theorem full_step (inv : Inv config) (ok : NoStopWaiting config event)
    (step : Step (Act reads) config event next) :
    ∀ ft, (next.mem.channel ft).isSome.toNat + total (owing (fun _ => true) ft) next.procs ≤
      total (waitingOn (fun _ => true) ft) next.procs := by
  intro ft
  cases step with
  | @fire _ mem _ _ _ rest fires =>
    have here := inv.full ft
    cases fires with
    | stopWaiting => exact ok.elim
    | @receive _ pool ft' task was | @write _ pool ft' task was =>
      simp only [total_add, total_coe_cons, total_coe_nil, owing, waitingOn] at here ⊢
      by_cases same : ft' = ft
      · subst same
        rw [was] at here
        simp only [Function.update_self, Option.isSome_some, Option.isSome_none, Bool.toNat_true,
          Bool.toNat_false, and_true, if_true] at here ⊢
        omega
      · rw [Function.update_of_ne (Ne.symm same)]
        simp only [same, and_false, if_false] at here
        omega
    | _ =>
      simp only [total_add, total_coe_cons, total_coe_nil, owing, waitingOn] at here ⊢
      omega

/-- The pool's own worker is the only reader of a `futureTask` its `manageQueue` owes a task. -/
theorem Inv.readers (inv : Inv config) (ft : FutureTask) (pool other : PoolId)
    (reader : 0 < total (waitingOn (fun p => p = pool) ft) config.procs) :
    total (waitingOn (fun p => p = other) ft) config.procs = if other = pool then 1 else 0 := by
  have owner := inv.owned ft
  by_cases same : other = pool
  · subst same
    have among := waitingOn_le_owning (fun p => p = other) ft config.procs
    rw [if_pos rfl]
    omega
  · have both : total (waitingOn (fun p => p = pool) ft) config.procs +
        total (waitingOn (fun p => p = other) ft) config.procs ≤ total (owning ft) config.procs := by
      rw [← total_eq_add fun _ _ => rfl]
      refine total_le_total (fun proc => ?_) _
      cases proc with
      | worker pool' state =>
        cases state with
        | waiting ft' =>
          by_cases here : ft' = ft
          · by_cases first : pool' = pool
            · simp [waitingOn, owning, here, first, Ne.symm same]
            · simp [waitingOn, owning, here, first]
              split_ifs <;> simp
          · simp [waitingOn, owning, here]
        | _ => exact Nat.zero_le _
      | _ => exact Nat.zero_le _
    rw [if_neg same]
    omega

theorem Inv.offered_empty (inv : Inv config) (pool : PoolId) (ft : FutureTask)
    (offered : Proc.manager pool (.offer ft) ∈ config.procs) : config.mem.channel ft = none := by
  have full := inv.full ft
  have owner := inv.owned ft
  have both : total (waitingOn (fun _ => true) ft) config.procs < total (owning ft) config.procs := by
    obtain ⟨rest, split⟩ := Multiset.exists_cons_of_mem offered
    have among := waitingOn_le_owning (fun _ => true) ft rest
    rw [split, total_cons, total_cons]
    simp only [waitingOn, owning, if_true]
    omega
  cases channel : config.mem.channel ft with
  | none => rfl
  | some task =>
    rw [channel] at full
    simp only [Option.isSome_some, Bool.toNat_true] at full
    omega

theorem inv_step (inv : Inv config) (ok : NoStopWaiting config event)
    (step : Step (Act reads) config event next) : Inv next where
  owned := owned_step inv step
  fresh := fresh_step inv step
  owed := owed_step inv ok step
  full := full_step inv ok step

end Handoff

/-! ### The account of the tasks -/

section Account

variable [DecidableEq Task] {reads : PoolId → List QueueId}
  {config next : State Task} {event : Event Task}

theorem delivered_update {channel : FutureTask → Option Task} {ft : FutureTask}
    (empty : channel ft = none) (pool : PoolId) (written task : Task) (procs : Multiset (Proc Task)) :
    total (delivered (Function.update channel ft (some written)) pool task) procs =
      total (delivered channel pool task) procs +
        if written = task then total (waitingOn (fun other => other = pool) ft) procs else 0 := by
  have split : ∀ proc : Proc Task,
      delivered (Function.update channel ft (some written)) pool task proc =
        delivered channel pool task proc +
          if written = task then waitingOn (fun other => other = pool) ft proc else 0 := by
    intro proc
    cases proc with
    | worker pool' state =>
      cases state with
      | waiting ft' =>
        by_cases here : ft' = ft
        · subst here
          simp [delivered, waitingOn, empty, ← ite_and, and_comm]
        · simp [delivered, waitingOn, here]
      | _ => simp [delivered, waitingOn]
    | _ => simp [delivered, waitingOn]
  rw [total_eq_add fun proc _ => split proc]
  by_cases same : written = task
  · simp only [same, if_true]
  · simp only [same, if_false]
    rw [total_eq_zero fun _ _ => rfl]

theorem count_update_cons (lists : PoolId → List Task) (pool other : PoolId) (task counted : Task) :
    (Function.update lists pool (task :: lists pool) other).count counted =
      (lists other).count counted + if pool = other ∧ task = counted then 1 else 0 := by
  by_cases same : pool = other
  · subst same
    simp [List.count_cons]
  · simp [Function.update_of_ne (Ne.symm same), same]

/-- **Every allowed step keeps the account.** The task moves from upstream to `manageQueue`, from
there to the channel its worker reads, to the worker, and to the record of what was run. -/
theorem noTaskLost_step (inv : Inv config) (ok : NoStopWaiting config event)
    (account : NoTaskLost config) (step : Step (Act reads) config event next) :
    NoTaskLost next := by
  intro pool task
  cases step with
  | @fire _ mem _ _ _ rest fires =>
    have here := account pool task
    cases fires with
    | stopWaiting => exact ok.elim
    | @accept _ pool' ft =>
      have empty := inv.offered_empty pool' ft (by simp)
      simp only [total_add, total_coe_cons, total_coe_nil, beingRun, held, delivered] at here ⊢
      rw [show mem.channel ft = none from empty]
      simp only [reduceCtorEq, and_false, if_false]
      omega
    | select | finish =>
      simp only [total_add, total_coe_cons, total_coe_nil, beingRun, held, delivered,
        count_update_cons] at here ⊢
      omega
    | @write _ pool' ft written empty =>
      have owed := inv.owed (fun p => p = pool') ft
      have readers := inv.readers ft pool' pool
      simp only [total_add, total_coe_cons, total_coe_nil, owing, waitingOn, beingRun, held,
        delivered, delivered_update empty, decide_true, and_self, if_true] at here owed readers ⊢
      rw [Nat.zero_add, readers (by omega)]
      by_cases mine : pool = pool'
      · simp only [mine, true_and, if_true] at here ⊢
        omega
      · simp only [mine, Ne.symm mine, false_and, if_false, ite_self] at here ⊢
        omega
    | @receive _ pool' ft read full =>
      -- seen backwards, the channel before is the channel after with the task written on it
      have before : mem.channel = Function.update (Function.update mem.channel ft none) ft
          (some read) := by
        rw [Function.update_idem, ← full, Function.update_eq_self]
      have readers := inv.readers ft pool' pool
      rw [before] at here
      simp only [delivered_update (Function.update_self ft none mem.channel), total_add,
        total_coe_cons, total_coe_nil, beingRun, held, delivered, waitingOn, Function.update_self,
        reduceCtorEq, and_false, if_false, decide_true, and_self, if_true] at here readers ⊢
      rw [readers (by omega)] at here
      by_cases mine : pool = pool'
      · simp only [mine, true_and, if_true] at here ⊢
        omega
      · simp only [mine, Ne.symm mine, false_and, if_false, ite_self] at here ⊢
        omega
    | _ =>
      simp only [total_add, total_coe_cons, total_coe_nil, beingRun, held, delivered] at here ⊢
      omega

theorem noTaskLost_initial (pools : List PoolId) (paused : PoolId → Bool) :
    NoTaskLost (initial pools paused : State Task) := by
  intro pool task
  rw [total_initial _ fun _ => rfl, total_initial _ fun _ => rfl, total_initial _ fun _ => rfl]
  rfl

/-- **The pool loses no task unless a waiting worker is stopped.** -/
theorem noTaskLost_of_no_stopWaiting (pools : List PoolId) (paused : PoolId → Bool)
    (reach : Reach (Act reads) NoStopWaiting (initial pools paused) config) : NoTaskLost config := by
  have both : Inv config ∧ NoTaskLost config := by
    refine reach.invariant (fun config => Inv config ∧ NoTaskLost config) ⟨inv_initial pools paused, noTaskLost_initial pools paused⟩ ?_
    rintro config event next ⟨inv, account⟩ ok step
    exact ⟨inv_step inv ok step, noTaskLost_step inv ok account step⟩
  exact both.2

end Account

/-! ### A stop in the inner select -/

section Stop

/-- One pool on one channel, as `NewQueuedExecutor` builds it. -/
def oneQueue : PoolId → List QueueId := fun _ => [0]

/-- A run of the pool up to a worker that has accepted a `futureTask` while a task is queued and a
second `Resize` is about to stop one worker. -/
theorem waiting_and_stopping (allowed : State GoString → Event GoString → Prop)
    (ok : ∀ config event, (∀ pool, event ≠ .stopWaiting pool) → allowed config event) :
    ∃ mem, Reach (Act oneQueue) allowed (initial [0] fun _ => false)
        (.ofList mem [.resize 0 (.stopping 1), .manager 0 (.select 0), .worker 0 (.waiting 0)]) ∧
      mem.upstream 0 = [bytes "task"] ∧ mem.channel 0 = none ∧ mem.taken 0 = [] ∧
      mem.ran 0 = [] := by
  have h0 : Reach (Act oneQueue) allowed (initial [0] fun _ => false)
      (.ofList (initial [0] fun _ => false : State GoString).mem [.manager 0 .checkPaused]) := .start
  have h1 := h0.next [] [.manager 0 .checkPaused] (.call 0 1) (ok _ _ (by simp)) (by decide)
  have h2 := h1.next [.resize 0 (.called 1)] [.manager 0 .checkPaused] (.lock rfl)
    (ok _ _ (by simp)) (by decide)
  have h3 := h2.next [.resize 0 (.locked 1)] [.manager 0 .checkPaused] (.grow (by decide))
    (ok _ _ (by simp)) (by decide)
  have h4 := h3.next [.resize 0 (.growing 1)] [.manager 0 .checkPaused] (.spawn (by decide))
    (ok _ _ (by simp)) (by decide)
  have h5 := h4.next [.resize 0 (.growing 1)] [.worker 0 .idle, .manager 0 .checkPaused]
    (.grown (by decide)) (ok _ _ (by simp)) (by decide)
  have h6 := h5.next [.manager 0 .checkPaused] [.worker 0 .idle] (.checkPaused rfl)
    (ok _ _ (by simp)) (by decide)
  have h7 := h6.next [.manager 0 .get] [.worker 0 .idle] .getNew (ok _ _ (by simp)) (by decide)
  have h8 := h7.next [.manager 0 (.offer 0), .worker 0 .idle] [] .accept (ok _ _ (by simp))
    (by decide)
  have h9 := h8.next [] [.manager 0 (.select 0), .worker 0 (.waiting 0)]
    (.arrive 0 (bytes "task") rfl) (ok _ _ (by simp)) (by decide)
  have h10 := h9.next [] [.manager 0 (.select 0), .worker 0 (.waiting 0)] (.call 0 0)
    (ok _ _ (by simp)) (by decide)
  have h11 := h10.next [.resize 0 (.called 0)] [.manager 0 (.select 0), .worker 0 (.waiting 0)]
    (.lock rfl) (ok _ _ (by simp)) (by decide)
  have h12 := h11.next [.resize 0 (.locked 0)] [.manager 0 (.select 0), .worker 0 (.waiting 0)]
    (.shrink (by decide) (by decide)) (ok _ _ (by simp)) (by decide)
  exact ⟨_, h12, rfl, rfl, rfl, rfl⟩

/-- **A waiting worker is stopped and its task is lost**: the worker is gone, `manageQueue` takes the
task and writes it on a channel nobody reads. -/
theorem stopWaiting_loses_task :
    ∃ config : State GoString,
      Reach (Act oneQueue) (fun _ _ => True) (initial [0] fun _ => false) config ∧
        ¬ NoTaskLost config := by
  obtain ⟨mem, h0, queued, empty, taken, ran⟩ := waiting_and_stopping (fun _ _ => True)
    fun _ _ _ => trivial
  have h1 := h0.next [.worker 0 (.waiting 0), .resize 0 (.stopping 1)] [.manager 0 (.select 0)]
    .stopWaiting trivial (by decide)
  have h2 := h1.next [.manager 0 (.select 0)] [.worker 0 .returned, .resize 0 (.stopping 0)]
    (.select (List.mem_singleton.mpr rfl) queued) trivial (by decide)
  have h3 := h2.next [.manager 0 (.write 0 (bytes "task"))]
    [.worker 0 .returned, .resize 0 (.stopping 0)] (.write empty) trivial (by decide)
  refine ⟨_, h3, fun account => ?_⟩
  have count := account 0 (bytes "task")
  simp [Config.ofList, beingRun, held, delivered, taken, ran] at count

/-- The same hand-off without the stop: the task is taken, and the account holds. -/
theorem noTaskLost_select :
    ∃ config : State GoString,
      Reach (Act oneQueue) NoStopWaiting (initial [0] fun _ => false) config ∧
        config.mem.taken 0 = [bytes "task"] ∧ NoTaskLost config := by
  obtain ⟨mem, h0, queued, empty, taken, ran⟩ := waiting_and_stopping NoStopWaiting
    fun _ event other => by cases event <;> simp_all [NoStopWaiting]
  have h1 := h0.next [.manager 0 (.select 0)] [.resize 0 (.stopping 1), .worker 0 (.waiting 0)]
    (.select (List.mem_singleton.mpr rfl) queued) (by simp [NoStopWaiting]) (by decide)
  refine ⟨_, h1, by simp [Config.ofList, taken], noTaskLost_of_no_stopWaiting _ _ h1⟩

end Stop

end Kubecc.Run
