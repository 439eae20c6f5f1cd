/-
**Pausing and resizing a worker pool.**

`Pause`, `Resume` and `Resize` of `pkg/run/workerpool.go`, over the steps of `Run.WorkerPool`.

* `pausedTakesNothing_of_pausesAtTop` — in every run in which each `Pause` finds `manageQueue` of its
  pool not yet past `CheckPaused`, or past its `Select`, a paused pool takes no task.
* `paused_remote_takes_task` — the remote pool of a split queue is paused while `manageQueue` is blocked
  on the upstream queue, and takes the next task that arrives there.
* `resized_of_decidesSettled` — in every run in which each `Resize` reads the number of workers while
  no worker that took a stop signal is still counted, `Resize` waits only for workers that can still
  take a stop signal, and a pool at rest has the size last asked for.
* `resize_counts_stopped_worker` — two calls `Resize(0)` in a row: the second one counts the worker the
  first one stopped, and waits for it.
-/

import Kubecc.Run.WorkerPool

namespace Kubecc.Run

open Kubecc.Lib Kubecc.Go

variable {Task : Type} {reads : PoolId → List QueueId}

/-! ### Pausing -/

section Pausing

variable {config next : State Task} {event : Event Task}

/-- `manageQueue` of the pool is past `CheckPaused` and has not taken a task yet. -/
def PastCheck (pool : PoolId) : Proc Task → Prop
  | .manager pool' .get => pool' = pool
  | .manager pool' (.offer _) => pool' = pool
  | .manager pool' (.select _) => pool' = pool
  | _ => False

/-- **A paused pool takes no work**: no step removes a task from upstream for a pool that is paused. -/
def PausedTakesNothing (reads : PoolId → List QueueId) (config : State Task) : Prop :=
  ∀ pool, config.mem.paused pool = true → ∀ event next, Step (Act reads) config event next →
    next.mem.taken pool = config.mem.taken pool

/-- The runs in which `Pause` is called only while `manageQueue` of the pool is not past its test of
the flag. -/
def PausesAtTop (config : State Task) : Event Task → Prop
  | .pause pool => ∀ proc ∈ config.procs, ¬ PastCheck pool proc
  | _ => True

/-- `manageQueue` of a paused pool is at its test of the flag, or does not come back to `Select` before
it. -/
def PausedAtTop (config : State Task) : Prop :=
  ∀ pool, config.mem.paused pool = true → ∀ proc ∈ config.procs, ¬ PastCheck pool proc

theorem pausedAtTop_initial (pools : List PoolId) (paused : PoolId → Bool) :
    PausedAtTop (initial pools paused : State Task) := by
  intro pool _ proc member
  simp only [initial, Multiset.mem_coe, List.mem_map] at member
  obtain ⟨pool', _, rfl⟩ := member
  exact id

theorem pausedAtTop_step (top : PausedAtTop config) (ok : PausesAtTop config event)
    (step : Step (Act reads) config event next) : PausedAtTop next := by
  intro pool isPaused
  cases step with
  | @fire _ mem _ _ _ rest fires =>
    cases fires with
    | pause pool' =>
      by_cases same : pool = pool'
      · exact same ▸ ok
      · exact top pool ((Function.update_of_ne same _ _).symm.trans isPaused)
    | resume pool' =>
      by_cases same : pool = pool'
      · subst same
        exact absurd ((Function.update_self _ _ _).symm.trans isPaused) Bool.false_ne_true
      · exact top pool ((Function.update_of_ne same _ _).symm.trans isPaused)
    | @checkPaused _ pool' running =>
      refine forall_mem_fire (top pool isPaused) (fun _ => ?_) fun _ _ => id
      rw [List.forall_mem_singleton]
      rintro (rfl : pool' = pool)
      exact Bool.false_ne_true (running.symm.trans isPaused)
    | _ =>
      refine forall_mem_fire (top pool isPaused) ?_ fun _ _ => id
      simp [PastCheck]

theorem taken_eq_of_not_pastCheck {pool : PoolId} (top : ∀ proc ∈ config.procs, ¬ PastCheck pool proc)
    (step : Step (Act reads) config event next) : next.mem.taken pool = config.mem.taken pool := by
  cases step with
  | fire rest fires =>
    cases fires with
    | @select _ pool' ft queue task tasks reads queued =>
      have other : pool' ≠ pool := top _ mem_acting
      exact Function.update_of_ne (Ne.symm other) _ _
    | _ => rfl

/-- **A paused pool takes no task, if no `Pause` comes while `manageQueue` is past its test.** -/
theorem pausedTakesNothing_of_pausesAtTop (pools : List PoolId) (paused : PoolId → Bool)
    (reach : Reach (Act reads) PausesAtTop (initial pools paused) config) :
    PausedTakesNothing reads config := by
  have top : PausedAtTop config :=
    reach.invariant PausedAtTop (pausedAtTop_initial pools paused) fun top ok step =>
      pausedAtTop_step top ok step
  intro pool isPaused event next step
  exact taken_eq_of_not_pastCheck (top pool isPaused) step

/-- The queues of `NewSplitQueue`: pool 0 is `localWorkers`, which reads the shared queue 0 and the
local queue 1; the others are `remoteWorkers`, which read the shared queue and the remote queue 2. -/
def splitQueue : PoolId → List QueueId
  | 0 => [0, 1]
  | _ => [0, 2]

def splitPools : State GoString := initial [0, 1] fun pool => pool == 1

theorem arrived {upstream : QueueId → List Task} {queue : QueueId} {task : Task}
    (empty : upstream queue = []) :
    Function.update upstream queue (upstream queue ++ [task]) queue = task :: [] := by
  rw [Function.update_self, empty]
  rfl

/-- A run of the split queue up to a remote worker that has accepted a `futureTask`, while
`manageQueue` of the remote pool waits for a task from upstream. -/
theorem remote_selecting (allowed : State GoString → Event GoString → Prop)
    (ok : ∀ config event, (∀ pool, event ≠ .pause pool) → allowed config event) :
    ∃ mem, Reach (Act splitQueue) allowed splitPools
        (.ofList mem [.manager 1 (.select 0), .worker 1 (.waiting 0), .manager 0 .checkPaused]) ∧
      (∀ queue, mem.upstream queue = [] ∧ mem.closed queue = false) ∧
      (∀ pool, mem.paused pool = false) ∧ mem.taken 1 = [] ∧ ∀ ft, mem.channel ft = none := by
  have h0 : Reach (Act splitQueue) allowed splitPools
      (.ofList splitPools.mem [.manager 0 .checkPaused, .manager 1 .checkPaused]) := .start
  have h1 := h0.next [] [.manager 0 .checkPaused, .manager 1 .checkPaused] (.resume 1)
    (ok _ _ (by simp)) (by decide)
  have h2 := h1.next [] [.manager 0 .checkPaused, .manager 1 .checkPaused] (.call 1 1)
    (ok _ _ (by simp)) (by decide)
  have h3 := h2.next [.resize 1 (.called 1)] [.manager 0 .checkPaused, .manager 1 .checkPaused]
    (.lock rfl) (ok _ _ (by simp)) (by decide)
  have h4 := h3.next [.resize 1 (.locked 1)] [.manager 0 .checkPaused, .manager 1 .checkPaused]
    (.grow (by decide)) (ok _ _ (by simp)) (by decide)
  have h5 := h4.next [.resize 1 (.growing 1)] [.manager 0 .checkPaused, .manager 1 .checkPaused]
    (.spawn (by decide)) (ok _ _ (by simp)) (by decide)
  have h6 := h5.next [.resize 1 (.growing 1)]
    [.worker 1 .idle, .manager 0 .checkPaused, .manager 1 .checkPaused] (.grown (by decide))
    (ok _ _ (by simp)) (by decide)
  have h7 := h6.next [.manager 1 .checkPaused] [.worker 1 .idle, .manager 0 .checkPaused]
    (.checkPaused rfl) (ok _ _ (by simp)) (by decide)
  have h8 := h7.next [.manager 1 .get] [.worker 1 .idle, .manager 0 .checkPaused] .getNew
    (ok _ _ (by simp)) (by decide)
  have h9 := h8.next [.manager 1 (.offer 0), .worker 1 .idle] [.manager 0 .checkPaused] .accept
    (ok _ _ (by simp)) (by decide)
  refine ⟨_, h9, fun _ => ⟨rfl, rfl⟩, fun pool => ?_, rfl, fun _ => rfl⟩
  by_cases remote : pool = 1
  · exact remote ▸ Function.update_self _ _ _
  · exact (Function.update_of_ne remote _ _).trans (beq_eq_false_iff_ne.mpr remote)

/-- **A paused remote pool takes a task**: the handler pauses it while `manageQueue` is blocked in
`Select`, and the next task on the shared queue is taken by it. -/
theorem paused_remote_takes_task :
    ∃ config : State GoString, Reach (Act splitQueue) (fun _ _ => True) splitPools config ∧
      ¬ PausedTakesNothing splitQueue config := by
  obtain ⟨mem, h0, empty, _, taken, _⟩ := remote_selecting (fun _ _ => True) fun _ _ _ => trivial
  have h1 := h0.next [] [.manager 1 (.select 0), .worker 1 (.waiting 0), .manager 0 .checkPaused]
    (.pause 1) trivial (by decide)
  have h2 := h1.next [] [.manager 1 (.select 0), .worker 1 (.waiting 0), .manager 0 .checkPaused]
    (.arrive 0 (bytes "task") (empty 0).2) trivial (by decide)
  refine ⟨_, h2, fun nothing => ?_⟩
  have isPaused : Function.update mem.paused 1 true 1 = true := Function.update_self _ _ _
  have unchanged := nothing 1 isPaused _ _
    (.ofList [.manager 1 (.select 0)] [.worker 1 (.waiting 0), .manager 0 .checkPaused]
      (.select List.mem_cons_self (arrived (empty 0).1)) (by decide))
  simp [Config.ofList] at unchanged

/-- A `Pause` that comes when `manageQueue` is back at its test of the flag: the task that arrives
then stays where it is. -/
theorem paused_remote_leaves_task :
    ∃ config : State GoString, Reach (Act splitQueue) PausesAtTop splitPools config ∧
      config.mem.paused 1 = true ∧ config.mem.upstream 0 = [bytes "second"] ∧
      PausedTakesNothing splitQueue config := by
  obtain ⟨mem, h0, empty, _, _, channel⟩ := remote_selecting PausesAtTop fun _ event other => by
    cases event <;> simp_all [PausesAtTop]
  have h1 := h0.next [] [.manager 1 (.select 0), .worker 1 (.waiting 0), .manager 0 .checkPaused]
    (.arrive 0 (bytes "first") (empty 0).2) trivial (by decide)
  have h2 := h1.next [.manager 1 (.select 0)] [.worker 1 (.waiting 0), .manager 0 .checkPaused]
    (.select List.mem_cons_self (arrived (empty 0).1)) trivial (by decide)
  have h3 := h2.next [.manager 1 (.write 0 (bytes "first"))]
    [.worker 1 (.waiting 0), .manager 0 .checkPaused] (.write (channel 0)) trivial (by decide)
  have h4 := h3.next [] [.manager 1 .checkPaused, .worker 1 (.waiting 0), .manager 0 .checkPaused]
    (.pause 1) (by simp [PausesAtTop, PastCheck, Config.ofList]) (by decide)
  have h5 := h4.next [] [.manager 1 .checkPaused, .worker 1 (.waiting 0), .manager 0 .checkPaused]
    (.arrive 0 (bytes "second") (empty 0).2) trivial (by decide)
  refine ⟨_, h5, ?_, ?_, pausedTakesNothing_of_pausesAtTop _ _ h5⟩
  · simp [Config.ofList]
  · simp [Config.ofList]

end Pausing

/-! ### The size of one pool -/

/-- What `Resize` reads and writes of one pool, and the count of the call that got the lock last. -/
structure Gauge where
  workers : ℕ
  locked : Bool
  last : Int

/-- What is left of the goroutines of one pool: the workers that have not taken a stop signal, those
that have and are still in the set, and the `Resize` calls. -/
inductive Part
  | live
  | leaving
  | resize (state : Resize)
deriving DecidableEq

/-- The steps that are told apart: a call, and the branch that `Resize` takes on the number of
workers. -/
inductive Move
  | call (count : Int)
  | decide
  | other

/-- **The steps of one pool, as far as its size goes.** -/
inductive Sizing : Rules Gauge Part Move
  | call {mem} (count : Int) : Sizing (.call count) mem [] mem [.resize (.called count)]
  | lock {mem} {count : Int} : mem.locked = false →
      Sizing .other mem [.resize (.called count)] { mem with locked := true, last := count }
        [.resize (.locked count)]
  | grow {mem} {count : Int} : mem.workers < count →
      Sizing .decide mem [.resize (.locked count)] mem [.resize (.growing count)]
  | shrink {mem} {count : Int} : count < mem.workers → 0 ≤ count →
      Sizing .decide mem [.resize (.locked count)] mem
        [.resize (.stopping (mem.workers - count.toNat))]
  | keep {mem} {count : Int} : ¬ mem.workers < count → ¬ (count < mem.workers ∧ 0 ≤ count) →
      Sizing .decide mem [.resize (.locked count)] { mem with locked := false } []
  | spawn {mem} {count : Int} : (mem.workers : Int) ≠ count →
      Sizing .other mem [.resize (.growing count)] { mem with workers := mem.workers + 1 }
        [.resize (.growing count), .live]
  | grown {mem} {count : Int} : (mem.workers : Int) = count →
      Sizing .other mem [.resize (.growing count)] { mem with locked := false } []
  | stop {mem} {left : ℕ} :
      Sizing .other mem [.live, .resize (.stopping (left + 1))] mem
        [.leaving, .resize (.stopping left)]
  | stopped {mem} :
      Sizing .other mem [.resize (.stopping 0)] { mem with locked := false } []
  | remove {mem} : Sizing .other mem [.leaving] { mem with workers := mem.workers - 1 } []

/-- The calls have counts that are not negative, and the number of workers is read while no worker
that took a stop signal is still in the set. -/
def ReadsExact (config : Config Gauge Part) : Move → Prop
  | .call count => 0 ≤ count
  | .decide => Part.leaving ∉ config.procs
  | .other => True

def holding : Part → ℕ
  | .resize (.called _) => 0
  | .resize _ => 1
  | _ => 0

/-- What holds while a `Resize` call stands where it does. -/
def Standing (config : Config Gauge Part) : Part → Prop
  | .resize (.called count) => 0 ≤ count
  | .resize (.locked count) => config.mem.last = count
  | .resize (.growing count) => config.mem.last = count ∧ config.procs.count .leaving = 0 ∧
      (config.mem.workers : Int) ≤ count
  | .resize (.stopping left) => (config.procs.count .live : Int) = config.mem.last + left
  | _ => True

/-- **The size invariant**: the set has the workers that have not left it, one call at most has the
lock, and while none has it as many workers are live as the last call asked for. -/
structure Exact (config : Config Gauge Part) : Prop where
  counted : config.mem.workers = config.procs.count .live + config.procs.count .leaving
  held : total holding config.procs = config.mem.locked.toNat
  nonneg : 0 ≤ config.mem.last
  free : config.mem.locked = false → (config.procs.count .live : Int) = config.mem.last
  standing : ∀ part ∈ config.procs, Standing config part

section Sizes

variable {config next : Config Gauge Part} {move : Move}

theorem standing_of_not_holding {before after : Config Gauge Part} {rest : Multiset Part}
    (alone : total holding rest = 0) : ∀ part ∈ rest, Standing before part → Standing after part := by
  intro part member standing
  have weightless : holding part ≤ 0 := alone ▸ weight_le_total member
  cases part with
  | live => trivial
  | leaving => trivial
  | resize state =>
    cases state with
    | called count => exact standing
    | locked | growing | stopping => exact absurd weightless (Nat.not_succ_le_zero 0)

theorem standing_of_le {before after : Config Gauge Part} {part : Part}
    (standing : Standing before part) (last : after.mem.last = before.mem.last)
    (live : after.procs.count .live = before.procs.count .live)
    (leaving : after.procs.count .leaving ≤ before.procs.count .leaving)
    (workers : after.mem.workers ≤ before.mem.workers) : Standing after part := by
  cases part with
  | live => trivial
  | leaving => trivial
  | resize state =>
    cases state with
    | called count => exact standing
    | locked count => exact last.trans standing
    | growing count =>
      obtain ⟨asked, none, le⟩ := standing
      exact ⟨last.trans asked, by omega, by omega⟩
    | stopping left =>
      show (_ : Int) = _
      rw [last, live]
      exact standing

theorem holding_alone {locked : Bool} {acting : List Part} {rest : Multiset Part}
    (held : total holding (↑acting + rest) = locked.toNat) (one : total holding ↑acting = 1) :
    locked = true ∧ total holding rest = 0 := by
  rw [total_add, one] at held
  cases locked with
  | false => simp at held
  | true => exact ⟨rfl, by simpa using held⟩

/-- **The size invariant is kept**: a call that has the lock is the only one whose standing depends on
the workers. -/
theorem exact_step (inv : Exact config) (ok : ReadsExact config move)
    (step : Step Sizing config move next) : Exact next := by
  obtain ⟨counted, held, nonneg, free, standing⟩ := inv
  cases step with
  | @fire _ mem _ _ _ rest fires =>
    have nonneg : 0 ≤ mem.last := nonneg
    cases fires with
    | call count =>
      refine ⟨by simpa using counted, by simpa [holding] using held, nonneg, by simpa using free, ?_⟩
      refine forall_mem_fire standing (fun _ => List.forall_mem_singleton.mpr ok) fun part _ here => ?_
      exact standing_of_le here rfl (by simp) (by simp) le_rfl
    | @lock _ count unlocked =>
      have asked : 0 ≤ count := standing _ mem_acting
      have alone : total holding rest = 0 := by simpa [holding, unlocked] using held
      refine ⟨by simpa using counted, by simp [holding, alone], asked, nofun, ?_⟩
      exact forall_mem_fire standing (fun _ => List.forall_mem_singleton.mpr rfl)
        (standing_of_not_holding alone)
    | @grow _ count less =>
      have asked : mem.last = count := standing _ mem_acting
      have none : rest.count .leaving = 0 :=
        Multiset.count_eq_zero.mpr fun member => ok (mem_of_rest member)
      refine ⟨by simpa using counted, by simpa [holding] using held, nonneg, by simpa using free, ?_⟩
      refine forall_mem_fire standing (fun _ => List.forall_mem_singleton.mpr ?_)
        (standing_of_not_holding (holding_alone held rfl).2)
      exact ⟨asked, by simpa using none, less.le⟩
    | @shrink _ count less positive =>
      have asked : mem.last = count := standing _ mem_acting
      have none : rest.count .leaving = 0 :=
        Multiset.count_eq_zero.mpr fun member => ok (mem_of_rest member)
      have workers : mem.workers = rest.count .live := by simpa [none] using counted
      refine ⟨by simpa using counted, by simpa [holding] using held, nonneg, by simpa using free, ?_⟩
      refine forall_mem_fire standing (fun _ => List.forall_mem_singleton.mpr ?_)
        (standing_of_not_holding (holding_alone held rfl).2)
      simp only [Standing, Multiset.count_add, Multiset.coe_count, List.count_singleton, beq_iff_eq,
        reduceCtorEq, if_false]
      omega
    | @keep _ count notLess notMore =>
      have asked : mem.last = count := standing _ mem_acting
      have none : rest.count .leaving = 0 :=
        Multiset.count_eq_zero.mpr fun member => ok (mem_of_rest member)
      have workers : mem.workers = rest.count .live := by simpa [none] using counted
      have alone := (holding_alone held rfl).2
      refine ⟨by simpa using counted, by simpa using alone, nonneg, fun _ => ?_, ?_⟩
      · simp only [Multiset.coe_nil, zero_add]
        omega
      · exact forall_mem_fire standing (fun _ => List.forall_mem_nil _) (standing_of_not_holding alone)
    | @spawn _ count different =>
      obtain ⟨asked, none, le⟩ : mem.last = count ∧ _ ∧ (mem.workers : Int) ≤ count :=
        standing _ mem_acting
      obtain ⟨locked, alone⟩ := holding_alone held rfl
      simp only [Multiset.count_add, Multiset.coe_count, List.count_singleton, beq_iff_eq,
        reduceCtorEq, if_false] at none
      refine ⟨?_, by simpa [holding] using held, nonneg, fun unlocked => ?_, ?_⟩
      · simp at counted ⊢
        omega
      · exact absurd (unlocked.symm.trans locked) Bool.false_ne_true
      · refine forall_mem_fire standing (fun _ => List.forall_mem_cons.mpr ⟨⟨asked, ?_, ?_⟩, ?_⟩)
          (standing_of_not_holding alone)
        · simpa using none
        · push_cast
          omega
        · exact List.forall_mem_singleton.mpr trivial
    | @grown _ count reached =>
      obtain ⟨asked, none, le⟩ : mem.last = count ∧ _ ∧ (mem.workers : Int) ≤ count :=
        standing _ mem_acting
      have alone := (holding_alone held rfl).2
      refine ⟨by simpa using counted, by simpa using alone, nonneg, fun _ => ?_, ?_⟩
      · have workers : mem.workers = _ := counted
        simp only [Multiset.count_add, Multiset.coe_count, List.count_singleton, beq_iff_eq,
          reduceCtorEq, if_false, Multiset.coe_nil, zero_add] at workers none ⊢
        omega
      · exact forall_mem_fire standing (fun _ => List.forall_mem_nil _) (standing_of_not_holding alone)
    | @stop _ left =>
      have waiting : Standing _ (.resize (.stopping (left + 1))) := standing _ (by simp)
      obtain ⟨locked, alone⟩ := holding_alone held rfl
      refine ⟨?_, by simpa [holding] using held, nonneg, fun unlocked => ?_, ?_⟩
      · simp at counted ⊢
        omega
      · exact absurd (unlocked.symm.trans locked) Bool.false_ne_true
      · refine forall_mem_fire standing (fun _ => List.forall_mem_cons.mpr ⟨trivial, ?_⟩)
          (standing_of_not_holding alone)
        refine List.forall_mem_singleton.mpr ?_
        simp [Standing] at waiting ⊢
        omega
    | stopped =>
      have waiting : Standing _ (.resize (.stopping 0)) := standing _ mem_acting
      have alone := (holding_alone held rfl).2
      refine ⟨by simpa using counted, by simpa using alone, nonneg, fun _ => ?_, ?_⟩
      · simpa [Standing] using waiting
      · exact forall_mem_fire standing (fun _ => List.forall_mem_nil _) (standing_of_not_holding alone)
    | remove =>
      refine ⟨?_, by simpa [holding] using held, nonneg, by simpa using free, ?_⟩
      · simp at counted ⊢
        omega
      · refine forall_mem_fire standing (fun _ => List.forall_mem_nil _) fun part _ here => ?_
        exact standing_of_le here rfl (by simp) (by simp) (Nat.sub_le _ _)

end Sizes

/-! ### Resizing -/

/-- What a goroutine is for the size of this pool. -/
def part (pool : PoolId) : Proc Task → Option Part
  | .worker pool' .returned => if pool' = pool then some .leaving else none
  | .worker pool' _ => if pool' = pool then some .live else none
  | .resize pool' state => if pool' = pool then some (.resize state) else none
  | .manager _ _ => none

/-- The workers of the pool that have not taken a stop signal. -/
def liveWorkers (pool : PoolId) (procs : Multiset (Proc Task)) : ℕ :=
  (procs.filterMap (part pool)).count .live

def size (mem : Mem Task) (pool : PoolId) : Int := mem.workers pool

/-- The memory, and for each pool the count of the `Resize` call that got `workerLock` last. -/
structure Tracked (Task : Type) where
  mem : Mem Task
  last : PoolId → Int

/-- The counts last asked for, after these processes have acted: a call that acts gets the lock. -/
def track (last : PoolId → Int) : List (Proc Task) → PoolId → Int
  | [.resize pool (.called count)] => Function.update last pool count
  | _ => last

/-- **The steps of the pools, with the counts last asked for.** The label also has the processes that
act. -/
inductive TrackedAct (reads : PoolId → List QueueId) :
    Rules (Tracked Task) (Proc Task) (Event Task × List (Proc Task))
  | act {event : Event Task} {mem mem' : Mem Task} {acting left : List (Proc Task)}
      {last : PoolId → Int} : Act reads event mem acting mem' left →
      TrackedAct reads (event, acting) ⟨mem, last⟩ acting ⟨mem', track last acting⟩ left

/-- A state of the pools, with the counts last asked for. -/
abbrev TrackedState (Task : Type) := Config (Tracked Task) (Proc Task)

/-- The pools just made: they have no worker, as after `Resize(0)`. -/
def trackedInitial (pools : List PoolId) (paused : PoolId → Bool) : TrackedState Task :=
  ⟨⟨(initial pools paused).mem, fun _ => 0⟩, (initial pools paused).procs⟩

def NonnegCounts : Event Task → Prop
  | .resize _ count => 0 ≤ count
  | _ => True

/-- A `Resize` that is about to read the number of workers finds no worker of the pool that has taken
a stop signal and is still in the set. -/
def DecidesSettled (config : TrackedState Task) (acting : List (Proc Task)) : Prop :=
  ∀ pool count, .resize pool (.locked count) ∈ acting → .worker pool .returned ∉ config.procs

/-- No `Resize` of the pool is in progress, and no worker of it is on its way out. -/
def AtRest (pool : PoolId) (procs : Multiset (Proc Task)) : Prop :=
  (∀ state, .resize pool state ∉ procs) ∧ .worker pool .returned ∉ procs

/-- **`Resize` reaches its target**: it waits for no more stop signals to be taken than there are
workers that have not taken one, and a pool at rest has as many workers as were last asked for. -/
structure Resized (config : TrackedState Task) : Prop where
  served : ∀ pool left, .resize pool (.stopping left) ∈ config.procs →
    left ≤ liveWorkers pool config.procs
  reached : ∀ pool, AtRest pool config.procs →
    (liveWorkers pool config.procs : Int) = config.mem.last pool ∧
      size config.mem.mem pool = config.mem.last pool

section Resizing

variable {config : TrackedState Task}

theorem eq_returned {pool : PoolId} {proc : Proc Task} (is : part pool proc = some .leaving) :
    proc = .worker pool .returned := by
  cases proc with
  | manager pool' state => exact absurd is nofun
  | resize pool' state => simp [part] at is
  | worker pool' state => cases state <;> simp_all [part]

theorem eq_resize {pool : PoolId} {proc : Proc Task} {state : Resize}
    (is : part pool proc = some (.resize state)) : proc = .resize pool state := by
  cases proc with
  | manager pool' state => exact absurd is nofun
  | resize pool' state => simp_all [part]
  | worker pool' state => cases state <;> simp [part] at is

/-- What of the memory the size of the pool depends on. -/
def gauge (pool : PoolId) (tracked : Tracked Task) : Gauge :=
  ⟨tracked.mem.workers pool, tracked.mem.workerLock pool, tracked.last pool⟩

/-- The step does not show in the size of the pool. -/
def Unseen (pool : PoolId) (mem mem' : Mem Task) (last : PoolId → Int) (acting left : List (Proc Task)) :
    Prop :=
  gauge pool ⟨mem', track last acting⟩ = gauge pool ⟨mem, last⟩ ∧
    left.filterMap (part pool) = acting.filterMap (part pool)

/-- Who makes the move: a new call of `Resize`, or one that is about to read the number of workers. -/
def MadeBy (pool : PoolId) (event : Event Task) (acting : List (Proc Task)) : Move → Prop
  | .call count => event = .resize pool count
  | .decide => ∃ count, .resize pool (.locked count) ∈ acting
  | .other => True

/-- **A step of the pools is a step of the size of one pool at most**, and leaves the others alone. -/
theorem sizing_of_one {event : Event Task} {mem mem' : Mem Task} {acting left : List (Proc Task)}
    {last : PoolId → Int} (fires : Act reads event mem acting mem' left) :
    (∀ pool, Unseen pool mem mem' last acting left) ∨
      ∃ pool move, (∀ other, pool ≠ other → Unseen other mem mem' last acting left) ∧
        MadeBy pool event acting move ∧
        Sizing move (gauge pool ⟨mem, last⟩) (acting.filterMap (part pool))
          (gauge pool ⟨mem', track last acting⟩) (left.filterMap (part pool)) := by
  cases fires with
  | call pool count =>
    refine .inr ⟨pool, .call count, fun other differs => ?_, rfl, ?_⟩
    · exact ⟨by simp [gauge, track], by simp [part, differs]⟩
    · simpa [part, gauge, track] using Sizing.call count
  | @lock _ pool count unlocked =>
    refine .inr ⟨pool, .other, fun other differs => ?_, trivial, ?_⟩
    · exact ⟨by simp [gauge, track, differs.symm], by simp [part, differs]⟩
    · simpa [part, gauge, track] using @Sizing.lock (gauge pool ⟨mem, last⟩) count unlocked
  | @grow _ pool count less =>
    refine .inr ⟨pool, .decide, fun other differs => ?_, ⟨count, List.mem_cons_self⟩, ?_⟩
    · exact ⟨by simp [gauge, track], by simp [part, differs]⟩
    · simpa [part, gauge, track] using @Sizing.grow (gauge pool ⟨mem, last⟩) count less
  | @shrink _ pool count less positive =>
    refine .inr ⟨pool, .decide, fun other differs => ?_, ⟨count, List.mem_cons_self⟩, ?_⟩
    · exact ⟨by simp [gauge, track], by simp [part, differs]⟩
    · simpa [part, gauge, track] using @Sizing.shrink (gauge pool ⟨mem, last⟩) count less positive
  | @keep _ pool count notLess notMore =>
    refine .inr ⟨pool, .decide, fun other differs => ?_, ⟨count, List.mem_cons_self⟩, ?_⟩
    · exact ⟨by simp [gauge, track, differs.symm], by simp [part, differs]⟩
    · simpa [part, gauge, track] using @Sizing.keep (gauge pool ⟨mem, last⟩) count notLess notMore
  | @spawn _ pool count different =>
    refine .inr ⟨pool, .other, fun other differs => ?_, trivial, ?_⟩
    · exact ⟨by simp [gauge, track, differs.symm], by simp [part, differs]⟩
    · simpa [part, gauge, track] using @Sizing.spawn (gauge pool ⟨mem, last⟩) count different
  | @grown _ pool count reached =>
    refine .inr ⟨pool, .other, fun other differs => ?_, trivial, ?_⟩
    · exact ⟨by simp [gauge, track, differs.symm], by simp [part, differs]⟩
    · simpa [part, gauge, track] using @Sizing.grown (gauge pool ⟨mem, last⟩) count reached
  | @stopIdle _ pool left | @stopWaiting _ pool _ left =>
    refine .inr ⟨pool, .other, fun other differs => ?_, trivial, ?_⟩
    · exact ⟨by simp [gauge, track], by simp [part, differs]⟩
    · simpa [part, gauge, track] using @Sizing.stop (gauge pool ⟨mem, last⟩) left
  | @stopped _ pool =>
    refine .inr ⟨pool, .other, fun other differs => ?_, trivial, ?_⟩
    · exact ⟨by simp [gauge, track, differs.symm], by simp [part, differs]⟩
    · simpa [part, gauge, track] using @Sizing.stopped (gauge pool ⟨mem, last⟩)
  | @remove _ pool =>
    refine .inr ⟨pool, .other, fun other differs => ?_, trivial, ?_⟩
    · exact ⟨by simp [gauge, track, differs.symm], by simp [part, differs]⟩
    · simpa [part, gauge, track] using @Sizing.remove (gauge pool ⟨mem, last⟩)
  | _ => exact .inl fun _ => ⟨rfl, rfl⟩

/-- A move is made at the right moment: a call that reads the number of workers finds no worker on its
way out. -/
theorem readsExact_of_madeBy {pool : PoolId} {event : Event Task} {mem : Mem Task}
    {acting : List (Proc Task)} {last : PoolId → Int} {rest : Multiset (Proc Task)} {move : Move}
    (nonneg : NonnegCounts event) (settled : DecidesSettled ⟨⟨mem, last⟩, ↑acting + rest⟩ acting)
    (made : MadeBy pool event acting move) :
    ReadsExact (Config.view (gauge pool) (part pool)
      (⟨⟨mem, last⟩, ↑acting + rest⟩ : TrackedState Task)) move := by
  cases move with
  | call count =>
    obtain rfl : event = .resize pool count := made
    exact nonneg
  | decide =>
    obtain ⟨count, acts⟩ := made
    intro leaving
    obtain ⟨proc, member, is⟩ := (Multiset.mem_filterMap _ _).mp leaving
    exact settled pool count acts (eq_returned is ▸ member)
  | other => trivial

theorem exact_initial (pool : PoolId) (pools : List PoolId) (paused : PoolId → Bool) :
    Exact ((trackedInitial pools paused : TrackedState Task).view (gauge pool) (part pool)) := by
  have none : (trackedInitial pools paused : TrackedState Task).procs.filterMap (part pool) = 0 := by
    refine Multiset.eq_zero_of_forall_notMem fun seen member => ?_
    obtain ⟨proc, member, is⟩ := (Multiset.mem_filterMap _ _).mp member
    obtain ⟨pool', _, rfl⟩ := List.mem_map.mp (Multiset.mem_coe.mp member)
    exact absurd is nofun
  rw [Config.view, none]
  exact ⟨rfl, rfl, le_rfl, fun _ => rfl, fun _ member => absurd member (Multiset.notMem_zero _)⟩

theorem exact_of_reach (pool : PoolId) (pools : List PoolId) (paused : PoolId → Bool)
    (reach : Reach (TrackedAct reads) (fun config label => NonnegCounts label.1 ∧
      DecidesSettled config label.2) (trackedInitial pools paused) config) :
    Exact (config.view (gauge pool) (part pool)) := by
  have sizes : Reach Sizing ReadsExact
      ((trackedInitial pools paused : TrackedState Task).view (gauge pool) (part pool))
      (config.view (gauge pool) (part pool)) := by
    refine reach.view (gauge pool) (part pool) fun _ ok fires => ?_
    cases fires with
    | @act event mem mem' acting left last fires =>
      rcases sizing_of_one fires with unseen | ⟨owner, move, others, made, sizing⟩
      · exact .inl (unseen pool)
      · by_cases same : owner = pool
        · subst same
          exact .inr ⟨move, readsExact_of_madeBy ok.1 ok.2 made, sizing⟩
        · exact .inl (others pool same)
  exact sizes.invariant Exact (exact_initial pool pools paused) fun inv ok step =>
    exact_step inv ok step

theorem resized_of_exact (sizes : ∀ pool, Exact (config.view (gauge pool) (part pool))) :
    Resized config := by
  constructor
  · intro pool left member
    have seen : Part.resize (.stopping left) ∈ config.procs.filterMap (part pool) :=
      (Multiset.mem_filterMap _ _).mpr ⟨_, member, if_pos rfl⟩
    have waiting : (liveWorkers pool config.procs : Int) = config.mem.last pool + left :=
      (sizes pool).standing _ seen
    have nonneg : 0 ≤ config.mem.last pool := (sizes pool).nonneg
    omega
  · rintro pool ⟨noResize, noLeaving⟩
    have unheld : total holding (config.procs.filterMap (part pool)) = 0 := by
      refine total_eq_zero fun seen member => ?_
      obtain ⟨proc, there, is⟩ := (Multiset.mem_filterMap _ _).mp member
      cases seen with
      | live => rfl
      | leaving => rfl
      | resize state => exact absurd (eq_resize is ▸ there) (noResize state)
    have unlocked : config.mem.mem.workerLock pool = false :=
      Bool.toNat_eq_zero.mp ((sizes pool).held.symm.trans unheld)
    have live : (liveWorkers pool config.procs : Int) = config.mem.last pool :=
      (sizes pool).free unlocked
    have none : (config.procs.filterMap (part pool)).count .leaving = 0 := by
      refine Multiset.count_eq_zero.mpr fun member => ?_
      obtain ⟨proc, member, is⟩ := (Multiset.mem_filterMap _ _).mp member
      exact noLeaving (eq_returned is ▸ member)
    have counted : config.mem.mem.workers pool = liveWorkers pool config.procs + _ :=
      (sizes pool).counted
    refine ⟨live, ?_⟩
    rw [size, counted, ← live, Config.view, none, Nat.add_zero]

/-- **`Resize` reaches its target, if no call counts a worker that has been stopped.** -/
theorem resized_of_decidesSettled (pools : List PoolId) (paused : PoolId → Bool)
    (reach : Reach (TrackedAct reads) (fun config label => NonnegCounts label.1 ∧
      DecidesSettled config label.2) (trackedInitial pools paused) config) : Resized config :=
  resized_of_exact fun pool => exact_of_reach pool pools paused reach

/-- A run of one pool up to the return of `Resize(1)`, and `Resize(0)` after it: the worker has taken
the stop signal and is still in the set. -/
theorem worker_stopped (allowed : TrackedState GoString → Event GoString × List (Proc GoString) → Prop)
    (ok : ∀ config label, NonnegCounts label.1 → DecidesSettled config label.2 →
      allowed config label) :
    ∃ tracked : Tracked GoString, Reach (TrackedAct oneQueue) allowed
        (trackedInitial [0] fun _ => false)
        (.ofList tracked [.worker 0 .returned, .manager 0 .checkPaused]) ∧
      tracked.mem.workers 0 = 1 ∧ tracked.mem.workerLock 0 = false ∧ tracked.last 0 = 0 := by
  have h0 : Reach (TrackedAct oneQueue) allowed (trackedInitial [0] fun _ => false)
      (.ofList (trackedInitial [0] fun _ => false : TrackedState GoString).mem
        [.manager 0 .checkPaused]) := .start
  have h1 := h0.next [] [.manager 0 .checkPaused] (.act (.call 0 1))
    (ok _ _ (show (0 : Int) ≤ _ by decide) (by simp [DecidesSettled])) (by decide)
  have h2 := h1.next [.resize 0 (.called 1)] [.manager 0 .checkPaused] (.act (.lock rfl))
    (ok _ _ trivial (by simp [DecidesSettled])) (by decide)
  have h3 := h2.next [.resize 0 (.locked 1)] [.manager 0 .checkPaused] (.act (.grow (by decide)))
    (ok _ _ trivial (by simp [DecidesSettled, Config.ofList])) (by decide)
  have h4 := h3.next [.resize 0 (.growing 1)] [.manager 0 .checkPaused] (.act (.spawn (by decide)))
    (ok _ _ trivial (by simp [DecidesSettled])) (by decide)
  have h5 := h4.next [.resize 0 (.growing 1)] [.worker 0 .idle, .manager 0 .checkPaused]
    (.act (.grown (by decide))) (ok _ _ trivial (by simp [DecidesSettled])) (by decide)
  have h6 := h5.next [] [.worker 0 .idle, .manager 0 .checkPaused] (.act (.call 0 0))
    (ok _ _ (show (0 : Int) ≤ _ by decide) (by simp [DecidesSettled])) (by decide)
  have h7 := h6.next [.resize 0 (.called 0)] [.worker 0 .idle, .manager 0 .checkPaused]
    (.act (.lock rfl)) (ok _ _ trivial (by simp [DecidesSettled])) (by decide)
  have h8 := h7.next [.resize 0 (.locked 0)] [.worker 0 .idle, .manager 0 .checkPaused]
    (.act (.shrink (by decide) (by decide)))
    (ok _ _ trivial (by simp [DecidesSettled, Config.ofList])) (by decide)
  have h9 := h8.next [.worker 0 .idle, .resize 0 (.stopping 1)] [.manager 0 .checkPaused]
    (.act .stopIdle) (ok _ _ trivial (by simp [DecidesSettled])) (by decide)
  have h10 := h9.next [.resize 0 (.stopping 0)] [.worker 0 .returned, .manager 0 .checkPaused]
    (.act .stopped) (ok _ _ trivial (by simp [DecidesSettled])) (by decide)
  exact ⟨_, h10, rfl, rfl, rfl⟩

/-- **A stopped worker is counted again**: `Resize(0)` is called while the worker that the call before
it stopped is still in the set, and waits for a stop signal that no worker can take. -/
theorem resize_counts_stopped_worker :
    ∃ config : TrackedState GoString, Reach (TrackedAct oneQueue)
        (fun _ label => NonnegCounts label.1) (trackedInitial [0] fun _ => false) config ∧
      ¬ Resized config := by
  obtain ⟨tracked, h0, workers, unlocked, _⟩ := worker_stopped (fun _ label => NonnegCounts label.1)
    fun _ _ nonneg _ => nonneg
  have h1 := h0.next [] [.worker 0 .returned, .manager 0 .checkPaused] (.act (.call 0 0)) le_rfl
    (by decide)
  have h2 := h1.next [.resize 0 (.called 0)] [.worker 0 .returned, .manager 0 .checkPaused]
    (.act (.lock unlocked)) trivial (by decide)
  have h3 := h2.next [.resize 0 (.locked 0)] [.worker 0 .returned, .manager 0 .checkPaused]
    (.act (.shrink (show _ < _ by rw [workers]; decide) le_rfl)) trivial (by decide)
  refine ⟨_, h3, fun resized => ?_⟩
  have served := resized.served 0 1 (by simp [Config.ofList, workers])
  simp [liveWorkers, Config.ofList, part] at served

/-- The same calls, the second one after the worker has left the set: the pool is at rest with no
worker. -/
theorem resized_after_remove :
    ∃ config : TrackedState GoString, Reach (TrackedAct oneQueue)
        (fun config label => NonnegCounts label.1 ∧ DecidesSettled config label.2)
        (trackedInitial [0] fun _ => false) config ∧
      AtRest 0 config.procs ∧ Resized config := by
  obtain ⟨tracked, h0, workers, unlocked, last⟩ := worker_stopped
    (fun config label => NonnegCounts label.1 ∧ DecidesSettled config label.2)
    fun _ _ nonneg settled => ⟨nonneg, settled⟩
  have h1 := h0.next [.worker 0 .returned] [.manager 0 .checkPaused] (.act .remove)
    ⟨trivial, by simp [DecidesSettled]⟩ (by decide)
  have h2 := h1.next [] [.manager 0 .checkPaused] (.act (.call 0 0))
    ⟨le_rfl, by simp [DecidesSettled]⟩ (by decide)
  have h3 := h2.next [.resize 0 (.called 0)] [.manager 0 .checkPaused] (.act (.lock unlocked))
    ⟨trivial, by simp [DecidesSettled]⟩ (by decide)
  have h4 := h3.next [.resize 0 (.locked 0)] [.manager 0 .checkPaused]
    (.act (.keep (by simp [workers]) (by simp [workers])))
    ⟨trivial, by simp [DecidesSettled, Config.ofList]⟩ (by decide)
  exact ⟨_, h4, by simp [AtRest, Config.ofList], resized_of_decidesSettled _ _ h4⟩

end Resizing

end Kubecc.Run
