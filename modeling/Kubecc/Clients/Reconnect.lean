/-
**A newly loaded stream.**

`LoadNewStream` of `pkg/clients/scheduler.go` puts a stream into `rc.stream`, and `recvWorker` takes it out
again when `Recv` has failed. Between the failure and the reset `recvWorker` hands the error to every
waiting call, without the lock, and the reset does not look at what it throws away; so a stream that was
loaded in between is gone, although nothing has been received on it. The same happens if the stream is
replaced during a `Recv` on the old one which then fails.

* `loaded` — the record of the streams that were stored.
* `Retained` — the property: the stream loaded last is there until `Recv` on it has failed, and up to then
  no call of `Compile` finds that there is none.
* `Undisturbed` — the condition: `Recv` fails on the stream that is there, and no stream is loaded between
  that and the reset.
* `retained_of_undisturbed` — the property holds in every run whose steps meet the condition.
* `reconnect_thrown_away` — a stream that is loaded after the failure of the one before.
-/

import Kubecc.Clients.CompileRequestClient
import Kubecc.Lib.History

namespace Kubecc.Clients.Reconnect

open Kubecc.Lib Kubecc.Go

variable {Value : Type}

/-- The stream that a step of `LoadNewStream` stores. -/
def loaded (_ : Mem Value) (acting _ : List (Proc Value)) : List StreamId :=
  match acting with
  | [.load stream .locked] => [stream]
  | _ => []

/-- A state of the client, with the streams stored by `LoadNewStream` so far. -/
abbrev Logged (Value : Type) := Config (Mem Value × List StreamId) (Proc Value)

/-- **The stream loaded last is retained**: as long as `Recv` on it has not failed it is in `rc.stream`, and
no call of `Compile` returns `ErrStreamNotReady`. -/
def Retained (config : Logged Value) : Prop :=
  ∀ stream, config.mem.2.getLast? = some stream → config.mem.1.failed stream = false →
    config.mem.1.stream = some stream ∧ ∀ id next, ¬ Step Act config.forget (.notReady id) next

def Failing : RecvWorker Value → Prop
  | .errored _ | .range _ | .rangeSend _ _ | .rangeDelete _ _ | .resetLock | .reset => True
  | _ => False

def Loading : Proc Value → Prop
  | .load _ .called | .load _ .locked => True
  | _ => False

/-- The condition: when `Recv` fails on a stream it is the one in `rc.stream`, and no call of
`LoadNewStream` has still to store its stream; and none is made before the reset. -/
def Undisturbed (config : State Value) : Event Value → Prop
  | .failure stream => config.mem.stream = some stream ∧ ∀ proc ∈ config.procs, ¬ Loading proc
  | .load _ => ¬ Failing config.mem.recvWorker
  | _ => True

/-! ### The invariant -/

/-- **The invariant**: the stream loaded last is there unless it has failed, and what is about to be reset
is a stream that has failed. -/
structure Inv (config : Logged Value) : Prop where
  kept : ∀ stream, config.mem.2.getLast? = some stream → config.mem.1.failed stream = false →
    config.mem.1.stream = some stream
  failing : Failing config.mem.1.recvWorker →
    (∀ proc ∈ config.procs, ¬ Loading proc) ∧
      ∃ stream, config.mem.1.stream = some stream ∧ config.mem.1.failed stream = true

section Steps

variable {mem mem' : Mem Value} {log : List StreamId} {acting left : List (Proc Value)}
  {rest : Multiset (Proc Value)} {event : Event Value}

theorem Inv.move (inv : Inv ⟨(mem, log), ↑acting + rest⟩) (stream : mem'.stream = mem.stream)
    (failed : mem'.failed = mem.failed) (worker : Failing mem'.recvWorker → Failing mem.recvWorker)
    (loading : Failing mem.recvWorker → (∀ proc ∈ acting, ¬ Loading proc) → ∀ proc ∈ left, ¬ Loading proc) :
    Inv ⟨(mem', log), ↑left + rest⟩ where
  kept := by
    show ∀ last, log.getLast? = some last → mem'.failed last = false → mem'.stream = some last
    rw [stream, failed]
    exact inv.kept
  failing fails := by
    have fails := worker fails
    obtain ⟨none, there⟩ := inv.failing fails
    refine ⟨forall_mem_fire none (loading fails) fun _ _ => id, ?_⟩
    show ∃ last, mem'.stream = some last ∧ mem'.failed last = true
    rw [stream, failed]
    exact there

theorem Inv.failure {procs : Multiset (Proc Value)} {stream : StreamId} (inv : Inv ⟨(mem, log), procs⟩)
    (there : mem.stream = some stream) (unloading : ∀ proc ∈ procs, ¬ Loading proc) :
    Inv ⟨({ mem with
      recvWorker := .errored stream
      failed := Function.update mem.failed stream true }, log), procs⟩ := by
  refine ⟨fun last is alive => ?_, fun _ =>
    ⟨unloading, stream, there, Function.update_self stream true mem.failed⟩⟩
  have other : last ≠ stream := by
    rintro rfl
    exact absurd ((Function.update_self last true mem.failed).symm.trans alive) nofun
  exact inv.kept last is ((Function.update_of_ne other true mem.failed).symm.trans alive)

theorem Inv.reset {procs : Multiset (Proc Value)} (inv : Inv ⟨(mem, log), procs⟩)
    (is : mem.recvWorker = .reset) :
    Inv ⟨({ mem with recvWorker := .top, stream := none, streamLock := false }, log), procs⟩ := by
  refine ⟨fun last logged alive => ?_, fun fails => False.elim fails⟩
  have fails : Failing mem.recvWorker := by
    rw [is]
    trivial
  obtain ⟨_, stream, there, failed⟩ := inv.failing fails
  obtain rfl := Option.some.inj (there.symm.trans (inv.kept last logged alive))
  exact absurd (failed.symm.trans alive) nofun

theorem Inv.store {stream : StreamId} {proc next : Proc Value}
    (inv : Inv ⟨(mem, log), ↑[proc] + rest⟩) (loading : Loading proc) :
    Inv ⟨({ mem with stream := some stream }, log ++ [stream]), ↑[next] + rest⟩ := by
  refine ⟨fun last is _ => ?_, fun fails => absurd loading ((inv.failing fails).1 _ mem_acting)⟩
  exact (List.getLast?_concat.symm.trans is)

theorem not_loading_of_act (act : Act event mem acting mem' left) (none : ∀ proc ∈ acting, ¬ Loading proc)
    (uncalled : ∀ stream, event ≠ .load stream) : ∀ proc ∈ left, ¬ Loading proc := by
  cases act with
  | load stream => exact absurd rfl (uncalled stream)
  | loadLock => exact absurd trivial (none _ List.mem_cons_self)
  | call | loadStore | loadSignal | loadSignalNobody | lock | send | sendError | unlock | unlockFailed
  | store | leave | deliver | rangeSend => exact List.forall_mem_singleton.mpr id
  | _ => exact List.forall_mem_nil _

theorem inv_act (inv : Inv ⟨(mem, log), ↑acting + rest⟩) (act : Act event mem acting mem' left)
    (ok : Undisturbed ⟨mem, ↑acting + rest⟩ event) (unloaded : loaded mem acting left = []) :
    Inv ⟨(mem', log), ↑left + rest⟩ := by
  have unloading := not_loading_of_act act
  cases act with
  | load stream => exact inv.move rfl rfl id fun fails => absurd fails ok
  | loadStore => exact absurd unloaded nofun
  | failure => exact inv.failure ok.1 ok.2
  | reset is => exact inv.reset is
  | loadSignal | top | park | wake | ready | read | readNil | response | found | notFound | deliver
  | deliverClosed | rangeSendClosed =>
    exact inv.move rfl rfl (fun fails => False.elim fails) fun _ none => unloading none nofun
  | scan is | visit _ is | rangeSend is | rangeDelete is | rangeEnd is | resetLock is =>
    exact inv.move rfl rfl (fun _ => is ▸ trivial) fun _ none => unloading none nofun
  | _ => exact inv.move rfl rfl id fun _ none => unloading none nofun

end Steps

section Runs

variable {config : Logged Value}

theorem inv_initial (stream : Option StreamId) : Inv ((initial stream : State Value).noted []) where
  kept _ none := absurd none nofun
  failing fails := False.elim fails

theorem inv (stream : Option StreamId)
    (reach : Reach (Noted Act loaded) (fun config => Undisturbed config.forget)
      ((initial stream).noted []) config) : Inv config := by
  refine reach.invariant Inv (inv_initial stream) ?_
  intro config event next inv ok step
  cases step with
  | @fire _ mem mem' acting left rest noted =>
    obtain ⟨before, log⟩ := mem
    obtain ⟨after, log'⟩ := mem'
    obtain ⟨act, logs⟩ := noted
    obtain rfl : log' = log ++ loaded before acting left := logs
    by_cases unloaded : loaded before acting left = []
    · rw [unloaded, List.append_nil]
      exact inv_act inv act ok unloaded
    · cases act with
      | loadStore => exact inv.store trivial
      | _ => exact absurd rfl unloaded

/-- **A newly loaded stream is not thrown away**, in every run whose steps meet the condition. -/
theorem retained_of_undisturbed (stream : Option StreamId) (config : Logged Value)
    (reach : Reach (Noted Act loaded) (fun config => Undisturbed config.forget)
      ((initial stream).noted []) config) : Retained config := by
  intro last logged alive
  have there := (inv stream reach).kept last logged alive
  refine ⟨there, fun id next step => ?_⟩
  obtain ⟨acting, mem', left, _, act⟩ := step.exists_rule
  cases act with
  | notReady none => exact absurd (none.symm.trans there) nofun

end Runs

/-! ### Two runs -/

section Example

variable {allowed : Logged Unit → Event Unit → Prop} {start : Logged Unit} {mem : Mem Unit}
  {log : List StreamId} {procs : List (Proc Unit)}

theorem load_run (stream : StreamId)
    (reach : Reach (Noted Act loaded) allowed start (.ofList (mem, log) procs))
    (free : mem.streamLock = false) (busy : mem.recvWorker ≠ .parked)
    (ok : allowed (.ofList (mem, log) procs) (.load stream)) (internal : ∀ config, allowed config .internal) :
    Reach (Noted Act loaded) allowed start
      (.ofList ({ mem with stream := some stream, streamLock := false }, log ++ [stream]) procs) := by
  have run := reach.nextSilent [] procs (.load stream) rfl ok (.refl _)
  have run := run.nextSilent [_] procs (.loadLock free) rfl (internal _) (.refl _)
  have run := run.nextNoted [_] procs .loadStore (internal _) (.refl _)
  have run := run.nextSilent [_] procs (.loadSignalNobody busy) rfl (internal _) (.refl _)
  exact run.nextSilent [_] procs .loadUnlock rfl (internal _) (.refl _)

theorem failure_run (ok : ∀ config : Logged Unit, config.mem.1.stream = some 0 → config.procs = 0 →
      allowed config (.failure 0)) (internal : ∀ config, allowed config .internal) :
    ∃ mem : Mem Unit, Reach (Noted Act loaded) allowed ((initial (some 0)).noted []) (.ofList (mem, []) []) ∧
      mem.recvWorker = .errored 0 ∧ mem.pending = ∅ ∧ mem.streamLock = false ∧ mem.failed 1 = false ∧
      mem.called = fun _ => false := by
  have run : Reach (Noted Act loaded) allowed ((initial (some 0)).noted [])
    (.ofList ((initial (some 0) : State Unit).mem, []) []) := .start
  have run := run.nextSilent [] [] (.top rfl rfl) rfl (internal _) (.refl _)
  have run := run.nextSilent [] [] (.ready rfl nofun) rfl (internal _) (.refl _)
  have run := run.nextSilent [] [] (.read rfl rfl) rfl (internal _) (.refl _)
  have run := run.nextSilent [] [] (.failure rfl) rfl (ok _ rfl rfl) (.refl _)
  exact ⟨_, run, rfl, rfl, rfl, rfl, rfl⟩

theorem reset_run {stream : StreamId}
    (reach : Reach (Noted Act loaded) allowed start (.ofList (mem, log) []))
    (is : mem.recvWorker = .errored stream) (pending : mem.pending = ∅) (free : mem.streamLock = false)
    (scan : ∀ config, allowed config (.scan stream)) (internal : ∀ config, allowed config .internal) :
    Reach (Noted Act loaded) allowed start
      (.ofList ({ mem with recvWorker := .top, stream := none, streamLock := false }, log) []) := by
  have run := reach.nextSilent [] [] (.scan is) rfl (scan _) (.refl _)
  have run := run.nextSilent [] [] (.rangeEnd (congrArg RecvWorker.range pending)) rfl (internal _) (.refl _)
  have run := run.nextSilent [] [] (.resetLock rfl free) rfl (internal _) (.refl _)
  exact run.nextSilent [] [] (.reset rfl) rfl (internal _) (.refl _)

/-- A stream that is loaded after the reset stays. -/
theorem retained_after_reset : ∃ config : Logged Unit,
    Reach (Noted Act loaded) (fun config => Undisturbed config.forget) ((initial (some 0)).noted []) config ∧
      config.mem.2.getLast? = some 1 ∧ config.mem.1.failed 1 = false ∧ Retained config := by
  obtain ⟨mem, run, is, pending, free, alive, _⟩ := @failure_run
    (fun config => Undisturbed config.forget)
    (fun config there none => ⟨there, fun proc member => absurd (none ▸ member) (Multiset.notMem_zero proc)⟩)
    fun _ => trivial
  have run := reset_run run is pending free (fun _ => trivial) fun _ => trivial
  have run := load_run 1 run rfl nofun (fun fails => False.elim fails) fun _ => trivial
  exact ⟨_, run, rfl, alive, retained_of_undisturbed _ _ run⟩

/-- **A stream that is loaded between the failure of another one and the reset is thrown away**, and the
next call of `Compile` returns `ErrStreamNotReady`. -/
theorem reconnect_thrown_away : ∃ config : Logged Unit,
    Reach (Noted Act loaded) (fun _ _ => True) ((initial (some 0)).noted []) config ∧
      config.mem.2.getLast? = some 1 ∧ config.mem.1.failed 1 = false ∧ config.mem.1.stream = none ∧
      (∃ next, Step Act config.forget (.notReady (bytes "id")) next) ∧ ¬ Retained config := by
  obtain ⟨mem, run, is, pending, free, alive, called⟩ := @failure_run (fun _ _ => True)
    (fun _ _ _ => trivial) fun _ => trivial
  have run := load_run 1 run free (by rw [is]; nofun) trivial fun _ => trivial
  have run := reset_run run is pending rfl (fun _ => trivial) fun _ => trivial
  have run := run.nextSilent [] [] (.call (bytes "id") (congrFun called _)) rfl trivial (.refl _)
  have run := run.nextSilent [_] [] (.lock rfl) rfl trivial (.refl _)
  refine ⟨_, run, rfl, alive, rfl, ⟨_, Step.ofList [_] [] (.notReady rfl) (.refl _)⟩, fun retained => ?_⟩
  exact absurd (retained 1 rfl alive).1 nofun

end Example

end Kubecc.Clients.Reconnect
