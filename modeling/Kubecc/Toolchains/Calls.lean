/-
**Calls of the toolchain store at the same time.**

The consumer daemon runs `applyToolchainToReq` of `pkg/consumerd/server.go` once for every request, and
these calls share one `Store` of `pkg/toolchains/store.go`. `Find`, `Contains`, `Add` and
`UpdateIfNeeded` lock the store each for itself: a call takes the lock, does its work, and lets go, and
between two of these steps any other call may take its own. What a compiler answers is chosen anew each
time.

`Add` looks whether the toolchain is there with the store locked for reading, and stores it with the
store locked for writing, and does not look again.

* `rule_change` — every step changes the lock as it changes what its own call has of it.
* `addedOnce_of_apart` — in every run of `Add` calls in which no call looks for an executable that
  another one has found absent and not yet stored, every executable is added at most once and no entry
  is replaced.
* `added_twice` — two calls that both look before either stores.
-/

import Kubecc.Lib.RWMutex
import Kubecc.Toolchains.Refresh

namespace Kubecc.Toolchains

open Kubecc.Go Kubecc.Lib Kubecc.Types

/-- `evalPath`, over a file system whose links stay as they are: what it returns has no links left. -/
structure Resolution where
  evalPath : GoString → GoString
  resolved : ∀ path, evalPath (evalPath path) = evalPath path

/-! ### Errors -/

inductive Code
  | invalidArgument
  | notFound
deriving DecidableEq

/-- What the target of a call of `errors.As` points to. -/
inductive Target
  | pathError
  | pathErrorPointer
deriving DecidableEq

/-- `*fs.PathError` implements `error`, `fs.PathError` does not. -/
def Target.implementsError : Target → Bool
  | .pathError => false
  | .pathErrorPointer => true

/-- The error has a `*fs.PathError` in its chain. -/
def GoError.wrapsPathError : GoError → Bool
  | .path _ => true
  | .other _ => false
  | .withMessage cause _ => cause.wrapsPathError

/-- `errors.As`. It panics if what the target points to is neither an interface nor an error. -/
def errorsAs (err : GoError) (target : Target) : Option Bool :=
  if target.implementsError then some err.wrapsPathError else none

/-! ### The calls -/

variable {Q : Type}

/-- `Add` of a path, and `applyToolchainToReq` of a request with a path. -/
inductive Call (Q : Type)
  | add (path : GoString) (q : Q)
  | resolve (path : GoString)
deriving DecidableEq

def Call.path : Call Q → GoString
  | .add path _ | .resolve path => path

def Call.isAdd : Call Q → Bool
  | .add _ _ => true
  | .resolve _ => false

/-- The querier that the call adds with: `applyToolchainToReq` has one of its own. -/
def Call.querier (exec : Q) : Call Q → Q
  | .add _ q => q
  | .resolve _ => exec

inductive Outcome
  | ok (tc : Addr)
  | failed (err : GoError)
  | status (code : Code) (text : GoString)
  | panicked
deriving DecidableEq

/-- What the call returns when `Add` has returned. -/
def Call.returns : Call Q → Except GoError Addr → Outcome
  | _, .ok tc => .ok tc
  | .add _ _, .error err => .failed err
  | .resolve _, .error err =>
    .status .invalidArgument (GoError.withMessage err (bytes "Could not add toolchain")).text

/-- What `applyToolchainToReq` returns when `UpdateIfNeeded` has returned an error. -/
def refreshFails (err : GoError) : Outcome :=
  match errorsAs err .pathError with
  | none => .panicked
  | some true => .status .notFound (GoError.withMessage err (bytes "Compiler no longer exists")).text
  | some false =>
    .status .invalidArgument (GoError.withMessage err (bytes "Toolchain is no longer valid")).text

/-- `UpdateIfNeeded` and what follows it in `applyToolchainToReq`, if these are the answers. -/
def refresh (answers : Answers) (store : Store Q) (tc : Addr) : Store Q × Outcome :=
  match store.updateIfNeeded (fun _ _ => answers) tc with
  | none => (store, .panicked)
  | some (store', none, _) => (store', .ok tc)
  | some (store', some err, _) => (store', refreshFails err)

/-- Where a call stands. In `finding` and `checking` it has the store locked for reading, in `adding`
and `updating` for writing. -/
inductive Phase
  | called
  | finding
  | found (tc : Addr)
  | unchecked
  | checking
  | passed
  | adding
  | updating (tc : Addr)
deriving DecidableEq

structure Proc (Q : Type) where
  id : ℕ
  call : Call Q
  phase : Phase
deriving DecidableEq

/-- A call that has ended: how, and whether its compiler was reported to be gone. -/
structure Return (Q : Type) where
  id : ℕ
  call : Call Q
  gone : Bool
  outcome : Outcome
deriving DecidableEq

structure Mem (Q : Type) where
  store : Store Q
  mutex : RWMutex ℕ
  calls : ℕ
  returned : List (Return Q)

abbrev State (Q : Type) := Config (Mem Q) (Proc Q)

def start (store : Store Q) : State Q := ⟨⟨store, .free, 0, []⟩, 0⟩

inductive Event (Q : Type)
  | begin (call : Call Q)
  | check (executable : GoString)
  | add (executable : GoString) (answers : Answers)
  | update (tc : Addr) (answers : Answers)
  | internal

/-- The phase in which a call begins. -/
def Call.phase : Call Q → Phase
  | .add _ _ => .unchecked
  | .resolve _ => .called

section Steps

variable (links : Resolution) (exec : Q)

inductive Act : Rules (Mem Q) (Proc Q) (Event Q)
  | begin {mem} (call : Call Q) :
      Act (.begin call) mem [] { mem with calls := mem.calls + 1 } [⟨mem.calls, call, call.phase⟩]
  -- applyToolchainToReq, up to the end of Find
  | noPath {mem id} :
      Act .internal mem [⟨id, .resolve [], .called⟩]
        { mem with returned := ⟨id, .resolve [], false,
          .status .invalidArgument (bytes "No compiler path given")⟩ :: mem.returned } []
  | findLock {mem id path} (unwritten : mem.mutex.writer = none) : path ≠ [] →
      Act .internal mem [⟨id, .resolve path, .called⟩]
        { mem with mutex := mem.mutex.rlock id unwritten } [⟨id, .resolve path, .finding⟩]
  | find {mem id path tc} : mem.store.find links.evalPath path = .ok tc →
      Act .internal mem [⟨id, .resolve path, .finding⟩]
        { mem with mutex := mem.mutex.runlock id } [⟨id, .resolve path, .found tc⟩]
  | findFails {mem id path err} : mem.store.find links.evalPath path = .error err →
      Act .internal mem [⟨id, .resolve path, .finding⟩]
        { mem with mutex := mem.mutex.runlock id } [⟨id, .resolve path, .unchecked⟩]
  -- Add
  | checkLock {mem id call} (unwritten : mem.mutex.writer = none) :
      Act .internal mem [⟨id, call, .unchecked⟩] { mem with mutex := mem.mutex.rlock id unwritten }
        [⟨id, call, .checking⟩]
  | present {mem id call} :
      mem.store.contains links.evalPath (links.evalPath call.path) = true →
      Act (.check (links.evalPath call.path)) mem [⟨id, call, .checking⟩]
        { mem with
          mutex := mem.mutex.runlock id
          returned := ⟨id, call, false, call.returns (.error (.other
            (bytes "Tried to add an already existing toolchain")))⟩ :: mem.returned } []
  | absent {mem id call} :
      mem.store.contains links.evalPath (links.evalPath call.path) = false →
      Act (.check (links.evalPath call.path)) mem [⟨id, call, .checking⟩]
        { mem with mutex := mem.mutex.runlock id } [⟨id, call, .passed⟩]
  | addLock {mem id call} (free : mem.mutex.Free) :
      Act .internal mem [⟨id, call, .passed⟩] { mem with mutex := mem.mutex.lock id free }
        [⟨id, call, .adding⟩]
  | add {mem id call} (answers : Answers) :
      Act (.add (links.evalPath call.path) answers) mem [⟨id, call, .adding⟩]
        { mem with
          store := (mem.store.addLocked (fun _ _ => answers) (links.evalPath call.path)
            (call.querier exec)).1
          mutex := mem.mutex.unlock
          returned := ⟨id, call, answers.gone, call.returns (mem.store.addLocked (fun _ _ => answers)
            (links.evalPath call.path) (call.querier exec)).2⟩ :: mem.returned } []
  -- UpdateIfNeeded, and the end of applyToolchainToReq
  | updateLock {mem id path tc} (free : mem.mutex.Free) :
      Act .internal mem [⟨id, .resolve path, .found tc⟩] { mem with mutex := mem.mutex.lock id free }
        [⟨id, .resolve path, .updating tc⟩]
  | update {mem id path tc} (answers : Answers) :
      Act (.update tc answers) mem [⟨id, .resolve path, .updating tc⟩]
        { mem with
          store := (refresh answers mem.store tc).1
          mutex := mem.mutex.unlock
          returned := ⟨id, .resolve path, answers.gone, (refresh answers mem.store tc).2⟩ ::
            mem.returned } []

end Steps

/-! ### The lock -/

/-- What a call has of the lock. -/
def Proc.access (proc : Proc Q) : Option (Mode × ℕ) :=
  match proc.phase with
  | .finding | .checking => some (.read, proc.id)
  | .adding | .updating _ => some (.write, proc.id)
  | .called | .found _ | .unchecked | .passed => none

section Lock

variable {links : Resolution} {exec : Q} {event : Event Q} {mem mem' : Mem Q} {acting left : List (Proc Q)}

/-- **Every step is one call's**, and changes the lock as it changes what this call has of it. -/
theorem rule_change (act : Act links exec event mem acting mem' left) :
    acting.length ≤ 1 ∧ left.length ≤ 1 ∧
      Change mem.mutex (accessOf Proc.access acting) mem'.mutex (accessOf Proc.access left) := by
  cases act with
  | begin call => cases call <;> exact ⟨Nat.zero_le 1, le_rfl, .same⟩
  | noPath => exact ⟨le_rfl, Nat.zero_le 1, .same⟩
  | findLock unwritten | checkLock unwritten => exact ⟨le_rfl, le_rfl, .rlock unwritten⟩
  | find | findFails | absent => exact ⟨le_rfl, le_rfl, .runlock⟩
  | present => exact ⟨le_rfl, Nat.zero_le 1, .runlock⟩
  | addLock free | updateLock free => exact ⟨le_rfl, le_rfl, .lock free⟩
  | add | update => exact ⟨le_rfl, Nat.zero_le 1, .unlock⟩

end Lock

/-! ### Adding once -/

/-- The executable that a call has found absent and not yet stored. -/
def Proc.pending (links : Resolution) (proc : Proc Q) : Option GoString :=
  match proc.phase with
  | .passed | .adding => some (links.evalPath proc.call.path)
  | _ => none

def OnlyAdds (_ : State Q) : Event Q → Prop
  | .begin (.resolve _) => False
  | _ => True

/-- The condition: no call looks for an executable that another one has found absent and not yet
stored. -/
def Apart (links : Resolution) (config : State Q) : Event Q → Prop
  | .check executable => ∀ proc ∈ config.procs, proc.pending links ≠ some executable
  | event => OnlyAdds config event

/-- What a call for the executable has returned, if it has succeeded. -/
def Return.success (links : Resolution) (executable : GoString) (ended : Return Q) : Option Addr :=
  match ended.outcome with
  | .ok tc => if links.evalPath ended.call.path = executable then some tc else none
  | _ => none

def successes (links : Resolution) (returned : List (Return Q)) (executable : GoString) : List Addr :=
  returned.filterMap (Return.success links executable)

/-- **Every executable is added at most once**: of the calls for it at most one has succeeded, and the
others have failed; the entry of a successful call, or one that was there at the start, is still
there. -/
structure AddedOnce (links : Resolution) (initial : Store Q) (mem : Mem Q) : Prop where
  once : ∀ executable, (successes links mem.returned executable).length ≤ 1
  others : ∀ ended ∈ mem.returned,
    (∃ tc, ended.outcome = .ok tc) ∨ ∃ err, ended.outcome = .failed err
  stays : ∀ executable, ∀ tc ∈ successes links mem.returned executable,
    (mem.store.toolchains executable).map ToolchainData.toolchain = some tc
  kept : ∀ executable data, initial.toolchains executable = some data →
    mem.store.toolchains executable = some data

/-- How often the executable is stored. -/
def Store.stored (store : Store Q) (executable : GoString) : ℕ :=
  if (store.toolchains executable).isSome then 1 else 0

theorem Store.stored_eq_zero {store : Store Q} {executable : GoString}
    (absent : store.stored executable = 0) : store.toolchains executable = none := by
  rw [stored, ite_eq_right_iff] at absent
  exact Option.not_isSome_iff_eq_none.mp fun there => Nat.one_ne_zero (absent there)

/-- How many calls have found the executable absent and not yet stored it. -/
def pendingFor (links : Resolution) (executable : GoString) (procs : Multiset (Proc Q)) : ℕ :=
  total (tally (Proc.pending links) executable) procs

theorem pendingFor_add (links : Resolution) (executable : GoString) (procs more : Multiset (Proc Q)) :
    pendingFor links executable (procs + more) =
      pendingFor links executable procs + pendingFor links executable more := total_add _ _ _

theorem pendingFor_one (links : Resolution) (executable : GoString) (proc : Proc Q) :
    pendingFor links executable (↑[proc] : Multiset (Proc Q)) =
      if proc.pending links = some executable then 1 else 0 := by
  rw [pendingFor, total_coe_cons, total_coe_nil, Nat.add_zero, tally]

theorem pendingFor_eq_zero {links : Resolution} {executable : GoString} {procs : Multiset (Proc Q)}
    (none : ∀ proc ∈ procs, proc.pending links ≠ some executable) :
    pendingFor links executable procs = 0 :=
  total_eq_zero fun proc member => if_neg (none proc member)

/-- **The invariant**: an executable is stored, or one call has found it absent, or neither. -/
structure Once (links : Resolution) (initial : Store Q) (config : State Q) : Prop where
  adds : ∀ proc ∈ config.procs, proc.call.isAdd = true
  alone : ∀ executable,
    pendingFor links executable config.procs + config.mem.store.stored executable ≤ 1
  booked : ∀ executable,
    (successes links config.mem.returned executable).length ≤ config.mem.store.stored executable
  addedOnce : AddedOnce links initial config.mem

section Once

variable {links : Resolution} {exec : Q} {initial : Store Q} {event : Event Q} {mem mem' : Mem Q}
  {acting left : List (Proc Q)} {rest : Multiset (Proc Q)} {executable : GoString}

theorem successes_failed {ended : Return Q} {err : GoError} (failed : ended.outcome = .failed err)
    (returned : List (Return Q)) :
    successes links (ended :: returned) executable = successes links returned executable := by
  refine List.filterMap_cons_none ?_
  rw [Return.success, failed]

theorem successes_ok {ended : Return Q} {tc : Addr} (ok : ended.outcome = .ok tc)
    (returned : List (Return Q)) : successes links (ended :: returned) executable =
      (if links.evalPath ended.call.path = executable then [tc] else []) ++
        successes links returned executable := by
  by_cases here : links.evalPath ended.call.path = executable
  · rw [if_pos here]
    refine List.filterMap_cons_some ?_
    rw [Return.success, ok]
    exact if_pos here
  · rw [if_neg here]
    refine List.filterMap_cons_none ?_
    rw [Return.success, ok]
    exact if_neg here

theorem Once.alone_of_le (once : Once links initial ⟨mem, ↑acting + rest⟩)
    (fewer : pendingFor links executable (↑left : Multiset (Proc Q)) ≤
      pendingFor links executable (↑acting : Multiset (Proc Q))) :
    pendingFor links executable (↑left + rest : Multiset (Proc Q)) + mem.store.stored executable ≤ 1 := by
  have before := once.alone executable
  rw [pendingFor_add] at before ⊢
  exact (Nat.add_le_add_right (Nat.add_le_add_right fewer _) _).trans before

theorem Once.keep (once : Once links initial ⟨mem, ↑acting + rest⟩)
    (calls : ∀ proc ∈ left, proc.call.isAdd = true)
    (alone : ∀ executable,
      pendingFor links executable (↑left + rest : Multiset (Proc Q)) + mem.store.stored executable ≤ 1)
    (store : mem'.store = mem.store)
    (returned : mem'.returned = mem.returned ∨ ∃ ended err, ended.outcome = .failed err ∧
      mem'.returned = ended :: mem.returned) :
    Once links initial ⟨mem', ↑left + rest⟩ := by
  obtain ⟨oneEach, others, stays, kept⟩ := once.addedOnce
  have same : ∀ executable, successes links mem'.returned executable =
      successes links mem.returned executable := by
    intro executable
    rcases returned with is | ⟨ended, err, failed, is⟩
    · rw [is]
    · rw [is, successes_failed failed]
  refine ⟨forall_mem_fire once.adds (fun _ => calls) fun _ _ => id, fun executable => ?_,
    fun executable => ?_, fun executable => ?_, ?_, fun executable tc member => ?_,
    fun executable data there => ?_⟩
  · rw [store]
    exact alone executable
  · rw [same, store]
    exact once.booked executable
  · rw [same]
    exact oneEach executable
  · rcases returned with is | ⟨ended, err, failed, is⟩
    · rw [is]
      exact others
    · rw [is]
      exact List.forall_mem_cons.mpr ⟨.inr ⟨err, failed⟩, others⟩
  · rw [same] at member
    rw [store]
    exact stays executable tc member
  · rw [store]
    exact kept executable data there

theorem stored_insert {store : Store Q} {tc : Toolchain} {same : tc.executable = executable}
    {modTime : Time} {q : Q} (other : GoString) :
    (store.insert executable tc same modTime q).stored other =
      if executable = other then 1 else store.stored other := by
  by_cases here : executable = other
  · subst here
    rw [if_pos rfl]
    exact if_pos (congrArg Option.isSome (Function.update_self executable _ store.toolchains))
  · rw [if_neg here]
    exact if_congr (Bool.eq_iff_iff.mp (congrArg Option.isSome
      (Function.update_of_ne (Ne.symm here) _ store.toolchains))) rfl rfl

theorem Once.store {id : ℕ} {call : Call Q} {tc : Toolchain} {modTime : Time} {q : Q} {gone : Bool}
    (once : Once links initial ⟨mem, ↑[Proc.mk id call .adding] + rest⟩)
    (same : tc.executable = links.evalPath call.path)
    (stores : mem'.store = mem.store.insert (links.evalPath call.path) tc same modTime q)
    (returned : mem'.returned = ⟨id, call, gone, .ok mem.store.allocated⟩ :: mem.returned) :
    Once links initial ⟨mem', ↑([] : List (Proc Q)) + rest⟩ := by
  obtain ⟨oneEach, others, stays, kept⟩ := once.addedOnce
  have alone : ∀ executable, (if links.evalPath call.path = executable then 1 else 0) +
      pendingFor links executable rest + mem.store.stored executable ≤ 1 := by
    intro executable
    have before := once.alone executable
    rw [pendingFor_add, pendingFor_one] at before
    simpa only [Proc.pending, Option.some.injEq] using before
  have absent : mem.store.stored (links.evalPath call.path) = 0 := by
    have here := alone (links.evalPath call.path)
    rw [if_pos rfl] at here
    omega
  have none : successes links mem.returned (links.evalPath call.path) = [] :=
    List.length_eq_zero_iff.mp (Nat.le_zero.mp (absent ▸ once.booked (links.evalPath call.path)))
  have successes : ∀ executable, successes links mem'.returned executable =
      if links.evalPath call.path = executable then [mem.store.allocated]
      else successes links mem.returned executable := by
    intro executable
    rw [returned, successes_ok rfl]
    by_cases here : links.evalPath call.path = executable
    · rw [if_pos here, if_pos here, ← here, none, List.append_nil]
    · rw [if_neg here, if_neg here, List.nil_append]
  refine ⟨forall_mem_fire once.adds (fun _ => List.forall_mem_nil _) fun _ _ is => is, fun executable => ?_,
    fun executable => ?_, fun executable => ?_, ?_, fun executable tc' member => ?_,
    fun executable data there => ?_⟩
  · have before := alone executable
    show pendingFor links executable (↑([] : List (Proc Q)) + rest : Multiset (Proc Q)) +
      mem'.store.stored executable ≤ 1
    rw [stores, stored_insert, Multiset.coe_nil, zero_add]
    by_cases here : links.evalPath call.path = executable
    · rw [if_pos here] at before ⊢
      omega
    · rw [if_neg here] at before ⊢
      omega
  · show (Toolchains.successes links mem'.returned executable).length ≤ mem'.store.stored executable
    rw [successes, stores, stored_insert]
    split
    · exact le_rfl
    · exact once.booked executable
  · rw [successes]
    split
    · exact le_rfl
    · exact oneEach executable
  · rw [returned]
    exact List.forall_mem_cons.mpr ⟨.inl ⟨_, rfl⟩, others⟩
  · rw [successes] at member
    rw [stores]
    by_cases here : links.evalPath call.path = executable
    · subst here
      rw [if_pos rfl] at member
      rw [List.mem_singleton.mp member]
      exact congrArg _ (Function.update_self _ _ _)
    · rw [if_neg here] at member
      exact (congrArg _ (Function.update_of_ne (Ne.symm here) _ _)).trans (stays executable tc' member)
  · rw [stores]
    have other : executable ≠ links.evalPath call.path := by
      rintro rfl
      exact absurd (kept _ data there) (by rw [Store.stored_eq_zero absent]; rintro ⟨⟩)
    exact (Function.update_of_ne other _ _).trans (kept executable data there)

theorem once_act (act : Act links exec event mem acting mem' left)
    (ok : Apart links ⟨mem, ↑acting + rest⟩ event) (once : Once links initial ⟨mem, ↑acting + rest⟩) :
    Once links initial ⟨mem', ↑left + rest⟩ := by
  have calls : ∀ proc ∈ acting, proc.call.isAdd = true := fun proc member =>
    once.adds proc (mem_of_acting member)
  have none : ∀ executable, pendingFor links executable (↑([] : List (Proc Q)) : Multiset (Proc Q)) ≤
      pendingFor links executable (↑acting : Multiset (Proc Q)) := fun _ => Nat.zero_le _
  cases act with
  | begin call =>
    cases call with
    | add path q =>
      refine once.keep (List.forall_mem_singleton.mpr rfl) (fun executable => once.alone_of_le ?_) rfl
        (.inl rfl)
      rw [pendingFor_one, if_neg nofun]
      exact Nat.zero_le _
    | resolve path => exact absurd ok id
  | noPath | findLock | find | findFails | updateLock | update =>
    exact absurd (calls _ List.mem_cons_self) nofun
  | checkLock | addLock =>
    have adds := List.forall_mem_singleton.mp calls
    refine once.keep (List.forall_mem_singleton.mpr adds) (fun executable => once.alone_of_le ?_) rfl
      (.inl rfl)
    rw [pendingFor_one, pendingFor_one]
    exact le_rfl
  | @present mem id call there =>
    cases call with
    | add path q =>
      exact once.keep (List.forall_mem_nil _) (fun executable => once.alone_of_le (none executable)) rfl
        (.inr ⟨_, _, rfl, rfl⟩)
    | resolve path => exact absurd (calls _ List.mem_cons_self) nofun
  | @absent mem id call absent =>
    refine once.keep (List.forall_mem_singleton.mpr (calls ⟨id, call, .checking⟩ List.mem_cons_self))
      (fun executable => ?_) rfl (.inl rfl)
    by_cases here : links.evalPath call.path = executable
    · subst here
      have others := pendingFor_eq_zero ok
      have unstored : mem.store.stored (links.evalPath call.path) = 0 := by
        rw [Store.stored, ← links.resolved call.path]
        exact if_neg (Bool.eq_false_iff.mp absent)
      rw [pendingFor_add] at others
      rw [pendingFor_add, pendingFor_one, unstored, (Nat.add_eq_zero_iff.mp others).2]
      split <;> decide
    · refine once.alone_of_le ((pendingFor_one ..).trans_le ?_)
      exact (if_neg fun is => here (Option.some.inj is)).trans_le (Nat.zero_le _)
  | @add mem id call answers =>
    cases call with
    | resolve path => exact absurd (calls _ List.mem_cons_self) nofun
    | add path q =>
      rcases Store.addLocked_cases (fun _ _ => answers) mem.store (links.evalPath path) q with
        ⟨err, fails⟩ | ⟨tc, same, _, _, adds⟩
      · refine once.keep (List.forall_mem_nil _) (fun executable => once.alone_of_le (none executable))
          (congrArg Prod.fst fails) (.inr ⟨_, err, ?_, rfl⟩)
        exact congrArg (fun result => Call.returns (.add path q) result.2) fails
      · have outcome := congrArg (fun result => (⟨id, .add path q, answers.gone,
          Call.returns (.add path q) result.2⟩ : Return Q) :: mem.returned) adds
        exact once.store same (congrArg Prod.fst adds) outcome

/-- **Adding at most once**: in every run of `Add` calls in which no call looks for an executable that
another one has found absent and not yet stored. -/
theorem addedOnce_of_apart {store : Store Q} {config : State Q}
    (reach : Reach (Act links exec) (Apart links) (start store) config) :
    AddedOnce links store config.mem := by
  have once : Once links store config := by
    refine reach.invariant _ ?_ fun once ok step => ?_
    · refine ⟨fun _ => nofun, fun executable => ?_, fun _ => Nat.zero_le _, fun _ => Nat.zero_le _,
        List.forall_mem_nil _, fun _ => List.forall_mem_nil _, fun _ _ => id⟩
      rw [show pendingFor links executable (start store).procs = 0 from rfl, Nat.zero_add, Store.stored]
      split <;> decide
    · cases step with
      | fire rest act => exact once_act act ok once
  exact once.addedOnce

end Once

/-! ### Two requests for a new compiler -/

def noLinks : Resolution := ⟨id, fun _ => rfl⟩

def addGcc : Call Unit := .add (bytes "/usr/bin/gcc") ()

/-- One call, from the lock for looking to the lock for storing. -/
theorem addedOnce_gcc : ∃ config : State Unit,
    Reach (Act noLinks ()) (Apart noLinks) (start .new) config ∧
      successes noLinks config.mem.returned (bytes "/usr/bin/gcc") = [0] ∧
      AddedOnce noLinks .new config.mem := by
  have h0 : Reach (Act noLinks ()) (Apart noLinks) (start .new) (.ofList (start .new).mem []) := .start
  have h1 := h0.next [] [] (.begin addGcc) trivial (by decide)
  have h2 := h1.next [⟨0, addGcc, .unchecked⟩] [] (.checkLock rfl) trivial (by decide)
  have h3 := h2.next [⟨0, addGcc, .checking⟩] [] (.absent rfl)
    (fun proc member => by rw [List.mem_singleton.mp (Multiset.mem_coe.mp member)]; exact nofun)
    (by decide)
  have h4 := h3.next [⟨0, addGcc, .passed⟩] [] (.addLock ⟨rfl, rfl⟩) trivial (by decide)
  have h5 := h4.next [⟨0, addGcc, .adding⟩] [] (.add Store.upgraded) trivial (by decide)
  exact ⟨_, h5, rfl, addedOnce_of_apart h5⟩

/-- **Both calls look before either stores**: both succeed, and the second replaces the entry of the
first. -/
theorem added_twice : ∃ config : State Unit,
    Reach (Act noLinks ()) OnlyAdds (start .new) config ∧
      successes noLinks config.mem.returned (bytes "/usr/bin/gcc") = [1, 0] ∧
      (config.mem.store.toolchains (bytes "/usr/bin/gcc")).map ToolchainData.toolchain = some 1 ∧
      ¬ AddedOnce noLinks .new config.mem := by
  have h0 : Reach (Act noLinks ()) OnlyAdds (start .new) (.ofList (start .new).mem []) := .start
  have h1 := h0.next [] [] (.begin addGcc) trivial (by decide)
  have h2 := h1.next [] [⟨0, addGcc, .unchecked⟩] (.begin addGcc) trivial (by decide)
  have h3 := h2.next [⟨0, addGcc, .unchecked⟩] [⟨1, addGcc, .unchecked⟩] (.checkLock rfl) trivial
    (by decide)
  have h4 := h3.next [⟨0, addGcc, .checking⟩] [⟨1, addGcc, .unchecked⟩] (.absent rfl) trivial (by decide)
  have h5 := h4.next [⟨1, addGcc, .unchecked⟩] [⟨0, addGcc, .passed⟩] (.checkLock rfl) trivial (by decide)
  have h6 := h5.next [⟨1, addGcc, .checking⟩] [⟨0, addGcc, .passed⟩] (.absent rfl) trivial (by decide)
  have h7 := h6.next [⟨0, addGcc, .passed⟩] [⟨1, addGcc, .passed⟩] (.addLock ⟨rfl, rfl⟩) trivial
    (by decide)
  have h8 := h7.next [⟨0, addGcc, .adding⟩] [⟨1, addGcc, .passed⟩] (.add Store.upgraded) trivial
    (by decide)
  have h9 := h8.next [⟨1, addGcc, .passed⟩] [] (.addLock ⟨rfl, rfl⟩) trivial (by decide)
  have h10 := h9.next [⟨1, addGcc, .adding⟩] [] (.add Store.upgraded) trivial (by decide)
  refine ⟨_, h10, rfl, rfl, fun once => ?_⟩
  exact absurd (once.once (bytes "/usr/bin/gcc")) (by decide)

end Kubecc.Toolchains
