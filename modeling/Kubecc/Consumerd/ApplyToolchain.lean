/-
**Resolving the compiler of a request.**

Requests are served at the same time, each by a call of `applyToolchainToReq` of
`pkg/consumerd/server.go` (the steps are those of `Kubecc.Toolchains.Calls`). Between two steps of a
call the file system may change, so each step has the links that it finds.

The error of `UpdateIfNeeded` is classified by `errors.As(err, &fs.PathError{})`, whose target points to
a type that is not an error: with any error at all, this panics.

* `serves_of_answering` — in every run in which no compiler is reported to be gone, and every one that
  has changed can be asked again, each call returns nil or a status error, and the calls that have begun
  are bound to end.
* `request_panics` — a compiler that is deleted takes the daemon down: at once; or by a second call,
  which finds no data where the first one has removed it. One that is gone before it is added gives
  another code.
-/

import Kubecc.Lib.Liveness
import Kubecc.Toolchains.Calls

namespace Kubecc.Consumerd

open Kubecc.Go Kubecc.Lib Kubecc.Toolchains

variable {Q : Type}

/-- The steps of the calls, each with the links that are there at the time. -/
def Serve (exec : Q) : Rules (Mem Q) (Proc Q) (Event Q) := fun event mem acting mem' left =>
  ∃ links : Resolution, Act links exec event mem acting mem' left

def OnlyResolves (_ : State Q) : Event Q → Prop
  | .begin (.add _ _) => False
  | _ => True

/-- The condition: the compiler is there whenever it is asked about, and one that has changed answers
every question. -/
def Answering (config : State Q) : Event Q → Prop
  | .add _ answers => answers.gone = false
  | .update tc answers =>
    answers.gone = false ∧
      ∀ data, config.mem.store.toolchains (config.mem.store.objects tc).executable = some data →
        answers.modTime.1 ≠ data.modTime → (fillInfo (config.mem.store.objects tc) answers).2 = none
  | event => OnlyResolves config event

/-- **How a call should end**: with nil or with a status error, and with `codes.NotFound` if the
compiler is gone. -/
def Proper (ended : Return Q) : Prop :=
  ((∃ tc, ended.outcome = .ok tc) ∨ ∃ code text, ended.outcome = .status code text) ∧
    (ended.gone = true → ∃ text, ended.outcome = .status .notFound text)

/-- No call begins. -/
def Event.inner : Event Q → Prop
  | .begin _ => False
  | _ => True

/-- **The daemon serves its requests**: every call that has ended has ended properly, and those that are
in progress are bound to end, if no more begin. -/
structure Serves (exec : Q) (config : State Q) : Prop where
  proper : ∀ ended ∈ config.mem.returned, Proper ended
  ends : Inevitable (Step (Serve exec)) (fun config event => Answering config event ∧ Event.inner event)
    (fun config => config.procs = 0) config

/-! ### What the store knows -/

section Knows

variable {store store' : Store Q} {tc other : Addr} {answers : Answers}

/-- The toolchain is an old one, and there is data for its executable. -/
def Knows (store : Store Q) (tc : Addr) : Prop :=
  tc < store.allocated ∧ (store.toolchains (store.objects tc).executable).isSome = true

/-- Nothing is removed, and no executable changes. -/
structure Keeps (store store' : Store Q) : Prop where
  allocated : store.allocated ≤ store'.allocated
  executable : ∀ addr < store.allocated,
    (store'.objects addr).executable = (store.objects addr).executable
  toolchains : ∀ executable, (store.toolchains executable).isSome = true →
    (store'.toolchains executable).isSome = true

theorem Keeps.refl (store : Store Q) : Keeps store store := ⟨le_rfl, fun _ _ => rfl, fun _ => id⟩

theorem Keeps.trans {store'' : Store Q} (first : Keeps store store') (second : Keeps store' store'') :
    Keeps store store'' where
  allocated := first.allocated.trans second.allocated
  executable addr old := (second.executable addr (old.trans_le first.allocated)).trans
    (first.executable addr old)
  toolchains executable there := second.toolchains executable (first.toolchains executable there)

theorem Knows.keeps (keeps : Keeps store store') (knows : Knows store tc) : Knows store' tc := by
  refine ⟨knows.1.trans_le keeps.allocated, ?_⟩
  rw [keeps.executable tc knows.1]
  exact keeps.toolchains _ knows.2

theorem knows_of_find {links : Resolution} {path : GoString}
    (found : store.find links.evalPath path = .ok tc) : Knows store tc := by
  obtain ⟨executable, data, stored, rfl⟩ := Store.exists_of_find found
  obtain ⟨old, same⟩ := store.sound executable data stored
  refine ⟨old, ?_⟩
  rw [same, stored]
  rfl

theorem isSome_update {β : Type} {map : GoString → Option β} {key : GoString} {value : Option β}
    (some : (map key).isSome = true → value.isSome = true) (executable : GoString)
    (there : (map executable).isSome = true) :
    (Function.update map key value executable).isSome = true := by
  by_cases here : executable = key
  · subst here
    rw [Function.update_self]
    exact some there
  · rw [Function.update_of_ne here]
    exact there

theorem keeps_insert {executable : GoString} {toolchain : Types.Toolchain}
    (same : toolchain.executable = executable) {modTime : Time} {q : Q} :
    Keeps store (store.insert executable toolchain same modTime q) where
  allocated := Nat.le_succ _
  executable _ old := congrArg _ (Function.update_of_ne old.ne _ _)
  toolchains := isSome_update fun _ => rfl

theorem keeps_assign {addr : Addr} {toolchain : Types.Toolchain}
    {same : toolchain.executable = (store.objects addr).executable} :
    Keeps store (store.assign addr toolchain same) where
  allocated := le_rfl
  executable other _ := by
    by_cases here : other = addr
    · subst here
      exact (congrArg _ (Function.update_self _ _ _)).trans same
    · exact congrArg _ (Function.update_of_ne here _ _)
  toolchains _ := id

theorem keeps_setModTime {executable : GoString} {timestamp : Time} :
    Keeps store (store.setModTime executable timestamp) where
  allocated := le_rfl
  executable _ _ := rfl
  toolchains := isSome_update fun there => (Option.isSome_map ..).trans there

theorem keeps_addLocked (ask : Q → GoString → Answers) (executable : GoString) (q : Q) :
    Keeps store (store.addLocked ask executable q).1 := by
  rcases store.addLocked_cases ask executable q with ⟨err, fails⟩ | ⟨toolchain, same, _, _, adds⟩
  · rw [fails]
    exact .refl store
  · rw [adds]
    exact keeps_insert same

theorem refresh_of_answering (knows : Knows store tc) (there : answers.gone = false)
    (answering : ∀ data, store.toolchains (store.objects tc).executable = some data →
      answers.modTime.1 ≠ data.modTime → (fillInfo (store.objects tc) answers).2 = none) :
    (refresh answers store tc).2 = .ok tc ∧ Keeps store (refresh answers store tc).1 := by
  obtain ⟨data, stored⟩ := Option.isSome_iff_exists.mp knows.2
  by_cases changed : answers.modTime.1 ≠ data.modTime
  · have ok := answering data stored changed
    have update : store.updateIfNeeded (fun _ _ => answers) tc =
        some ((store.assign tc (fillInfo (store.objects tc) answers).1
          (fillInfo_executable _ answers)).setModTime (store.objects tc).executable answers.modTime.1,
          none, true) := by
      simp only [Store.updateIfNeeded, stored, there, changed, ok, Bool.false_eq_true, if_false, ne_eq,
        not_false_eq_true, if_true]
    rw [refresh, update]
    exact ⟨rfl, keeps_assign.trans keeps_setModTime⟩
  · have update : store.updateIfNeeded (fun _ _ => answers) tc = some (store, none, false) := by
      simp only [Store.updateIfNeeded, stored, there, changed, Bool.false_eq_true, if_false]
    rw [refresh, update]
    exact ⟨rfl, .refl store⟩

end Knows

/-! ### The invariant -/

def toolchain (proc : Proc Q) : Option Addr :=
  match proc.phase with
  | .found tc | .updating tc => some tc
  | _ => none

/-- **The invariant**: the lock is that of the calls, what a call has found is still known, and what has
ended has ended properly. -/
structure Serving (config : State Q) : Prop where
  resolves : ∀ proc ∈ config.procs, ∃ path, proc.call = .resolve path
  guarded : Guarded Proc.access config.mem.mutex config.procs
  claimed : Claimed Proc.access config.mem.mutex config.procs
  knows : ∀ proc ∈ config.procs, ∀ tc, toolchain proc = some tc → Knows config.mem.store tc
  proper : ∀ ended ∈ config.mem.returned, Proper ended

section Serving

variable {links : Resolution} {exec : Q} {event : Event Q} {mem mem' : Mem Q} {acting left : List (Proc Q)}
  {rest : Multiset (Proc Q)} {config : State Q}

theorem proper_ok {id : ℕ} {call : Call Q} {tc : Addr} :
    Proper (⟨id, call, false, .ok tc⟩ : Return Q) := ⟨.inl ⟨tc, rfl⟩, nofun⟩

theorem proper_status {id : ℕ} {call : Call Q} {code : Code} {text : GoString} :
    Proper (⟨id, call, false, .status code text⟩ : Return Q) := ⟨.inr ⟨code, text, rfl⟩, nofun⟩

theorem proper_returns {id : ℕ} {path : GoString} (result : Except GoError Addr) :
    Proper (⟨id, .resolve path, false, (Call.resolve path : Call Q).returns result⟩ : Return Q) := by
  cases result with
  | ok tc => exact proper_ok
  | error err => exact proper_status

/-- A step is checked on the call that acts: what it has found, whether the store keeps what it has, and
how it ends. -/
theorem Serving.fire (serving : Serving ⟨mem, ↑acting + rest⟩)
    (act : Act links exec event mem acting mem' left)
    (resolves : ∀ proc ∈ left, ∃ path, proc.call = .resolve path)
    (keeps : Keeps mem.store mem'.store)
    (knows : ∀ proc ∈ left, ∀ tc, toolchain proc = some tc → Knows mem'.store tc)
    (returned : mem'.returned = mem.returned ∨
      ∃ ended, Proper ended ∧ mem'.returned = ended :: mem.returned) :
    Serving ⟨mem', ↑left + rest⟩ := by
  obtain ⟨one, one', change⟩ := rule_change act
  refine ⟨forall_mem_fire serving.resolves (fun _ => resolves) fun _ _ => id,
    serving.guarded.change one one' change, serving.claimed.change serving.guarded one one' change,
    forall_mem_fire serving.knows (fun _ => knows) fun _ _ known tc has => (known tc has).keeps keeps, ?_⟩
  rcases returned with same | ⟨ended, proper, is⟩
  · exact fun ended member => serving.proper ended (same ▸ member)
  · intro another member
    rcases List.mem_cons.mp (is ▸ member) with rfl | member
    · exact proper
    · exact serving.proper another member

theorem serving_act (act : Act links exec event mem acting mem' left)
    (ok : Answering ⟨mem, ↑acting + rest⟩ event) (serving : Serving ⟨mem, ↑acting + rest⟩) :
    Serving ⟨mem', ↑left + rest⟩ := by
  have acts := act
  have calls : ∀ proc ∈ acting, ∃ path, proc.call = .resolve path := fun proc member =>
    serving.resolves proc (mem_of_acting member)
  have known : ∀ proc ∈ acting, ∀ tc, toolchain proc = some tc → Knows mem.store tc := fun proc member =>
    serving.knows proc (mem_of_acting member)
  have none : ∀ proc ∈ ([] : List (Proc Q)), ∃ path, proc.call = .resolve path := List.forall_mem_nil _
  cases act with
  | begin call =>
    cases call with
    | add path q => exact absurd ok id
    | resolve path =>
      exact serving.fire acts (List.forall_mem_singleton.mpr ⟨path, rfl⟩) (.refl _)
        (List.forall_mem_singleton.mpr nofun) (.inl rfl)
  | noPath =>
    exact serving.fire acts none (.refl _) (List.forall_mem_nil _) (.inr ⟨_, proper_status, rfl⟩)
  | @findLock _ _ path _ | @findFails _ _ path _ _ =>
    exact serving.fire acts (List.forall_mem_singleton.mpr ⟨path, rfl⟩) (.refl _)
      (List.forall_mem_singleton.mpr nofun) (.inl rfl)
  | @find mem id path tc found =>
    refine serving.fire acts (List.forall_mem_singleton.mpr ⟨path, rfl⟩) (.refl _)
      (List.forall_mem_singleton.mpr ?_) (.inl rfl)
    intro tc is
    obtain rfl := Option.some.inj is
    exact knows_of_find found
  | checkLock | absent | addLock =>
    have call := List.forall_mem_singleton.mp calls
    exact serving.fire acts (List.forall_mem_singleton.mpr call) (.refl _)
      (List.forall_mem_singleton.mpr nofun) (.inl rfl)
  | @present mem id call there =>
    obtain ⟨path, rfl⟩ : ∃ path, call = .resolve path := calls _ List.mem_cons_self
    exact serving.fire acts none (.refl _) (List.forall_mem_nil _) (.inr ⟨_, proper_status, rfl⟩)
  | @add mem id call answers =>
    obtain ⟨path, rfl⟩ : ∃ path, call = .resolve path := calls _ List.mem_cons_self
    have present : answers.gone = false := ok
    refine serving.fire acts none (keeps_addLocked _ _ _) (List.forall_mem_nil _)
      (.inr ⟨_, ?_, rfl⟩)
    rw [present]
    exact proper_returns _
  | @updateLock mem id path tc _ =>
    have knows := List.forall_mem_singleton.mp known
    exact serving.fire acts (List.forall_mem_singleton.mpr ⟨path, rfl⟩) (.refl _)
      (List.forall_mem_singleton.mpr knows) (.inl rfl)
  | @update mem id path tc answers =>
    have knows := List.forall_mem_singleton.mp known tc rfl
    obtain ⟨there, answering⟩ := ok
    obtain ⟨outcome, keeps⟩ := refresh_of_answering knows there answering
    refine serving.fire acts none keeps (List.forall_mem_nil _) (.inr ⟨_, ?_, rfl⟩)
    rw [there, outcome]
    exact proper_ok

theorem serving_step {next : State Q} (serving : Serving config) (ok : Answering config event)
    (step : Step (Serve exec) config event next) : Serving next := by
  cases step with
  | fire rest fires =>
    obtain ⟨links, act⟩ := fires
    exact serving_act act ok serving

end Serving

/-! ### The end of a call -/

def stepsLeft (proc : Proc Q) : ℕ :=
  match proc.phase with
  | .called => 6
  | .finding => 5
  | .unchecked => 4
  | .checking => 3
  | .passed => 2
  | .adding => 1
  | .found _ => 2
  | .updating _ => 1

def unchanged (modTime : Time) : Answers where
  version := ([], none)
  targetArch := ([], none)
  isPicDefault := (false, none)
  isPieDefault := (false, none)
  kind := (0, none)
  lang := (0, none)
  modTime := (modTime, none)

section Progress

variable {links : Resolution} {exec : Q} {event : Event Q} {mem mem' : Mem Q} {acting left : List (Proc Q)}
  {config : State Q}

theorem stepsLeft_lt (act : Act links exec event mem acting mem' left) (inner : Event.inner event) :
    total stepsLeft (↑left : Multiset (Proc Q)) < total stepsLeft (↑acting : Multiset (Proc Q)) := by
  cases act with
  | begin call => exact absurd inner id
  | noPath | findLock | find | findFails | checkLock | present | absent | addLock | add | updateLock
  | update => simp [stepsLeft]

def CanStep (exec : Q) (config : State Q) (proc : Proc Q) : Prop :=
  ∃ event mem' left, Act noLinks exec event config.mem [proc] mem' left ∧ Answering config event ∧
    Event.inner event

theorem canStep_of_access {id : ℕ} {path : GoString} {phase : Phase} {access : Mode × ℕ}
    (has : Proc.access (⟨id, .resolve path, phase⟩ : Proc Q) = some access) :
    CanStep exec config ⟨id, .resolve path, phase⟩ := by
  cases phase with
  | called | found | unchecked | passed => cases has
  | finding =>
    cases found : config.mem.store.find noLinks.evalPath path with
    | ok tc => exact ⟨_, _, _, .find found, trivial, trivial⟩
    | error err => exact ⟨_, _, _, .findFails found, trivial, trivial⟩
  | checking =>
    cases there : config.mem.store.contains noLinks.evalPath (noLinks.evalPath path) with
    | true => exact ⟨_, _, _, .present there, trivial, trivial⟩
    | false => exact ⟨_, _, _, .absent there, trivial, trivial⟩
  | adding => exact ⟨_, _, _, .add (unchanged 0), rfl, trivial⟩
  | updating tc =>
    cases stored : config.mem.store.toolchains (config.mem.store.objects tc).executable with
    | none =>
      refine ⟨_, _, _, .update (unchanged 0), ⟨rfl, fun data is => ?_⟩, trivial⟩
      cases stored.symm.trans is
    | some data =>
      refine ⟨_, _, _, .update (unchanged data.modTime), ⟨rfl, fun data' is changed => ?_⟩, trivial⟩
      obtain rfl := Option.some.inj (stored.symm.trans is)
      exact absurd rfl changed

theorem canStep_of_free (free : config.mem.mutex.Free) {id : ℕ} {path : GoString} {phase : Phase}
    (without : Proc.access (⟨id, .resolve path, phase⟩ : Proc Q) = none) :
    CanStep exec config ⟨id, .resolve path, phase⟩ := by
  cases phase with
  | finding | checking | adding | updating => exact absurd without nofun
  | called =>
    by_cases empty : path = []
    · subst empty
      exact ⟨_, _, _, .noPath, trivial, trivial⟩
    · exact ⟨_, _, _, .findLock free.1 empty, trivial, trivial⟩
  | found tc => exact ⟨_, _, _, .updateLock free, trivial, trivial⟩
  | unchecked => exact ⟨_, _, _, .checkLock free.1, trivial, trivial⟩
  | passed => exact ⟨_, _, _, .addLock free, trivial, trivial⟩

/-- **No deadlock**: some call has the lock and can go on, or nobody has it. -/
theorem Serving.exists_step (exec : Q) (serving : Serving config) (busy : config.procs ≠ 0) :
    ∃ event next, (Answering config event ∧ Event.inner event) ∧
      Step (Serve exec) config event next := by
  have able : ∃ proc ∈ config.procs, CanStep exec config proc := by
    by_cases held : ∃ proc ∈ config.procs, ∃ access, Proc.access proc = some access
    · obtain ⟨⟨id, call, phase⟩, member, access, has⟩ := held
      obtain ⟨path, rfl⟩ : ∃ path, call = .resolve path := serving.resolves _ member
      exact ⟨_, member, canStep_of_access has⟩
    · have without : ∀ proc ∈ config.procs, ∀ access, Proc.access proc ≠ some access :=
        fun proc member access has => held ⟨proc, member, access, has⟩
      have free := RWMutex.free_of_held fun access =>
        serving.claimed.held_eq_zero fun proc member => without proc member access
      obtain ⟨⟨id, call, phase⟩, member⟩ := Multiset.exists_mem_of_ne_zero busy
      obtain ⟨path, rfl⟩ : ∃ path, call = .resolve path := serving.resolves _ member
      exact ⟨_, member, canStep_of_free free
        (Option.eq_none_iff_forall_ne_some.mpr (without _ member))⟩
  obtain ⟨proc, member, event, mem', left, act, ok⟩ := able
  obtain ⟨next, step⟩ := Step.exists_of_le (Multiset.singleton_le.mpr member)
    (show Serve exec event config.mem [proc] mem' left from ⟨noLinks, act⟩)
  exact ⟨event, next, ok, step⟩

/-- **Requests are served**, in every run in which the compilers that are asked about are there, and
those that have changed answer. -/
theorem serves_of_answering {store : Store Q}
    (reach : Reach (Serve exec) Answering (start store) config) : Serves exec config := by
  have serving : Serving config := by
    refine reach.invariant _ ?_ fun serving ok step => serving_step serving ok step
    exact ⟨fun _ => nofun, fun _ => Nat.zero_le _, fun _ => (RWMutex.held_free _).le, fun _ => nofun,
      List.forall_mem_nil _⟩
  refine ⟨serving.proper, ?_⟩
  refine Inevitable.of_rank Serving (fun config => total stepsLeft config.procs) ?_
    (fun serving busy => serving.exists_step exec busy) serving
  intro config event next serving _ ok step
  refine ⟨serving_step serving ok.1 step, ?_⟩
  cases step with
  | fire rest fires =>
    obtain ⟨links, act⟩ := fires
    exact total_fire_lt (stepsLeft_lt act ok.2) rest

end Progress

/-! ### A compiler is deleted -/

def deleted : Answers :=
  { unchanged 0 with
    version := ([], some (.path (bytes "fork/exec /usr/bin/gcc: no such file or directory")))
    modTime := (0, some (.path (bytes "stat /usr/bin/gcc: no such file or directory"))) }

def useGcc : Call Unit := .resolve (bytes "/usr/bin/gcc")

/-- One request, while the compiler has not changed. -/
theorem serves_gcc : ∃ config : State Unit,
    Reach (Serve ()) Answering (start Store.gccStore) config ∧
      config.mem.returned.map Return.outcome = [.ok 0] ∧ Serves () config := by
  have h0 : Reach (Serve ()) Answering (start Store.gccStore)
      (.ofList (start Store.gccStore).mem []) := .start
  have h1 := h0.next [] [] ⟨noLinks, .begin useGcc⟩ trivial (by decide)
  have h2 := h1.next [⟨0, useGcc, .called⟩] [] ⟨noLinks, .findLock rfl (by decide)⟩ trivial (by decide)
  have h3 := h2.next [⟨0, useGcc, .finding⟩] [] ⟨noLinks, .find rfl⟩ trivial (by decide)
  have h4 := h3.next [⟨0, useGcc, .found 0⟩] [] ⟨noLinks, .updateLock ⟨rfl, rfl⟩⟩ trivial (by decide)
  have h5 := h4.next [⟨0, useGcc, .updating 0⟩] [] ⟨noLinks, .update (unchanged 1)⟩
    ⟨rfl, fun data is changed => absurd (congrArg ToolchainData.modTime (Option.some.inj is)) changed⟩
    (by decide)
  exact ⟨_, h5, rfl, serves_of_answering h5⟩

/-- **Two requests for a compiler that has been deleted**: the first one panics over the error, the
second one finds no data. **A request for a compiler that is deleted before it is added** returns
`codes.InvalidArgument`. -/
theorem request_panics :
    (∃ config : State Unit, Reach (Serve ()) OnlyResolves (start Store.gccStore) config ∧
      config.mem.returned.map Return.outcome = [.panicked, .panicked] ∧ ¬ Serves () config) ∧
    ∃ config : State Unit, Reach (Serve ()) OnlyResolves (start .new) config ∧
      (∃ ended ∈ config.mem.returned, ended.gone = true ∧
        ∃ text, ended.outcome = .status .invalidArgument text) ∧ ¬ Serves () config := by
  constructor
  · have h0 : Reach (Serve ()) OnlyResolves (start Store.gccStore)
        (.ofList (start Store.gccStore).mem []) := .start
    have h1 := h0.next [] [] ⟨noLinks, .begin useGcc⟩ trivial (by decide)
    have h2 := h1.next [] [⟨0, useGcc, .called⟩] ⟨noLinks, .begin useGcc⟩ trivial (by decide)
    have h3 := h2.next [⟨0, useGcc, .called⟩] [⟨1, useGcc, .called⟩]
      ⟨noLinks, .findLock rfl (by decide)⟩ trivial (by decide)
    have h4 := h3.next [⟨1, useGcc, .called⟩] [⟨0, useGcc, .finding⟩]
      ⟨noLinks, .findLock rfl (by decide)⟩ trivial (by decide)
    have h5 := h4.next [⟨0, useGcc, .finding⟩] [⟨1, useGcc, .finding⟩] ⟨noLinks, .find rfl⟩ trivial
      (by decide)
    have h6 := h5.next [⟨1, useGcc, .finding⟩] [⟨0, useGcc, .found 0⟩] ⟨noLinks, .find rfl⟩ trivial
      (by decide)
    have h7 := h6.next [⟨0, useGcc, .found 0⟩] [⟨1, useGcc, .found 0⟩]
      ⟨noLinks, .updateLock ⟨rfl, rfl⟩⟩ trivial (by decide)
    have h8 := h7.next [⟨0, useGcc, .updating 0⟩] [⟨1, useGcc, .found 0⟩]
      ⟨noLinks, .update deleted⟩ trivial (by decide)
    have h9 := h8.next [⟨1, useGcc, .found 0⟩] [] ⟨noLinks, .updateLock ⟨rfl, rfl⟩⟩ trivial (by decide)
    have h10 := h9.next [⟨1, useGcc, .updating 0⟩] [] ⟨noLinks, .update deleted⟩ trivial (by decide)
    refine ⟨_, h10, rfl, fun serves => ?_⟩
    obtain ⟨⟨_, is⟩ | ⟨_, _, is⟩, _⟩ := serves.proper _ List.mem_cons_self
    · exact absurd is nofun
    · exact absurd is nofun
  · have h0 : Reach (Serve ()) OnlyResolves (start .new) (.ofList (start (.new : Store Unit)).mem []) := .start
    have h1 := h0.next [] [] ⟨noLinks, .begin useGcc⟩ trivial (by decide)
    have h2 := h1.next [⟨0, useGcc, .called⟩] [] ⟨noLinks, .findLock rfl (by decide)⟩ trivial (by decide)
    have h3 := h2.next [⟨0, useGcc, .finding⟩] [] ⟨noLinks, .findFails rfl⟩ trivial (by decide)
    have h4 := h3.next [⟨0, useGcc, .unchecked⟩] [] ⟨noLinks, .checkLock rfl⟩ trivial (by decide)
    have h5 := h4.next [⟨0, useGcc, .checking⟩] [] ⟨noLinks, .absent rfl⟩ trivial (by decide)
    have h6 := h5.next [⟨0, useGcc, .passed⟩] [] ⟨noLinks, .addLock ⟨rfl, rfl⟩⟩ trivial (by decide)
    have h7 := h6.next [⟨0, useGcc, .adding⟩] [] ⟨noLinks, .add deleted⟩ trivial (by decide)
    refine ⟨_, h7, ⟨_, List.mem_cons_self, rfl, _, rfl⟩, fun serves => ?_⟩
    obtain ⟨_, notFound⟩ := serves.proper _ List.mem_cons_self
    obtain ⟨_, is⟩ := notFound rfl
    exact absurd is nofun

end Kubecc.Consumerd
