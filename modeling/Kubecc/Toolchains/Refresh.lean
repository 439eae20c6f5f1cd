/-
**What the store knows of a compiler.**

`Store` of `pkg/toolchains/store.go`: a map from executables to toolchains, each with the modification
time at which the compiler was queried. The map holds pointers. `Find` hands out the stored pointer,
`Items` and `ItemsList` hand out copies; `UpdateIfNeeded` writes what the compiler reports through the
pointer it is given, and the modification time into the map. So the toolchains are objects at addresses
here, and a caller's toolchain is an address.

A querier may answer anything, and differently at every call; it is asked each question at most once in
a call, so its behaviour in a call is a record of answers (`Answers`).

* `fillInfo_reports` — when no query fails, all five fields are those that were reported.
* `refreshes_iff` — when a refresh is all or nothing and reaches the store. Through the stored pointer
  it is not all or nothing, and through a copy it does not reach the store.
-/

import Kubecc.Types.Toolchain

namespace Kubecc.Toolchains

open Kubecc.Go Kubecc.Types

/-! ### Queriers -/

abbrev Time := Int

/-- An error: a `*fs.PathError`, another one, or one with a message put before it. -/
inductive GoError
  | path (text : GoString)
  | other (text : GoString)
  | withMessage (cause : GoError) (message : GoString)
deriving DecidableEq

/-- `err.Error()`. -/
def GoError.text : GoError → GoString
  | .path text | .other text => text
  | .withMessage cause message => message ++ bytes ": " ++ cause.text

/-- `_, ok := err.(*fs.PathError)`. -/
def GoError.isPathError : GoError → Bool
  | .path _ => true
  | .other _ | .withMessage _ _ => false

/-- What a `Querier` answers about one compiler in the course of one call: a value and an error for
each question. -/
structure Answers where
  version : GoString × Option GoError
  targetArch : GoString × Option GoError
  isPicDefault : Bool × Option GoError
  isPieDefault : Bool × Option GoError
  kind : ToolchainKind × Option GoError
  lang : ToolchainLang × Option GoError
  modTime : Time × Option GoError

def Answers.gone (answers : Answers) : Bool := answers.modTime.2.any GoError.isPathError

/-- A question of `fillInfo`: the field that its answer is written to, its error, and the message for
this. -/
structure Query where
  write : Answers → Toolchain → Toolchain
  err : Answers → Option GoError
  message : GoString

/-- The questions of `fillInfo`, in order. -/
def fillQueries : List Query :=
  [⟨fun answers tc => { tc with targetArch := answers.targetArch.1 }, fun answers => answers.targetArch.2,
      bytes "Could not determine target arch"⟩,
    ⟨fun answers tc => { tc with version := answers.version.1 }, fun answers => answers.version.2,
      bytes "Could not determine target version"⟩,
    ⟨fun answers tc => { tc with picDefault := answers.isPicDefault.1 },
      fun answers => answers.isPicDefault.2, bytes "Could not determine compiler PIC defaults"⟩,
    ⟨fun answers tc => { tc with kind := answers.kind.1 }, fun answers => answers.kind.2,
      bytes "Could not determine compiler kind (gcc/clang)"⟩,
    ⟨fun answers tc => { tc with lang := answers.lang.1 }, fun answers => answers.lang.2,
      bytes "Could not determine compiler language (c/cxx/multi)"⟩]

/-- The questions one after the other. The value is written whether or not there is an error. -/
def fillLoop (answers : Answers) : List Query → Toolchain → Toolchain × Option GoError
  | [], tc => (tc, none)
  | query :: queries, tc =>
    match query.err answers with
    | some err => (query.write answers tc, some (.withMessage err query.message))
    | none => fillLoop answers queries (query.write answers tc)

/-- `fillInfo`: the toolchain as it is left, and the error. -/
def fillInfo (tc : Toolchain) (answers : Answers) : Toolchain × Option GoError :=
  fillLoop answers fillQueries tc

structure Reports (answers : Answers) (tc : Toolchain) : Prop where
  targetArch : tc.targetArch = answers.targetArch.1
  version : tc.version = answers.version.1
  picDefault : tc.picDefault = answers.isPicDefault.1
  kind : tc.kind = answers.kind.1
  lang : tc.lang = answers.lang.1

variable {answers : Answers}

theorem fillLoop_ok {queries : List Query} {tc : Toolchain}
    (ok : (fillLoop answers queries tc).2 = none) :
    (fillLoop answers queries tc).1 = queries.foldl (fun tc query => query.write answers tc) tc := by
  induction queries generalizing tc with
  | nil => rfl
  | cons query queries ih =>
    cases failed : query.err answers with
    | some err => simp only [fillLoop, failed, reduceCtorEq] at ok
    | none =>
      simp only [fillLoop, failed] at ok ⊢
      exact ih ok

theorem fillLoop_keeps {β : Type} (field : Toolchain → β) {queries : List Query}
    (keeps : ∀ query ∈ queries, ∀ tc, field (query.write answers tc) = field tc) (tc : Toolchain) :
    field (fillLoop answers queries tc).1 = field tc := by
  induction queries generalizing tc with
  | nil => rfl
  | cons query queries ih =>
    obtain ⟨here, later⟩ := List.forall_mem_cons.mp keeps
    cases failed : query.err answers with
    | some err =>
      simp only [fillLoop, failed]
      exact here tc
    | none =>
      simp only [fillLoop, failed]
      exact (ih later _).trans (here tc)

theorem fillInfo_executable (tc : Toolchain) (answers : Answers) :
    (fillInfo tc answers).1.executable = tc.executable :=
  fillLoop_keeps Toolchain.executable (by simp [fillQueries]) tc

theorem fillInfo_pieDefault (tc : Toolchain) (answers : Answers) :
    (fillInfo tc answers).1.pieDefault = tc.pieDefault :=
  fillLoop_keeps Toolchain.pieDefault (by simp [fillQueries]) tc

theorem fillInfo_reports {tc : Toolchain} (ok : (fillInfo tc answers).2 = none) :
    Reports answers (fillInfo tc answers).1 := by
  have filled := fillLoop_ok ok
  rw [fillInfo, filled]
  exact ⟨rfl, rfl, rfl, rfl, rfl⟩

/-! ### The store -/

/-- The address of a `types.Toolchain`. -/
abbrev Addr := ℕ

structure ToolchainData (Q : Type) where
  toolchain : Addr
  modTime : Time
  querier : Q
deriving DecidableEq

/-- **`Store`**, and the toolchains in the memory around it. A stored toolchain is stored under its own
executable. -/
structure Store (Q : Type) where
  toolchains : GoString → Option (ToolchainData Q)
  objects : Addr → Toolchain
  allocated : Addr
  sound : ∀ executable data, toolchains executable = some data →
    data.toolchain < allocated ∧ (objects data.toolchain).executable = executable

namespace Store

variable {Q : Type} {addr : Addr} {evalPath : GoString → GoString} {store : Store Q}

def new : Store Q where
  toolchains := fun _ => none
  objects := fun _ => ⟨0, 0, [], [], [], false, false⟩
  allocated := 0
  sound := fun _ _ => nofun

/-- A toolchain is put at a new address. -/
def alloc (store : Store Q) (tc : Toolchain) : Store Q where
  toolchains := store.toolchains
  objects := Function.update store.objects store.allocated tc
  allocated := store.allocated + 1
  sound := by
    intro executable data stored
    obtain ⟨old, same⟩ := store.sound executable data stored
    refine ⟨Nat.lt_succ_of_lt old, ?_⟩
    rw [Function.update_of_ne old.ne]
    exact same

/-- `s.toolchains[executable] = &toolchainData{…}`, for a toolchain at a new address. -/
def insert (store : Store Q) (executable : GoString) (tc : Toolchain)
    (same : tc.executable = executable) (modTime : Time) (querier : Q) : Store Q where
  toolchains :=
    Function.update store.toolchains executable (some ⟨store.allocated, modTime, querier⟩)
  objects := (store.alloc tc).objects
  allocated := (store.alloc tc).allocated
  sound := by
    intro other data stored
    by_cases here : other = executable
    · rw [here, Function.update_self] at stored
      obtain rfl := Option.some.inj stored
      refine ⟨Nat.lt_succ_self _, ?_⟩
      rw [here, ← same]
      exact congrArg Toolchain.executable (Function.update_self _ _ _)
    · rw [Function.update_of_ne here] at stored
      exact (store.alloc tc).sound other data stored

/-- `delete(s.toolchains, executable)`. -/
def delete (store : Store Q) (executable : GoString) : Store Q where
  toolchains := Function.update store.toolchains executable none
  objects := store.objects
  allocated := store.allocated
  sound := by
    intro other data stored
    by_cases here : other = executable
    · rw [here, Function.update_self] at stored
      exact absurd stored nofun
    · rw [Function.update_of_ne here] at stored
      exact store.sound other data stored

/-- The fields of a toolchain are assigned, all but the executable. -/
def assign (store : Store Q) (addr : Addr) (tc : Toolchain)
    (same : tc.executable = (store.objects addr).executable) : Store Q where
  toolchains := store.toolchains
  objects := Function.update store.objects addr tc
  allocated := store.allocated
  sound := by
    intro executable data stored
    obtain ⟨old, is⟩ := store.sound executable data stored
    refine ⟨old, ?_⟩
    by_cases here : data.toolchain = addr
    · rw [here, Function.update_self, same, ← here]
      exact is
    · rw [Function.update_of_ne here]
      exact is

/-- `data.modTime = timestamp`. -/
def setModTime (store : Store Q) (executable : GoString) (timestamp : Time) : Store Q where
  toolchains := Function.update store.toolchains executable
    ((store.toolchains executable).map fun data => { data with modTime := timestamp })
  objects := store.objects
  allocated := store.allocated
  sound := by
    intro other data stored
    by_cases here : other = executable
    · rw [here, Function.update_self] at stored
      obtain ⟨old, there, rfl⟩ := Option.map_eq_some_iff.mp stored
      rw [here]
      exact store.sound executable old there
    · rw [Function.update_of_ne here] at stored
      exact store.sound other data stored

/-- The stored toolchain of an executable and its modification time. -/
def entry (store : Store Q) (executable : GoString) : Option (Toolchain × Time) :=
  (store.toolchains executable).map fun data => (store.objects data.toolchain, data.modTime)

section Calls

-- `filepath.EvalSymlinks`, or the path itself where this fails
variable (evalPath : GoString → GoString)
-- what a querier answers at present
variable (ask : Q → GoString → Answers)

def contains (store : Store Q) (executable : GoString) : Bool :=
  (store.toolchains (evalPath executable)).isSome

/-- What `Add` does with the store locked. -/
def addLocked (store : Store Q) (executable : GoString) (q : Q) : Store Q × Except GoError Addr :=
  let answers := ask q executable
  let tc : Toolchain := ⟨0, 0, executable, [], [], false, false⟩
  match (fillInfo tc answers).2 with
  | some err => (store, .error err)
  | none =>
    match answers.modTime.2 with
    | some err =>
      (store, .error (.withMessage err (bytes "Could not determine compiler modification time")))
    | none =>
      (store.insert executable (fillInfo tc answers).1 (fillInfo_executable tc answers)
        answers.modTime.1 q, .ok store.allocated)

def add (store : Store Q) (path : GoString) (q : Q) : Store Q × Except GoError Addr :=
  let executable := evalPath path
  if store.contains evalPath executable then
    (store, .error (.other (bytes "Tried to add an already existing toolchain")))
  else store.addLocked ask executable q

def find (store : Store Q) (executable : GoString) : Except GoError Addr :=
  match store.toolchains executable with
  | some data => .ok data.toolchain
  | none =>
    match store.toolchains (evalPath executable) with
    | some data => .ok data.toolchain
    | none => .error (.other (bytes "Toolchain not found"))

/-- `ItemsList` and `Items`, if the map is walked in this order: the copies. -/
def itemsList (store : Store Q) : List GoString → Store Q × List Addr
  | [] => (store, [])
  | executable :: order =>
    match store.toolchains executable with
    | none => store.itemsList order
    | some data =>
      let copied := (store.alloc (store.objects data.toolchain)).itemsList order
      (copied.1, store.allocated :: copied.2)

/-- **`UpdateIfNeeded`**: the two results. There is no data for a toolchain that is not in the map, and
to read a field of it is a run-time panic. -/
def updateIfNeeded (store : Store Q) (tc : Addr) : Option (Store Q × Option GoError × Bool) :=
  let executable := (store.objects tc).executable
  match store.toolchains executable with
  | none => none
  | some data =>
    let answers := ask data.querier executable
    -- the executable no longer exists; any other error of `ModTime` is passed over
    if answers.gone then some (store.delete executable, answers.modTime.2, true)
    else if answers.modTime.1 ≠ data.modTime then
      let filled := fillInfo (store.objects tc) answers
      let store := store.assign tc filled.1 (fillInfo_executable _ answers)
      match filled.2 with
      | some err => some (store, some err, true)
      | none => some (store.setModTime executable answers.modTime.1, none, true)
    else some (store, none, false)

/-- **The ways to come by a toolchain**: from `Find`, or as a copy of one that is stored, made just now
or earlier. -/
inductive Obtained (store : Store Q) : Addr → Prop
  | found {path : GoString} {addr : Addr} : store.find evalPath path = .ok addr → Obtained store addr
  | copied {addr : Addr} {data : ToolchainData Q} :
      store.toolchains (store.objects addr).executable = some data → addr ≠ data.toolchain →
      Obtained store addr

end Calls

/-! ### What is handed out -/

/-- The two ways in which `Add` ends once it has the lock: nothing changes, or the store has a new entry
for what the compiler reports. -/
theorem addLocked_cases (ask : Q → GoString → Answers) (store : Store Q) (executable : GoString) (q : Q) :
    (∃ err, store.addLocked ask executable q = (store, .error err)) ∨
      ∃ tc same, Reports (ask q executable) tc ∧ tc.pieDefault = false ∧
        store.addLocked ask executable q =
          (store.insert executable tc same (ask q executable).modTime.1 q, .ok store.allocated) := by
  dsimp only [addLocked]
  split
  · exact .inl ⟨_, rfl⟩
  · rename_i ok
    split
    · exact .inl ⟨_, rfl⟩
    · exact .inr ⟨_, fillInfo_executable _ _, fillInfo_reports ok, fillInfo_pieDefault _ _, rfl⟩

theorem reports_of_add {ask : Q → GoString → Answers} {store store' : Store Q} {path : GoString} {q : Q}
    (added : store.add evalPath ask path q = (store', .ok addr)) :
    Reports (ask q (evalPath path)) (store'.objects addr) ∧
      (store'.objects addr).pieDefault = false := by
  dsimp only [add] at added
  split at added
  · exact absurd (congrArg Prod.snd added) nofun
  · rcases addLocked_cases ask store (evalPath path) q with ⟨err, fails⟩ | ⟨tc, same, reports, noPie, adds⟩
    · exact absurd (congrArg Prod.snd (fails.symm.trans added)) nofun
    · obtain ⟨rfl, is⟩ := Prod.mk.inj (adds.symm.trans added)
      obtain rfl := Except.ok.inj is
      have object : (store.insert (evalPath path) tc same (ask q (evalPath path)).modTime.1 q).objects
          store.allocated = tc := Function.update_self _ _ _
      rw [object]
      exact ⟨reports, noPie⟩

theorem exists_of_find {path : GoString} (found : store.find evalPath path = .ok addr) :
    ∃ executable data, store.toolchains executable = some data ∧ data.toolchain = addr := by
  unfold find at found
  split at found
  · exact ⟨path, _, ‹_›, Except.ok.inj found⟩
  · split at found
    · exact ⟨evalPath path, _, ‹_›, Except.ok.inj found⟩
    · exact absurd found nofun

theorem Obtained.exists_data (obtained : Obtained evalPath store addr) :
    ∃ data, store.toolchains (store.objects addr).executable = some data := by
  cases obtained with
  | found found =>
    obtain ⟨executable, data, stored, rfl⟩ := exists_of_find found
    rw [(store.sound executable data stored).2]
    exact ⟨data, stored⟩
  | copied stored _ => exact ⟨_, stored⟩

theorem itemsList_keeps (order : List GoString) (store : Store Q) :
    (store.itemsList order).1.toolchains = store.toolchains ∧
      ∀ addr < store.allocated, (store.itemsList order).1.objects addr = store.objects addr := by
  induction order generalizing store with
  | nil => exact ⟨rfl, fun _ _ => rfl⟩
  | cons executable order ih =>
    unfold itemsList
    split
    · exact ih store
    · obtain ⟨same, kept⟩ := ih (store.alloc _)
      refine ⟨same, fun addr old => ?_⟩
      rw [kept addr (Nat.lt_succ_of_lt old)]
      exact Function.update_of_ne old.ne _ _

theorem obtained_of_mem_itemsList (evalPath : GoString → GoString) {order : List GoString}
    (member : addr ∈ (store.itemsList order).2) :
    Obtained evalPath (store.itemsList order).1 addr := by
  induction order generalizing store with
  | nil => exact absurd member List.not_mem_nil
  | cons executable order ih =>
    unfold itemsList at member ⊢
    split at member
    · exact ih member
    · rename_i data stored
      rcases List.mem_cons.mp member with rfl | member
      · obtain ⟨same, kept⟩ := itemsList_keeps order (store.alloc (store.objects data.toolchain))
        obtain ⟨old, is⟩ := store.sound executable data stored
        have object : ((store.alloc (store.objects data.toolchain)).itemsList order).1.objects
            store.allocated = store.objects data.toolchain :=
          (kept _ (Nat.lt_succ_self _)).trans (Function.update_self _ _ _)
        refine .copied (?_ : _ = some data) old.ne'
        rw [object, is, same]
        exact stored
      · exact ih member

/-! ### A refresh -/

section Refresh

variable {evalPath : GoString → GoString} {ask : Q → GoString → Answers} {store : Store Q} {addr : Addr}
  {data : ToolchainData Q} {answers : Answers} {executable : GoString}

/-- What a refresh of the toolchain goes by: the data of its executable, and what the querier there
answers. -/
structure Asked (ask : Q → GoString → Answers) (store : Store Q) (addr : Addr) (data : ToolchainData Q)
    (answers : Answers) : Prop where
  stored : store.toolchains (store.objects addr).executable = some data
  answers : ask data.querier (store.objects addr).executable = answers

/-- **A refresh is all or nothing and reaches the store**: it returns; if it says that it has updated the
toolchain, the entry of the executable is what the querier reports now; and if it fails, with the
executable still there, the entry is what it was. -/
def Refreshes (ask : Q → GoString → Answers) (store : Store Q) (addr : Addr) : Prop :=
  ∃ data answers store' err updated, Asked ask store addr data answers ∧
    store.updateIfNeeded ask addr = some (store', err, updated) ∧
    (err = none → updated = true →
      ∃ tc, store'.entry (store.objects addr).executable = some (tc, answers.modTime.1) ∧
        Reports answers tc) ∧
    (err ≠ none → answers.gone = false →
      store'.entry (store.objects addr).executable = store.entry (store.objects addr).executable)

/-- The condition, for a compiler that is there and has a new modification time. If a query fails, and
the toolchain is the stored one, then the answers that were written are what is stored. If none fails,
and the toolchain is a copy, then the answers are what is stored. -/
def Coherent (ask : Q → GoString → Answers) (store : Store Q) (addr : Addr) : Prop :=
  ∀ data answers, Asked ask store addr data answers →
    answers.gone = false → answers.modTime.1 ≠ data.modTime →
      (addr = data.toolchain → (fillInfo (store.objects addr) answers).2 ≠ none →
        (fillInfo (store.objects addr) answers).1 = store.objects addr) ∧
      (addr ≠ data.toolchain → (fillInfo (store.objects addr) answers).2 = none →
        Reports answers (store.objects data.toolchain))

theorem Asked.unique {data' : ToolchainData Q} {answers' : Answers}
    (asked : Asked ask store addr data answers) (asked' : Asked ask store addr data' answers') :
    data' = data ∧ answers' = answers := by
  obtain rfl : data' = data := Option.some.inj (asked'.stored.symm.trans asked.stored)
  exact ⟨rfl, asked'.answers.symm.trans asked.answers⟩

theorem entry_of_some (stored : store.toolchains executable = some data) :
    store.entry executable = some (store.objects data.toolchain, data.modTime) := by
  rw [entry, stored]
  rfl

theorem entry_assign {tc : Toolchain} {same : tc.executable = (store.objects addr).executable}
    (stored : store.toolchains executable = some data) :
    (store.assign addr tc same).entry executable =
      some (if data.toolchain = addr then tc else store.objects data.toolchain, data.modTime) := by
  have kept : (store.assign addr tc same).toolchains executable = some data := stored
  rw [entry_of_some kept]
  congr 2
  exact Function.update_apply _ _ _ _

theorem entry_setModTime {tc : Toolchain} {modTime : Time}
    (stored : store.entry executable = some (tc, modTime)) (timestamp : Time) :
    (store.setModTime executable timestamp).entry executable = some (tc, timestamp) := by
  obtain ⟨data, there, is⟩ := Option.map_eq_some_iff.mp stored
  obtain ⟨rfl, rfl⟩ := Prod.mk.inj is
  have set : (store.setModTime executable timestamp).toolchains executable =
      some { data with modTime := timestamp } := by
    simp only [setModTime, Function.update_self, there, Option.map_some]
  rw [entry_of_some set]
  rfl

theorem Asked.refreshes (asked : Asked ask store addr data answers)
    (unwritten : answers.gone = true ∨ answers.modTime.1 = data.modTime) :
    Refreshes ask store addr := by
  by_cases gone : answers.gone = true
  · refine ⟨data, answers, store.delete (store.objects addr).executable, answers.modTime.2, true, asked,
      ?_, fun none => ?_, fun _ there => absurd (gone.symm.trans there) nofun⟩
    · simp only [updateIfNeeded, asked.stored, asked.answers, gone, if_true]
    · rw [Answers.gone, none] at gone
      exact absurd gone nofun
  · have same := unwritten.resolve_left gone
    refine ⟨data, answers, store, none, false, asked, ?_, fun _ => nofun, fun failed => absurd rfl failed⟩
    simp only [updateIfNeeded, asked.stored, asked.answers, gone, same, ne_eq, not_true_eq_false,
      if_false, Bool.false_eq_true]

/-- The toolchain after a refresh that writes to it. -/
def filled (store : Store Q) (addr : Addr) (answers : Answers) : Store Q :=
  store.assign addr (fillInfo (store.objects addr) answers).1 (fillInfo_executable _ answers)

theorem Asked.updateIfNeeded_failed (asked : Asked ask store addr data answers)
    (there : answers.gone = false) (changed : answers.modTime.1 ≠ data.modTime) {err : GoError}
    (failed : (fillInfo (store.objects addr) answers).2 = some err) :
    store.updateIfNeeded ask addr = some (store.filled addr answers, some err, true) := by
  simp only [updateIfNeeded, asked.stored, asked.answers, there, changed, failed, ne_eq,
    not_false_eq_true, if_true, if_false, Bool.false_eq_true]
  rfl

theorem Asked.updateIfNeeded_ok (asked : Asked ask store addr data answers)
    (there : answers.gone = false) (changed : answers.modTime.1 ≠ data.modTime)
    (ok : (fillInfo (store.objects addr) answers).2 = none) :
    store.updateIfNeeded ask addr = some ((store.filled addr answers).setModTime
      (store.objects addr).executable answers.modTime.1, none, true) := by
  simp only [updateIfNeeded, asked.stored, asked.answers, there, changed, ok, ne_eq,
    not_false_eq_true, if_true, if_false, Bool.false_eq_true]
  rfl

theorem Asked.entry_filled (asked : Asked ask store addr data answers) :
    (store.filled addr answers).entry (store.objects addr).executable =
      some (if data.toolchain = addr then (fillInfo (store.objects addr) answers).1
        else store.objects data.toolchain, data.modTime) :=
  entry_assign asked.stored

theorem Asked.refreshes_iff_of_failed (asked : Asked ask store addr data answers)
    (there : answers.gone = false) (changed : answers.modTime.1 ≠ data.modTime) {err : GoError}
    (failed : (fillInfo (store.objects addr) answers).2 = some err) :
    Refreshes ask store addr ↔
      (addr = data.toolchain → (fillInfo (store.objects addr) answers).1 = store.objects addr) := by
  have returns := asked.updateIfNeeded_failed there changed failed
  constructor
  · rintro ⟨data', answers', store', err', updated, asked', returns', _, kept⟩ is
    obtain ⟨rfl, rfl⟩ := asked.unique asked'
    obtain ⟨rfl, rfl, rfl⟩ : store.filled addr _ = store' ∧ some err = err' ∧ true = updated := by
      simpa using returns.symm.trans returns'
    have same := kept nofun there
    rw [asked.entry_filled, if_pos is.symm, entry_of_some asked.stored, ← is] at same
    exact congrArg Prod.fst (Option.some.inj same)
  · intro unwritten
    refine ⟨data, answers, _, _, _, asked, returns, nofun, fun _ _ => ?_⟩
    rw [asked.entry_filled, entry_of_some asked.stored]
    split
    · rename_i is
      rw [unwritten is.symm, is]
    · rfl

theorem Asked.refreshes_iff_of_ok (asked : Asked ask store addr data answers)
    (there : answers.gone = false) (changed : answers.modTime.1 ≠ data.modTime)
    (ok : (fillInfo (store.objects addr) answers).2 = none) :
    Refreshes ask store addr ↔
      (addr ≠ data.toolchain → Reports answers (store.objects data.toolchain)) := by
  have returns := asked.updateIfNeeded_ok there changed ok
  have after := entry_setModTime asked.entry_filled answers.modTime.1
  constructor
  · rintro ⟨data', answers', store', err', updated, asked', returns', reports, _⟩ other
    obtain ⟨rfl, rfl⟩ := asked.unique asked'
    obtain ⟨rfl, rfl, rfl⟩ : (store.filled addr _).setModTime _ _ = store' ∧ none = err' ∧
        true = updated := by
      simpa using returns.symm.trans returns'
    obtain ⟨tc, entry, reports⟩ := reports rfl rfl
    rw [after, if_neg (Ne.symm other)] at entry
    obtain rfl : store.objects data'.toolchain = tc := congrArg Prod.fst (Option.some.inj entry)
    exact reports
  · intro reported
    refine ⟨data, answers, _, _, _, asked, returns, fun _ _ => ⟨_, after, ?_⟩, fun failed => absurd rfl failed⟩
    split
    · exact fillInfo_reports ok
    · rename_i other
      exact reported (Ne.symm other)

/-- **When a refresh is all or nothing and reaches the store**: exactly if the answers that are written
to the stored toolchain before a failure, or to a copy, are those that are stored already. -/
theorem refreshes_iff (obtained : Obtained evalPath store addr) :
    Refreshes ask store addr ↔ Coherent ask store addr := by
  obtain ⟨data, stored⟩ := obtained.exists_data
  obtain ⟨answers, asked⟩ : ∃ answers, Asked ask store addr data answers := ⟨_, stored, rfl⟩
  have unfolded : Coherent ask store addr ↔ (answers.gone = false → answers.modTime.1 ≠ data.modTime →
      (addr = data.toolchain → (fillInfo (store.objects addr) answers).2 ≠ none →
        (fillInfo (store.objects addr) answers).1 = store.objects addr) ∧
      (addr ≠ data.toolchain → (fillInfo (store.objects addr) answers).2 = none →
        Reports answers (store.objects data.toolchain))) := by
    refine ⟨fun coherent => coherent data answers asked, fun coherent data' answers' asked' => ?_⟩
    obtain ⟨rfl, rfl⟩ := asked.unique asked'
    exact coherent
  rw [unfolded]
  by_cases unwritten : answers.gone = true ∨ answers.modTime.1 = data.modTime
  · refine ⟨fun _ there changed => ?_, fun _ => asked.refreshes unwritten⟩
    rcases unwritten with gone | same
    · exact absurd (gone.symm.trans there) nofun
    · exact absurd same changed
  · obtain ⟨there, changed⟩ := not_or.mp unwritten
    have there := Bool.eq_false_iff.mpr there
    cases failed : (fillInfo (store.objects addr) answers).2 with
    | some err =>
      rw [asked.refreshes_iff_of_failed there changed failed]
      exact ⟨fun kept _ _ => ⟨fun is _ => kept is, fun _ => nofun⟩,
        fun coherent is => (coherent there changed).1 is nofun⟩
    | none =>
      rw [asked.refreshes_iff_of_ok there changed failed]
      exact ⟨fun reported _ _ => ⟨fun _ some => absurd rfl some, fun other _ => reported other⟩,
        fun coherent other => (coherent there changed).2 other rfl⟩

end Refresh

/-! ### An upgrade -/

def gccStore : Store Unit :=
  new.insert (bytes "/usr/bin/gcc")
    ⟨1, 1, bytes "/usr/bin/gcc", bytes "x86_64", bytes "10", false, false⟩ rfl 1 ()

def upgraded : Answers where
  version := (bytes "11", none)
  targetArch := (bytes "x86_64", none)
  isPicDefault := (false, none)
  isPieDefault := (false, none)
  kind := (1, none)
  lang := (1, none)
  modTime := (2, none)

/-- The same, but the new version cannot be run to find out about position-independent code. -/
def brokenUpgrade : Answers :=
  { upgraded with isPicDefault := (false, some (.other (bytes "exit status 1"))) }

theorem obtained_gcc : Obtained id gccStore 0 :=
  .found (show gccStore.find id (bytes "/usr/bin/gcc") = .ok 0 from rfl)

/-- An upgrade that is found through the stored toolchain. -/
theorem refreshes_upgrade : Obtained id gccStore 0 ∧ Refreshes (fun _ _ => upgraded) gccStore 0 := by
  refine ⟨obtained_gcc, (refreshes_iff obtained_gcc).mpr ?_⟩
  intro data answers asked _ _
  obtain rfl : _ = data := Option.some.inj asked.stored
  obtain rfl : _ = answers := asked.answers
  exact ⟨fun _ failed => absurd rfl failed, fun other => absurd rfl other⟩

/-- **A query fails, and the stored toolchain has the new version already**, with the old modification
time. **A copy is refreshed, and the store has the new modification time only**: the next call finds
nothing to do. -/
theorem refreshes_in_part :
    (Obtained id gccStore 0 ∧ ¬ Refreshes (fun _ _ => brokenUpgrade) gccStore 0) ∧
      Obtained id (gccStore.itemsList [bytes "/usr/bin/gcc"]).1 1 ∧
      ¬ Refreshes (fun _ _ => upgraded) (gccStore.itemsList [bytes "/usr/bin/gcc"]).1 1 := by
  refine ⟨⟨obtained_gcc, fun refreshes => ?_⟩,
    obtained_of_mem_itemsList id (List.mem_singleton_self _), fun refreshes => ?_⟩
  · have asked : Asked (fun _ _ => brokenUpgrade) gccStore 0 ⟨0, 1, ()⟩ brokenUpgrade := ⟨rfl, rfl⟩
    have same := (asked.refreshes_iff_of_failed rfl (by decide) rfl).mp refreshes rfl
    exact absurd (congrArg Toolchain.version same) (by decide)
  · have asked : Asked (fun _ _ => upgraded) (gccStore.itemsList [bytes "/usr/bin/gcc"]).1 1 ⟨0, 1, ()⟩
        upgraded := ⟨rfl, rfl⟩
    have reports := (asked.refreshes_iff_of_ok rfl (by decide) rfl).mp refreshes (by decide)
    exact absurd reports.version (by decide)

end Store

end Kubecc.Toolchains
