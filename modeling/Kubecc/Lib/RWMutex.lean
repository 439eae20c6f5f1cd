/-
**Reader-writer locks.**

A lock that one holder has for writing, or any number of holders have for reading (`RWMutex`); that it
is never both is a field of the structure. The lock is compared with a bag of processes, each of which
says what access it has (`name`):

* `Guarded` — every access that a process has is granted by the lock. A process that writes is then
  alone (`Guarded.alone`).
* `Claimed` — every access that the lock grants is that of some process.

A step is checked for either by what it does to the lock and to its own process (`Change`).
-/

import Kubecc.Lib.Process

namespace Kubecc.Lib

/-- The two ways to hold a lock. -/
inductive Mode
  | read
  | write
deriving DecidableEq

/-- **A reader-writer lock**, with its holders. A holder may read several times. -/
structure RWMutex (κ : Type) where
  writer : Option κ
  readers : Multiset κ
  exclusive : writer = none ∨ readers = 0

namespace RWMutex

variable {κ : Type}

/-- A lock that nobody holds. -/
def free : RWMutex κ := ⟨none, 0, .inl rfl⟩

/-- Nobody holds the lock, so that it may be taken for writing. -/
def Free (mutex : RWMutex κ) : Prop := mutex.writer = none ∧ mutex.readers = 0

/-- The lock is taken for writing. -/
def lock (mutex : RWMutex κ) (holder : κ) (free : mutex.Free) : RWMutex κ :=
  ⟨some holder, mutex.readers, .inr free.2⟩

/-- The writer lets go. -/
def unlock (mutex : RWMutex κ) : RWMutex κ := ⟨none, mutex.readers, .inl rfl⟩

/-- The lock is taken for reading. -/
def rlock (mutex : RWMutex κ) (holder : κ) (unwritten : mutex.writer = none) : RWMutex κ :=
  ⟨mutex.writer, holder ::ₘ mutex.readers, .inl unwritten⟩

variable [DecidableEq κ] {holder : κ} {mutex : RWMutex κ}

/-- A reader lets go. -/
def runlock (mutex : RWMutex κ) (holder : κ) : RWMutex κ where
  writer := mutex.writer
  readers := mutex.readers.erase holder
  exclusive := by
    rcases mutex.exclusive with none | none
    · exact .inl none
    · rw [none]
      exact .inr (Multiset.erase_zero holder)

/-- **How often an access is granted.** -/
def held (mutex : RWMutex κ) : Mode × κ → ℕ
  | (.read, holder) => mutex.readers.count holder
  | (.write, holder) => if mutex.writer = some holder then 1 else 0

theorem held_write (mutex : RWMutex κ) (holder : κ) :
    mutex.held (.write, holder) = if mutex.writer = some holder then 1 else 0 := rfl

@[simp] theorem held_free (access : Mode × κ) : (free : RWMutex κ).held access = 0 := by
  obtain ⟨_ | _, holder⟩ := access
  · exact Multiset.count_zero holder
  · rw [held_write]
    exact if_neg nofun

theorem held_write_le_one (mutex : RWMutex κ) (holder : κ) : mutex.held (.write, holder) ≤ 1 := by
  rw [held_write]
  split <;> omega

theorem writer_of_held (held : 0 < mutex.held (.write, holder)) : mutex.writer = some holder := by
  by_contra other
  rw [held_write, if_neg other] at held
  exact absurd held (lt_irrefl 0)

theorem mem_readers_of_held (held : 0 < mutex.held (.read, holder)) : holder ∈ mutex.readers :=
  Multiset.count_pos.mp held

/-- The holder has the lock, for reading or for writing. -/
def Holds (mutex : RWMutex κ) (holder : κ) : Prop := mutex.writer = some holder ∨ holder ∈ mutex.readers

theorem not_holds (none : ∀ mode, mutex.held (mode, holder) = 0) : ¬ mutex.Holds holder := by
  rintro (writes | reads)
  · have zero := none .write
    rw [held_write, if_pos writes] at zero
    exact absurd zero Nat.one_ne_zero
  · exact (Multiset.count_pos.mpr reads).ne' (none .read)

theorem free_of_held (none : ∀ access, mutex.held access = 0) : mutex.Free := by
  have unheld : ∀ holder, ¬ mutex.Holds holder := fun holder => not_holds fun mode => none (mode, holder)
  refine ⟨Option.eq_none_iff_forall_ne_some.mpr fun holder writes => unheld holder (.inl writes), ?_⟩
  exact Multiset.eq_zero_of_forall_notMem fun holder reads => unheld holder (.inr reads)

theorem held_lock (free : mutex.Free) (access : Mode × κ) : (mutex.lock holder free).held access =
      mutex.held access + if (Mode.write, holder) = access then 1 else 0 := by
  obtain ⟨_ | _, other⟩ := access
  · simp [lock, held]
  · simp [lock, held, free.1]

theorem held_rlock (unwritten : mutex.writer = none)
    (access : Mode × κ) : (mutex.rlock holder unwritten).held access =
      mutex.held access + if (Mode.read, holder) = access then 1 else 0 := by
  obtain ⟨_ | _, other⟩ := access
  · simp [rlock, held, Multiset.count_cons, eq_comm]
  · rw [if_neg nofun]
    rfl

theorem held_unlock (writes : mutex.writer = some holder) (access : Mode × κ) :
    mutex.held access = mutex.unlock.held access + if (Mode.write, holder) = access then 1 else 0 := by
  obtain ⟨_ | _, other⟩ := access
  · simp [unlock, held]
  · simp [unlock, held, writes]

theorem held_runlock (reads : holder ∈ mutex.readers) (access : Mode × κ) : mutex.held access =
      (mutex.runlock holder).held access + if (Mode.read, holder) = access then 1 else 0 := by
  obtain ⟨_ | _, other⟩ := access
  · simp only [runlock, held, Prod.mk.injEq, true_and]
    by_cases same : holder = other
    · subst same
      have positive := Multiset.count_pos.mpr reads
      rw [Multiset.count_erase_self, if_pos rfl]
      omega
    · rw [Multiset.count_erase_of_ne (Ne.symm same), if_neg same]
      rfl
  · rw [if_neg nofun]
    rfl

end RWMutex

/-! ### A lock and its processes -/

section Bag

variable {κ π : Type} [DecidableEq κ] {name : π → Option (Mode × κ)} {mutex mutex' : RWMutex κ}
  {procs rest : Multiset π} {procs' : List π} {proc : π} {holder : κ}

/-- **Every access that a process has is granted.** -/
def Guarded (name : π → Option (Mode × κ)) (mutex : RWMutex κ) (procs : Multiset π) : Prop :=
  ∀ access, total (tally name access) procs ≤ mutex.held access

/-- **Every access that is granted is that of a process.** -/
def Claimed (name : π → Option (Mode × κ)) (mutex : RWMutex κ) (procs : Multiset π) : Prop :=
  ∀ access, mutex.held access ≤ total (tally name access) procs

/-- What the first process of a list has. -/
def accessOf (name : π → Option (Mode × κ)) (procs : List π) : Option (Mode × κ) :=
  procs.head?.bind name

/-- The lock and the access of the one process that acts, before and after a step. -/
inductive Change : RWMutex κ → Option (Mode × κ) → RWMutex κ → Option (Mode × κ) → Prop
  | same {mutex : RWMutex κ} {access : Option (Mode × κ)} : Change mutex access mutex access
  | lock {mutex : RWMutex κ} {holder : κ} (free : mutex.Free) :
      Change mutex none (mutex.lock holder free) (some (.write, holder))
  | unlock {mutex : RWMutex κ} {holder : κ} :
      Change mutex (some (.write, holder)) mutex.unlock none
  | rlock {mutex : RWMutex κ} {holder : κ} (unwritten : mutex.writer = none) :
      Change mutex none (mutex.rlock holder unwritten) (some (.read, holder))
  | runlock {mutex : RWMutex κ} {holder : κ} :
      Change mutex (some (.read, holder)) (mutex.runlock holder) none

theorem total_tally_of_le_one (short : procs'.length ≤ 1) (access : Mode × κ) :
    total (tally name access) ↑procs' = if accessOf name procs' = some access then 1 else 0 := by
  match procs', short with
  | [], _ => exact (if_neg nofun).symm
  | [proc], _ =>
    rw [total_coe_cons, total_coe_nil, Nat.add_zero]
    rfl

/-- **The account of a change**: what the lock grants changes as what the process has, if it had what it
gives back. -/
theorem Change.account {before after : Option (Mode × κ)} (change : Change mutex before mutex' after)
    (granted : ∀ access, before = some access → 0 < mutex.held access) (access : Mode × κ) :
    mutex'.held access + (if before = some access then 1 else 0) =
      mutex.held access + if after = some access then 1 else 0 := by
  have nothing : ¬ (none : Option (Mode × κ)) = some access := nofun
  cases change with
  | same => rfl
  | lock free =>
    rw [RWMutex.held_lock, if_neg nothing]
    simp only [Option.some.injEq, Nat.add_zero]
  | unlock =>
    have writes := RWMutex.writer_of_held (granted _ rfl)
    rw [RWMutex.held_unlock writes access, if_neg nothing]
    simp only [Option.some.injEq, Nat.add_zero]
  | rlock unwritten =>
    rw [RWMutex.held_rlock, if_neg nothing]
    simp only [Option.some.injEq, Nat.add_zero]
  | runlock =>
    have reads := RWMutex.mem_readers_of_held (granted _ rfl)
    rw [RWMutex.held_runlock reads access, if_neg nothing]
    simp only [Option.some.injEq, Nat.add_zero]

theorem Guarded.held_pos (guarded : Guarded name mutex procs) {access : Mode × κ}
    (member : proc ∈ procs) (has : name proc = some access) : 0 < mutex.held access := by
  refine lt_of_lt_of_le ?_ (guarded access)
  refine total_pos_iff.mpr ⟨proc, member, ?_⟩
  rw [tally_of_eq_some has, if_pos rfl]
  exact Nat.one_pos

theorem Guarded.writer (guarded : Guarded name mutex procs)
    (member : proc ∈ procs) (has : name proc = some (.write, holder)) : mutex.writer = some holder :=
  RWMutex.writer_of_held (guarded.held_pos member has)

theorem Guarded.mem_readers (guarded : Guarded name mutex procs)
    (member : proc ∈ procs) (has : name proc = some (.read, holder)) : holder ∈ mutex.readers :=
  RWMutex.mem_readers_of_held (guarded.held_pos member has)

theorem Guarded.unwritten (guarded : Guarded name mutex procs)
    (member : proc ∈ procs) (has : name proc = some (.read, holder)) : mutex.writer = none := by
  have reads := guarded.mem_readers member has
  rcases mutex.exclusive with none | none
  · exact none
  · rw [none] at reads
    exact absurd reads (Multiset.notMem_zero holder)

/-- **A process that writes is alone.** -/
theorem Guarded.alone {proc other : π} (guarded : Guarded name mutex (↑[proc] + rest))
    (writes : name proc = some (.write, holder)) (member : other ∈ rest) : name other = none := by
  have here : proc ∈ (↑[proc] + rest : Multiset π) :=
    mem_acting
  have there : other ∈ (↑[proc] + rest : Multiset π) := mem_of_rest member
  have writer := guarded.writer here writes
  rcases has : name other with - | ⟨- | -, another⟩
  · rfl
  · exact absurd ((guarded.unwritten there has).symm.trans writer) nofun
  · obtain rfl : holder = another := Option.some.inj (writer.symm.trans (guarded.writer there has))
    have granted := (guarded (.write, holder)).trans (mutex.held_write_le_one holder)
    have counted := @weight_le_total _ (tally name (.write, holder)) _ _ member
    simp only [total_add, total_coe_cons, total_coe_nil, tally_of_eq_some writes, if_pos] at granted
    rw [tally_of_eq_some has, if_pos rfl] at counted
    omega

theorem Claimed.held_eq_zero (claimed : Claimed name mutex procs) {access : Mode × κ}
    (none : ∀ proc ∈ procs, name proc ≠ some access) : mutex.held access = 0 := by
  refine Nat.le_zero.mp ((claimed access).trans (Nat.le_zero.mpr ?_))
  exact total_eq_zero fun proc member => if_neg (none proc member)

/-! ### Steps -/

section Steps

variable {acting left : List π}

theorem Guarded.granted (guarded : Guarded name mutex (↑acting + rest)) {access : Mode × κ}
    (has : accessOf name acting = some access) : 0 < mutex.held access := by
  match acting, has with
  | proc :: _, has =>
    exact guarded.held_pos mem_acting has

/-- A step of one process, or of none, that changes the lock as it should. -/
theorem Guarded.change (guarded : Guarded name mutex (↑acting + rest)) (one : acting.length ≤ 1)
    (one' : left.length ≤ 1)
    (change : Change mutex (accessOf name acting) mutex' (accessOf name left)) :
    Guarded name mutex' (↑left + rest) := by
  intro access
  have before := guarded access
  have account := change.account (fun _ => guarded.granted) access
  rw [total_add, total_tally_of_le_one one] at before
  rw [total_add, total_tally_of_le_one one']
  omega

theorem Claimed.change (claimed : Claimed name mutex (↑acting + rest))
    (guarded : Guarded name mutex (↑acting + rest)) (one : acting.length ≤ 1)
    (one' : left.length ≤ 1)
    (change : Change mutex (accessOf name acting) mutex' (accessOf name left)) :
    Claimed name mutex' (↑left + rest) := by
  intro access
  have before := claimed access
  have account := change.account (fun _ => guarded.granted) access
  rw [total_add, total_tally_of_le_one one] at before
  rw [total_add, total_tally_of_le_one one']
  omega

/-- A process that ends, whatever it leaves behind. -/
theorem Guarded.abandon (guarded : Guarded name mutex (↑acting + rest)) :
    Guarded name mutex (↑([] : List π) + rest) := by
  intro access
  have before := guarded access
  rw [total_add] at before ⊢
  rw [total_coe_nil]
  omega

end Steps

end Bag

end Kubecc.Lib
