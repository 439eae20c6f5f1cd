/-
**Listeners converge to the stored value.**

`Listen` registers its stream, reads the stored value and sends it; a post swaps a value into the store
and then sends it to the registered streams. Both run with `providerMutex` locked for reading only, so
they interleave. Two orders go wrong for good, since a post of the stored value sends nothing: a late
join that reads before a swap and sends after the notification, and two notifications in the opposite
order of their swaps. The receivers are looked up by `Key.Canonical`, so a key with the same canonical
form as another one also disturbs the listeners of the other.

* `Converged` — the property: when no handler is in the middle of an operation, the last value sent to
  each registered listener is the stored one.
* `Calm` — the condition, on the state before each swap and each registration.
* `Kept` — the invariant: a listener that has not got the stored value is owed it by a notification or by
  its own late join (`Proc.Owes`), and whatever is still to be sent is the stored value (`Proc.Fine`).
* `converged_of_calm` — the property holds in every run all of whose steps meet the condition.
* `stale_late_join_runs` — a run that ends with a stale listener.
-/

import Kubecc.Monitor.Server

set_option linter.unusedSectionVars false

namespace Kubecc.Monitor

open Kubecc.Lib Kubecc.Go

section Property

variable {Value : Type}

def Mem.stored (mem : Mem Value) (key : Key) : Option Value :=
  (mem.buckets key.bucket).bind fun store => mem.stores store key.name

/-- A handler that is not in the middle of an operation: it is to begin, or waits for its stream. -/
def Proc.Idle (mem : Mem Value) (proc : Proc Value) : Prop :=
  match proc.phase with
  | .called | .receiving => True
  | .listening => mem.done proc.id = false ∧ mem.closed proc.store = false
  | _ => False

theorem Proc.idle_listening {mem : Mem Value} {id store : Nat} {handler : Handler Value}
    (alive : mem.done id = false) (opened : mem.closed store = false) :
    (Proc.mk id handler store .listening).Idle mem := ⟨alive, opened⟩

def Quiet (config : State Value) : Prop := ∀ proc ∈ config.procs, proc.Idle config.mem

def Converged (config : State Value) : Prop :=
  Quiet config → ∀ id key, (id, key) ∈ config.mem.listeners →
    ∀ value, config.mem.stored key = some value → (config.mem.sent id).head? = some value

/-- The key of a post between its swap and the end of its `notify`. -/
def Proc.announcing (proc : Proc Value) : Option Key :=
  match proc.phase with
  | .notifying key _ _ | .sending key _ _ _ => some key
  | _ => none

/-- The key of a `Listen` between its read and its send. -/
def Proc.lateJoin (proc : Proc Value) : Option Key :=
  match proc.phase, proc.handler with
  | .read _, .listen key => some key
  | _, _ => none

/-- The condition. When a value is swapped in, no other post with the canonical form of the key is being
announced, no `Listen` for the key is between its read and its send, and the listeners found under the
canonical form listen to this key. When a listener is registered, no post is being announced for another
key of the same canonical form. -/
def Calm (config : State Value) : Event Value → Prop
  | .cas key _ =>
    (∀ proc ∈ config.procs, ∀ other, proc.announcing = some other →
      other.canonical ≠ key.canonical) ∧
    (∀ proc ∈ config.procs, proc.lateJoin ≠ some key) ∧
    ∀ id other, (id, other) ∈ config.mem.listeners → other.canonical = key.canonical → other = key
  | .insert key => ∀ proc ∈ config.procs, ∀ other, proc.announcing = some other →
      other.canonical = key.canonical → key = other
  | _ => True

end Property

/-! ### The invariant -/

section Invariant

variable {Value : Type}

/-- The listener is registered and not yet removed. -/
def Phase.registered : Phase Value → Bool
  | .joining | .read _ | .joined | .listening | .removing _ | .removeLocked _ | .removeBoth _ => true
  | _ => false

/-- The process is the `Listen` of this entry. -/
def Proc.Owns (id : Nat) (key : Key) (proc : Proc Value) : Prop :=
  proc.id = id ∧ proc.handler = .listen key ∧ proc.phase.registered = true

/-- The process will send this value to this listener. -/
def Proc.Owes (id : Nat) (key : Key) (value : Value) (proc : Proc Value) : Prop :=
  match proc.phase with
  | .notifying other announced _ => other = key ∧ announced = value
  | .sending other announced todo _ => other = key ∧ announced = value ∧ id ∈ todo
  | .joining => proc.id = id ∧ proc.handler = .listen key
  | .read late => proc.id = id ∧ late = value
  | _ => False

/-- What is announced is the stored value, and goes to listeners of the key. -/
def Announced (mem : Mem Value) (key : Key) (value : Value) : Prop :=
  (∀ id other, (id, other) ∈ mem.listeners → other.canonical = key.canonical → other = key) ∧
    ∀ current, mem.stored key = some current → current = value

/-- What holds of a process: what it is still to send is the stored value; the store that a `Listen`
has found is that of its bucket. -/
def Proc.Fine (mem : Mem Value) (proc : Proc Value) : Prop :=
  match proc.phase, proc.handler with
  | .notifying key value _, _ => Announced mem key value
  | .sending key value todo _, _ => Announced mem key value ∧
      ∀ id ∈ todo, ∀ other, (id, other) ∈ mem.listeners → other.canonical = key.canonical
  | .inserting, .listen key | .insertLocked, .listen key | .joining, .listen key =>
    mem.buckets key.bucket = some proc.store
  | .read value, .listen key => mem.buckets key.bucket = some proc.store ∧
      ∀ current, mem.stored key = some current → current = value
  | _, _ => True

/-- The stores of the buckets are different ones, made so far. -/
structure Separate (mem : Mem Value) : Prop where
  created : ∀ name store, mem.buckets name = some store → store < mem.created
  apart : ∀ name other store, mem.buckets name = some store → mem.buckets other = some store →
    name = other

structure Kept (config : State Value) : Prop where
  separate : Separate config.mem
  fine : ∀ proc ∈ config.procs, proc.Fine config.mem
  owner : ∀ id key, (id, key) ∈ config.mem.listeners → ∃ proc ∈ config.procs, proc.Owns id key
  current : ∀ id key, (id, key) ∈ config.mem.listeners →
    ∀ value, config.mem.stored key = some value →
      (config.mem.sent id).head? = some value ∨ config.mem.done id = true ∨
        ∃ proc ∈ config.procs, proc.Owes id key value

variable {mem mem' : Mem Value} {proc next : Proc Value} {acting left : List (Proc Value)}
  {rest : Multiset (Proc Value)} {config : State Value} {key : Key} {value : Value} {after : After}

theorem Proc.fine_of_provider (free : proc.provider = none) : proc.Fine mem := by
  obtain ⟨id, handler, store, phase⟩ := proc
  cases phase with
  | notifying | sending | inserting | insertLocked | joining | read => exact absurd free nofun
  | _ => trivial

theorem Announced.mono (announced : Announced mem key value)
    (listeners : ∀ entry ∈ mem'.listeners, entry ∈ mem.listeners)
    (stored : ∀ value, mem'.stored key = some value → mem.stored key = some value) :
    Announced mem' key value :=
  ⟨fun id other there => announced.1 id other (listeners _ there),
    fun current there => announced.2 current (stored current there)⟩

theorem Proc.Fine.mono (fine : proc.Fine mem) (buckets : mem'.buckets = mem.buckets)
    (listeners : ∀ entry ∈ mem'.listeners, entry ∈ mem.listeners)
    (stored : ∀ key value, proc.announcing = some key ∨ proc.lateJoin = some key →
      mem'.stored key = some value → mem.stored key = some value) : proc.Fine mem' := by
  obtain ⟨id, handler, store, phase⟩ := proc
  cases phase with
  | notifying key value after =>
    exact Announced.mono fine listeners fun value => stored key value (.inl rfl)
  | sending key value todo after =>
    refine ⟨fine.1.mono listeners fun value => stored key value (.inl rfl), fun id member other there => ?_⟩
    exact fine.2 id member other (listeners _ there)
  | inserting | insertLocked | joining =>
    cases handler with
    | listen key => exact (congrFun buckets key.bucket).trans fine
    | _ => trivial
  | read value =>
    cases handler with
    | listen key =>
      refine ⟨(congrFun buckets key.bucket).trans fine.1, fun current there => ?_⟩
      exact fine.2 current (stored key current (.inr rfl) there)
    | _ => trivial
  | _ => trivial

/-- **The step lemma in general**, for a step by which no value is stored. -/
theorem Kept.change (kept : Kept ⟨mem, ↑acting + rest⟩) (separate : Separate mem')
    (others : ∀ proc ∈ rest, proc.Fine mem → proc.Fine mem')
    (listeners : ∀ entry ∈ mem'.listeners, entry ∈ mem.listeners)
    (stored : ∀ key value, mem'.stored key = some value → mem.stored key = some value)
    (done : ∀ id, mem.done id = true → mem'.done id = true)
    (fine : (∀ proc ∈ acting, proc.Fine mem) → ∀ proc ∈ left, proc.Fine mem')
    (owns : ∀ id key, (id, key) ∈ mem'.listeners → ∀ proc ∈ acting, proc.Owns id key →
      ∃ proc ∈ left, proc.Owns id key)
    (last : ∀ id key value, (id, key) ∈ mem.listeners → mem.stored key = some value →
      (mem.sent id).head? = some value → (mem'.sent id).head? = some value)
    (owes : ∀ id key value, (id, key) ∈ mem.listeners → mem.stored key = some value →
      ∀ proc ∈ acting, proc.Owes id key value →
        (mem'.sent id).head? = some value ∨ mem'.done id = true ∨
          ∃ proc ∈ left, proc.Owes id key value) :
    Kept ⟨mem', ↑left + rest⟩ where
  separate := separate
  fine := forall_mem_fire kept.fine fine others
  owner id key there :=
    exists_mem_fire (kept.owner id key (listeners _ there)) (owns id key there) fun _ _ owns => owns
  current id key there value is := by
    have known := stored key value is
    rcases kept.current id key (listeners _ there) value known with sent | ended | ⟨proc, member, debt⟩
    · exact .inl (last id key value (listeners _ there) known sent)
    · exact .inr (.inl (done id ended))
    · rcases mem_fire.mp member with member | member
      · rcases owes id key value (listeners _ there) known proc member debt with
          sent | ended | ⟨next, member, debt⟩
        · exact .inl sent
        · exact .inr (.inl ended)
        · exact .inr (.inr ⟨next, mem_of_acting member, debt⟩)
      · exact .inr (.inr ⟨proc, mem_of_rest member, debt⟩)

/-- The tables and the streams are those of the other memory. -/
structure Mem.Agrees (mem mem' : Mem Value) : Prop where
  buckets : mem'.buckets = mem.buckets
  stores : mem'.stores = mem.stores
  created : mem'.created = mem.created
  listeners : mem'.listeners = mem.listeners
  done : mem'.done = mem.done
  sent : mem'.sent = mem.sent

theorem Mem.Agrees.stored (agrees : mem.Agrees mem') (key : Key) : mem'.stored key = mem.stored key := by
  rw [Mem.stored, Mem.stored, agrees.buckets, agrees.stores]

theorem Mem.Agrees.separate (agrees : mem.Agrees mem') (separate : Separate mem) : Separate mem' where
  created name store there := by
    rw [agrees.buckets] at there
    rw [agrees.created]
    exact separate.created name store there
  apart := by
    rw [agrees.buckets]
    exact separate.apart

theorem Mem.Agrees.fine (agrees : mem.Agrees mem') (fine : proc.Fine mem) : proc.Fine mem' := by
  refine fine.mono agrees.buckets (fun entry there => ?_) fun key value _ there => ?_
  · rwa [agrees.listeners] at there
  · rwa [agrees.stored key] at there

theorem Kept.move (kept : Kept ⟨mem, ↑acting + rest⟩) (agrees : mem.Agrees mem')
    (fine : (∀ proc ∈ acting, proc.Fine mem) → ∀ proc ∈ left, proc.Fine mem)
    (owns : ∀ id key, ∀ proc ∈ acting, proc.Owns id key → ∃ proc ∈ left, proc.Owns id key)
    (owes : ∀ id key value, (id, key) ∈ mem.listeners → mem.stored key = some value →
      ∀ proc ∈ acting, proc.Owes id key value →
        mem.done id = true ∨ ∃ proc ∈ left, proc.Owes id key value) :
    Kept ⟨mem', ↑left + rest⟩ := by
  refine kept.change (agrees.separate kept.separate) (fun _ _ => agrees.fine) (fun entry there => ?_)
    (fun key value there => ?_) (fun id ended => ?_)
    (fun all proc member => agrees.fine (fine all proc member)) (fun id key _ => owns id key)
    (fun id key value _ _ sent => ?_) fun id key value there is proc member debt => ?_
  · rwa [agrees.listeners] at there
  · rwa [agrees.stored key] at there
  · rwa [agrees.done]
  · rwa [agrees.sent]
  · rw [agrees.done]
    exact .inr (owes id key value there is proc member debt)

/-- A process that is no registered listener and owes nothing. -/
structure Proc.Free (proc : Proc Value) : Prop where
  unregistered : proc.phase.registered = false
  nothing : ∀ id key value, ¬ proc.Owes id key value

theorem Proc.Free.owns (free : proc.Free) (id : Nat) (key : Key) :
    ∀ other ∈ [proc], other.Owns id key → ∃ proc ∈ left, proc.Owns id key := by
  intro other member owns
  obtain rfl := List.mem_singleton.mp member
  exact absurd (owns.2.2.symm.trans free.unregistered) nofun

theorem Proc.Free.owes (free : proc.Free) (id : Nat) (key : Key) (value : Value) :
    ∀ other ∈ [proc], other.Owes id key value → ∃ proc ∈ left, proc.Owes id key value := by
  intro other member debt
  obtain rfl := List.mem_singleton.mp member
  exact absurd debt (free.nothing id key value)

theorem Kept.free (kept : Kept ⟨mem, ↑[proc] + rest⟩) (free : proc.Free) (agrees : mem.Agrees mem')
    (fine : proc.Fine mem → ∀ next ∈ left, next.Fine mem) : Kept ⟨mem', ↑left + rest⟩ :=
  kept.move agrees (fun all => fine (all _ List.mem_cons_self)) free.owns
    fun id key value _ _ proc member debt => .inr (free.owes id key value proc member debt)

theorem Kept.listener (kept : Kept ⟨mem, ↑[proc] + rest⟩) (agrees : mem.Agrees mem')
    (fine : next.Fine mem) (same : next.id = proc.id) (handler : next.handler = proc.handler)
    (registered : next.phase.registered = true)
    (owes : ∀ id key value, mem.stored key = some value → proc.Owes id key value →
      mem.done id = true ∨ next.Owes id key value) : Kept ⟨mem', ↑[next] + rest⟩ := by
  refine kept.move agrees (fun _ => List.forall_mem_singleton.mpr fine) (fun id key other member owns => ?_)
    fun id key value _ is other member debt => ?_
  · obtain rfl := List.mem_singleton.mp member
    exact ⟨next, List.mem_cons_self, same.trans owns.1, handler.trans owns.2.1, registered⟩
  · obtain rfl := List.mem_singleton.mp member
    rcases owes id key value is debt with ended | debt
    · exact .inl ended
    · exact .inr ⟨next, List.mem_cons_self, debt⟩

/-! ### The steps that matter -/

theorem Mem.sent_send_self (receiver : Nat) (value : Value) :
    (mem.send receiver value).sent receiver = value :: mem.sent receiver :=
  Function.update_self receiver _ mem.sent

theorem Mem.sent_send_of_ne {id receiver : Nat} (ne : id ≠ receiver) (value : Value) :
    (mem.send receiver value).sent id = mem.sent id :=
  Function.update_of_ne ne _ mem.sent

theorem Kept.sent {receiver : Nat} (kept : Kept ⟨mem, ↑[proc] + rest⟩)
    (fine : next.Fine mem) (owns : ∀ id key, proc.Owns id key → next.Owns id key)
    (receives : ∀ key current, (receiver, key) ∈ mem.listeners → mem.stored key = some current →
      current = value)
    (owes : ∀ id key current, proc.Owes id key current → id = receiver ∧ current = value ∨
      next.Owes id key current) : Kept ⟨mem.send receiver value, ↑[next] + rest⟩ := by
  have head : ((mem.send receiver value).sent receiver).head? = some value := by
    rw [Mem.sent_send_self, List.head?_cons]
  refine kept.change ⟨kept.separate.created, kept.separate.apart⟩
    (fun _ _ fine => fine.mono rfl (fun _ => id) fun _ _ _ => id) (fun _ => id) (fun _ _ => id)
    (fun _ => id) (fun _ => ?_) (fun id key _ other member is => ?_) (fun id key current there is sent => ?_)
    fun id key current _ _ other member debt => ?_
  · exact List.forall_mem_singleton.mpr (fine.mono rfl (fun _ => id) fun _ _ _ => id)
  · obtain rfl := List.mem_singleton.mp member
    exact ⟨next, List.mem_cons_self, owns id key is⟩
  · by_cases same : id = receiver
    · subst same
      rw [head, receives key current there is]
    · rw [Mem.sent_send_of_ne same]
      exact sent
  · obtain rfl := List.mem_singleton.mp member
    rcases owes id key current debt with ⟨rfl, rfl⟩ | debt
    · exact .inl head
    · exact .inr (.inr ⟨next, List.mem_cons_self, debt⟩)

theorem Mem.stored_setStore (separate : Separate mem) {found : Nat}
    (there : mem.buckets key.bucket = some found) {data : Data Value}
    (elsewhere : ∀ name, name ≠ key.name → data name = mem.stores found name) (other : Key) :
    (mem.setStore found data).stored other = if other = key then data key.name else mem.stored other := by
  show (mem.buckets other.bucket).bind (fun store =>
    Function.update mem.stores found data store other.name) = _
  by_cases same : other = key
  · subst same
    rw [if_pos rfl, there, Option.bind_some, Function.update_self]
  · rw [if_neg same, Mem.stored]
    cases is : mem.buckets other.bucket with
    | none => rfl
    | some store =>
      rw [Option.bind_some, Option.bind_some]
      by_cases here : store = found
      · subst here
        have bucket := separate.apart _ _ _ is there
        have name : other.name ≠ key.name := fun name => same (by
          obtain ⟨_, _⟩ := other
          obtain ⟨_, _⟩ := key
          exact congrArg₂ Key.mk bucket name)
        rw [Function.update_self, elsewhere _ name]
      · rw [Function.update_of_ne here]

variable [DecidableEq Value]

theorem Kept.delete {found : Nat} (kept : Kept ⟨mem, ↑[proc] + rest⟩)
    (free : proc.Free) (there : mem.buckets key.bucket = some found)
    (fine : next.Fine (mem.setStore found (InMemoryStore.delete (mem.stores found) key.name))) :
    Kept ⟨mem.setStore found (InMemoryStore.delete (mem.stores found) key.name), ↑[next] + rest⟩ := by
  have stored : ∀ other value,
      (mem.setStore found (InMemoryStore.delete (mem.stores found) key.name)).stored other = some value →
      mem.stored other = some value := by
    intro other value is
    rw [Mem.stored_setStore kept.separate there fun name ne => Function.update_of_ne ne _ _] at is
    split at is
    · rw [InMemoryStore.delete, Function.update_self] at is
      exact absurd is nofun
    · exact is
  exact kept.change ⟨kept.separate.created, kept.separate.apart⟩
    (fun _ _ fine => fine.mono rfl (fun _ => id) fun key value _ => stored key value) (fun _ => id) stored
    (fun _ => id) (fun _ => List.forall_mem_singleton.mpr fine) (fun id key _ => free.owns id key)
    (fun _ _ _ _ _ => id) fun id key value _ _ proc member debt =>
      .inr (.inr (free.owes id key value proc member debt))

theorem Kept.swap {found : Nat}
    (kept : Kept ⟨mem, ↑[proc] + rest⟩) (calm : Calm ⟨mem, ↑[proc] + rest⟩ (.cas key value))
    (free : proc.Free) (announces : next.phase = .notifying key value after)
    (there : mem.buckets key.bucket = some found) :
    Kept ⟨mem.setStore found (InMemoryStore.cas (mem.stores found) key.name value).1,
      ↑[next] + rest⟩ := by
  obtain ⟨unannounced, unread, own⟩ := calm
  obtain ⟨call, handler, store, phase⟩ := next
  obtain rfl : phase = _ := announces
  have stored := @Mem.stored_setStore _ _ _ kept.separate _ there _
    fun name ne => InMemoryStore.cas_apply_of_ne ne value
  rw [InMemoryStore.cas_apply_self] at stored
  refine ⟨⟨kept.separate.created, kept.separate.apart⟩, ?_, fun id other listens => ?_,
    fun id other listens current is => ?_⟩
  · refine forall_mem_fire kept.fine (fun _ => List.forall_mem_singleton.mpr ⟨own, ?_⟩)
      fun another member fine => fine.mono rfl (fun _ => id) fun other current about is => ?_
    · intro current is
      rw [stored, if_pos rfl] at is
      exact (Option.some.inj is).symm
    · have inside : another ∈ (↑[proc] + rest : Multiset (Proc Value)) :=
        mem_of_rest member
      have ne : other ≠ key := by
        rintro rfl
        rcases about with announcing | late
        · exact unannounced another inside other announcing rfl
        · exact unread another inside late
      rwa [stored, if_neg ne] at is
  · exact exists_mem_fire (kept.owner id other listens) (free.owns id other) fun _ _ owns => owns
  · rw [stored] at is
    split at is
    · rename_i same
      refine .inr (.inr ⟨_, mem_acting, ?_⟩)
      exact ⟨same.symm, Option.some.inj is⟩
    · rcases kept.current id other listens current is with sent | ended | debt
      · exact .inl sent
      · exact .inr (.inl ended)
      · exact .inr (.inr (exists_mem_fire debt (free.owes id other current) fun _ _ debt => debt))

theorem Kept.insert {call store : Nat} (kept : Kept ⟨mem, ↑[proc] + rest⟩)
    (guarded : Guarded (@Proc.listener Value) mem.listenerMutex (↑[proc] + rest))
    (calm : Calm ⟨mem, ↑[proc] + rest⟩ (.insert key))
    (acts : proc = ⟨call, .listen key, store, .insertLocked⟩)
    (leaves : next = ⟨call, .listen key, store, .joining⟩) :
    Kept ⟨{ mem with
        listeners := (call, key) :: mem.listeners
        listenerMutex := mem.listenerMutex.unlock }, ↑[next] + rest⟩ := by
  have free : proc.Free := by
    subst acts
    exact ⟨rfl, fun _ _ _ => id⟩
  have access : proc.listener = some (.write, call) := by
    subst acts
    rfl
  refine ⟨⟨kept.separate.created, kept.separate.apart⟩, ?_, fun id other there => ?_,
    fun id other there value is => ?_⟩
  · refine forall_mem_fire kept.fine (fun fine => ?_) fun another member fine => ?_
    · subst acts leaves
      exact List.forall_mem_singleton.mpr (fine _ List.mem_cons_self)
    · have unlocked := guarded.alone access member
      have about := calm another (mem_of_rest member)
      obtain ⟨_, handler, _, phase⟩ := another
      cases phase with
      | sending => exact absurd unlocked nofun
      | notifying announced value after =>
        refine ⟨fun id other there same => ?_, fine.2⟩
        rcases List.mem_cons.mp there with eq | there
        · obtain rfl : other = key := congrArg Prod.snd eq
          exact about announced rfl same.symm
        · exact fine.1 id other there same
      | inserting | insertLocked | joining | read =>
        cases handler with
        | listen key => exact fine
        | _ => trivial
      | _ => trivial
  · rcases List.mem_cons.mp there with eq | there
    · obtain ⟨rfl, rfl⟩ := Prod.mk.inj eq
      subst leaves
      exact ⟨_, mem_acting, rfl, rfl, rfl⟩
    · exact exists_mem_fire (kept.owner id other there) (free.owns id other) fun _ _ owns => owns
  · rcases List.mem_cons.mp there with eq | there
    · obtain ⟨rfl, rfl⟩ := Prod.mk.inj eq
      subst leaves
      refine .inr (.inr ⟨_, mem_acting, ?_⟩)
      exact ⟨rfl, rfl⟩
    · rcases kept.current id other there value is with sent | ended | debt
      · exact .inl sent
      · exact .inr (.inl ended)
      · exact .inr (.inr (exists_mem_fire debt (free.owes id other value) fun _ _ debt => debt))

theorem Kept.remove (kept : Kept ⟨mem, ↑[proc] + rest⟩) (nothing : ∀ id key value, ¬ proc.Owes id key value)
    (fine : ∀ mem, next.Fine mem) :
    Kept ⟨{ mem with
        listeners := mem.listeners.filter fun listener => listener.1 ≠ proc.id
        listenerMutex := mem.listenerMutex.unlock }, ↑[next] + rest⟩ := by
  have fewer : ∀ entry ∈ mem.listeners.filter fun listener => listener.1 ≠ proc.id,
      entry ∈ mem.listeners := fun entry there => (List.mem_filter.mp there).1
  refine kept.change ⟨kept.separate.created, kept.separate.apart⟩
    (fun _ _ fine => fine.mono rfl fewer fun _ _ _ => id) fewer (fun _ _ => id) (fun _ => id)
    (fun _ => List.forall_mem_singleton.mpr (fine _)) (fun id key there other member owns => ?_)
    (fun _ _ _ _ _ => id) fun id key value _ _ other member debt => ?_
  · obtain rfl := List.mem_singleton.mp member
    have ne := (List.mem_filter.mp there).2
    exact absurd owns.1.symm (by simpa using ne)
  · obtain rfl := List.mem_singleton.mp member
    exact absurd debt (nothing id key value)

theorem Kept.rebucket {call : Nat} (kept : Kept ⟨mem, ↑[proc] + rest⟩)
    (guarded : Guarded (@Proc.provider Value) mem.providerMutex (↑[proc] + rest))
    (writes : proc.provider = some (.write, call)) (free : proc.Free) (separate : Separate mem')
    (listeners : mem'.listeners = mem.listeners) (done : mem'.done = mem.done)
    (sent : mem'.sent = mem.sent)
    (stored : ∀ key value, mem'.stored key = some value → mem.stored key = some value)
    (fine : next.Fine mem') : Kept ⟨mem', ↑[next] + rest⟩ := by
  refine kept.change separate (fun proc member _ => Proc.fine_of_provider (guarded.alone writes member))
    (fun entry there => ?_) stored (fun id ended => ?_) (fun _ => List.forall_mem_singleton.mpr fine)
    (fun id key _ => free.owns id key) (fun id key value _ _ last => ?_)
    fun id key value _ _ proc member debt => .inr (.inr (free.owes id key value proc member debt))
  · rwa [listeners] at there
  · rwa [done]
  · rwa [sent]

theorem Separate.register (separate : Separate mem) {uuid : GoString}
    (buckets : mem'.buckets = Function.update mem.buckets uuid (some mem.created))
    (created : mem'.created = mem.created + 1) : Separate mem' where
  created name store there := by
    rw [created]
    by_cases same : name = uuid
    · rw [buckets, same, Function.update_self] at there
      rw [← Option.some.inj there]
      exact Nat.lt_succ_self _
    · rw [buckets, Function.update_of_ne same] at there
      exact (separate.created name store there).trans (Nat.lt_succ_self _)
  apart name other store here there := by
    rw [buckets] at here there
    by_cases first : name = uuid <;> by_cases second : other = uuid
    · rw [first, second]
    · rw [first, Function.update_self] at here
      rw [Function.update_of_ne second, ← here] at there
      exact absurd (separate.created other _ there) (lt_irrefl _)
    · rw [second, Function.update_self] at there
      rw [Function.update_of_ne first, ← there] at here
      exact absurd (separate.created name _ here) (lt_irrefl _)
    · rw [Function.update_of_ne first] at here
      rw [Function.update_of_ne second] at there
      exact separate.apart name other store here there

theorem Separate.unregister (separate : Separate mem) {uuid : GoString}
    (buckets : mem'.buckets = Function.update mem.buckets uuid none)
    (created : mem'.created = mem.created) : Separate mem' := by
  have fewer : ∀ name store, mem'.buckets name = some store → mem.buckets name = some store := by
    intro name store there
    rw [buckets] at there
    by_cases same : name = uuid
    · rw [same, Function.update_self] at there
      exact absurd there nofun
    · rwa [Function.update_of_ne same] at there
  refine ⟨fun name store there => ?_, fun name other store here there => ?_⟩
  · rw [created]
    exact separate.created name store (fewer name store there)
  · exact separate.apart name other store (fewer _ _ here) (fewer _ _ there)

theorem Numbered.unique (numbered : Numbered config) {other : Proc Value} (here : proc ∈ config.procs)
    (there : other ∈ config.procs) (same : other.id = proc.id) : other = proc := by
  obtain ⟨rest, split⟩ := Multiset.exists_cons_of_mem here
  have account := numbered proc.id
  rw [split, total_cons, tally_call, if_pos rfl] at account
  rw [split] at there
  rcases Multiset.mem_cons.mp there with eq | there
  · exact eq
  · have counted := @weight_le_total _ (tally Proc.call proc.id) _ _ there
    rw [tally_call, if_pos same] at counted
    split_ifs at account <;> omega

theorem Kept.key_eq (kept : Kept config) (numbered : Numbered config) {id : Nat} {key other : Key}
    (here : (id, key) ∈ config.mem.listeners) (there : (id, other) ∈ config.mem.listeners) :
    key = other := by
  obtain ⟨proc, member, owns⟩ := kept.owner id key here
  obtain ⟨proc', member', owns'⟩ := kept.owner id other there
  obtain rfl := numbered.unique member member' (owns'.1.trans owns.1.symm)
  exact Handler.listen.inj (owns.2.1.symm.trans owns'.2.1)

theorem Mem.mem_receivers {id : Nat} :
    id ∈ mem.receivers key ↔ ∃ other, (id, other) ∈ mem.listeners ∧ other.canonical = key.canonical := by
  simp [Mem.receivers]

theorem Mem.stored_of_bucket {store : Nat} (bucket : mem.buckets key.bucket = some store) :
    mem.stored key = mem.stores store key.name := by
  rw [Mem.stored, bucket, Option.bind_some]

/-- Buckets stay or go, and those that come are empty. -/
theorem Mem.stored_mono (buckets : ∀ name store, mem'.buckets name = some store →
      mem.buckets name = some store ∧ mem'.stores store = mem.stores store ∨
        mem'.stores store = fun _ => none) (key : Key) (value : Value)
    (is : mem'.stored key = some value) : mem.stored key = some value := by
  obtain ⟨store, bucket, there⟩ := Option.bind_eq_some_iff.mp is
  rcases buckets _ _ bucket with ⟨known, same⟩ | empty
  · rw [Mem.stored_of_bucket known, ← same]
    exact there
  · rw [empty] at there
    exact absurd there nofun

variable {setup : Setup Value} {event : Event Value}

theorem Kept.notify {call store : Nat} {handler : Handler Value}
    {todo : List Nat} (kept : Kept ⟨mem, ↑[proc] + rest⟩)
    (numbered : Numbered ⟨mem, ↑[proc] + rest⟩) (agrees : mem.Agrees mem')
    (visits : todo.Perm (mem.receivers key))
    (acts : proc = ⟨call, handler, store, .notifying key value after⟩)
    (leaves : next = ⟨call, handler, store, .sending key value todo after⟩) :
    Kept ⟨mem', ↑[next] + rest⟩ := by
  subst acts leaves
  refine kept.move agrees (fun fine => ?_) (fun id key other member owns => ?_)
    fun id other current listens _ proc member debt => ?_
  · refine List.forall_mem_singleton.mpr ⟨fine _ List.mem_cons_self, fun id member other there => ?_⟩
    obtain ⟨first, listens, same⟩ := Mem.mem_receivers.mp (visits.mem_iff.mp member)
    rw [kept.key_eq numbered there listens]
    exact same
  · obtain rfl := List.mem_singleton.mp member
    exact absurd owns.2.2 nofun
  · obtain rfl := List.mem_singleton.mp member
    obtain ⟨rfl, rfl⟩ := debt
    refine .inr ⟨_, List.mem_cons_self, rfl, rfl, visits.mem_iff.mpr ?_⟩
    exact Mem.mem_receivers.mpr ⟨_, listens, rfl⟩

theorem Kept.sendTo {call store receiver : Nat} {handler : Handler Value}
    {todo : List Nat} (kept : Kept ⟨mem, ↑[proc] + rest⟩)
    (acts : proc = ⟨call, handler, store, .sending key value (receiver :: todo) after⟩)
    (leaves : next = ⟨call, handler, store, .sending key value todo after⟩) :
    Kept ⟨mem.send receiver value, ↑[next] + rest⟩ := by
  subst acts leaves
  obtain ⟨announced, visits⟩ := kept.fine _ mem_acting
  refine kept.sent ⟨announced, fun id member => visits id (List.mem_cons_of_mem _ member)⟩
    (fun id key owns => absurd owns.2.2 nofun) (fun other current there is => ?_)
    fun id other current debt => ?_
  · obtain rfl := announced.1 _ _ there (visits receiver List.mem_cons_self other there)
    exact announced.2 current is
  · obtain ⟨rfl, rfl, visited⟩ := debt
    rcases List.mem_cons.mp visited with same | visited
    · exact .inl ⟨same, rfl⟩
    · exact .inr ⟨rfl, rfl, visited⟩

theorem kept_rule (rule : Rule setup event mem acting mem' left)
    (numbered : Numbered ⟨mem, ↑acting + rest⟩)
    (provider : Guarded (@Proc.provider Value) mem.providerMutex (↑acting + rest))
    (listener : Guarded (@Proc.listener Value) mem.listenerMutex (↑acting + rest))
    (calm : Calm ⟨mem, ↑acting + rest⟩ event) (kept : Kept ⟨mem, ↑acting + rest⟩) :
    Kept ⟨mem', ↑left + rest⟩ := by
  cases rule with
  | call handler =>
    exact kept.move ⟨rfl, rfl, rfl, rfl, rfl, rfl⟩
      (fun _ => List.forall_mem_singleton.mpr trivial) (fun _ _ _ member => absurd member List.not_mem_nil)
      fun _ _ _ _ _ _ member => absurd member List.not_mem_nil
  | cancel call =>
    refine kept.change ⟨kept.separate.created, kept.separate.apart⟩ (fun _ _ fine => ?_) (fun _ => id)
      (fun _ _ => id) (fun other ended => ?_) (fun _ => List.forall_mem_nil _)
      (fun _ _ _ _ member => absurd member List.not_mem_nil) (fun _ _ _ _ _ => id)
      fun _ _ _ _ _ _ member => absurd member List.not_mem_nil
    · exact fine.mono rfl (fun _ => id) fun _ _ _ => id
    · by_cases same : other = call
      · subst same
        exact Function.update_self other true mem.done
      · exact (Function.update_of_ne same true mem.done).trans ended
  | turnAway | duplicate | disconnected | listenNoBucket | removeUnlock | queryUnlock
  | internalUnlock =>
    exact kept.free ⟨rfl, fun _ _ _ => id⟩ ⟨rfl, rfl, rfl, rfl, rfl, rfl⟩ fun _ => List.forall_mem_nil _
  | connect | connected | receive | receiveLock | receiveEnds | leave | postNoBucket | postUnknown
  | postSame | listenLock | queryLock | countNothing | countListeners | countedListeners
  | countProviders | countedProviders | internalLock =>
    exact kept.free ⟨rfl, fun _ _ _ => id⟩ ⟨rfl, rfl, rfl, rfl, rfl, rfl⟩ fun _ =>
      List.forall_mem_singleton.mpr trivial
  | receiveUnlock =>
    refine kept.free ⟨rfl, fun _ _ _ => id⟩ ⟨rfl, rfl, rfl, rfl, rfl, rfl⟩ fun _ =>
      List.forall_mem_singleton.mpr ?_
    split <;> trivial
  | @register _ _ _ info _ =>
    refine kept.rebucket provider rfl ⟨rfl, fun _ _ _ => id⟩ (kept.separate.register rfl rfl)
      rfl rfl rfl (Mem.stored_mono fun name store there => ?_) trivial
    by_cases same : name = info.uuid
    · subst same
      obtain rfl : mem.created = store := by simpa using there
      exact .inr (Function.update_self _ _ _)
    · have known : mem.buckets name = some store := by simpa [Function.update_of_ne same] using there
      exact .inl ⟨known, Function.update_of_ne (kept.separate.created name store known).ne _ _⟩
  | @unregister _ _ _ info =>
    refine kept.rebucket provider rfl ⟨rfl, fun _ _ _ => id⟩ (kept.separate.unregister rfl rfl)
      rfl rfl rfl (Mem.stored_mono fun name store there => ?_) trivial
    by_cases same : name = info.uuid
    · subst same
      simp at there
    · exact .inl ⟨by simpa [Function.update_of_ne same] using there, rfl⟩
  | postNil there => exact kept.delete ⟨rfl, fun _ _ _ => id⟩ there trivial
  | postSwap there _ => exact kept.swap calm ⟨rfl, fun _ _ _ => id⟩ rfl there
  | notify _ visits => exact kept.notify numbered ⟨rfl, rfl, rfl, rfl, rfl, rfl⟩ visits rfl rfl
  | send => exact kept.sendTo rfl rfl
  | @sendFails _ _ _ receiver _ _ _ _ _ ended =>
    refine kept.move ⟨rfl, rfl, rfl, rfl, rfl, rfl⟩ (fun fine => ?_) (fun _ _ proc member owns => ?_)
      fun id other current _ _ proc member debt => ?_
    · obtain ⟨announced, visits⟩ := fine _ List.mem_cons_self
      exact List.forall_mem_singleton.mpr
        ⟨announced, fun id member => visits id (List.mem_cons_of_mem _ member)⟩
    · obtain rfl := List.mem_singleton.mp member
      exact absurd owns.2.2 nofun
    · obtain rfl := List.mem_singleton.mp member
      obtain ⟨rfl, rfl, visited⟩ := debt
      rcases List.mem_cons.mp visited with rfl | visited
      · exact .inl ended
      · exact .inr ⟨_, List.mem_cons_self, rfl, rfl, visited⟩
  | notified =>
    exact kept.free ⟨rfl, fun _ _ _ debt => List.not_mem_nil debt.2.2⟩ ⟨rfl, rfl, rfl, rfl, rfl, rfl⟩
      fun _ => List.forall_mem_singleton.mpr trivial
  | listenBucket bucket =>
    exact kept.free ⟨rfl, fun _ _ _ => id⟩ ⟨rfl, rfl, rfl, rfl, rfl, rfl⟩ fun _ =>
      List.forall_mem_singleton.mpr bucket
  | insertLock =>
    exact kept.free ⟨rfl, fun _ _ _ => id⟩ ⟨rfl, rfl, rfl, rfl, rfl, rfl⟩ fun fine =>
      List.forall_mem_singleton.mpr fine
  | insert => exact kept.insert listener calm rfl rfl
  | @joinNothing _ _ _ key nothing =>
    have stored := Mem.stored_of_bucket (kept.fine _ mem_acting)
    refine kept.listener ⟨rfl, rfl, rfl, rfl, rfl, rfl⟩ trivial rfl rfl rfl fun id other value is debt => ?_
    obtain rfl : key = other := Handler.listen.inj debt.2
    exact absurd (is.symm.trans (stored.trans nothing)) nofun
  | @joinRead _ _ _ key _ there =>
    have bucket := kept.fine _ mem_acting
    have stored := (Mem.stored_of_bucket bucket).trans there
    refine kept.listener ⟨rfl, rfl, rfl, rfl, rfl, rfl⟩ ⟨bucket, fun current is => ?_⟩ rfl rfl rfl
      fun id other value is debt => .inr ⟨debt.1, ?_⟩
    · exact Option.some.inj (is.symm.trans stored)
    · obtain rfl : key = other := Handler.listen.inj debt.2
      exact Option.some.inj (stored.symm.trans is)
  | joinSend =>
    refine kept.sent trivial (fun id key owns => ⟨owns.1, owns.2.1, rfl⟩) (fun key current there is => ?_)
      fun id key current debt => .inl ⟨debt.1.symm, debt.2.symm⟩
    obtain ⟨proc, member, owns⟩ := kept.owner _ key there
    obtain rfl := numbered.unique mem_acting member owns.1
    obtain rfl := Handler.listen.inj owns.2.1
    exact (kept.fine _ mem_acting).2 current is
  | joinSendFails ended =>
    exact kept.listener ⟨rfl, rfl, rfl, rfl, rfl, rfl⟩ trivial rfl rfl rfl fun id key value _ debt =>
      .inl (debt.1 ▸ ended)
  | joinUnlock | listenDone | listenClosed | removeLock | removeLockBoth =>
    exact kept.listener ⟨rfl, rfl, rfl, rfl, rfl, rfl⟩ trivial rfl rfl rfl fun _ _ _ _ => False.elim
  | remove => exact kept.remove (fun _ _ _ => id) fun _ => trivial

theorem kept_initial (setup : Setup Value) : Kept (initial setup) := by
  have known : ∀ name store, (initial setup).mem.buckets name = some store →
      name = metaBucket ∧ store = 1 ∨ name = setup.uuid ∧ store = 0 := by
    intro name store there
    by_cases first : name = metaBucket
    · subst first
      exact .inl ⟨rfl, by simpa [initial, Config.ofList, eq_comm] using there⟩
    · by_cases second : name = setup.uuid
      · subst second
        exact .inr ⟨rfl, by
          simpa [initial, Config.ofList, Function.update_of_ne first, eq_comm] using there⟩
      · simp [initial, Config.ofList, Function.update_of_ne first, Function.update_of_ne second] at there
  refine ⟨⟨fun name store there => ?_, fun name other store here there => ?_⟩,
    fun _ member => absurd member (Multiset.notMem_zero _),
    fun _ _ there => absurd there List.not_mem_nil, fun _ _ there => absurd there List.not_mem_nil⟩
  · show store < 2
    rcases known name store there with ⟨_, rfl⟩ | ⟨_, rfl⟩ <;> omega
  · rcases known name store here with ⟨rfl, rfl⟩ | ⟨rfl, rfl⟩ <;>
      rcases known other _ there with ⟨rfl, same⟩ | ⟨rfl, same⟩
    · rfl
    · exact absurd same Nat.one_ne_zero
    · exact absurd same.symm Nat.one_ne_zero
    · rfl

theorem kept (reach : Reach (Rule setup) Calm (initial setup) config) : Kept config := by
  induction reach with
  | start => exact kept_initial setup
  | step reach ok step ih =>
    have reach : Reach (Rule setup) (fun _ _ => True) (initial setup) _ := reach.mono fun _ _ _ => trivial
    have guarded := guarded reach
    have numbered := numbered reach
    obtain ⟨rest, rule⟩ := step
    exact kept_rule rule numbered guarded.1 guarded.2 ok ih

/-- **Listeners converge to the stored value**, in every run whose swaps and registrations are calm. -/
theorem converged_of_calm (setup : Setup Value) (config : State Value)
    (reach : Reach (Rule setup) Calm (initial setup) config) : Converged config := by
  intro quiet id key there value is
  have kept := kept reach
  rcases kept.current id key there value is with sent | ended | ⟨proc, member, debt⟩
  · exact sent
  · obtain ⟨⟨call, handler, store, phase⟩, member, rfl, listens, registered⟩ := kept.owner id key there
    have idle := quiet _ member
    cases phase with
    | listening => exact absurd (idle.1.symm.trans ended) nofun
    | joining | read | joined | removing | removeLocked | removeBoth => exact absurd idle not_false
    | _ => exact absurd registered Bool.false_ne_true
  · obtain ⟨call, handler, store, phase⟩ := proc
    have idle := quiet _ member
    cases phase with
    | notifying | sending | joining | read => exact absurd idle not_false
    | _ => exact absurd debt not_false

end Invariant

/-- A listener joins late, on the table of the providers. -/
theorem converged_late_join :
    ∃ config, Reach (Rule sample) Calm (initial sample) config ∧ Quiet config ∧
      (0, ⟨metaBucket, bytes "t"⟩) ∈ config.mem.listeners ∧
      config.mem.stored ⟨metaBucket, bytes "t"⟩ = some 0 ∧ (config.mem.sent 0).head? = some 0 := by
  have run := @Reach.start _ _ _ (Rule sample) Calm (initial sample)
  have run := run.next [] [] (.call (.listen ⟨metaBucket, bytes "t"⟩)) trivial (.refl _)
  have run := run.next _ [] (.listenLock rfl) trivial (.refl _)
  have run := run.next _ [] (.listenBucket (show _ = some 1 by decide)) trivial (.refl _)
  have run := run.next _ [] (.insertLock ⟨rfl, rfl⟩) trivial (.refl _)
  have run := run.next _ [] .insert (by
    intro proc member other announcing
    obtain rfl := List.mem_singleton.mp (Multiset.mem_coe.mp member)
    exact absurd announcing nofun) (.refl _)
  have run := run.next _ [] (.joinRead (show _ = some 0 by decide)) trivial (.refl _)
  have run := run.next _ [] .joinSend trivial (.refl _)
  have run := run.next _ [] .joinUnlock trivial (.refl _)
  have converged := converged_of_calm sample _ run
  refine ⟨_, run, ?_⟩
  suffices quiet : Quiet _ from
    ⟨quiet, List.mem_cons_self, by decide, converged quiet 0 _ List.mem_cons_self 0 (by decide)⟩
  intro proc member
  rw [List.mem_singleton.mp (Multiset.mem_coe.mp member)]
  exact Proc.idle_listening rfl rfl

/-- **A late join that is overtaken by a post**: the listener reads `1`; `2` is stored and sent to it; then
it is sent the `1`. All handlers are done, and the listener has the old value. -/
theorem stale_late_join_runs :
    ∃ config, Reach (Rule sample) (fun _ _ => True) (initial sample) config ∧ Quiet config ∧
      (1, ⟨bytes "m", bytes "k"⟩) ∈ config.mem.listeners ∧
      config.mem.stored ⟨bytes "m", bytes "k"⟩ = some 2 ∧ (config.mem.sent 1).head? = some 1 := by
  have run := @Reach.start _ _ _ (Rule sample) (fun _ _ => True) (initial sample)
  -- the monitor posts 1
  have run := run.next [] [] (.call (.internal .nothing (bytes "k") 1)) trivial (.refl _)
  have run := run.next _ [] .countNothing trivial (.refl _)
  have run := run.next _ [] (.internalLock rfl) trivial (.refl _)
  have run := run.next _ [] (.postSwap (show _ = some 0 by decide) (by decide)) trivial (.refl _)
  have run := run.next _ [] (.notify rfl (.refl _)) trivial (.refl _)
  have run := run.next _ [] .notified trivial (.refl _)
  have run := run.next _ [] .internalUnlock trivial (.refl _)
  -- a listener is registered and reads it
  have run := run.next [] [] (.call (.listen ⟨bytes "m", bytes "k"⟩)) trivial (.refl _)
  have run := run.next _ [] (.listenLock rfl) trivial (.refl _)
  have run := run.next _ [] (.listenBucket (show _ = some 0 by decide)) trivial (.refl _)
  have run := run.next _ [] (.insertLock ⟨rfl, by decide⟩) trivial (.refl _)
  have run := run.next _ [] .insert trivial (.refl _)
  have run := run.next _ [] (.joinRead (show _ = some 1 by decide)) trivial (.refl _)
  -- the monitor posts 2
  have run := run.next [] [_] (.call (.internal .nothing (bytes "k") 2)) trivial (.refl _)
  have run := run.next _ [_] .countNothing trivial (.refl _)
  have run := run.next _ [_] (.internalLock rfl) trivial (.refl _)
  have run := run.next _ [_] (.postSwap (show _ = some 0 by decide) (by decide)) trivial (.refl _)
  have run := run.next _ [_] (.notify rfl (show List.Perm [1] _ by decide)) trivial (.refl _)
  have run := run.next _ [_] .send trivial (.refl _)
  have run := run.next _ [_] .notified trivial (.refl _)
  have run := run.next _ [_] .internalUnlock trivial (.refl _)
  -- the late join goes on
  have run := run.next _ [] .joinSend trivial (.refl _)
  have run := run.next _ [] .joinUnlock trivial (.refl _)
  refine ⟨_, run, ?_, List.mem_cons_self, by decide, by decide⟩
  intro proc member
  rw [List.mem_singleton.mp (Multiset.mem_coe.mp member)]
  exact Proc.idle_listening rfl rfl

end Kubecc.Monitor
