/-
**Condition variables.**

A mutex with a condition variable (`Cond`), in the way of tickets: whoever waits is given the next
ticket while it still has the lock, and a broadcast calls all the tickets given so far. Each process
says where it stands with the lock (`Stand`).

A process that has read what the lock protects, and has kept the lock since then, knows its value. When
it waits it gives the lock away, and others may change the value; whoever does owes a broadcast.

* `Watch` — which processes know, what it means that they are right, and which owe a broadcast.
* `Watch.Obeys` — the steps that keep to the lock.
* `Watch.Informed` — the invariant: a process that knows is right, unless it is parked and has been
  called, or somebody still owes the broadcast (`Watch.Informed.obeys`).
-/

import Kubecc.Lib.Process

namespace Kubecc.Lib

/-- **A mutex with a condition variable**: the next ticket, and the first that has not been called. -/
structure Cond where
  locked : Bool
  wait : ℕ
  notify : ℕ
  ordered : notify ≤ wait

namespace Cond

/-- A mutex that nobody has, and a condition that nobody waits for. -/
def new : Cond := ⟨false, 0, 0, le_rfl⟩

def lock (cond : Cond) : Cond := { cond with locked := true }

def unlock (cond : Cond) : Cond := { cond with locked := false }

/-- The next ticket is given out. -/
def enqueue (cond : Cond) : Cond :=
  ⟨cond.locked, cond.wait + 1, cond.notify, cond.ordered.trans (Nat.le_succ _)⟩

/-- All the tickets given out are called. -/
def broadcast (cond : Cond) : Cond := ⟨cond.locked, cond.wait, cond.wait, le_rfl⟩

end Cond

/-- Where a process stands: it has the lock or not; it waits, with the lock still to be given away, or
without it. -/
inductive Stand
  | outside
  | inside
  | queued (ticket : ℕ)
  | parked (ticket : ℕ)
deriving DecidableEq

/-- Whether the process has the lock. -/
def Stand.holds : Stand → ℕ
  | .inside | .queued _ => 1
  | _ => 0

def Stand.ticket : Stand → Option ℕ
  | .queued ticket | .parked ticket => some ticket
  | _ => none

/-- **The moves of one process.** -/
inductive Cond.Move (cond : Cond) : Stand → Cond → Stand → Prop
  | lock : cond.locked = false → Move cond .outside cond.lock .inside
  | unlock : Move cond .inside cond.unlock .outside
  | enqueue : Move cond .inside cond.enqueue (.queued cond.wait)
  | park {ticket : ℕ} : Move cond (.queued ticket) cond.unlock (.parked ticket)
  | wake {ticket : ℕ} : ticket < cond.notify → Move cond (.parked ticket) cond .outside
  | broadcast : Move cond .outside cond.broadcast .outside
  | stay {stand : Stand} : Move cond stand cond stand

namespace Cond.Move

variable {cond cond' : Cond} {stand stand' : Stand}

/-- The lock goes to the process, or comes from it. -/
theorem holds (move : Move cond stand cond' stand') (held : stand.holds ≤ cond.locked.toNat) :
    stand'.holds + cond.locked.toNat = stand.holds + cond'.locked.toNat := by
  cases move with
  | lock free => simp [Stand.holds, Cond.lock, free]
  | unlock | park =>
    have isLocked : cond.locked.toNat = 1 := le_antisymm (Bool.toNat_le _) held
    simp [Stand.holds, Cond.unlock, isLocked]
  | enqueue | wake | broadcast | stay => rfl

theorem wait_le (move : Move cond stand cond' stand') : cond.wait ≤ cond'.wait := by
  cases move with
  | enqueue => exact Nat.le_succ _
  | lock | unlock | park | wake | broadcast | stay => exact le_rfl

theorem notify_le (move : Move cond stand cond' stand') : cond.notify ≤ cond'.notify := by
  cases move with
  | broadcast => exact cond.ordered
  | lock | unlock | enqueue | park | wake | stay => exact le_rfl

/-- A ticket is kept, or it is the next one. -/
theorem ticket_lt (move : Move cond stand cond' stand')
    (below : ∀ ticket, stand.ticket = some ticket → ticket < cond.wait) :
    ∀ ticket, stand'.ticket = some ticket → ticket < cond'.wait := by
  cases move with
  | enqueue =>
    intro ticket is
    obtain rfl : cond.wait = ticket := Option.some.inj is
    exact Nat.lt_succ_self _
  | park | stay => exact below
  | lock | unlock | wake | broadcast => exact fun _ => nofun

end Cond.Move

/-- **Who watches what.** `fresh` says that what the process knows is so. -/
structure Watch (δ π : Type) where
  stand : π → Stand
  knows : π → Prop
  fresh : δ → π → Prop
  owes : π → Prop
  knowing : ∀ proc, knows proc → (stand proc).holds = 1 ∨ ∃ ticket, stand proc = .parked ticket

namespace Watch

variable {δ π : Type} (watch : Watch δ π)

/-- Whether the process has the lock. -/
def holds (proc : π) : ℕ := (watch.stand proc).holds

/-- **The steps that keep to the lock.** New processes stand outside, know nothing and owe nothing; a
process moves, and changes what is protected only if it has the lock, and owes a broadcast then; the
broadcast settles what it owes; and what it knows it has just read, or knew before and kept the lock. -/
inductive Obeys (cond : Cond) (data : δ) : List π → Cond → δ → List π → Prop
  | spawn {left : List π} : (∀ proc ∈ left, watch.stand proc = .outside) →
      Obeys cond data [] cond data left
  | turn {proc after : π} {cond' : Cond} {data' : δ} :
      cond.Move (watch.stand proc) cond' (watch.stand after) →
      (data' = data ∨ watch.holds proc = 1 ∧ watch.owes after) →
      (watch.owes proc → watch.owes after ∨ cond'.notify = cond'.wait) →
      (watch.knows after → watch.fresh data' after ∨
        data' = data ∧ watch.knows proc ∧ watch.holds proc = 1 ∧
          (watch.fresh data proc → watch.fresh data after)) →
      Obeys cond data [proc] cond' data' [after]

/-- **The invariant.** -/
structure Informed (cond : Cond) (data : δ) (procs : Multiset π) : Prop where
  holders : total watch.holds procs = cond.locked.toNat
  tickets : ∀ proc ∈ procs, ∀ ticket, (watch.stand proc).ticket = some ticket → ticket < cond.wait
  informed : ∀ proc ∈ procs, watch.knows proc → watch.fresh data proc ∨
    ∃ ticket, watch.stand proc = .parked ticket ∧
      (ticket < cond.notify ∨ ∃ other ∈ procs, watch.owes other)

variable {watch} {cond cond' : Cond} {data data' : δ} {acting left : List π} {rest : Multiset π}

theorem not_knows_of_outside {proc : π} (outside : watch.stand proc = .outside) :
    ¬ watch.knows proc := by
  intro knows
  rcases watch.knowing proc knows with holds | ⟨ticket, parked⟩
  · rw [outside] at holds
    exact absurd holds Nat.zero_ne_one
  · exact absurd (outside.symm.trans parked) nofun

theorem Informed.spawn (informed : watch.Informed cond data (↑([] : List π) + rest))
    (outside : ∀ proc ∈ left, watch.stand proc = .outside) :
    watch.Informed cond data (↑left + rest) := by
  obtain ⟨holders, tickets, informed⟩ := informed
  have none : total watch.holds ↑left = 0 :=
    total_eq_zero fun proc member => by
      rw [holds, outside proc (Multiset.mem_coe.mp member)]
      rfl
  refine ⟨?_, ?_, ?_⟩
  · rw [total_add, none]
    rwa [total_add, total_coe_nil] at holders
  · refine forall_mem_fire tickets (fun _ proc member ticket is => ?_) fun _ _ => id
    rw [outside proc member] at is
    exact absurd is nofun
  · refine forall_mem_fire informed
      (fun _ proc member knows => absurd knows (not_knows_of_outside (outside proc member)))
      fun proc _ holds knows => ?_
    rcases holds knows with fresh | ⟨ticket, parked, called | ⟨other, there, owes⟩⟩
    · exact .inl fresh
    · exact .inr ⟨ticket, parked, .inl called⟩
    · refine .inr ⟨ticket, parked, .inr ⟨other, ?_, owes⟩⟩
      exact Multiset.mem_add.mpr (.inr ((Multiset.mem_add.mp there).resolve_left List.not_mem_nil))

theorem Informed.alone {proc other : π} (informed : watch.Informed cond data (↑[proc] + rest))
    (holds : watch.holds proc = 1) (member : other ∈ rest) : watch.holds other = 0 := by
  have holders := informed.holders
  have most := Bool.toNat_le cond.locked
  have below : watch.holds other ≤ total watch.holds rest :=
    weight_le_total member
  rw [total_add, total_coe_cons, total_coe_nil, holds] at holders
  omega

theorem Informed.turn {proc after : π} (informed : watch.Informed cond data (↑[proc] + rest))
    (move : cond.Move (watch.stand proc) cond' (watch.stand after))
    (changes : data' = data ∨ watch.holds proc = 1 ∧ watch.owes after)
    (settles : watch.owes proc → watch.owes after ∨ cond'.notify = cond'.wait)
    (knows : watch.knows after → watch.fresh data' after ∨
      data' = data ∧ watch.knows proc ∧ watch.holds proc = 1 ∧
        (watch.fresh data proc → watch.fresh data after)) :
    watch.Informed cond' data' (↑[after] + rest) := by
  have holders := informed.holders
  rw [total_add, total_coe_cons, total_coe_nil] at holders
  have below : watch.holds proc ≤ cond.locked.toNat := by omega
  have passes : watch.holds after + cond.locked.toNat = watch.holds proc + cond'.locked.toNat :=
    move.holds below
  refine ⟨?_, ?_, ?_⟩
  · rw [total_add, total_coe_cons, total_coe_nil]
    omega
  · refine forall_mem_fire informed.tickets (fun below => List.forall_mem_singleton.mpr ?_)
      fun other _ below ticket is => (below ticket is).trans_le move.wait_le
    exact move.ticket_lt (below proc List.mem_cons_self)
  · intro other member known
    rcases mem_fire.mp member with acted | member
    · obtain rfl := List.mem_singleton.mp acted
      rcases knows known with fresh | ⟨rfl, knew, holds, keeps⟩
      · exact .inl fresh
      · rcases informed.informed proc mem_acting knew with fresh | ⟨ticket, parked, _⟩
        · exact .inl (keeps fresh)
        · rw [Watch.holds, parked] at holds
          exact absurd holds Nat.zero_ne_one
    · have there : other ∈ (↑[proc] + rest : Multiset π) := mem_of_rest member
      rcases informed.informed other there known with fresh | ⟨ticket, parked, called⟩
      · rcases changes with rfl | ⟨holds, owes⟩
        · exact .inl fresh
        · -- the value has changed: whoever knew the old one has parked
          rcases watch.knowing other known with holds' | ⟨ticket, parked⟩
          · exact absurd ((informed.alone holds member).symm.trans holds') Nat.zero_ne_one
          · exact .inr ⟨ticket, parked, .inr ⟨after, mem_acting, owes⟩⟩
      · refine .inr ⟨ticket, parked, ?_⟩
        rcases called with called | ⟨debtor, there', owes⟩
        · exact .inl (called.trans_le move.notify_le)
        · rcases mem_fire.mp there' with acted | elsewhere
          · obtain rfl := List.mem_singleton.mp acted
            rcases settles owes with owes | settled
            · exact .inr ⟨after, mem_acting, owes⟩
            · have below := informed.tickets other there ticket (by rw [parked]; rfl)
              exact .inl (settled ▸ below.trans_le move.wait_le)
          · exact .inr ⟨debtor, mem_of_rest elsewhere, owes⟩

/-- **The step lemma.** -/
theorem Informed.obeys (informed : watch.Informed cond data (↑acting + rest))
    (obeys : watch.Obeys cond data acting cond' data' left) :
    watch.Informed cond' data' (↑left + rest) := by
  cases obeys with
  | spawn outside => exact informed.spawn outside
  | turn move changes settles knows => exact informed.turn move changes settles knows

/-- **No wake-up is lost**: where nobody owes a broadcast, a process that waits has been called, or it is
right. -/
theorem Informed.called_or_fresh {procs : Multiset π} (informed : watch.Informed cond data procs)
    (settled : ∀ proc ∈ procs, ¬ watch.owes proc) {proc : π} {ticket : ℕ} (member : proc ∈ procs)
    (parked : watch.stand proc = .parked ticket) (knows : watch.knows proc) :
    ticket < cond.notify ∨ watch.fresh data proc := by
  rcases informed.informed proc member knows with fresh | ⟨other, same, called | ⟨debtor, there, owes⟩⟩
  · exact .inr fresh
  · obtain rfl : ticket = other := Stand.parked.inj (parked.symm.trans same)
    exact .inl called
  · exact absurd owes (settled debtor there)

end Watch

end Kubecc.Lib
