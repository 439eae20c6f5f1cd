/-
**The expiration heap of the local storage.**

`ExpirationHeap` of `pkg/storage/local.go`: the expiration dates of the stored objects in a binary
heap. `Push` and `Pop` restore the order of the whole array, from the middle down. An index out of
range would be a panic: the list functions are partial (`push`, `pop`), and `push_spec` and
`pop_spec` show that they always return. `ExpirationHeap` is a list together with its order, and
its operations are the list functions' results.

* `ExpirationHeap.push_perm`, `ExpirationHeap.pop_perm` — no entry is lost or made up.
* `ExpirationHeap.first_le` — the entry that `Peek` shows and `Pop` takes is one of the earliest.
* `priorityQueue` — any sequence of operations from the empty heap.
-/

import Kubecc.Lib.BinaryHeap
import Kubecc.Go.Strings

namespace Kubecc.Storage

open Kubecc.Go Kubecc.Lib

/-- An instant, in nanoseconds since 1970. -/
abbrev Time := Int

/-- `time.Time{}`: the first day of the year 1. -/
def zeroTime : Time := -62135596800 * 10 ^ 9

structure ExpirationEntry where
  hash : GoString
  date : Time
deriving DecidableEq

/-! ### On the array -/

def push (heap : List ExpirationEntry) (hash : GoString) (date : Time) :
    Option (List ExpirationEntry) := do
  let heap := heap ++ [⟨hash, date⟩]
  -- the new entry goes to the top, the old top to the end
  let heap ← BinaryHeap.swap heap (heap.length - 1) 0
  BinaryHeap.heapify ExpirationEntry.date heap

/-- `ExpirationHeap.Pop`: the entry, nil for an empty heap, and the heap that is left. -/
def pop : List ExpirationEntry → Option (Option ExpirationEntry × List ExpirationEntry)
  | [] => some (none, [])
  | e :: rest => do
    let last ← (e :: rest)[rest.length]?
    let heap ← BinaryHeap.heapify ExpirationEntry.date (((e :: rest).set 0 last).take rest.length)
    some (some e, heap)

theorem push_spec (heap : List ExpirationEntry) (hash : GoString) (date : Time) :
    ∃ pushed, push heap hash date = some pushed ∧ pushed.Perm (⟨hash, date⟩ :: heap) ∧
      BinaryHeap.Ordered ExpirationEntry.date pushed 0 := by
  have last : (heap ++ [(⟨hash, date⟩ : ExpirationEntry)]).length - 1 <
      (heap ++ [(⟨hash, date⟩ : ExpirationEntry)]).length := by simp
  have first : 0 < (heap ++ [(⟨hash, date⟩ : ExpirationEntry)]).length := by simp
  obtain ⟨pushed, returns, perm, ordered⟩ := BinaryHeap.heapify_spec ExpirationEntry.date _
  refine ⟨pushed, ?_, (perm.trans (BinaryHeap.swap_perm last first)).trans ?_, ordered⟩
  · simp only [push, BinaryHeap.swap_of_lt last first]
    exact returns
  · exact List.perm_append_singleton _ heap

/-- Writing the last element over the first and cutting the last place off removes the first. -/
theorem take_set_last_perm (e : ExpirationEntry) (rest : List ExpirationEntry) :
    ∃ last, (e :: rest)[rest.length]? = some last ∧
      (((e :: rest).set 0 last).take rest.length).Perm rest := by
  rcases List.eq_nil_or_concat rest with rfl | ⟨front, last, rfl⟩
  · exact ⟨e, rfl, .refl []⟩
  · refine ⟨last, by simp, ?_⟩
    have cut : ((e :: (front ++ [last])).set 0 last).take (front ++ [last]).length =
        last :: front := by simp
    rw [List.concat_eq_append, cut]
    exact (List.perm_append_singleton last front).symm

theorem pop_spec (e : ExpirationEntry) (rest : List ExpirationEntry) :
    ∃ left, pop (e :: rest) = some (some e, left) ∧ left.Perm rest ∧
      BinaryHeap.Ordered ExpirationEntry.date left 0 := by
  obtain ⟨last, there, perm⟩ := take_set_last_perm e rest
  obtain ⟨left, returns, permuted, ordered⟩ :=
    BinaryHeap.heapify_spec ExpirationEntry.date (((e :: rest).set 0 last).take rest.length)
  refine ⟨left, ?_, permuted.trans perm, ordered⟩
  simp only [pop, there, Option.bind_eq_bind, Option.bind_some, returns]

/-! ### The heap -/

/-- **The heap**: an array in which no entry comes after its children. -/
structure ExpirationHeap where
  entries : List ExpirationEntry
  ordered : BinaryHeap.Ordered ExpirationEntry.date entries 0

namespace ExpirationHeap

@[ext] theorem ext_entries {heap other : ExpirationHeap} (same : heap.entries = other.entries) :
    heap = other := by
  obtain ⟨entries, _⟩ := heap
  obtain ⟨_, _⟩ := other
  obtain rfl : entries = _ := same
  rfl

instance : DecidableEq ExpirationHeap := fun heap other =>
  decidable_of_iff (heap.entries = other.entries) ⟨ext_entries, fun same => same ▸ rfl⟩

def new : ExpirationHeap := ⟨[], fun _ _ _ _ => .of_length_le (Nat.zero_le _)⟩

theorem push_ordered (heap : ExpirationHeap) (hash : GoString) (date : Time) :
    ∃ isSome : (Storage.push heap.entries hash date).isSome,
      BinaryHeap.Ordered ExpirationEntry.date ((Storage.push heap.entries hash date).get isSome) 0 := by
  obtain ⟨pushed, returns, _, ordered⟩ := push_spec heap.entries hash date
  exact ⟨by rw [returns]; rfl, by simpa only [returns, Option.get_some] using ordered⟩

def push (heap : ExpirationHeap) (hash : GoString) (date : Time) : ExpirationHeap :=
  ⟨(Storage.push heap.entries hash date).get (heap.push_ordered hash date).1,
    (heap.push_ordered hash date).2⟩

theorem pop_ordered (heap : ExpirationHeap) :
    ∃ isSome : (Storage.pop heap.entries).isSome,
      BinaryHeap.Ordered ExpirationEntry.date ((Storage.pop heap.entries).get isSome).2 0 := by
  obtain ⟨entries, ordered⟩ := heap
  cases entries with
  | nil => exact ⟨rfl, ordered⟩
  | cons e rest =>
    obtain ⟨left, returns, _, leftOrdered⟩ := pop_spec e rest
    exact ⟨by rw [returns]; rfl, by simpa only [returns, Option.get_some] using leftOrdered⟩

def pop (heap : ExpirationHeap) : Option ExpirationEntry × ExpirationHeap :=
  (((Storage.pop heap.entries).get heap.pop_ordered.1).1,
    ⟨((Storage.pop heap.entries).get heap.pop_ordered.1).2, heap.pop_ordered.2⟩)

def peek (heap : ExpirationHeap) : GoString × Time :=
  match heap.entries with
  | [] => ([], zeroTime)
  | e :: _ => (e.hash, e.date)

def len (heap : ExpirationHeap) : Nat := heap.entries.length

theorem push_perm (heap : ExpirationHeap) (hash : GoString) (date : Time) :
    (heap.push hash date).entries.Perm (⟨hash, date⟩ :: heap.entries) := by
  obtain ⟨pushed, returns, perm, _⟩ := push_spec heap.entries hash date
  simpa only [push, returns, Option.get_some] using perm

theorem len_push (heap : ExpirationHeap) (hash : GoString) (date : Time) :
    (heap.push hash date).len = heap.len + 1 := (heap.push_perm hash date).length_eq

theorem pop_perm {heap : ExpirationHeap} {e : ExpirationEntry} {rest : List ExpirationEntry}
    (there : heap.entries = e :: rest) :
    heap.pop.1 = some e ∧ heap.pop.2.entries.Perm rest := by
  obtain ⟨left, returns, perm, _⟩ := pop_spec e rest
  constructor
  · simp only [pop, there, returns, Option.get_some]
  · simpa only [pop, there, returns, Option.get_some] using perm

theorem first_le {heap : ExpirationHeap} {first : ExpirationEntry} {rest : List ExpirationEntry}
    (there : heap.entries = first :: rest) {e : ExpirationEntry} (member : e ∈ heap.entries) :
    first.date ≤ e.date :=
  heap.ordered.head_le (by rw [there]; rfl) member

end ExpirationHeap

/-! ### Sequences of operations -/

inductive HeapOp
  | push (hash : GoString) (date : Time)
  | pop
deriving DecidableEq

/-- The operations one after the other, from this array on: the entries that the `Pop`s returned, in
order, and the array that is left. -/
def runOps : List HeapOp → List ExpirationEntry →
    Option (List ExpirationEntry × List ExpirationEntry)
  | [], heap => some ([], heap)
  | .push hash date :: ops, heap => do runOps ops (← push heap hash date)
  | .pop :: ops, heap => do
    let (e, heap) ← pop heap
    let (popped, heap) ← runOps ops heap
    some (e.toList ++ popped, heap)

def pushedBy : List HeapOp → List ExpirationEntry
  | [] => []
  | .push hash date :: ops => ⟨hash, date⟩ :: pushedBy ops
  | .pop :: ops => pushedBy ops

theorem pushedBy_replicate_pop (n : Nat) : pushedBy (List.replicate n .pop) = [] := by
  induction n with
  | zero => rfl
  | succ n ih => exact ih

theorem runOps_spec (ops : List HeapOp) : ∀ heap : List ExpirationEntry,
    BinaryHeap.Ordered ExpirationEntry.date heap 0 → ∃ popped left, runOps ops heap = some (popped, left) ∧
      BinaryHeap.Ordered ExpirationEntry.date left 0 ∧ (left ++ popped).Perm (heap ++ pushedBy ops) := by
  induction ops with
  | nil => exact fun heap ordered => ⟨[], heap, rfl, ordered, .refl _⟩
  | cons op ops ih =>
    intro heap ordered
    cases op with
    | push hash date =>
      obtain ⟨pushed, returns, perm, pushedOrdered⟩ := push_spec heap hash date
      obtain ⟨popped, left, runs, leftOrdered, account⟩ := ih pushed pushedOrdered
      refine ⟨popped, left, ?_, leftOrdered, account.trans ?_⟩
      · rw [runOps, returns]
        exact runs
      · exact (perm.append_right _).trans List.perm_middle.symm
    | pop =>
      cases heap with
      | nil =>
        obtain ⟨popped, left, runs, leftOrdered, account⟩ := ih [] ordered
        exact ⟨popped, left, by simp [runOps, pop, runs], leftOrdered, account⟩
      | cons e rest =>
        obtain ⟨remaining, returns, perm, remainingOrdered⟩ := pop_spec e rest
        obtain ⟨popped, left, runs, leftOrdered, account⟩ := ih remaining remainingOrdered
        refine ⟨e :: popped, left, ?_, leftOrdered, ?_⟩
        · simp [runOps, returns, runs]
        · calc List.Perm (left ++ e :: popped) (e :: (left ++ popped)) := List.perm_middle
            List.Perm _ (e :: (remaining ++ pushedBy ops)) := account.cons e
            List.Perm _ (e :: (rest ++ pushedBy ops)) := (perm.append_right _).cons e

theorem pops_ascending (n : Nat) : ∀ heap : List ExpirationEntry,
    BinaryHeap.Ordered ExpirationEntry.date heap 0 →
      ∃ popped left, runOps (List.replicate n .pop) heap = some (popped, left) ∧
        popped.Pairwise fun first second => first.date ≤ second.date := by
  induction n with
  | zero => exact fun heap _ => ⟨[], heap, rfl, .nil⟩
  | succ n ih =>
    intro heap ordered
    cases heap with
    | nil =>
      obtain ⟨popped, left, runs, ascending⟩ := ih [] ordered
      exact ⟨popped, left, by simp [List.replicate_succ, runOps, pop, runs], ascending⟩
    | cons e rest =>
      obtain ⟨remaining, returns, perm, remainingOrdered⟩ := pop_spec e rest
      obtain ⟨popped, left, runs, ascending⟩ := ih remaining remainingOrdered
      refine ⟨e :: popped, left, ?_, List.pairwise_cons.mpr ⟨fun later member => ?_, ascending⟩⟩
      · simp [List.replicate_succ, runOps, returns, runs]
      · -- what comes out later was there before
        obtain ⟨_, _, sameRuns, _, account⟩ := runOps_spec (List.replicate n .pop) _ remainingOrdered
        obtain ⟨rfl, rfl⟩ := Prod.mk.inj (Option.some.inj (runs.symm.trans sameRuns))
        rw [pushedBy_replicate_pop, List.append_nil] at account
        have stored := perm.mem_iff.mp (account.mem_iff.mp (List.mem_append_right left member))
        exact ordered.head_le rfl (List.mem_cons_of_mem e stored)

/-- **What a priority queue promises** after these operations, for the entries that were popped and the
array that is left. -/
structure PriorityQueue (ops : List HeapOp) (popped heap : List ExpirationEntry) : Prop where
  /-- The entries are those pushed and not popped. -/
  account : (heap ++ popped).Perm (pushedBy ops)
  /-- No entry is later than a child of it. -/
  ordered : BinaryHeap.Ordered ExpirationEntry.date heap 0
  /-- `Peek` shows an earliest entry. -/
  peek : heap ≠ [] → ∃ e ∈ heap, (⟨heap, ordered⟩ : ExpirationHeap).peek = (e.hash, e.date) ∧
    ∀ other ∈ heap, e.date ≤ other.date
  /-- `Pop` takes an earliest entry. -/
  pop : heap ≠ [] → ∃ e left, Storage.pop heap = some (some e, left) ∧ e ∈ heap ∧
    ∀ other ∈ heap, e.date ≤ other.date
  /-- `Pop`s with no `Push` in between return the entries in the order of their dates. -/
  ascending : ∀ n, ∃ out left, runOps (List.replicate n .pop) heap = some (out, left) ∧
    out.Pairwise fun first second => first.date ≤ second.date

/-- **The expiration heap is a priority queue**: every sequence of operations from the empty heap
returns, with no index out of range and no loop that goes on, and keeps its promises. -/
theorem priorityQueue (ops : List HeapOp) :
    ∃ popped heap, runOps ops [] = some (popped, heap) ∧ PriorityQueue ops popped heap := by
  obtain ⟨popped, heap, runs, ordered, account⟩ := runOps_spec ops [] ExpirationHeap.new.ordered
  refine ⟨popped, heap, runs, account, ordered, fun nonempty => ?_, fun nonempty => ?_, fun n => ?_⟩
  · obtain ⟨e, rest, rfl⟩ := List.exists_cons_of_ne_nil nonempty
    exact ⟨e, List.mem_cons_self, rfl, fun other member => ordered.head_le rfl member⟩
  · obtain ⟨e, rest, rfl⟩ := List.exists_cons_of_ne_nil nonempty
    obtain ⟨left, returns, _, _⟩ := pop_spec e rest
    exact ⟨e, left, returns, List.mem_cons_self, fun other member => ordered.head_le rfl member⟩
  · exact pops_ascending n heap ordered

end Kubecc.Storage
