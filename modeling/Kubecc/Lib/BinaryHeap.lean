/-
**Binary heaps in a list.**

The children of position `i` stand at `2 * i + 1` and `2 * i + 2`. `siftDown` lets the element at a
position sink until none of its children comes before it; `heapify` does this at every position from
the middle of the list down to the first. A position out of range is a failure, and so is a loop that
does not end within its fuel: the functions return `none` then.

* `siftDown_spec` — from a list that is ordered below a position, `siftDown` there returns, permutes,
  and leaves the list ordered from that position on.
* `heapify_spec` — `heapify` returns a heap with the same elements, whatever the list.
* `Ordered.root_le` — the first element of a heap comes before every other.
-/

import Mathlib.Order.Basic
import Mathlib.Data.List.Basic
import Mathlib.Tactic

namespace Kubecc.Lib.BinaryHeap

variable {α κ : Type}

/-- Exchanges the elements at two positions. -/
def swap (heap : List α) (m n : Nat) : Option (List α) :=
  match heap[m]?, heap[n]? with
  | some a, some b => some ((heap.set m b).set n a)
  | _, _ => none

section Sift

variable [LinearOrder κ] (key : α → κ)

/-- The position `child` if it is in the list and its element comes before the one at `m`, and `m`
otherwise. -/
def earlier (heap : List α) (child m : Nat) : Option Nat :=
  if child < heap.length then
    match heap[child]?, heap[m]? with
    | some a, some b => some (if key a < key b then child else m)
    | _, _ => none
  else some m

/-- Lets the element at position `i` sink. -/
def siftDown : Nat → List α → Nat → Option (List α)
  | 0, _, _ => none
  | fuel + 1, heap, i => do
    let m ← earlier key heap (2 * i + 1) i
    let m ← earlier key heap (2 * i + 2) m
    if m ≠ i then
      siftDown fuel (← swap heap m i) m
    else
      some heap

/-- Sifts at positions `i`, `i - 1`, …, `0`. -/
def heapifyFrom : Nat → List α → Option (List α)
  | 0, heap => siftDown key (heap.length + 1) heap 0
  | i + 1, heap => do heapifyFrom i (← siftDown key (heap.length + 1) heap (i + 1))

/-- Sifts at every position that may have children. -/
def heapify (heap : List α) : Option (List α) := heapifyFrom key (heap.length / 2) heap

/-- One position is a child of another. -/
def IsChild (c i : Nat) : Prop := c = 2 * i + 1 ∨ c = 2 * i + 2

/-- The element at `i`, if there is one, does not come after the one at `j`. -/
def LeAt (heap : List α) (i j : Nat) : Prop :=
  ∀ a b, heap[i]? = some a → heap[j]? = some b → key a ≤ key b

/-- **Ordered from `k` on**: no element at `k` or later comes after its children. -/
def Ordered (heap : List α) (k : Nat) : Prop :=
  ∀ i c, k ≤ i → IsChild c i → LeAt key heap i c

/-- Ordered from `k` on but for the element at `j`, whose children do not come before its parent. -/
structure Sinking (heap : List α) (k j : Nat) : Prop where
  others : ∀ i c, k ≤ i → i ≠ j → IsChild c i → LeAt key heap i c
  bridge : ∀ i c, k ≤ i → IsChild j i → IsChild c j → LeAt key heap i c

end Sift

theorem IsChild.lt {c i : Nat} (child : IsChild c i) : i < c := by
  rcases child with rfl | rfl <;> omega

theorem IsChild.parent_eq {c i j : Nat} (one : IsChild c i) (two : IsChild c j) : i = j := by
  rcases one with rfl | rfl <;> rcases two with same | same <;> omega

/-! ### Exchange -/

section Swap

variable {heap : List α} {m n : Nat}

theorem swap_of_lt (m_lt : m < heap.length) (n_lt : n < heap.length) :
    swap heap m n = some ((heap.set m heap[n]).set n heap[m]) := by
  simp [swap, List.getElem?_eq_getElem m_lt, List.getElem?_eq_getElem n_lt]

theorem swap_perm (m_lt : m < heap.length) (n_lt : n < heap.length) :
    ((heap.set m heap[n]).set n heap[m]).Perm heap :=
  List.set_set_perm m_lt n_lt

theorem getElem?_swapped (m_lt : m < heap.length) (n_lt : n < heap.length) (differ : m ≠ n)
    (i : Nat) :
    ((heap.set m heap[n]).set n heap[m])[i]? =
      if i = n then heap[m]? else if i = m then heap[n]? else heap[i]? := by
  by_cases atN : i = n
  · subst atN
    simp [n_lt, List.getElem?_eq_getElem m_lt]
  · by_cases atM : i = m
    · subst atM
      rw [if_neg atN, if_pos rfl, List.getElem?_set_ne (Ne.symm differ),
        List.getElem?_set_self m_lt, List.getElem?_eq_getElem n_lt]
    · simp [atN, atM, List.getElem?_set_ne (Ne.symm atN), List.getElem?_set_ne (Ne.symm atM)]

end Swap

/-! ### The earlier one of two -/

section Earlier

variable [LinearOrder κ] {key : α → κ} {heap : List α}

theorem LeAt.refl (i : Nat) : LeAt key heap i i := by
  intro a b one two
  rw [Option.some.inj (one.symm.trans two)]

theorem LeAt.trans {i j k : Nat} (one : LeAt key heap i j) (two : LeAt key heap j k)
    (inside : j < heap.length) : LeAt key heap i k := fun a c ha hc =>
  (one a _ ha (List.getElem?_eq_getElem inside)).trans (two _ c (List.getElem?_eq_getElem inside) hc)

theorem LeAt.of_length_le {i j : Nat} (outside : heap.length ≤ j) : LeAt key heap i j := by
  intro a b _ there
  rw [List.getElem?_eq_none outside] at there
  exact absurd there nofun

theorem earlier_spec {child m : Nat} (inside : child < heap.length → m < heap.length) :
    ∃ m', earlier key heap child m = some m' ∧
      (m' = m ∨ m' = child ∧ child < heap.length) ∧ LeAt key heap m' m ∧ LeAt key heap m' child := by
  unfold earlier
  by_cases there : child < heap.length
  · have m_lt := inside there
    rw [if_pos there, List.getElem?_eq_getElem there, List.getElem?_eq_getElem m_lt]
    by_cases less : key heap[child] < key heap[m]
    · refine ⟨child, by simp [less], .inr ⟨rfl, there⟩, fun a b one two => ?_, .refl child⟩
      rw [← (List.getElem?_eq_some_iff.mp one).2, ← (List.getElem?_eq_some_iff.mp two).2]
      exact less.le
    · refine ⟨m, by simp [less], .inl rfl, .refl m, fun a b one two => ?_⟩
      rw [← (List.getElem?_eq_some_iff.mp one).2, ← (List.getElem?_eq_some_iff.mp two).2]
      exact not_lt.mp less
  · rw [if_neg there]
    exact ⟨m, rfl, .inl rfl, .refl m, .of_length_le (Nat.le_of_not_lt there)⟩

/-- The two comparisons of one turn find the earliest of a position and its children. -/
theorem earliest_spec (j : Nat) :
    ∃ m₁ m, earlier key heap (2 * j + 1) j = some m₁ ∧ earlier key heap (2 * j + 2) m₁ = some m ∧
      (m = j ∨ IsChild m j ∧ m < heap.length) ∧ LeAt key heap m j ∧
      ∀ c, IsChild c j → LeAt key heap m c := by
  obtain ⟨m₁, first, which₁, self₁, left₁⟩ :=
    @earlier_spec _ _ _ key heap (2 * j + 1) j (by omega)
  have m₁_inside : 2 * j + 2 < heap.length → m₁ < heap.length := by
    rcases which₁ with rfl | ⟨rfl, inside⟩ <;> omega
  obtain ⟨m, second, which, self, right⟩ :=
    @earlier_spec _ _ _ key heap (2 * j + 2) m₁ m₁_inside
  -- The second choice is `m₁` or the right child, and the latter only if it comes before `m₁`.
  have carry : ∀ i, LeAt key heap m₁ i → LeAt key heap m i := by
    intro i le
    rcases which with rfl | ⟨rfl, inside⟩
    · exact le
    · exact self.trans le (m₁_inside inside)
  refine ⟨m₁, m, first, second, ?_, carry j self₁, ?_⟩
  · rcases which with rfl | ⟨rfl, inside⟩
    · rcases which₁ with rfl | ⟨rfl, inside⟩
      · exact .inl rfl
      · exact .inr ⟨.inl rfl, inside⟩
    · exact .inr ⟨.inr rfl, inside⟩
  · rintro c (rfl | rfl)
    · exact carry _ left₁
    · exact right

end Earlier

/-! ### Sinking -/

section Sinking

variable [LinearOrder κ] {key : α → κ} {heap : List α} {k j m : Nat}

theorem Sinking.ordered (sinking : Sinking key heap k j)
    (settled : ∀ c, IsChild c j → LeAt key heap j c) : Ordered key heap k := by
  intro i c from_k child
  by_cases here : i = j
  · exact here ▸ settled c (here ▸ child)
  · exact sinking.others i c from_k here child

/-- **One turn of the loop**: the sinking element changes places with its earliest child. -/
theorem Sinking.swapped (sinking : Sinking key heap k j) (from_k : k ≤ j) (child : IsChild m j)
    (m_lt : m < heap.length) (j_lt : j < heap.length) (least : LeAt key heap m j)
    (leastChild : ∀ c, IsChild c j → LeAt key heap m c) :
    Sinking key ((heap.set m heap[j]).set j heap[m]) k m := by
  have below : j < m := child.lt
  have look := getElem?_swapped m_lt j_lt below.ne'
  constructor
  · intro i c i_from apart childOf a b atI atC
    rw [look] at atI atC
    rw [if_neg apart] at atI
    by_cases here : i = j
    · subst here
      rw [if_pos rfl] at atI
      rw [if_neg childOf.lt.ne'] at atC
      split_ifs at atC with isM
      · exact least a b atI atC
      · exact leastChild c childOf a b atI atC
    · rw [if_neg here] at atI
      split_ifs at atC with isJ isM
      · exact sinking.bridge i m i_from (isJ ▸ childOf) child a b atI atC
      · exact absurd ((isM ▸ childOf).parent_eq child) here
      · exact sinking.others i c i_from here childOf a b atI atC
  · intro i c _ parent childOf a b atI atC
    obtain rfl := parent.parent_eq child
    rw [look, if_pos rfl] at atI
    rw [look, if_neg (below.trans childOf.lt).ne', if_neg childOf.lt.ne'] at atC
    exact sinking.others m c (from_k.trans below.le) below.ne' childOf a b atI atC

/-- **`siftDown`** ends within as many turns as there are positions from `j` on, loses no element
and puts the list in order from `k` on. -/
theorem siftDown_spec (fuel : Nat) (enough : heap.length < fuel + j) (positive : 0 < fuel)
    (from_k : k ≤ j) (sinking : Sinking key heap k j) :
    ∃ sifted, siftDown key fuel heap j = some sifted ∧ sifted.Perm heap ∧
      Ordered key sifted k := by
  induction fuel generalizing heap j with
  | zero => exact absurd positive (lt_irrefl 0)
  | succ fuel ih =>
    obtain ⟨m₁, m, first, second, which, least, leastChild⟩ := @earliest_spec _ _ _ key heap j
    by_cases stays : m = j
    · refine ⟨heap, ?_, .refl heap, sinking.ordered (stays ▸ leastChild)⟩
      simp [siftDown, first, second, stays]
    · obtain ⟨child, m_lt⟩ := which.resolve_left stays
      have below : j < m := child.lt
      have j_lt : j < heap.length := below.trans m_lt
      have permuted := swap_perm m_lt j_lt
      obtain ⟨sifted, returns, perm, ordered⟩ :=
        ih (by rw [permuted.length_eq]; omega) (by omega) (from_k.trans below.le)
          (sinking.swapped from_k child m_lt j_lt least leastChild)
      refine ⟨sifted, ?_, perm.trans permuted, ordered⟩
      simp [siftDown, first, second, stays, swap_of_lt m_lt j_lt, returns]

end Sinking

/-! ### The heap -/

section Heapify

variable [LinearOrder κ] {key : α → κ} {heap : List α}

theorem Ordered.sinking {j : Nat} (ordered : Ordered key heap (j + 1)) : Sinking key heap j j where
  others i c from_j apart child := ordered i c (by omega) child
  bridge i _ from_j parent _ := absurd parent.lt (by omega)

theorem heapifyFrom_spec (i : Nat) (ordered : Ordered key heap (i + 1)) :
    ∃ sorted, heapifyFrom key i heap = some sorted ∧ sorted.Perm heap ∧ Ordered key sorted 0 := by
  induction i generalizing heap with
  | zero =>
    exact siftDown_spec (heap.length + 1) (by omega) (by omega) le_rfl ordered.sinking
  | succ i ih =>
    obtain ⟨sifted, returns, perm, orderedFrom⟩ :=
      siftDown_spec (heap.length + 1) (by omega) (by omega) le_rfl ordered.sinking
    obtain ⟨sorted, rest, permRest, orderedAll⟩ := ih orderedFrom
    refine ⟨sorted, ?_, permRest.trans perm, orderedAll⟩
    simp [heapifyFrom, returns, rest]

/-- **`heapify` makes a heap of any list**, without an index out of range and without an endless
loop. -/
theorem heapify_spec (key : α → κ) (heap : List α) :
    ∃ sorted, heapify key heap = some sorted ∧ sorted.Perm heap ∧ Ordered key sorted 0 := by
  refine heapifyFrom_spec (heap.length / 2) fun i c from_half child => LeAt.of_length_le ?_
  rcases child with rfl | rfl <;> omega

theorem Ordered.root_le (ordered : Ordered key heap 0) (i : Nat) : LeAt key heap 0 i := by
  induction i using Nat.strong_induction_on with
  | _ i ih =>
    by_cases root : i = 0
    · subst root
      exact .refl 0
    · by_cases inside : i < heap.length
      · have child : IsChild i ((i - 1) / 2) := by unfold IsChild; omega
        exact (ih _ child.lt).trans (ordered _ i (Nat.zero_le _) child) (child.lt.trans inside)
      · exact .of_length_le (Nat.le_of_not_lt inside)

theorem Ordered.head_le {root : α} (ordered : Ordered key heap 0) (first : heap[0]? = some root)
    {a : α} (member : a ∈ heap) : key root ≤ key a := by
  obtain ⟨i, there⟩ := List.mem_iff_getElem?.mp member
  exact ordered.root_le i root a first there

end Heapify

end Kubecc.Lib.BinaryHeap
