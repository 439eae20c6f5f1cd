/-
**Go slices, with their bounds checks.**

Indices are of Go's type `int`, so they can be negative. An operation that Go checks at run time returns
`none` where Go panics; the capacity of a slice is its length.

* `slice`, `index`, `store` — `s[low:high]`, `s[i]`, `s[i] = value`.
* `copy`, `copyAt` — `copy(dst, src)`, which stops at the shorter of the two, and `copy(dst[low:], src)`.
* `lastIndexByte` — `strings.LastIndexByte`.
-/

import Kubecc.Go.Strings

namespace Kubecc.Go

section Slices

variable {α : Type}

/-- `s[low:high]`. -/
def slice (s : List α) (low high : Int) : Option (List α) :=
  if 0 ≤ low ∧ low ≤ high ∧ high ≤ s.length then some ((s.take high.toNat).drop low.toNat) else none

/-- `s[i]`. -/
def index (s : List α) (i : Int) : Option α := if 0 ≤ i then s[i.toNat]? else none

/-- `s[i] = value`. -/
def store (s : List α) (i : Int) (value : α) : Option (List α) :=
  if 0 ≤ i ∧ i < s.length then some (s.set i.toNat value) else none

/-- `copy(dst, src)`. -/
def copy (dst src : List α) : List α := src.take dst.length ++ dst.drop src.length

/-- `copy(dst[low:], src)`. -/
def copyAt (dst : List α) (low : Int) (src : List α) : Option (List α) :=
  if 0 ≤ low ∧ low ≤ dst.length then some (dst.take low.toNat ++ copy (dst.drop low.toNat) src)
  else none

variable {dst src s : List α} {low high i : Int}

theorem slice_eq (start : 0 ≤ low) (order : low ≤ high) (bound : high ≤ s.length) :
    slice s low high = some ((s.take high.toNat).drop low.toNat) :=
  if_pos ⟨start, order, bound⟩

theorem slice_to_end (start : 0 ≤ low) (bound : low ≤ s.length) :
    slice s low s.length = some (s.drop low.toNat) := by
  rw [slice_eq start bound le_rfl, Int.toNat_natCast, List.take_length]

theorem store_eq {value : α} (start : 0 ≤ i) (bound : i < s.length) :
    store s i value = some (s.set i.toNat value) :=
  if_pos ⟨start, bound⟩

@[simp] theorem length_copy : (copy dst src).length = dst.length := by
  rw [copy, List.length_append, List.length_take, List.length_drop]
  omega

theorem take_copy {n : Nat} (inside : n ≤ dst.length) (enough : n ≤ src.length) :
    (copy dst src).take n = src.take n := by
  rw [copy, List.take_append_of_le_length (by rw [List.length_take]; omega), List.take_take,
    min_eq_left inside]

theorem copyAt_eq (start : 0 ≤ low) (fills : low + src.length = dst.length) :
    copyAt dst low src = some (dst.take low.toNat ++ src) := by
  have whole : src.take (dst.length - low.toNat) = src := List.take_of_length_le (by omega)
  have nothing : dst.drop (low.toNat + src.length) = [] := List.drop_of_length_le (by omega)
  rw [copyAt, if_pos ⟨start, by omega⟩, copy, List.length_drop, List.drop_drop, whole, nothing,
    List.append_nil]

theorem take_set_succ {n : Nat} {value : α} (bound : n < s.length) :
    (s.set n value).take (n + 1) = s.take n ++ [value] := by
  rw [List.set_eq_take_append_cons_drop, if_pos bound, List.take_append, List.take_of_length_le
    (by rw [List.length_take]; omega), List.length_take, min_eq_left bound.le, Nat.add_sub_cancel_left]
  rfl

end Slices

/-- `strings.LastIndexByte(s, c)`: where the byte stands last, or -1. -/
def lastIndexByte (s : GoString) (c : UInt8) : Int := (s.reverse.dropWhile (· ≠ c)).length - 1

theorem lastIndexByte_bounds (s : GoString) (c : UInt8) :
    -1 ≤ lastIndexByte s c ∧ lastIndexByte s c < s.length := by
  have shorter := (List.dropWhile_suffix (l := s.reverse) (· ≠ c)).length_le
  rw [List.length_reverse] at shorter
  rw [lastIndexByte]
  omega

example : lastIndexByte (bytes "a/b/c.go") (byte '/') = 3 ∧ lastIndexByte (bytes "abc") (byte '/') = -1 := by
  decide

end Kubecc.Go
