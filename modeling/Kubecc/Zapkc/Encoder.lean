/-
**The caller in a log line.**

`FormatEntryCaller` of `internal/zapkc/encoder.go`: a path, cut down or padded to a fixed number of bytes.
The subtractions of the five cases are used as indices. In the fourth case the name is cut in front of its
last dot, so that what follows the dot stands in full at the end; nothing checks that this part is shorter
than the buffer.

* `Formatted` — the property: a result of the right length with no byte left unwritten, and the whole path
  at its end if that fits.
* `LongExtension` — the part from the last dot on has no room.
* `formatted_iff` — the property holds exactly of the other paths.
* `long_extension_panics` — a path that makes `FormatEntryCaller` panic.
-/

import Kubecc.Go.Slices

namespace Kubecc.Zapkc

open Kubecc.Go

def filenameBufferLen : Nat := 16

def spaceBuffer : List UInt8 := List.replicate filenameBufferLen (byte ' ')

/-- The `basenameLen` of `FormatEntryCaller`. -/
def basenameLen (path : GoString) : Int :=
  let slashIdx := lastIndexByte path (byte '/')
  if slashIdx = -1 then path.length else path.length - slashIdx - 1

/-- **`FormatEntryCaller`**; `none` is a panic. -/
def formatEntryCaller (path : GoString) (maxLen : Int) : Option (List UInt8) :=
  if maxLen ≤ 0 then none
  else
    let bytes := List.replicate maxLen.toNat 0
    let slashIdx := lastIndexByte path (byte '/')
    let dotIdx := lastIndexByte path (byte '.')
    let basenameLen := basenameLen path
    if path.length ≤ maxLen then do
      let bytes := copy bytes (← slice spaceBuffer 0 (maxLen - path.length))
      copyAt bytes (maxLen - path.length) path
    else if slashIdx ≠ -1 ∧ basenameLen + 2 ≤ maxLen then do
      let start := maxLen - basenameLen - 2
      let bytes := copy bytes (← slice spaceBuffer 0 start)
      let bytes ← store bytes start (← index path 0)
      let bytes ← store bytes (start + 1) (byte '/')
      copyAt bytes (start + 2) (← slice path (slashIdx + 1) path.length)
    else if basenameLen ≤ maxLen then do
      let bytes := copy bytes (← slice spaceBuffer 0 (maxLen - basenameLen))
      copyAt bytes (maxLen - basenameLen) (← slice path (slashIdx + 1) path.length)
    else if basenameLen > maxLen ∧ dotIdx > path.length - basenameLen + 1 then do
      let bytes := copy bytes (← slice path (path.length - basenameLen) (dotIdx - 1))
      let bytes ← store bytes (bytes.length - (path.length - dotIdx) - 1) (byte '+')
      copyAt bytes (bytes.length - (path.length - dotIdx)) (← slice path dotIdx path.length)
    else
      let bytes := copy bytes path
      store bytes (bytes.length - 1) (byte '+')

/-! ### The property -/

/-- **The caller is formatted**: there is a result, of the right length and with no NUL byte, and a path
that fits stands in full behind spaces. -/
def Formatted (path : GoString) (maxLen : Int) : Prop :=
  ∃ out, formatEntryCaller path maxLen = some out ∧ out.length = maxLen ∧ 0 ∉ out ∧
    (path.length ≤ maxLen →
      out = List.replicate (maxLen - path.length).toNat (byte ' ') ++ path)

/-- The last element of the path does not fit, has a dot at its third byte or later, and from its last dot
on is as long as the buffer. -/
def LongExtension (path : GoString) (maxLen : Int) : Prop :=
  maxLen < basenameLen path ∧ path.length - basenameLen path + 1 < lastIndexByte path (byte '.') ∧
    maxLen ≤ path.length - lastIndexByte path (byte '.')

instance (path : GoString) (maxLen : Int) : Decidable (LongExtension path maxLen) :=
  inferInstanceAs (Decidable (_ ∧ _ ∧ _))

section Cases

variable {path : GoString} {maxLen : Int}

theorem basenameLen_eq (path : GoString) :
    basenameLen path = path.length - (lastIndexByte path (byte '/') + 1) := by
  rw [basenameLen]
  split <;> omega

theorem length_basename (path : GoString) :
    ((path.drop (lastIndexByte path (byte '/') + 1).toNat).length : Int) = basenameLen path := by
  have bounds := lastIndexByte_bounds path (byte '/')
  rw [basenameLen_eq, List.length_drop]
  omega

theorem slice_basename (path : GoString) :
    slice path (lastIndexByte path (byte '/') + 1) path.length
      = some (path.drop (lastIndexByte path (byte '/') + 1).toNat) := by
  have bounds := lastIndexByte_bounds path (byte '/')
  exact slice_to_end (by omega) (by omega)

theorem slice_spaceBuffer {n : Int} (start : 0 ≤ n) (bound : n ≤ filenameBufferLen) :
    slice spaceBuffer 0 n = some (List.replicate n.toNat (byte ' ')) := by
  have length : spaceBuffer.length = filenameBufferLen := List.length_replicate
  rw [slice_eq le_rfl start (by rw [length]; exact bound), spaceBuffer, List.take_replicate,
    min_eq_left (by omega)]
  rfl

/-- What stands in the buffer before a position up to which spaces have been copied. -/
theorem take_copy_spaces {n m : Nat} (bound : n ≤ m) :
    (copy (List.replicate m 0) (List.replicate n (byte ' '))).take n = List.replicate n (byte ' ') := by
  rw [take_copy (by rwa [List.length_replicate]) (by rw [List.length_replicate]),
    List.take_of_length_le (by rw [List.length_replicate])]

theorem formatEntryCaller_path (positive : 0 < maxLen) (small : maxLen ≤ filenameBufferLen)
    (fits : path.length ≤ maxLen) : formatEntryCaller path maxLen
      = some (List.replicate (maxLen - path.length).toNat (byte ' ') ++ path) := by
  rw [formatEntryCaller, if_neg (by omega), if_pos fits, slice_spaceBuffer (by omega) (by omega)]
  refine (copyAt_eq (by omega) ?_).trans ?_
  · rw [length_copy, List.length_replicate]
    omega
  · rw [take_copy_spaces (by omega)]

theorem formatEntryCaller_short (small : maxLen ≤ filenameBufferLen) (long : maxLen < path.length)
    (slash : lastIndexByte path (byte '/') ≠ -1) (fits : basenameLen path + 2 ≤ maxLen) :
    ∃ first ∈ path, formatEntryCaller path maxLen
      = some (List.replicate (maxLen - basenameLen path - 2).toNat (byte ' ') ++ [first] ++ [byte '/']
          ++ path.drop (lastIndexByte path (byte '/') + 1).toNat) := by
  have basename := length_basename path
  obtain ⟨first, rest, rfl⟩ : ∃ first rest, path = first :: rest :=
    List.exists_cons_of_length_pos (by omega)
  refine ⟨first, List.mem_cons_self, ?_⟩
  generalize is : first :: rest = path at *
  have head : index path 0 = some first := by rw [← is]; rfl
  obtain ⟨start, at_ : maxLen - basenameLen path - 2 = (start : Int)⟩ :=
    Int.eq_ofNat_of_zero_le (a := maxLen - basenameLen path - 2) (by omega)
  have room : start + 2 ≤ maxLen.toNat := by omega
  rw [formatEntryCaller, if_neg (by omega), if_neg (by omega), if_pos ⟨slash, fits⟩, at_]
  dsimp only
  rw [slice_spaceBuffer (by omega) (by omega), slice_basename, head, Int.toNat_natCast]
  have length : (copy (List.replicate maxLen.toNat 0) (List.replicate start (byte ' '))).length
      = maxLen.toNat := by rw [length_copy, List.length_replicate]
  simp only [Option.bind_eq_bind, Option.bind_some]
  rw [store_eq (by omega) (by omega), Option.bind_some, store_eq (by omega) (by rw [List.length_set]; omega),
    Option.bind_some, copyAt_eq (by omega) (by rw [List.length_set, List.length_set, basename]; omega)]
  have second : ((start : Int) + 1).toNat = start + 1 := by omega
  have third : ((start : Int) + 2).toNat = start + 1 + 1 := by omega
  rw [second, third, Int.toNat_natCast, take_set_succ (by rw [List.length_set]; omega),
    take_set_succ (by omega), take_copy_spaces (by omega)]

theorem formatEntryCaller_basename (positive : 0 < maxLen) (small : maxLen ≤ filenameBufferLen)
    (long : maxLen < path.length)
    (short : ¬ (lastIndexByte path (byte '/') ≠ -1 ∧ basenameLen path + 2 ≤ maxLen))
    (fits : basenameLen path ≤ maxLen) : formatEntryCaller path maxLen
      = some (List.replicate (maxLen - basenameLen path).toNat (byte ' ')
          ++ path.drop (lastIndexByte path (byte '/') + 1).toNat) := by
  have basename := length_basename path
  rw [formatEntryCaller, if_neg (by omega), if_neg (by omega), if_neg short, if_pos fits,
    slice_spaceBuffer (by omega) (by omega), slice_basename]
  refine (copyAt_eq (by omega) ?_).trans ?_
  · rw [length_copy, List.length_replicate, basename]
    omega
  · rw [take_copy_spaces (by omega)]

theorem formatEntryCaller_dot (positive : 0 < maxLen) (long : maxLen < basenameLen path)
    (dot : path.length - basenameLen path + 1 < lastIndexByte path (byte '.')) :
    formatEntryCaller path maxLen
      = if maxLen ≤ path.length - lastIndexByte path (byte '.') then none
        else some (((path.take (lastIndexByte path (byte '.') - 1).toNat).drop
            (path.length - basenameLen path).toNat).take
              (maxLen - (path.length - lastIndexByte path (byte '.')) - 1).toNat ++ [byte '+']
          ++ path.drop (lastIndexByte path (byte '.')).toNat) := by
  have basename := length_basename path
  have bounds := lastIndexByte_bounds path (byte '.')
  have slash := lastIndexByte_bounds path (byte '/')
  have shorter : basenameLen path ≤ path.length := by rw [basenameLen_eq]; omega
  rw [formatEntryCaller, if_neg (by omega), if_neg (by omega), if_neg (by omega), if_neg (by omega),
    if_pos ⟨long, dot⟩]
  generalize lastIndexByte path (byte '.') = dotIdx at *
  rw [slice_eq (by omega) (by omega) (by omega), slice_to_end (by omega) (by omega)]
  simp only [Option.bind_eq_bind, Option.bind_some, length_copy, List.length_replicate,
    Int.toNat_of_nonneg positive.le]
  split
  · rename_i full
    rw [store, if_neg (by omega), Option.bind_none]
  · rename_i room
    obtain ⟨cut, at_ : maxLen - (path.length - dotIdx) - 1 = (cut : Int)⟩ :=
      Int.eq_ofNat_of_zero_le (a := maxLen - (path.length - dotIdx) - 1) (by omega)
    set part := (path.take (dotIdx - 1).toNat).drop (path.length - basenameLen path).toNat with kept
    have enough : cut ≤ part.length := by
      rw [kept, List.length_drop, List.length_take]
      omega
    rw [at_, store_eq (by omega) (by rw [length_copy, List.length_replicate]; omega), Option.bind_some,
      List.length_set, length_copy, List.length_replicate, Int.toNat_of_nonneg positive.le,
      copyAt_eq (by omega) (by
        rw [List.length_set, length_copy, List.length_replicate, List.length_drop]; omega)]
    have after : (maxLen - (path.length - dotIdx)).toNat = cut + 1 := by omega
    rw [after, Int.toNat_natCast, take_set_succ (by rw [length_copy, List.length_replicate]; omega),
      take_copy (by rw [List.length_replicate]; omega) enough]

theorem formatEntryCaller_cut (positive : 0 < maxLen) (long : maxLen < basenameLen path)
    (dot : ¬ path.length - basenameLen path + 1 < lastIndexByte path (byte '.')) :
    formatEntryCaller path maxLen = some (path.take (maxLen - 1).toNat ++ [byte '+']) := by
  have slash := lastIndexByte_bounds path (byte '/')
  have shorter : basenameLen path ≤ path.length := by rw [basenameLen_eq]; omega
  rw [formatEntryCaller, if_neg (by omega), if_neg (by omega), if_neg (by omega), if_neg (by omega),
    if_neg (fun case => dot case.2)]
  obtain ⟨last, at_ : maxLen - 1 = (last : Int)⟩ := Int.eq_ofNat_of_zero_le (a := maxLen - 1) (by omega)
  have length : (copy (List.replicate maxLen.toNat 0) path).length = last + 1 := by
    rw [length_copy, List.length_replicate]
    omega
  have index : ((last + 1 : Nat) - 1 : Int).toNat = last := by omega
  have kept : (copy (List.replicate maxLen.toNat 0) path).take last = path.take last :=
    take_copy (by rw [List.length_replicate]; omega) (by omega)
  rw [store_eq (by omega) (by omega), length, at_, index, Int.toNat_natCast, ← kept,
    ← take_set_succ (by omega), List.take_of_length_le (by rw [List.length_set, length])]

theorem formatted_of_long {out : List UInt8} (printable : 0 ∉ path) (long : maxLen < path.length)
    (result : formatEntryCaller path maxLen = some out) (length : out.length = maxLen)
    (written : ∀ c ∈ out, c ∈ path ∨ c = byte ' ' ∨ c = byte '/' ∨ c = byte '+') :
    Formatted path maxLen := by
  refine ⟨out, result, length, fun null => ?_, fun fits => absurd long (by omega)⟩
  rcases written 0 null with inside | space | slash | plus
  · exact printable inside
  · exact absurd space (by decide)
  · exact absurd slash (by decide)
  · exact absurd plus (by decide)

theorem formatted_of_basename (printable : 0 ∉ path) (positive : 0 < maxLen)
    (small : maxLen ≤ filenameBufferLen) (fits : basenameLen path ≤ maxLen) : Formatted path maxLen := by
  have basename := length_basename path
  by_cases whole : path.length ≤ maxLen
  · refine ⟨_, formatEntryCaller_path positive small whole, ?_, fun null => ?_, fun _ => rfl⟩
    · rw [List.length_append, List.length_replicate]
      omega
    · rcases List.mem_append.mp null with space | inside
      · exact absurd (List.mem_replicate.mp space).2 (by decide)
      · exact printable inside
  have long : maxLen < path.length := by omega
  by_cases short : lastIndexByte path (byte '/') ≠ -1 ∧ basenameLen path + 2 ≤ maxLen
  · obtain ⟨first, inside, result⟩ := formatEntryCaller_short small long short.1 short.2
    refine formatted_of_long printable long result ?_ fun c member => ?_
    · simp only [List.length_append, List.length_replicate, List.length_singleton]
      omega
    · simp only [List.mem_append, List.mem_replicate, List.mem_singleton] at member
      rcases member with ((space | rfl) | slash) | part
      · exact .inr (.inl space.2)
      · exact .inl inside
      · exact .inr (.inr (.inl slash))
      · exact .inl (List.mem_of_mem_drop part)
  · refine formatted_of_long printable long (formatEntryCaller_basename positive small long short fits) ?_
      fun c member => ?_
    · rw [List.length_append, List.length_replicate]
      omega
    · rcases List.mem_append.mp member with space | part
      · exact .inr (.inl (List.mem_replicate.mp space).2)
      · exact .inl (List.mem_of_mem_drop part)

theorem formatted_of_cut (printable : 0 ∉ path) (positive : 0 < maxLen) (long : maxLen < basenameLen path)
    (room : ¬ LongExtension path maxLen) : Formatted path maxLen := by
  have bounds := lastIndexByte_bounds path (byte '.')
  have slash := lastIndexByte_bounds path (byte '/')
  have shorter : basenameLen path ≤ path.length := by rw [basenameLen_eq]; omega
  by_cases dot : path.length - basenameLen path + 1 < lastIndexByte path (byte '.')
  · have fits : ¬ maxLen ≤ path.length - lastIndexByte path (byte '.') := fun full => room ⟨long, dot, full⟩
    have result := formatEntryCaller_dot positive long dot
    rw [if_neg fits] at result
    refine formatted_of_long printable (by omega) result ?_ fun c member => ?_
    · simp only [List.length_append, List.length_take, List.length_drop, List.length_singleton]
      omega
    · simp only [List.mem_append, List.mem_singleton] at member
      rcases member with (name | plus) | extension
      · exact .inl (List.mem_of_mem_take (List.mem_of_mem_drop (List.mem_of_mem_take name)))
      · exact .inr (.inr (.inr plus))
      · exact .inl (List.mem_of_mem_drop extension)
  · refine formatted_of_long printable (by omega) (formatEntryCaller_cut positive long dot) ?_
      fun c member => ?_
    · rw [List.length_append, List.length_take, List.length_singleton]
      omega
    · rcases List.mem_append.mp member with part | plus
      · exact .inl (List.mem_of_mem_take part)
      · exact .inr (.inr (.inr (List.mem_singleton.mp plus)))

end Cases

/-- **The caller is formatted exactly if the part from the last dot on has room.** -/
theorem formatted_iff (path : GoString) (maxLen : Int) (printable : 0 ∉ path) (positive : 1 ≤ maxLen)
    (small : maxLen ≤ 16) : Formatted path maxLen ↔ ¬ LongExtension path maxLen := by
  refine ⟨fun ⟨out, result, _⟩ ⟨long, dot, full⟩ => ?_, fun room => ?_⟩
  · rw [formatEntryCaller_dot (by omega) long dot, if_pos full] at result
    exact absurd result nofun
  · by_cases fits : basenameLen path ≤ maxLen
    · exact formatted_of_basename printable (by omega) small fits
    · exact formatted_of_cut printable (by omega) (by omega) room

/-- A name that is cut in front of its last dot. -/
theorem formatted_long_name :
    0 ∉ bytes "zxxxxxx/yxxxxxxxxxxx.go:123" ∧ Formatted (bytes "zxxxxxx/yxxxxxxxxxxx.go:123") 16 :=
  ⟨by decide, (formatted_iff _ 16 (by decide) (by decide) (by decide)).mpr (by decide)⟩

/-- **A long extension panics**: the plus sign would be stored in front of the buffer. -/
theorem long_extension_panics : 0 ∉ bytes "main.abcdefghijklmnop" ∧
    formatEntryCaller (bytes "main.abcdefghijklmnop") 16 = none ∧
    ¬ Formatted (bytes "main.abcdefghijklmnop") 16 := by
  have panics : formatEntryCaller (bytes "main.abcdefghijklmnop") 16 = none := by decide
  refine ⟨by decide, panics, fun ⟨out, result, _⟩ => ?_⟩
  rw [panics] at result
  exact absurd result nofun

example : formatEntryCaller (bytes "zxxxxxx/yxxxxxxxxxxx.go:123") 16 = some (bytes "yxxxxxxx+.go:123") ∧
    formatEntryCaller (bytes "zxxxxxx/yxx.go:123") 16 = some (bytes "    z/yxx.go:123") ∧
    formatEntryCaller (bytes "y.yxxxxxxxxxxxxxxx") 16 = some (bytes "y.yxxxxxxxxxxxx+") := by decide

end Kubecc.Zapkc
