/-
**Go strings and the library functions on them.**

A Go string is a sequence of bytes, with no promise of being text (`GoString`). The functions below
are the ones of `strings`, `path` and `path/filepath` that the modelled code calls, as they behave on a
system whose path separator is the slash.

* `hasPrefix`, `contains`, `split` — `strings.HasPrefix`, `strings.Contains`, `strings.Split`.
* `ext`, `base` — `filepath.Ext`, `filepath.Base`.
* `clean`, `dir` — `path.Clean`, `path.Dir`.
-/

import Mathlib.Data.List.Basic
import Mathlib.Tactic

namespace Kubecc.Go

/-- A Go string: any sequence of bytes. -/
abbrev GoString := List UInt8

/-- The byte of an ASCII character. -/
def byte (c : Char) : UInt8 := c.toNat.toUInt8

/-- The bytes of an ASCII literal of the source. -/
def bytes (literal : String) : GoString := literal.toList.map byte

/-- `strings.HasPrefix(s, start)`. -/
def hasPrefix (s start : GoString) : Bool := start.isPrefixOf s

/-- `strings.Contains(s, part)`: some tail of `s` begins with `part`. -/
def contains (s part : GoString) : Bool := s.tails.any fun tail => hasPrefix tail part

/-- `strings.Split(s, sep)` for a separator of one byte: the fields between the separators. -/
def split (s : GoString) (sep : UInt8) : List GoString := s.splitOn sep

theorem hasPrefix_iff {s start : GoString} : hasPrefix s start = true ↔ ∃ rest, s = start ++ rest := by
  rw [hasPrefix, List.isPrefixOf_iff_prefix]
  exact ⟨fun ⟨rest, joined⟩ => ⟨rest, joined.symm⟩, fun ⟨rest, joined⟩ => ⟨rest, joined.symm⟩⟩

/-! ### Paths -/

/-- The loop of `filepath.Ext`, from the last byte backwards: `seen` is the part already walked
over. It stops at a dot, and gives up at a slash. -/
def extLoop : GoString → GoString → GoString
  | [], _ => []
  | c :: before, seen =>
    if c = byte '/' then []
    else if c = byte '.' then c :: seen
    else extLoop before (c :: seen)

/-- `filepath.Ext(path)`: the suffix from the last dot of the last element on, or nothing. -/
def ext (path : GoString) : GoString := extLoop path.reverse []

/-- `filepath.Base(path)`: the last element of the path, trailing slashes dropped. -/
def base (path : GoString) : GoString :=
  if path = [] then bytes "."
  else
    let stripped := (path.reverse.dropWhile (· = byte '/')).reverse
    let last := (stripped.reverse.takeWhile (· ≠ byte '/')).reverse
    if last = [] then bytes "/" else last

/-- An element of the path in the loop of `path.Clean`; `out` holds those kept so far, the last one
first. `..` takes one back if that is possible, and is dropped at the root. -/
def cleanElem (rooted : Bool) (out : List GoString) (elem : GoString) : List GoString :=
  if elem = [] || elem = bytes "." then out
  else if elem = bytes ".." then
    match out with
    | last :: before => if last = bytes ".." then elem :: out else before
    | [] => if rooted then [] else [elem]
  else elem :: out

/-- `path.Clean(path)`. -/
def clean (path : GoString) : GoString :=
  let rooted := path.head? = some (byte '/')
  let out := (split path (byte '/')).foldl (cleanElem rooted) []
  if rooted then byte '/' :: [byte '/'].intercalate out.reverse
  else if out = [] then bytes "."
  else [byte '/'].intercalate out.reverse

/-- `path.Dir(path)`: what stands up to the last slash, cleaned. -/
def dir (path : GoString) : GoString :=
  clean (path.reverse.dropWhile (· ≠ byte '/')).reverse

example : dir (bytes "/tmp/../src//./main.c") = bytes "/src" ∧ dir (bytes "main.c") = bytes "." ∧
    dir (bytes "../../lib/main.c") = bytes "../../lib" := by decide

end Kubecc.Go
