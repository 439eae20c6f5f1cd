/-
**Numbers in text.**

`strconv.ParseInt(s, 10, 64)`: an optional sign and at least one decimal digit, nothing else, within the
range of an `int64`.
-/

import Kubecc.Go.Strings

namespace Kubecc.Go

def digit (c : UInt8) : Option ℕ :=
  if byte '0' ≤ c ∧ c ≤ byte '9' then some (c - byte '0').toNat else none

/-- The value of decimal digits, with what has been read so far. -/
def digits : ℕ → GoString → Option ℕ
  | value, [] => some value
  | value, c :: rest => (digit c).bind fun d => digits (10 * value + d) rest

/-- A number without a sign. -/
def parseUint (s : GoString) : Option ℕ := if s = [] then none else digits 0 s

/-- `strconv.ParseInt(s, 10, 64)`. -/
def parseInt (s : GoString) : Option Int64 :=
  match s with
  | [] => none
  | c :: rest =>
    if c = byte '-' then (parseUint rest).bind fun n => if n ≤ 2 ^ 63 then some (.ofInt (-n)) else none
    else
      (parseUint (if c = byte '+' then rest else s)).bind fun n =>
        if n < 2 ^ 63 then some (.ofNat n) else none

example : parseInt (bytes "42") = some 42 ∧ parseInt (bytes "-7") = some (-7) ∧ parseInt [] = none ∧
    parseInt (bytes "1_0") = none ∧ parseInt (bytes "9223372036854775808") = none := by decide

end Kubecc.Go
