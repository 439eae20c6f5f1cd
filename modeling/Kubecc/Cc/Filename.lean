/-
**Source file names.**

`pkg/cc/filename.go`: which files are sources, which are compiled locally as a special case, and how
the name of an output is made from that of an input.
-/

import Kubecc.Go.Strings

namespace Kubecc.Cc

open Kubecc.Go

def sourceExtensions : List (GoString × GoString) :=
  [(bytes ".i", bytes "c"), (bytes ".ii", bytes "c++"), (bytes ".c", bytes "c"),
    (bytes ".cc", bytes "c++"), (bytes ".cpp", bytes "c++"), (bytes ".CPP", bytes "c++"),
    (bytes ".cxx", bytes "c++"), (bytes ".cp", bytes "c++"), (bytes ".c++", bytes "c++"),
    (bytes ".C", bytes "c++"), (bytes ".m", bytes "objective-c"),
    (bytes ".mm", bytes "objective-c++"), (bytes ".mi", bytes "objective-c"),
    (bytes ".mii", bytes "objective-c++"), (bytes ".M", bytes "objective-c++"),
    (bytes ".s", bytes "assembler"), (bytes ".S", bytes "assembler"), (bytes ".go", bytes "go"),
    (bytes ".h", bytes "c-header"), (bytes ".H", bytes "c++-header"),
    (bytes ".hpp", bytes "c++-header"), (bytes ".hp", bytes "c++-header"),
    (bytes ".hxx", bytes "c++-header"), (bytes ".h++", bytes "c++-header"),
    (bytes ".HPP", bytes "c++-header"), (bytes ".tcc", bytes "c++-header"),
    (bytes ".hh", bytes "c++-header")]

def knownCmakeTestFiles : List GoString :=
  [bytes "DummyCXXFile.cxx", bytes "TestForAnsiForScope.cxx", bytes "TestForANSIStreamHeaders.cxx",
    bytes "TestForSSTREAM.cxx", bytes "TestForSTDNamespace.cxx", bytes "CMakeCXXCompilerABI.cpp",
    bytes "CheckForPthreads.c", bytes "CheckFunctionExists.c", bytes "CheckVariableExists.c",
    bytes "CMakeCCompilerABI.c", bytes "CMakeTestGNU.c"]

def isSourceFile (f : GoString) : Bool := (sourceExtensions.lookup (ext f)).isSome

def sourceFileLanguage (f : GoString) : Except GoString GoString :=
  match sourceExtensions.lookup (ext f) with
  | some lang => .ok lang
  | none => .error (bytes "Unknown source file extension")

def shouldRunLocal (f : GoString) : Bool :=
  let basename := base f
  hasPrefix basename (bytes "conftest.") || hasPrefix basename (bytes "tmp.conftest.") ||
    contains f (bytes "CMakeTmp/src.") || knownCmakeTestFiles.contains basename

def replaceExtension (path newExt : GoString) : GoString :=
  path.take (path.length - (ext path).length) ++ newExt

/-! ### Extensions -/

theorem take_append_ext (path : GoString) :
    path.take (path.length - (ext path).length) ++ ext path = path := by
  have loop : ∀ rest seen : GoString, extLoop rest seen = [] ∨
      ∃ before, rest.reverse ++ seen = before ++ extLoop rest seen := by
    intro rest
    induction rest with
    | nil => exact fun _ => .inl rfl
    | cons c before ih =>
      intro seen
      unfold extLoop
      split
      · exact .inl rfl
      · split
        · exact .inr ⟨before.reverse, by simp⟩
        · simpa using ih (c :: seen)
  unfold ext
  rcases loop path.reverse [] with none | ⟨before, joined⟩
  · rw [none]
    simp
  · rw [List.reverse_reverse, List.append_nil] at joined
    generalize extLoop path.reverse [] = found at joined
    subst joined
    rw [List.length_append, Nat.add_sub_cancel, List.take_left]

theorem ext_append_s (stem : GoString) : ext (stem ++ bytes ".s") = bytes ".s" := by
  simp [ext, bytes, extLoop, byte]

theorem ext_append_o (stem : GoString) : ext (stem ++ bytes ".o") = bytes ".o" := by
  simp [ext, bytes, extLoop, byte]

/-- The name of an output is that of its input only when the extension stays. -/
theorem replaceExtension_eq_self_iff (path newExt : GoString) :
    replaceExtension path newExt = path ↔ ext path = newExt := by
  unfold replaceExtension
  constructor
  · intro same
    exact List.append_cancel_left ((take_append_ext path).trans same.symm)
  · rintro rfl
    exact take_append_ext path

end Kubecc.Cc
