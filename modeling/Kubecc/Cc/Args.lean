/-
**The compiler argument parser.**

`ArgParser` of `pkg/cc/args.go`, as the code computes it. An index or a head of a string that is out
of range is a run-time panic: such functions return `none` then. An index of `-1` is `none`.

`Parse` walks over the arguments with one switch. Here the switch is in two parts: `kind` says which
case an argument falls into, `visit` what that case does. The loop passes over the argument after one
that takes a value (`skip`).
-/

import Kubecc.Cc.Filename
import Kubecc.Types.Toolchain

namespace Kubecc.Cc

open Kubecc.Go Kubecc.Types

/-! ### The tables of options -/

def profileArgs : List GoString :=
  [bytes "-fprofile-arcs", bytes "-ftest-coverage", bytes "--coverage", bytes "-fprofile-correction"]

def profilePrefixArgs : List GoString :=
  [bytes "-fprofile-generate", bytes "-fprofile-use", bytes "-fauto-profile"]

def localArgsWithValues : List GoString :=
  [bytes "-D", bytes "-I", bytes "-U", bytes "-L", bytes "-l", bytes "-MF", bytes "-MT", bytes "-MQ",
    bytes "-include", bytes "-imacros", bytes "-iprefix", bytes "-iwithprefix", bytes "-isystem",
    bytes "-imultilib", bytes "-iplugindir", bytes "-iquote", bytes "-isysroot",
    bytes "-iwithprefixbefore", bytes "-idirafter"]

def localArgsNoValues : List GoString :=
  [bytes "-undef", bytes "-nostdinc", bytes "-nostdinc++", bytes "-MD", bytes "-MMD", bytes "-MG",
    bytes "-MP"]

def picArgs : List GoString :=
  [bytes "-fPIC", bytes "-fPIE", bytes "-fpic", bytes "-fpie", bytes "-fno-pic", bytes "-fno-pie",
    bytes "-fno-PIC", bytes "-fno-PIE"]

def localPrefixArgs : List GoString :=
  [bytes "-Wp,", bytes "-Wl,", bytes "-D", bytes "-U", bytes "-I", bytes "-l", bytes "-L",
    bytes "-MF", bytes "-MT", bytes "-MQ", bytes "-isystem", bytes "-stdlib"]

/-- What the argument of `-x` may begin with for the command to stay remote. -/
def remoteLanguages : List GoString :=
  [bytes "c", bytes "c++", bytes "objective-c", bytes "objective-c++", bytes "go"]

/-! ### The parser -/

inductive RunMode
  | unset
  | runLocal
  | runRemote
deriving DecidableEq

inductive ActionOpt
  | compile
  | preprocess
  | genAssembly
  | none
deriving DecidableEq

/-- `ActionOpt.String`. -/
def ActionOpt.text : ActionOpt → GoString
  | .compile => bytes "-c"
  | .preprocess => bytes "-E"
  | .genAssembly => bytes "-S"
  | .none => []

structure ArgParser where
  args : List GoString
  mode : RunMode
  inputArgIndex : Option ℕ
  outputArgIndex : Option ℕ
  flagIndexMap : GoString → Option ℕ

/-- `NewArgParser`: the other fields have their zero values. -/
def newArgParser (args : List GoString) : ArgParser :=
  ⟨args, .unset, some 0, some 0, fun _ => none⟩

def ArgParser.canRunRemote (ap : ArgParser) : Bool := ap.mode = .runRemote

/-- `standardize`: the first `-o/path` becomes `-o` and `/path`. -/
def standardize : List GoString → List GoString
  | [] => []
  | a :: rest =>
    if hasPrefix a (bytes "-o/") then bytes "-o" :: a.drop 2 :: rest else a :: standardize rest

/-- What `stripUnsupportedArgs` drops. -/
def unsupported (a : GoString) : Bool :=
  a = bytes "-Wpedantic" || a = bytes "-pedantic-errors" || a = bytes "-pedantic" ||
    hasPrefix a (bytes "-flto")

def stripUnsupportedArgs (args : List GoString) : List GoString :=
  args.filter fun a => !unsupported a

/-! ### `Parse` -/

/-- The cases of the switch in `Parse`, and `file` for an argument that is not an option. -/
inductive Kind
  | preprocess
  | depend
  | dependValue
  | dependOther
  | native
  | pic
  | assembler
  | specs
  | genAssembly
  | profile
  | repo
  | language
  | dumpRtl
  | localValue
  | compile
  | output
  | other
  | file
deriving DecidableEq

/-- A condition of the switch: the option is one of these, or begins with one of these. -/
inductive Test
  | isOneOf (options : List GoString)
  | startsWith (starts : List GoString)
deriving DecidableEq

def Test.holds : Test → GoString → Bool
  | .isOneOf options, a => options.contains a
  | .startsWith starts, a => starts.any (hasPrefix a ·)

/-- The switch of `Parse`, case by case. -/
def switch : List (Test × Kind) :=
  [(.isOneOf [bytes "-E"], .preprocess),
    (.isOneOf [bytes "-MD", bytes "-MMD"], .depend),
    (.isOneOf [bytes "-MG", bytes "-MP"], .depend),
    (.startsWith [bytes "-MF", bytes "-MT", bytes "-MQ"], .dependValue),
    (.startsWith [bytes "-M"], .dependOther),
    (.isOneOf [bytes "-march=native"], .native),
    (.isOneOf [bytes "-mtune=native"], .native),
    (.isOneOf picArgs, .pic),
    (.startsWith [bytes "-Wa,"], .assembler),
    (.startsWith [bytes "-specs="], .specs),
    (.isOneOf [bytes "-S"], .genAssembly),
    (.isOneOf profileArgs, .profile),
    (.startsWith profilePrefixArgs, .profile),
    (.isOneOf [bytes "-frepo"], .repo),
    (.startsWith [bytes "-x"], .language),
    (.startsWith [bytes "-dr"], .dumpRtl),
    (.isOneOf localArgsWithValues, .localValue),
    (.isOneOf [bytes "-c"], .compile),
    (.isOneOf [bytes "-o"], .output)]

/-- The case of an option: the first that applies. -/
def optionKind (a : GoString) : Kind :=
  match switch.find? (·.1.holds a) with
  | some (_, kind) => kind
  | none => .other

/-- An option begins with a dash and is not just a dash. -/
def kind (a : GoString) : Kind :=
  if a.head? = some (byte '-') ∧ 1 < a.length then optionKind a else .file

/-- The variables of `Parse`, and the fields its loop writes. -/
structure Scan where
  mode : RunMode
  inputArgIndex : Option ℕ
  outputArgIndex : Option ℕ
  flagIndexMap : GoString → Option ℕ
  skip : Bool
  seenOptC : Bool
  seenOptS : Bool
  seenOptE : Bool
  inputArg : GoString
  outputArg : GoString

def Scan.setFlag (st : Scan) (flag : GoString) (i : ℕ) : Scan :=
  { st with flagIndexMap := Function.update st.flagIndexMap flag (some i) }

/-- The case of `-o` at `i`. -/
def visitOutput (st : Scan) (i : ℕ) (a : GoString) : Option GoString → Scan
  | none => { st.setFlag a i with mode := .runLocal }
  | some path =>
    { st.setFlag a i with
      mode :=
        if ext path = bytes ".o" then (if st.outputArg ≠ [] then .runLocal else st.mode)
        else if ext path = [] then .runLocal else st.mode
      outputArg := path
      outputArgIndex := some (i + 1)
      skip := true }

/-- The case of an argument that is not an option. -/
def visitFile (st : Scan) (i : ℕ) (a : GoString) : Scan :=
  if isSourceFile a || a = bytes "-" then
    { st with
      mode := if st.inputArg ≠ [] then .runLocal else st.mode
      inputArg := a
      inputArgIndex := some i }
  else st

/-- The body of the loop for the argument `a` at `i`; `next` is the argument after it. -/
def visit (st : Scan) (i : ℕ) (a : GoString) (next : Option GoString) : Scan :=
  match kind a with
  | .preprocess => { st.setFlag a i with mode := .runLocal, seenOptE := true }
  | .depend => st.setFlag a i
  | .dependValue =>
    { st.setFlag (a.take 3) i with skip := if a.length = 3 then true else st.skip }
  | .dependOther => { st.setFlag a i with mode := .runLocal }
  | .native | .specs | .profile | .repo | .dumpRtl => { st with mode := .runLocal }
  | .pic => st.setFlag a i
  | .assembler =>
    { st.setFlag (bytes "-Wa") i with
      mode := if contains a (bytes ",-a") || contains a (bytes "--MD") then .runLocal else st.mode }
  | .genAssembly => { st.setFlag a i with seenOptS := true }
  | .language =>
    { st with
      mode := if next.any fun lang => !remoteLanguages.any (hasPrefix lang ·) then .runLocal
        else st.mode
      skip := if a = bytes "-x" then true else st.skip }
  | .localValue => { st with skip := true }
  | .compile => { st.setFlag a i with seenOptC := true }
  | .output => visitOutput st i a next
  | .other => st
  | .file => visitFile st i a

/-- The loop of `Parse` from the argument at `i` on. `a[0]` panics on an empty argument. -/
def parseLoop : Scan → ℕ → List GoString → Option Scan
  | st, _, [] => some st
  | st, i, a :: rest =>
    if st.skip then parseLoop { st with skip := false } (i + 1) rest
    else if a = [] then none
    else parseLoop (visit st i a rest.head?) (i + 1) rest

def scanStart (mode : RunMode) : Scan where
  mode := mode
  inputArgIndex := none
  outputArgIndex := none
  flagIndexMap := fun _ => none
  skip := false
  seenOptC := false
  seenOptS := false
  seenOptE := false
  inputArg := []
  outputArg := []

def defaultOutput (st : Scan) : Option GoString :=
  if st.outputArg ≠ [] then none
  else if st.seenOptC || st.seenOptS then
    let outputArg := if st.seenOptS then replaceExtension st.inputArg (bytes ".s")
      else replaceExtension st.inputArg (bytes ".o")
    if outputArg ≠ [] then some outputArg else none
  else if st.inputArg ≠ [] && !st.seenOptE then some (bytes "a.out")
  else none

/-- The mode after the tests that follow the loop. -/
def finalMode (st : Scan) : RunMode :=
  let mode := if !st.seenOptC && !st.seenOptS && st.inputArgIndex.isNone then .runLocal else st.mode
  let mode := if st.inputArgIndex.isNone then .runLocal else mode
  let mode := if shouldRunLocal st.inputArg then .runLocal else mode
  let mode :=
    if st.outputArg = [] && !(st.seenOptC || st.seenOptS) && (st.inputArg ≠ [] && !st.seenOptE) then
      .runLocal
    else mode
  if mode = .unset then .runRemote else mode

/-- What follows the loop of `Parse`. -/
def finish (args : List GoString) (st : Scan) : ArgParser where
  args := args ++ ((defaultOutput st).map fun path => [bytes "-o", path]).getD []
  mode := finalMode st
  inputArgIndex := st.inputArgIndex
  outputArgIndex := if (defaultOutput st).isSome then some (args.length + 1) else st.outputArgIndex
  flagIndexMap := st.flagIndexMap

/-- **`Parse`.** It keeps the mode of an earlier call. -/
def ArgParser.parse (ap : ArgParser) : Option ArgParser :=
  let args := stripUnsupportedArgs (standardize ap.args)
  (parseLoop (scanStart ap.mode) 0 args).map (finish args)

/-! ### The other methods -/

namespace ArgParser

def actionOpt (ap : ArgParser) : ActionOpt :=
  if (ap.flagIndexMap (bytes "-c")).isSome then .compile
  else if (ap.flagIndexMap (bytes "-S")).isSome then .genAssembly
  else if (ap.flagIndexMap (bytes "-E")).isSome then .preprocess
  else .none

/-- `replace` of `SetActionOpt`. -/
def replaceOpt (ap : ArgParser) (i : ℕ) (oldOpt opt : ActionOpt) : Option ArgParser :=
  if i < ap.args.length then
    some { ap with
      args := ap.args.set i opt.text
      flagIndexMap := Function.update (Function.update ap.flagIndexMap oldOpt.text none) opt.text
        (some i) }
  else none

/-- `SetActionOpt`, with its error. -/
def setActionOpt (ap : ArgParser) (opt : ActionOpt) : Option (ArgParser × Option GoString) :=
  match ap.flagIndexMap (bytes "-c") with
  | some i => (ap.replaceOpt i .compile opt).map (·, none)
  | none =>
    match ap.flagIndexMap (bytes "-S") with
    | some i => (ap.replaceOpt i .genAssembly opt).map (·, none)
    | none =>
      match ap.flagIndexMap (bytes "-E") with
      | some i => (ap.replaceOpt i .preprocess opt).map (·, none)
      | none => some (ap, some (bytes "No -c -S or -E args found"))

/-- `ReplaceOutputPath`, with its error. -/
def replaceOutputPath (ap : ArgParser) (newPath : GoString) : Option (ArgParser × Option GoString) :=
  match ap.outputArgIndex with
  | some i =>
    if i < ap.args.length then some ({ ap with args := ap.args.set i newPath }, none) else none
  | none => some (ap, some (bytes "No -o arg found"))

/-- `ReplaceInputPath`, with its error. -/
def replaceInputPath (ap : ArgParser) (newPath : GoString) : Option (ArgParser × Option GoString) :=
  match ap.inputArgIndex with
  | some i =>
    match ap.args[i]? with
    | some old =>
      if old = newPath then some (ap, none)
      else if newPath = bytes "-" then none
      else some ({ ap with args := ap.args.set i newPath ++
        [bytes "-ffile-prefix-map=" ++ dir newPath ++ bytes "=" ++ dir old] }, none)
    | none => none
  | none => some (ap, some (bytes "No input arg found"))

end ArgParser

/-- The inner loop of `ConfigurePreprocessorOptions` over the fields of a `-Wp,` option. -/
def insertDepFile : List GoString → Option (List GoString)
  | [] => some []
  | [str] => some [str]
  | str :: next :: rest =>
    if str = bytes "-MD" || str = bytes "-MMD" then
      match next.head? with
      | none => none
      | some c =>
        if c = byte '-' then (insertDepFile (next :: rest)).map (str :: ·)
        else (insertDepFile (next :: rest)).map fun fields => str :: bytes "-MF" :: fields
    else (insertDepFile (next :: rest)).map (str :: ·)

/-- The outer loop of `ConfigurePreprocessorOptions`: `left` is `ap.Args[:i]`, already rewritten. -/
def expandLoop (left : List GoString) : List GoString → Option (List GoString)
  | [] => some left
  | arg :: rest =>
    if hasPrefix arg (bytes "-Wp") then
      (insertDepFile (split arg (byte ',')).tail).bind fun fields => expandLoop (left ++ fields) rest
    else expandLoop (left ++ [arg]) rest

def ArgParser.configurePreprocessorOptions (ap : ArgParser) : Option ArgParser :=
  (expandLoop [] ap.args).bind fun args => { ap with args := args }.parse

/-- The options `RemoveLocalArgs` drops, when they do not stand for a value too. -/
def isLocalArg (arg : GoString) : Bool :=
  localPrefixArgs.any (hasPrefix arg ·) || localArgsNoValues.contains arg

/-- The loop of `RemoveLocalArgs`; `skip` passes over a value. -/
def removeLocalLoop : Bool → List GoString → List GoString
  | _, [] => []
  | true, _ :: rest => removeLocalLoop false rest
  | false, arg :: rest =>
    if localArgsWithValues.contains arg then removeLocalLoop true rest
    else if isLocalArg arg then removeLocalLoop false rest
    else arg :: removeLocalLoop false rest

theorem mem_of_mem_removeLocalLoop {skip : Bool} {a : GoString} {args : List GoString}
    (member : a ∈ removeLocalLoop skip args) : a ∈ args := by
  induction args generalizing skip with
  | nil => cases member
  | cons first rest ih =>
    cases skip with
    | true => exact List.mem_cons_of_mem _ (ih member)
    | false =>
      rw [removeLocalLoop] at member
      split at member
      · exact List.mem_cons_of_mem _ (ih member)
      · split at member
        · exact List.mem_cons_of_mem _ (ih member)
        · rcases List.mem_cons.mp member with rfl | member
          · exact List.mem_cons_self
          · exact List.mem_cons_of_mem _ (ih member)

def ArgParser.removeLocalArgs (ap : ArgParser) : Option ArgParser :=
  { ap with args := removeLocalLoop false ap.args }.parse

/-- None of the options is among the flags. -/
def ArgParser.lacks (ap : ArgParser) (opts : List GoString) : Bool :=
  opts.all fun opt => (ap.flagIndexMap opt).isNone

def ArgParser.prependExplicitPICArgs (ap : ArgParser) (tc : Toolchain) : Option ArgParser :=
  let pic := tc.picDefault &&
    ap.lacks [bytes "-fno-pic", bytes "-fno-PIC", bytes "-fPIC", bytes "-fpic"]
  let args := if pic then bytes "-fPIC" :: ap.args else ap.args
  let pie := tc.pieDefault &&
    ap.lacks [bytes "-fno-pie", bytes "-fno-PIE", bytes "-fPIE", bytes "-fpie"]
  { ap with args := if pie then bytes "-fPIE" :: args else args }.parse

/-- `PrependLanguageFlag`, with its error. -/
def ArgParser.prependLanguageFlag (ap : ArgParser) (input : GoString) :
    Option (ArgParser × Option GoString) :=
  match sourceFileLanguage input with
  | .error err => some (ap, some err)
  | .ok lang => ({ ap with args := bytes "-x" :: lang :: ap.args }.parse).map (·, none)

end Kubecc.Cc
