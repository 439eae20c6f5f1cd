/-
**The compiler's position-independence defaults.**

A compiler may make position-independent code, or executables, without being told to. The agent's
compiler may not, so the consumer daemon writes the defaults of its own compiler into the arguments
(`PrependExplicitPICArgs` of `pkg/cc/args.go`). It takes them from the toolchain that `Store.Add` has
filled in.

* `mem_spots_standardize` — a second `Parse` splits one more joined output path, and visits the same
  other arguments.
* `carried_iff` — the default for code reaches the arguments. The default for executables does not:
  `fillInfo` never asks for it.
-/

import Kubecc.Cc.Agreement
import Kubecc.Cc.Expansion
import Kubecc.Cc.Output
import Kubecc.Toolchains.Refresh

namespace Kubecc.Cc

open Kubecc.Go Kubecc.Lib Kubecc.Types Kubecc.Toolchains

def picOptions : List GoString := [bytes "-fno-pic", bytes "-fno-PIC", bytes "-fPIC", bytes "-fpic"]

def pieOptions : List GoString := [bytes "-fno-pie", bytes "-fno-PIE", bytes "-fPIE", bytes "-fpie"]

/-- **One of the options is given**, and not as the value of another one. -/
def Explicit (options args : List GoString) : Prop :=
  ∃ option ∈ options, hasOption option (words takesValue args) = true

instance (options args : List GoString) : Decidable (Explicit options args) :=
  inferInstanceAs (Decidable (∃ option ∈ options, hasOption option (words takesValue args) = true))

/-! ### A second `Parse` -/

theorem spots_arg_congr (skip : Bool) (i j : ℕ) (args : List GoString) :
    (spots skip i args).map Spot.arg = (spots skip j args).map Spot.arg := by
  induction args generalizing skip i j with
  | nil => cases skip <;> rfl
  | cons a rest ih =>
    cases skip with
    | true => exact ih false _ _
    | false => exact congrArg (a :: ·) (ih _ _ _)

variable {option : GoString}

theorem hasOption_iff {args : List GoString} : hasOption option (words takesValue args) = true ↔
      option ∈ (spots false 0 args).map Spot.arg := by
  rw [hasOption, ← spots_word 0, List.any_map, List.any_eq_true, List.mem_map]
  exact exists_congr fun spot => and_congr_right fun _ => decide_eq_true_iff

/-- The argument is not what `standardize` takes apart, nor what it makes of it. -/
structure Unsplit (a : GoString) : Prop where
  unjoined : hasPrefix a (bytes "-o/") = false
  notOutput : a ≠ bytes "-o"
  notPath : a.head? ≠ some (byte '/')

theorem mem_spots_standardize {a : GoString} (unsplit : Unsplit a) (args : List GoString) (skip : Bool)
    (i : ℕ) : a ∈ (spots skip i (standardize args)).map Spot.arg ↔
      a ∈ (spots skip i args).map Spot.arg := by
  induction args generalizing skip i with
  | nil => exact Iff.rfl
  | cons first rest ih =>
    rw [standardize]
    split
    · rename_i joined
      have notFirst : a ≠ first := by
        rintro rfl
        cases unsplit.unjoined.symm.trans joined
      have single : takesValue first = false := by
        refine not_takesValue_of_output (isOutputOption_of_joined joined) ?_
        rintro rfl
        exact absurd joined (by decide)
      obtain ⟨path, rfl⟩ := hasPrefix_iff.mp joined
      have notPath : a ≠ byte '/' :: path := by
        rintro rfl
        exact unsplit.notPath rfl
      have pathSingle : takesValue (byte '/' :: path) = false := rfl
      have later : a ∈ (spots false (i + 1 + 1) rest).map Spot.arg ↔
          a ∈ (spots false (i + 1) rest).map Spot.arg := by
        rw [spots_arg_congr false (i + 1 + 1) (i + 1)]
      cases skip with
      | true =>
        -- a joined path that is itself a value: its two parts are a value and an argument
        show a ∈ (byte '/' :: path) :: (spots (takesValue (byte '/' :: path)) (i + 1 + 1) rest).map
          Spot.arg ↔ a ∈ (spots false (i + 1) rest).map Spot.arg
        rw [pathSingle, List.mem_cons, or_iff_right notPath, later]
      | false =>
        show a ∈ bytes "-o" :: (spots false (i + 1 + 1) rest).map Spot.arg ↔
          a ∈ (bytes "-o/" ++ path) :: (spots (takesValue (bytes "-o/" ++ path)) (i + 1) rest).map
            Spot.arg
        rw [single, List.mem_cons, List.mem_cons, or_iff_right unsplit.notOutput,
          or_iff_right notFirst, later]
    · cases skip with
      | true => exact ih false _
      | false =>
        rw [spots, spots, List.map_cons, List.map_cons, List.mem_cons, List.mem_cons]
        exact or_congr_right (ih _ _)

theorem hasOption_standardize (unsplit : Unsplit option) (args : List GoString) :
    hasOption option (words takesValue (standardize args)) = true ↔
      hasOption option (words takesValue args) = true := by
  rw [hasOption_iff, hasOption_iff, mem_spots_standardize unsplit]

theorem noneEmpty_iff_hasOption (args : List GoString) :
    NoneEmpty args ↔ ¬ hasOption [] (words takesValue args) = true := by
  rw [noneEmpty_iff, hasOption_iff]
  exact ⟨fun none member => none [] member rfl, fun none arg member empty => none (empty ▸ member)⟩

theorem noneEmpty_standardize (args : List GoString) : NoneEmpty (standardize args) ↔ NoneEmpty args := by
  rw [noneEmpty_iff_hasOption, noneEmpty_iff_hasOption,
    hasOption_standardize ⟨by decide, by decide, by decide⟩]

theorem hasOption_append {args more : List GoString} (absent : option ∉ more) :
    hasOption option (words takesValue (args ++ more)) = true ↔
      hasOption option (words takesValue args) = true := by
  rw [hasOption_iff, hasOption_iff]
  obtain ⟨skip, j, same⟩ := exists_spots_append false 0 args more
  rw [same, List.mem_append]
  refine or_iff_left fun member => absent ?_
  obtain ⟨spot, within, rfl⟩ := List.mem_map.mp member
  obtain ⟨k, -, here, -⟩ := getElem?_of_mem_spots within
  exact List.mem_of_getElem? here

theorem hasOption_cons {option first : GoString} (single : takesValue first = false)
    (args : List GoString) : hasOption option (words takesValue (first :: args)) = true ↔
      option = first ∨ hasOption option (words takesValue args) = true := by
  rw [words_cons_of_not_takes single, hasOption, List.any_cons, Bool.or_eq_true, decide_eq_true_iff,
    eq_comm]
  rfl

/-! ### What `Parse` has returned -/

structure Parsed (ap : ArgParser) : Prop where
  noneEmpty : NoneEmpty ap.args
  stripped : stripUnsupportedArgs ap.args = ap.args
  flags : ∀ option ∈ picArgs,
    (ap.flagIndexMap option).isSome = true ↔ hasOption option (words takesValue ap.args) = true

theorem ext_defaultOutput {st : Scan} {path : GoString} (made : defaultOutput st = some path) :
    ext path ≠ [] := by
  rcases defaultOutput_cases made with rfl | ⟨act, acts, rfl⟩
  · decide
  · exact ext_made_ne_nil acts _

theorem picArgs_table : ∀ option ∈ picArgs, Plain option ∧ Unsplit option ∧
    takesValue option = false ∧ ext option = [] := by
  have table : ∀ option ∈ picArgs, (option ≠ [] ∧ hasPrefix option (bytes "-o/") = false ∧
      unsupported option = false ∧ hasPrefix option (bytes "-Wp") = false) ∧
      (option ≠ bytes "-o" ∧ option.head? ≠ some (byte '/')) ∧ takesValue option = false ∧
      ext option = [] := by decide
  intro option listed
  obtain ⟨⟨nonempty, unjoined, supported, wp⟩, ⟨notOutput, notPath⟩, single, noExt⟩ := table option listed
  exact ⟨⟨nonempty, unjoined, supported, wp⟩, ⟨unjoined, notOutput, notPath⟩, single, noExt⟩

theorem exists_of_parse {start ap : ArgParser} (parsed : start.parse = some ap) :
    NoneEmpty (cleaned start.args) ∧
      ap.flagIndexMap = (scan start.mode (cleaned start.args)).flagIndexMap ∧
      ∃ more, ap.args = cleaned start.args ++ more ∧ (∀ arg ∈ more, Plain arg) ∧
        ∀ option ∈ picArgs, option ∉ more := by
  have none : NoneEmpty (cleaned start.args) := by
    rw [← parse_isSome_iff, parsed]
    rfl
  have visited := (noneEmpty_iff _).mp none
  rw [List.forall_mem_map] at visited
  obtain rfl := Option.some.inj (parsed.symm.trans (parse_eq_of_visited start visited))
  refine ⟨none, rfl, _, rfl, ?_⟩
  cases made : defaultOutput (scan start.mode (cleaned start.args)) with
  | none => exact ⟨List.forall_mem_nil _, fun _ _ => List.not_mem_nil⟩
  | some path =>
    refine ⟨List.forall_mem_cons.mpr ⟨⟨by decide, by decide, by decide, by decide⟩,
      List.forall_mem_singleton.mpr (plain_defaultOutput made)⟩, fun option listed member => ?_⟩
    obtain ⟨_, unsplit, _, noExt⟩ := picArgs_table option listed
    rcases List.mem_cons.mp member with is | is
    · exact unsplit.notOutput is
    · exact ext_defaultOutput made (List.mem_singleton.mp is ▸ noExt)

theorem parsed_of_parse {start ap : ArgParser} (returned : start.parse = some ap) : Parsed ap := by
  obtain ⟨none, flags, more, args, plain, absent⟩ := exists_of_parse returned
  constructor
  · rw [args, noneEmpty_append_iff fun arg member => (plain arg member).nonempty]
    exact none
  · rw [args, stripUnsupportedArgs, List.filter_append]
    congr 1
    · rw [cleaned, stripUnsupportedArgs, List.filter_filter]
      simp only [Bool.and_self]
    · exact List.filter_eq_self.mpr fun arg member => by rw [(plain arg member).supported, Bool.not_false]
  · intro option listed
    rw [flags, (scan_flag (List.mem_append_right actionOptions listed) _ _).1, args,
      hasOption_append (absent option listed)]

/-- **`Parse` after options are put in front**: it returns, and has these options and those there
were. -/
theorem Parsed.reparse {ap : ArgParser} (parsed : Parsed ap) {front : List GoString}
    (listed : ∀ option ∈ front, option ∈ picArgs) :
    ∃ result, { ap with args := front ++ ap.args }.parse = some result ∧
      ∀ option ∈ picArgs, hasOption option (words takesValue result.args) = true ↔
        option ∈ front ∨ hasOption option (words takesValue ap.args) = true := by
  have ahead : ∀ option, hasOption option (words takesValue (front ++ ap.args)) = true ↔
      option ∈ front ∨ hasOption option (words takesValue ap.args) = true := by
    intro option
    induction front with
    | nil => simp
    | cons first front ih =>
      rw [List.forall_mem_cons] at listed
      rw [List.cons_append, hasOption_cons (picArgs_table first listed.1).2.2.1, ih listed.2,
        List.mem_cons, or_assoc]
  have clean : cleaned (front ++ ap.args) = standardize (front ++ ap.args) := by
    rw [cleaned_eq, stripUnsupportedArgs, List.filter_append, List.filter_eq_self.mpr
      fun option member => by rw [(picArgs_table option (listed option member)).1.supported, Bool.not_false]]
    exact congrArg (fun args => standardize (front ++ args)) parsed.stripped
  have none : NoneEmpty (cleaned (front ++ ap.args)) := by
    rw [clean, noneEmpty_standardize, noneEmpty_iff_hasOption, ahead]
    rintro (member | empty)
    · exact absurd (listed [] member) (by decide)
    · exact (noneEmpty_iff_hasOption _).mp parsed.noneEmpty empty
  obtain ⟨result, returned⟩ := Option.isSome_iff_exists.mp
    ((parse_isSome_iff { ap with args := front ++ ap.args }).mpr none)
  refine ⟨result, returned, fun option member => ?_⟩
  obtain ⟨_, _, more, args, _, absent⟩ := exists_of_parse returned
  rw [args, hasOption_append (absent option member)]
  show hasOption option (words takesValue (cleaned (front ++ ap.args))) = true ↔ _
  rw [clean, hasOption_standardize (picArgs_table option member).2.1, ahead]

/-! ### From the querier to the arguments -/

/-- **The compiler's defaults are carried over**: `PrependExplicitPICArgs` returns, and leaves an option
for every default that the compiler has. -/
def Carried (answers : Answers) (ap : ArgParser) (tc : Toolchain) : Prop :=
  ∃ result, ap.prependExplicitPICArgs tc = some result ∧
    (answers.isPicDefault = (true, none) → Explicit picOptions result.args) ∧
    (answers.isPieDefault = (true, none) → Explicit pieOptions result.args)

theorem Parsed.lacks_iff {ap : ArgParser} (parsed : Parsed ap) {options : List GoString}
    (listed : ∀ option ∈ options, option ∈ picArgs) :
    ap.lacks options = true ↔ ¬ Explicit options ap.args := by
  rw [ArgParser.lacks, List.all_eq_true, Explicit, not_exists]
  refine forall_congr' fun option => ?_
  rw [not_and]
  refine forall_congr' fun member => ?_
  rw [← parsed.flags option (listed option member), Option.isNone_iff_eq_none, Bool.not_eq_true,
    Option.isSome_eq_false_iff, Option.isNone_iff_eq_none]

theorem prependExplicitPICArgs_eq (ap : ArgParser) {tc : Toolchain} (noPie : tc.pieDefault = false) :
    ap.prependExplicitPICArgs tc = { ap with
      args := (if tc.picDefault && ap.lacks picOptions then [bytes "-fPIC"] else []) ++ ap.args }.parse := by
  unfold ArgParser.prependExplicitPICArgs
  rw [noPie]
  show ArgParser.parse { ap with args := if (tc.picDefault && ap.lacks picOptions) = true then _ else _ } = _
  congr 2
  cases (tc.picDefault && ap.lacks picOptions) <;> rfl

/-- **The defaults of a compiler that was added are carried over exactly if it does not make
position-independent executables by default, or the arguments say so themselves.** -/
theorem carried_iff {Q : Type} {evalPath : GoString → GoString} {ask : Q → GoString → Answers}
    {store store' : Store Q} {path : GoString} {q : Q} {addr : Addr} {start ap : ArgParser}
    (added : store.add evalPath ask path q = (store', .ok addr)) (returned : start.parse = some ap) :
    Carried (ask q (evalPath path)) ap (store'.objects addr) ↔
      ((ask q (evalPath path)).isPieDefault = (true, none) → Explicit pieOptions ap.args) := by
  obtain ⟨reports, noPie⟩ := Store.reports_of_add added
  have parsed := parsed_of_parse returned
  have listed : ∀ option ∈ (if (store'.objects addr).picDefault && ap.lacks picOptions then
      [bytes "-fPIC"] else []), option ∈ picArgs := by
    split
    · decide
    · exact List.forall_mem_nil _
  obtain ⟨result, prepends, has⟩ := parsed.reparse listed
  rw [← prependExplicitPICArgs_eq ap noPie] at prepends
  have pie : Explicit pieOptions result.args ↔ Explicit pieOptions ap.args := by
    refine exists_congr fun option => and_congr_right fun member => ?_
    have table : ∀ option ∈ pieOptions, option ∈ picArgs ∧ option ≠ bytes "-fPIC" := by decide
    rw [has option (table option member).1]
    refine or_iff_right fun ahead => ?_
    split at ahead
    · exact (table option member).2 (List.mem_singleton.mp ahead)
    · exact List.not_mem_nil ahead
  constructor
  · rintro ⟨result', prepends', _, carried⟩ default
    obtain rfl := Option.some.inj (prepends.symm.trans prepends')
    exact pie.mp (carried default)
  · intro given
    refine ⟨result, prepends, fun default => ?_, fun default => pie.mpr (given default)⟩
    have picDefault : (store'.objects addr).picDefault = true := by rw [reports.picDefault, default]
    have table : ∀ option ∈ picOptions, option ∈ picArgs := by decide
    by_cases absent : ap.lacks picOptions = true
    · refine ⟨bytes "-fPIC", by decide, (has _ (by decide)).mpr (.inl ?_)⟩
      rw [picDefault, absent]
      exact List.mem_singleton_self _
    · obtain ⟨option, member, there⟩ := not_not.mp ((parsed.lacks_iff table).not.mp absent)
      exact ⟨option, member, (has option (table option member)).mpr (.inr there)⟩

/-- A compiler that makes position-independent code by default, and maybe executables too. -/
def picCompiler (pie : Bool) : Answers where
  version := (bytes "10", none)
  targetArch := (bytes "x86_64", none)
  isPicDefault := (true, none)
  isPieDefault := (pie, none)
  kind := (1, none)
  lang := (1, none)
  modTime := (1, none)

/-- The default for code alone is carried over. -/
theorem carried_pic : ∃ store' ap,
    Store.new.add id (fun _ _ => picCompiler false) (bytes "/usr/bin/gcc") () = (store', .ok 0) ∧
      (newArgParser [bytes "-c", bytes "a.c"]).parse = some ap ∧
      Carried (picCompiler false) ap (store'.objects 0) := by
  obtain ⟨store', added⟩ : ∃ store', Store.new.add id (fun _ _ => picCompiler false)
      (bytes "/usr/bin/gcc") () = (store', .ok 0) := ⟨_, rfl⟩
  obtain ⟨ap, returned⟩ : ∃ ap, (newArgParser [bytes "-c", bytes "a.c"]).parse = some ap := ⟨_, rfl⟩
  refine ⟨store', ap, added, returned, (carried_iff added returned).mpr fun default => ?_⟩
  exact absurd (congrArg Prod.fst default) (by decide)

/-- **A compiler that makes position-independent executables by default**: the agent's compiler is not
told to. -/
theorem pie_default_lost : ∃ store' ap,
    Store.new.add id (fun _ _ => picCompiler true) (bytes "/usr/bin/gcc") () = (store', .ok 0) ∧
      (newArgParser [bytes "-c", bytes "a.c"]).parse = some ap ∧
      ¬ Carried (picCompiler true) ap (store'.objects 0) := by
  refine ⟨_, _, rfl, rfl, ?_⟩
  rintro ⟨result, prepends, _, carried⟩
  have args : result.args = [bytes "-fPIC", bytes "-c", bytes "a.c", bytes "-o", bytes "a.o"] := by
    rw [← Option.some.inj prepends]
    decide
  have explicit := carried rfl
  rw [args] at explicit
  exact absurd explicit (by decide)

end Kubecc.Cc
