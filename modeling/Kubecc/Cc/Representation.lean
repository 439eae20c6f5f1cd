/-
**The representation invariant of the argument parser.**

`Parse` records where the input, the output and some flags stand in `Args`, and `SetActionOpt`,
`ReplaceOutputPath` and `ReplaceInputPath` write through these indices. Other methods insert, drop and
append arguments, and parse again.

* `Represented` — every index points at what it is said to point at, and they are apart.
* `Call`, `Reaches` — the methods, and where a sequence of calls leads.
* `indexed_parse` — `Parse` establishes the invariant, whatever the parser was before.
* `represented_of_reaches` — it holds after every sequence of calls, none of which panics.
-/

import Kubecc.Cc.Parse

namespace Kubecc.Cc

open Kubecc.Go Kubecc.Types

/-- **The indices are right**: the output stands after `-o`, the input is another argument, and a flag
is a prefix of the argument at its index, which is neither. -/
structure Represented (ap : ArgParser) : Prop where
  output : ∀ o, ap.outputArgIndex = some o →
    o < ap.args.length ∧ ∃ i, o = i + 1 ∧ ap.args[i]? = some (bytes "-o")
  input : ∀ i, ap.inputArgIndex = some i → i < ap.args.length ∧ ap.outputArgIndex ≠ some i
  flags : ∀ flag i, ap.flagIndexMap flag = some i →
    (∃ a, ap.args[i]? = some a ∧ hasPrefix a flag = true) ∧
      ap.inputArgIndex ≠ some i ∧ ap.outputArgIndex ≠ some i

/-- A call of a method that changes the parser. -/
inductive Call
  | parse
  | configurePreprocessorOptions
  | setActionOpt (opt : ActionOpt)
  | replaceOutputPath (newPath : GoString)
  | replaceInputPath (newPath : GoString)
  | removeLocalArgs
  | prependExplicitPICArgs (tc : Toolchain)
  | prependLanguageFlag (input : GoString)

/-- What the call makes of the parser; an error that it returns is dropped. -/
def Call.run (ap : ArgParser) : Call → Option ArgParser
  | .parse => ap.parse
  | .configurePreprocessorOptions => ap.configurePreprocessorOptions
  | .setActionOpt opt => (ap.setActionOpt opt).map Prod.fst
  | .replaceOutputPath newPath => (ap.replaceOutputPath newPath).map Prod.fst
  | .replaceInputPath newPath => (ap.replaceInputPath newPath).map Prod.fst
  | .removeLocalArgs => ap.removeLocalArgs
  | .prependExplicitPICArgs tc => ap.prependExplicitPICArgs tc
  | .prependLanguageFlag input => (ap.prependLanguageFlag input).map Prod.fst

/-- The calls that are made: a `-Wp` argument has no empty field, the action is one of the three, and
the paths are not empty; the input is not `-`. -/
def Call.Allowed (ap : ArgParser) : Call → Prop
  | .configurePreprocessorOptions => ∀ arg ∈ ap.args, hasPrefix arg (bytes "-Wp") = true →
      ∀ field ∈ split arg (byte ','), field ≠ []
  | .setActionOpt opt => opt ≠ .none
  | .replaceOutputPath newPath => newPath ≠ []
  | .replaceInputPath newPath => newPath ≠ [] ∧ newPath ≠ bytes "-"
  | _ => True

instance (ap : ArgParser) (call : Call) : Decidable (call.Allowed ap) :=
  match call with
  | .configurePreprocessorOptions => inferInstanceAs (Decidable (∀ arg ∈ ap.args,
      hasPrefix arg (bytes "-Wp") = true → ∀ field ∈ split arg (byte ','), field ≠ []))
  | .setActionOpt opt => inferInstanceAs (Decidable (opt ≠ .none))
  | .replaceOutputPath newPath => inferInstanceAs (Decidable (newPath ≠ []))
  | .replaceInputPath newPath =>
    inferInstanceAs (Decidable (newPath ≠ [] ∧ newPath ≠ bytes "-"))
  | .parse | .removeLocalArgs | .prependExplicitPICArgs _ | .prependLanguageFlag _ => isTrue trivial

/-- **Where a sequence of calls leads**, after `Parse` on a fresh parser. -/
inductive Reaches (args : List GoString) : ArgParser → Prop
  | parsed {ap : ArgParser} : (newArgParser args).parse = some ap → Reaches args ap
  | called {ap ap' : ArgParser} (call : Call) : Reaches args ap → call.Allowed ap →
      call.run ap = some ap' → Reaches args ap'

/-- **What the calls keep.** The arguments are not empty, the input does not stand before the output,
and no two flags have one index. -/
structure Indexed (ap : ArgParser) : Prop extends Represented ap where
  nonempty : ∀ a ∈ ap.args, a ≠ []
  apart : ∀ i, ap.inputArgIndex = some i → ap.outputArgIndex ≠ some (i + 1)
  own : ∀ flag flag' i, ap.flagIndexMap flag = some i → ap.flagIndexMap flag' = some i →
    flag = flag'

/-! ### `Parse` -/

theorem of_flagOf {a flag : GoString} (is : flagOf a = some flag) :
    hasPrefix a flag = true ∧ kind a ≠ .file := by
  unfold flagOf at is
  cases here : kind a <;> rw [here] at is
  case dependValue =>
    obtain rfl := Option.some.inj is
    exact ⟨hasPrefix_iff.mpr ⟨a.drop 3, (List.take_append_drop 3 a).symm⟩, nofun⟩
  case assembler =>
    obtain rfl := Option.some.inj is
    obtain ⟨test, member, holds⟩ := exists_test_of_kind here nofun nofun
    have only : testsOf .assembler = [.startsWith [bytes "-Wa,"]] := by decide
    rw [only, List.mem_singleton] at member
    subst member
    obtain ⟨start, member, begins⟩ := List.any_eq_true.mp holds
    obtain ⟨rest, rfl⟩ := hasPrefix_iff.mp begins
    obtain rfl := List.mem_singleton.mp member
    exact ⟨hasPrefix_iff.mpr ⟨byte ',' :: rest, rfl⟩, nofun⟩
  case preprocess | depend | dependOther | pic | genAssembly | compile | output =>
    obtain rfl := Option.some.inj is
    exact ⟨hasPrefix_iff.mpr ⟨[], (List.append_nil a).symm⟩, nofun⟩
  all_goals exact absurd is nofun

section Parse

variable {mode : RunMode} {args : List GoString}

theorem exists_spot_of_scan {β : Type} (field : Scan → β) {write : Spot → Option β}
    (writes : ∀ st spot, field (visitSpot st spot) = (write spot).getD (field st))
    (written : field (scan mode args) ≠ field (scanStart mode)) :
    ∃ spot ∈ spots false 0 args, write spot = some (field (scan mode args)) := by
  have last := foldl_field field write writes (spots false 0 args) (scanStart mode)
  rw [← scan] at last
  cases is : ((spots false 0 args).filterMap write).getLast? with
  | none =>
    rw [is] at last
    exact absurd last written
  | some value =>
    rw [is, Option.getD_some] at last
    rw [last]
    exact List.mem_filterMap.mp (List.mem_of_getLast? is)

theorem scan_inputArgIndex {i : ℕ} (is : (scan mode args).inputArgIndex = some i) :
    ∃ spot ∈ spots false 0 args, spot.index = i ∧ kind spot.arg = .file := by
  obtain ⟨spot, member, written⟩ := exists_spot_of_scan
    (fun st => (st.inputArgIndex, st.inputArg)) visitSpot_input (fun same =>
      absurd (is.symm.trans (congrArg Prod.fst same)) (Option.some_ne_none i))
  obtain ⟨pair, input, same⟩ := Option.map_eq_some_iff.mp written
  rw [Spot.input, Option.ite_none_right_eq_some] at input
  obtain ⟨input, here⟩ := input
  obtain rfl := Option.some.inj here
  have index : some spot.index = some i := (congrArg Prod.fst same).trans is
  exact ⟨spot, member, Option.some.inj index, of_decide_eq_true (Bool.and_eq_true_iff.mp input).1⟩

theorem scan_outputArgIndex {o : ℕ} (is : (scan mode args).outputArgIndex = some o) :
    ∃ spot ∈ spots false 0 args, spot.index + 1 = o ∧ spot.arg = bytes "-o" ∧ o < args.length := by
  obtain ⟨spot, member, written⟩ := exists_spot_of_scan
    (fun st => (st.outputArgIndex, st.outputArg)) visitSpot_output (fun same =>
      absurd (is.symm.trans (congrArg Prod.fst same)) (Option.some_ne_none o))
  obtain ⟨pair, output, same⟩ := Option.map_eq_some_iff.mp written
  rw [Spot.output, Option.ite_none_right_eq_some, Option.map_eq_some_iff] at output
  obtain ⟨isOutput, path, next, rfl⟩ := output
  have index : some (spot.index + 1) = some o := (congrArg Prod.fst same).trans is
  obtain rfl := Option.some.inj index
  have there := (spot_located member).2.trans next
  exact ⟨spot, member, rfl, kind_eq_output_iff.mp isOutput,
    (List.getElem?_eq_some_iff.mp there).1⟩

theorem scan_flagIndexMap {flag : GoString} {i : ℕ}
    (is : (scan mode args).flagIndexMap flag = some i) :
    ∃ spot ∈ spots false 0 args, spot.index = i ∧ flagOf spot.arg = some flag := by
  obtain ⟨spot, member, written⟩ := exists_spot_of_scan (fun st => st.flagIndexMap flag)
    (visitSpot_flagIndexMap flag) (fun same => absurd (is.symm.trans same) (Option.some_ne_none i))
  rw [Option.ite_none_right_eq_some] at written
  obtain ⟨own, same⟩ := written
  exact ⟨spot, member, Option.some.inj ((Option.some.inj same).trans is), own⟩

theorem spot_arg_eq {spot other : Spot} (member : spot ∈ spots false 0 args)
    (there : other ∈ spots false 0 args) (same : other.index = spot.index) :
    other.arg = spot.arg := by
  have here := (spot_located there).1
  rw [same, (spot_located member).1] at here
  exact (Option.some.inj here).symm

theorem finish_outputArgIndex {st : Scan} {o : ℕ} (is : (finish args st).outputArgIndex = some o) :
    (∃ path, defaultOutput st = some path ∧ o = args.length + 1) ∨
      defaultOutput st = none ∧ st.outputArgIndex = some o := by
  cases made : defaultOutput st with
  | none =>
    rw [finish, made] at is
    exact .inr ⟨rfl, is⟩
  | some path =>
    rw [finish, made] at is
    exact .inl ⟨path, rfl, (Option.some.inj is).symm⟩

theorem outputArgIndex_ne_of_spot {spot : Spot} (member : spot ∈ spots false 0 args) :
    (finish args (scan mode args)).outputArgIndex ≠ some spot.index := by
  intro is
  have inside := (List.getElem?_eq_some_iff.mp (spot_located member).1).1
  rcases finish_outputArgIndex is with ⟨path, -, index⟩ | ⟨-, given⟩
  · omega
  · obtain ⟨option, there, index, isOutput, -⟩ := scan_outputArgIndex given
    have taking : takesValue option.arg = true := by
      rw [isOutput]
      decide
    exact index_ne_of_takesValue there taking member index.symm

theorem defaultOutput_ne_nil {st : Scan} {path : GoString} (made : defaultOutput st = some path) :
    path ≠ [] := by
  unfold defaultOutput at made
  split at made
  · cases made
  · split at made
    · rw [Option.ite_none_right_eq_some] at made
      exact Option.some.inj made.2 ▸ made.1
    · rw [Option.ite_none_right_eq_some] at made
      exact Option.some.inj made.2 ▸ by decide

theorem indexed_finish (nonempty : ∀ a ∈ args, a ≠ []) : Indexed (finish args (scan mode args)) := by
  have located : ∀ spot ∈ spots false 0 args,
      (finish args (scan mode args)).args[spot.index]? = some spot.arg := fun spot member =>
    getElem?_append_of_some (spot_located member).1
  have inside : ∀ spot ∈ spots false 0 args, spot.index < args.length := fun spot member =>
    (List.getElem?_eq_some_iff.mp (spot_located member).1).1
  refine ⟨⟨fun o is => ?_, fun i is => ?_, fun flag i is => ?_⟩, ?_, fun i is output => ?_,
    fun flag flag' i is is' => ?_⟩
  · rcases finish_outputArgIndex is with ⟨path, made, rfl⟩ | ⟨-, given⟩
    · rw [finish, made]
      refine ⟨by simp, args.length, rfl, by simp⟩
    · obtain ⟨spot, member, rfl, isOutput, short⟩ := scan_outputArgIndex given
      refine ⟨?_, spot.index, rfl, isOutput ▸ located spot member⟩
      rw [finish, List.length_append]
      omega
  · obtain ⟨spot, member, rfl, -⟩ := scan_inputArgIndex is
    exact ⟨(List.getElem?_eq_some_iff.mp (located spot member)).1, outputArgIndex_ne_of_spot member⟩
  · obtain ⟨spot, member, rfl, own⟩ := scan_flagIndexMap is
    obtain ⟨starts, notFile⟩ := of_flagOf own
    refine ⟨⟨_, located spot member, starts⟩, fun input => ?_, outputArgIndex_ne_of_spot member⟩
    obtain ⟨other, there, same, file⟩ := scan_inputArgIndex input
    exact notFile (spot_arg_eq member there same ▸ file)
  · show ∀ a ∈ args ++ _, a ≠ []
    cases made : defaultOutput (scan mode args) with
    | none => simpa using nonempty
    | some path =>
      have path_ne := defaultOutput_ne_nil made
      intro a member
      rcases List.mem_append.mp member with old | new
      · exact nonempty a old
      · rcases List.mem_pair.mp new with rfl | rfl
        · decide
        · exact path_ne
  · obtain ⟨spot, member, rfl, file⟩ := scan_inputArgIndex is
    rcases finish_outputArgIndex output with ⟨path, -, index⟩ | ⟨-, given⟩
    · exact absurd (Nat.succ.inj index) (inside spot member).ne
    · obtain ⟨option, there, index, isOutput, -⟩ := scan_outputArgIndex given
      have same := spot_arg_eq member there (Nat.succ.inj index)
      rw [← same, isOutput] at file
      exact absurd file (by decide)
  · obtain ⟨spot, member, rfl, own⟩ := scan_flagIndexMap is
    obtain ⟨other, there, same, own'⟩ := scan_flagIndexMap is'
    rw [spot_arg_eq member there same, own] at own'
    exact Option.some.inj own'

theorem indexed_parse (ap : ArgParser) (nonempty : ∀ a ∈ ap.args, a ≠ []) :
    ∃ result, ap.parse = some result ∧ Indexed result :=
  ⟨_, parse_eq ap nonempty, indexed_finish (cleaned_nonempty nonempty)⟩

end Parse

/-! ### The methods that write through an index -/

section Writes

variable {ap : ArgParser}

/-- The arguments may change where no index of a flag stands, and no `-o` before the output. -/
theorem Indexed.write (indexed : Indexed ap) {args : List GoString}
    (longer : ap.args.length ≤ args.length) (nonempty : ∀ a ∈ args, a ≠ [])
    (same : ∀ i a, ap.args[i]? = some a →
      (∃ flag, ap.flagIndexMap flag = some i) ∨ ap.outputArgIndex = some (i + 1) →
      args[i]? = some a) : Indexed { ap with args := args } := by
  refine ⟨⟨fun o is => ?_, fun i is => ?_, fun flag i is => ?_⟩, nonempty, indexed.apart,
    indexed.own⟩
  · obtain ⟨inside, i, rfl, option⟩ := indexed.output o is
    exact ⟨inside.trans_le longer, i, rfl, same i _ option (.inr is)⟩
  · obtain ⟨inside, differs⟩ := indexed.input i is
    exact ⟨inside.trans_le longer, differs⟩
  · obtain ⟨⟨a, here, starts⟩, differs⟩ := indexed.flags flag i is
    exact ⟨⟨a, same i a here (.inl ⟨flag, is⟩), starts⟩, differs⟩

theorem nonempty_set {args : List GoString} (nonempty : ∀ a ∈ args, a ≠ []) {new : GoString}
    (given : new ≠ []) (i : ℕ) : ∀ a ∈ args.set i new, a ≠ [] := by
  intro a member
  rcases List.mem_or_eq_of_mem_set member with old | rfl
  · exact nonempty a old
  · exact given

theorem Indexed.replaceOutputPath (indexed : Indexed ap) {newPath : GoString}
    (given : newPath ≠ []) :
    ∃ result, ap.replaceOutputPath newPath = some result ∧ Indexed result.1 := by
  unfold ArgParser.replaceOutputPath
  cases is : ap.outputArgIndex with
  | none => exact ⟨_, rfl, indexed⟩
  | some o =>
    obtain ⟨inside, -⟩ := indexed.output o is
    refine ⟨_, if_pos inside, ?_⟩
    rw [← is]
    refine indexed.write (by simp) (nonempty_set indexed.nonempty given o) fun i a here which => ?_
    have differs : o ≠ i := by
      rintro rfl
      rcases which with ⟨flag, flagged⟩ | after
      · exact (indexed.flags flag o flagged).2.2 is
      · exact Nat.succ_ne_self o (Option.some.inj (after.symm.trans is))
    rw [List.getElem?_set_ne differs]
    exact here

theorem Indexed.replaceInputPath (indexed : Indexed ap) {newPath : GoString}
    (given : newPath ≠ []) (notDash : newPath ≠ bytes "-") :
    ∃ result, ap.replaceInputPath newPath = some result ∧ Indexed result.1 := by
  unfold ArgParser.replaceInputPath
  cases is : ap.inputArgIndex with
  | none => exact ⟨_, rfl, indexed⟩
  | some i =>
    obtain ⟨inside, -⟩ := indexed.input i is
    dsimp only
    rw [List.getElem?_eq_getElem inside]
    by_cases kept : ap.args[i] = newPath
    · exact ⟨_, if_pos kept, indexed⟩
    · refine ⟨_, (if_neg kept).trans (if_neg notDash), ?_⟩
      rw [← is]
      refine indexed.write (by simp) (fun a member => ?_) fun j a here which => ?_
      · rcases List.mem_append.mp member with old | new
        · exact nonempty_set indexed.nonempty given i a old
        · obtain rfl := List.mem_singleton.mp new
          rintro ⟨⟩
      · have differs : i ≠ j := by
          rintro rfl
          rcases which with ⟨flag, flagged⟩ | after
          · exact (indexed.flags flag i flagged).2.1 is
          · exact indexed.apart i is after
        refine getElem?_append_of_some ?_
        rw [List.getElem?_set_ne differs]
        exact here

theorem hasPrefix_self (a : GoString) : hasPrefix a a = true :=
  hasPrefix_iff.mpr ⟨[], (List.append_nil a).symm⟩

theorem ActionOpt.text_ne_nil {opt : ActionOpt} (is : opt ≠ .none) : opt.text ≠ [] := by
  cases opt with
  | none => exact absurd rfl is
  | _ => decide

theorem ActionOpt.not_hasPrefix_output {opt : ActionOpt} (is : opt ≠ .none) :
    hasPrefix (bytes "-o") opt.text ≠ true := by
  cases opt with
  | none => exact absurd rfl is
  | _ => decide

/-- After the replacement, the new action stands where the old one did, and the others elsewhere. -/
theorem Indexed.replaced_flag (indexed : Indexed ap) {oldOpt opt : ActionOpt} {i j : ℕ}
    {flag : GoString} (is : ap.flagIndexMap oldOpt.text = some i)
    (there : Function.update (Function.update ap.flagIndexMap oldOpt.text none) opt.text (some i)
      flag = some j) :
    flag = opt.text ∧ j = i ∨ ap.flagIndexMap flag = some j ∧ j ≠ i := by
  by_cases same : flag = opt.text
  · subst same
    rw [Function.update_self] at there
    exact .inl ⟨rfl, (Option.some.inj there).symm⟩
  · rw [Function.update_of_ne same] at there
    by_cases gone : flag = oldOpt.text
    · subst gone
      rw [Function.update_self] at there
      cases there
    · rw [Function.update_of_ne gone] at there
      refine .inr ⟨there, ?_⟩
      rintro rfl
      exact gone (indexed.own _ _ _ there is)

theorem Indexed.replaceOpt (indexed : Indexed ap) {oldOpt opt : ActionOpt} {i : ℕ}
    (old : oldOpt ≠ .none) (new : opt ≠ .none) (is : ap.flagIndexMap oldOpt.text = some i) :
    ∃ result, ap.replaceOpt i oldOpt opt = some result ∧ Indexed result := by
  obtain ⟨⟨a, here, starts⟩, apart⟩ := indexed.flags _ i is
  have inside := (List.getElem?_eq_some_iff.mp here).1
  refine ⟨_, if_pos inside, ⟨fun o output => ?_, fun j input => ?_, fun flag j flagged => ?_⟩,
    nonempty_set indexed.nonempty (ActionOpt.text_ne_nil new) i, indexed.apart,
    fun flag flag' j flagged flagged' => ?_⟩
  · obtain ⟨short, j, rfl, option⟩ := indexed.output o output
    refine ⟨by simpa using short, j, rfl, ?_⟩
    have differs : i ≠ j := by
      rintro rfl
      obtain rfl := Option.some.inj (here.symm.trans option)
      exact ActionOpt.not_hasPrefix_output old starts
    rw [List.getElem?_set_ne differs]
    exact option
  · obtain ⟨short, differs⟩ := indexed.input j input
    exact ⟨by simpa using short, differs⟩
  · rcases indexed.replaced_flag is flagged with ⟨rfl, rfl⟩ | ⟨kept, differs⟩
    · exact ⟨⟨_, List.getElem?_set_self inside, hasPrefix_self _⟩, apart⟩
    · obtain ⟨⟨b, there, starts⟩, apart⟩ := indexed.flags flag j kept
      refine ⟨⟨b, ?_, starts⟩, apart⟩
      rw [List.getElem?_set_ne differs.symm]
      exact there
  · rcases indexed.replaced_flag is flagged with ⟨rfl, rfl⟩ | ⟨kept, differs⟩
    · rcases indexed.replaced_flag is flagged' with ⟨rfl, -⟩ | ⟨-, differs⟩
      · rfl
      · exact absurd rfl differs
    · rcases indexed.replaced_flag is flagged' with ⟨-, rfl⟩ | ⟨kept', -⟩
      · exact absurd rfl differs
      · exact indexed.own flag flag' j kept kept'

theorem Indexed.setActionOpt (indexed : Indexed ap) {opt : ActionOpt} (given : opt ≠ .none) :
    ∃ result, ap.setActionOpt opt = some result ∧ Indexed result.1 := by
  have replaces : ∀ {oldOpt i}, oldOpt ≠ .none → ap.flagIndexMap oldOpt.text = some i →
      ∃ result : ArgParser × Option GoString,
        (ap.replaceOpt i oldOpt opt).map (·, none) = some result ∧ Indexed result.1 := by
    intro oldOpt i old is
    obtain ⟨result, replaced, kept⟩ := indexed.replaceOpt old given is
    exact ⟨(result, none), by rw [replaced, Option.map_some], kept⟩
  unfold ArgParser.setActionOpt
  split
  · exact replaces nofun ‹_›
  · split
    · exact replaces nofun ‹_›
    · split
      · exact replaces nofun ‹_›
      · exact ⟨_, rfl, indexed⟩

end Writes

/-! ### The methods that parse again -/

section Parses

theorem insertDepFile_nonempty (fields : List GoString) (nonempty : ∀ field ∈ fields, field ≠ []) :
    ∃ result, insertDepFile fields = some result ∧ ∀ field ∈ result, field ≠ [] := by
  induction fields with
  | nil => exact ⟨_, rfl, nonempty⟩
  | cons str rest ih =>
    cases rest with
    | nil => exact ⟨_, rfl, nonempty⟩
    | cons next rest =>
      rw [List.forall_mem_cons] at nonempty
      obtain ⟨result, inserted, kept⟩ := ih nonempty.2
      have plain : ∀ field ∈ str :: result, field ≠ [] :=
        List.forall_mem_cons.mpr ⟨nonempty.1, kept⟩
      rw [insertDepFile, inserted]
      split
      · obtain ⟨c, path, rfl⟩ := List.exists_cons_of_ne_nil (nonempty.2 next List.mem_cons_self)
        show ∃ result, (if c = byte '-' then _ else _) = some result ∧ _
        split
        · exact ⟨_, rfl, plain⟩
        · exact ⟨_, rfl, List.forall_mem_cons.mpr ⟨nonempty.1,
            List.forall_mem_cons.mpr ⟨by decide, kept⟩⟩⟩
      · exact ⟨_, rfl, plain⟩

theorem expandLoop_nonempty (args : List GoString) {left : List GoString}
    (before : ∀ a ∈ left, a ≠ []) (nonempty : ∀ a ∈ args, a ≠ [])
    (fields : ∀ arg ∈ args, hasPrefix arg (bytes "-Wp") = true →
      ∀ field ∈ split arg (byte ','), field ≠ []) :
    ∃ result, expandLoop left args = some result ∧ ∀ a ∈ result, a ≠ [] := by
  induction args generalizing left with
  | nil => exact ⟨_, rfl, before⟩
  | cons arg rest ih =>
    rw [List.forall_mem_cons] at nonempty fields
    rw [expandLoop]
    split
    · rename_i isWp
      obtain ⟨inserted, is, new⟩ := insertDepFile_nonempty (split arg (byte ',')).tail
        fun field member => fields.1 isWp field (List.mem_of_mem_tail member)
      rw [is]
      exact ih (List.forall_mem_append.mpr ⟨before, new⟩) nonempty.2 fields.2
    · exact ih (List.forall_mem_append.mpr ⟨before, List.forall_mem_singleton.mpr nonempty.1⟩)
        nonempty.2 fields.2

theorem language_ne_nil {input lang : GoString} (is : sourceFileLanguage input = .ok lang) :
    lang ≠ [] := by
  have table : ∀ entry ∈ sourceExtensions, entry.2 ≠ [] := by decide
  unfold sourceFileLanguage at is
  split at is
  · rename_i found
    obtain rfl := Except.ok.inj is
    obtain ⟨before, after, split, -⟩ := List.lookup_eq_some_iff.mp found
    exact table _ (split ▸ List.mem_append_right _ List.mem_cons_self)
  · cases is

variable {ap : ArgParser}

theorem Indexed.run (indexed : Indexed ap) {call : Call} (allowed : call.Allowed ap) :
    ∃ result, call.run ap = some result ∧ Indexed result := by
  have drops : ∀ {called : Option (ArgParser × Option GoString)},
      (∃ result, called = some result ∧ Indexed result.1) →
      ∃ result, called.map Prod.fst = some result ∧ Indexed result := by
    rintro _ ⟨result, rfl, kept⟩
    exact ⟨_, rfl, kept⟩
  cases call with
  | parse => exact indexed_parse ap indexed.nonempty
  | configurePreprocessorOptions =>
    obtain ⟨args, expanded, nonempty⟩ := expandLoop_nonempty ap.args (List.forall_mem_nil _)
      indexed.nonempty allowed
    show ∃ result, (expandLoop [] ap.args).bind _ = some result ∧ _
    rw [expanded]
    exact indexed_parse { ap with args := args } nonempty
  | setActionOpt opt => exact drops (indexed.setActionOpt allowed)
  | replaceOutputPath newPath => exact drops (indexed.replaceOutputPath allowed)
  | replaceInputPath newPath => exact drops (indexed.replaceInputPath allowed.1 allowed.2)
  | removeLocalArgs =>
    exact indexed_parse { ap with args := removeLocalLoop false ap.args } fun a member =>
      indexed.nonempty a (mem_of_mem_removeLocalLoop member)
  | prependExplicitPICArgs tc =>
    have prepends : ∀ (needed : Bool) {option : GoString} {args : List GoString}, option ≠ [] →
        (∀ a ∈ args, a ≠ []) → ∀ a ∈ (if needed then option :: args else args), a ≠ [] := by
      intro needed option args given nonempty
      split
      · exact List.forall_mem_cons.mpr ⟨given, nonempty⟩
      · exact nonempty
    exact indexed_parse { ap with args := _ }
      (prepends _ (by decide) (prepends _ (by decide) indexed.nonempty))
  | prependLanguageFlag input =>
    refine drops ?_
    unfold ArgParser.prependLanguageFlag
    split
    · exact ⟨_, rfl, indexed⟩
    · rename_i lang found
      obtain ⟨result, parsed, kept⟩ := indexed_parse
        { ap with args := bytes "-x" :: lang :: ap.args }
        (List.forall_mem_cons.mpr ⟨by decide,
          List.forall_mem_cons.mpr ⟨language_ne_nil found, indexed.nonempty⟩⟩)
      rw [parsed]
      exact ⟨_, rfl, kept⟩

end Parses

/-- **The representation invariant** holds on any list of non-empty arguments, after `Parse` and every
sequence of calls; and no call panics. -/
theorem represented_of_reaches (args : List GoString) (nonempty : ∀ a ∈ args, a ≠ []) :
    (∃ ap, (newArgParser args).parse = some ap) ∧ ∀ ap, Reaches args ap →
      Represented ap ∧ ∀ call, Call.Allowed ap call → ∃ result, call.run ap = some result := by
  have indexed : ∀ ap, Reaches args ap → Indexed ap := by
    intro ap reaches
    induction reaches with
    | parsed is =>
      obtain ⟨result, parsed, indexed⟩ := indexed_parse (newArgParser args) nonempty
      exact Option.some.inj (parsed.symm.trans is) ▸ indexed
    | called call _ allowed is ih =>
      obtain ⟨result, run, indexed⟩ := ih.run allowed
      exact Option.some.inj (run.symm.trans is) ▸ indexed
  refine ⟨?_, fun ap reaches => ⟨(indexed ap reaches).toRepresented, fun call allowed => ?_⟩⟩
  · obtain ⟨result, parsed, -⟩ := indexed_parse (newArgParser args) nonempty
    exact ⟨result, parsed⟩
  · obtain ⟨result, run, -⟩ := (indexed ap reaches).run allowed
    exact ⟨result, run⟩

def runCalls : List Call → ArgParser → Option ArgParser
  | [], ap => some ap
  | call :: calls, ap => if call.Allowed ap then (call.run ap).bind (runCalls calls) else none

theorem Reaches.runCalls {args : List GoString} {calls : List Call} {ap ap' : ArgParser}
    (reaches : Reaches args ap) (is : runCalls calls ap = some ap') : Reaches args ap' := by
  induction calls generalizing ap with
  | nil =>
    obtain rfl := Option.some.inj is
    exact reaches
  | cons call calls ih =>
    rw [Cc.runCalls, Option.ite_none_right_eq_some] at is
    obtain ⟨allowed, is⟩ := is
    obtain ⟨next, run, rest⟩ := Option.bind_eq_some_iff.mp is
    exact ih (reaches.called call allowed run) rest

/-- The options of the preprocessor are unpacked, the action is replaced, and the input renamed. -/
theorem represented_renamed : ∃ ap,
    Reaches [bytes "-Wp,-MD,main.d", bytes "-c", bytes "main.c"] ap ∧
    ap.args = [bytes "-MD", bytes "-MF", bytes "main.d", bytes "-E", bytes "/tmp/main.c", bytes "-o",
      bytes "main.o", bytes "-ffile-prefix-map=/tmp=."] ∧
    ap.inputArgIndex = some 4 ∧ ap.outputArgIndex = some 6 ∧ Represented ap := by
  have run : (((newArgParser [bytes "-Wp,-MD,main.d", bytes "-c", bytes "main.c"]).parse).bind
      (runCalls [.configurePreprocessorOptions, .setActionOpt .preprocess,
        .replaceInputPath (bytes "/tmp/main.c")])).map
      (fun ap => (ap.args, ap.inputArgIndex, ap.outputArgIndex)) =
      some ([bytes "-MD", bytes "-MF", bytes "main.d", bytes "-E", bytes "/tmp/main.c", bytes "-o",
        bytes "main.o", bytes "-ffile-prefix-map=/tmp=."], some 4, some 6) := by decide
  obtain ⟨ap, called, is⟩ := Option.map_eq_some_iff.mp run
  obtain ⟨parsed, parse, called⟩ := Option.bind_eq_some_iff.mp called
  have reaches := (Reaches.parsed parse).runCalls called
  rw [Prod.mk.injEq, Prod.mk.injEq] at is
  exact ⟨ap, reaches, is.1, is.2.1, is.2.2,
    ((represented_of_reaches _ (by decide)).2 ap reaches).1⟩

end Kubecc.Cc
