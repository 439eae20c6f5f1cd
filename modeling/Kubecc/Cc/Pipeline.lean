/-
**From the consumerd's command line to the agent's.**

`sendRemoteRunnerManager.Process` of `pkg/cc/controller/send.go` rewrites the arguments of a remote
command several times, and parses them again each time; `recvRemoteRunnerManager.Process` parses what
is sent. Both sides must find the same input, output and action.

The passes meet at `Settled`: an argument list whose words name the input, the output and the action,
and in which `RemoveLocalArgs` pairs every option with the value `Parse` gives it. Every pass keeps a
list settled, with the same three findings.

* `settled_parse`, `settled_removeLocal`, `settled_prependPIC`, `switch_and_back` — the passes.
* `restoresAction_iff` — switching to preprocessing and back restores the list exactly if not both `-c`
  and `-S` are given.
* `process_of_configured` — the whole pipeline, once a list is settled.
-/

import Kubecc.Cc.Remote

namespace Kubecc.Cc

open Kubecc.Go Kubecc.Lib Kubecc.Types

/-! ### The passes -/

/-- `preprocessTask.Run`: the output path is `-` while the preprocessor runs. -/
def ArgParser.preprocess (ap : ArgParser) : Option ArgParser :=
  match ap.outputArgIndex with
  | none => some ap
  | some i =>
    (ap.args[i]?).bind fun old =>
      (ap.replaceOutputPath (bytes "-")).bind fun running =>
        (running.1.replaceOutputPath old).map Prod.fst

/-- **`sendRemoteRunnerManager.Process`** on a parsed command whose preprocessing succeeds, up to the
request: the parser whose arguments are sent, or the error it returns. -/
def ArgParser.process (ap : ArgParser) (tc : Toolchain) : Option (Except GoString ArgParser) :=
  ap.configurePreprocessorOptions.bind fun ap =>
    let opt := ap.actionOpt
    (ap.setActionOpt .preprocess).bind fun preprocessing =>
      preprocessing.1.preprocess.bind fun preprocessed =>
        (preprocessed.setActionOpt opt).bind fun restored =>
          if restored.1.outputPath.isSome then
            (restored.1.removeLocalArgs.bind (·.prependExplicitPICArgs tc)).map .ok
          else some (.error (bytes "No output path given"))

/-! ### Arguments that a pass leaves alone -/

/-- The argument is not empty, is not rewritten or dropped by `standardize` and
`stripUnsupportedArgs`, and is not an option for the preprocessor. -/
structure Plain (a : GoString) : Prop where
  nonempty : a ≠ []
  noJoinedOutput : hasPrefix a (bytes "-o/") = false
  supported : unsupported a = false
  noPreprocessor : hasPrefix a (bytes "-Wp") = false

variable {args : List GoString} {a : GoString} {ap : ArgParser}

theorem standardize_eq_self
    (split : ∀ a ∈ args, hasPrefix a (bytes "-o/") = false) : standardize args = args := by
  induction args with
  | nil => rfl
  | cons a rest ih =>
    rw [List.forall_mem_cons] at split
    rw [standardize, if_neg (by simp [split.1]), ih split.2]

theorem cleaned_eq_self (plain : ∀ a ∈ args, Plain a) : cleaned args = args := by
  unfold cleaned stripUnsupportedArgs
  rw [standardize_eq_self fun a member => (plain a member).noJoinedOutput, List.filter_eq_self]
  intro a member
  rw [(plain a member).supported, Bool.not_false]

theorem expandLoop_eq (plain : ∀ a ∈ args, Plain a) (left : List GoString) :
    expandLoop left args = some (left ++ args) := by
  induction args generalizing left with
  | nil => rw [expandLoop, List.append_nil]
  | cons a rest ih =>
    rw [List.forall_mem_cons] at plain
    rw [expandLoop, if_neg (by simp [plain.1.noPreprocessor]), ih plain.2, List.append_assoc,
      List.singleton_append]

theorem plain_of_head (nonempty : a ≠ []) (dashless : a.head? ≠ some (byte '-')) : Plain a := by
  have prefixes : ∀ start : GoString, start.head? = some (byte '-') → hasPrefix a start = false := by
    intro start dash
    rw [Bool.eq_false_iff, Ne, hasPrefix_iff]
    rintro ⟨rest, rfl⟩
    cases start with
    | nil => cases dash
    | cons c start => exact dashless dash
  refine ⟨nonempty, prefixes _ rfl, ?_, prefixes _ rfl⟩
  have differs : ∀ option : GoString, option.head? = some (byte '-') → a ≠ option := by
    rintro option dash rfl
    exact dashless dash
  unfold unsupported
  rw [prefixes _ rfl]
  simp [differs (bytes "-Wpedantic") rfl, differs (bytes "-pedantic-errors") rfl,
    differs (bytes "-pedantic") rfl]

/-! ### What `RemoveLocalArgs` drops -/

def removable (a : GoString) : Bool := localArgsWithValues.contains a || isLocalArg a

theorem removable_of_head (dashless : a.head? ≠ some (byte '-')) : removable a = false := by
  have starts : ∀ start ∈ localPrefixArgs, hasPrefix a start = false := by
    have dashes : ∀ start ∈ localPrefixArgs, start.head? = some (byte '-') := by decide
    intro start member
    rw [Bool.eq_false_iff, Ne, hasPrefix_iff]
    rintro ⟨rest, rfl⟩
    have dash := dashes start member
    cases start with
    | nil => cases dash
    | cons c start => exact dashless dash
  have values : ∀ option ∈ localArgsWithValues, option.head? = some (byte '-') := by decide
  have noValues : ∀ option ∈ localArgsNoValues, option.head? = some (byte '-') := by decide
  unfold removable isLocalArg
  rw [Bool.or_eq_false_iff, Bool.or_eq_false_iff, List.any_eq_false]
  refine ⟨?_, fun start member => by simp [starts start member], ?_⟩
  · rw [Bool.eq_false_iff, Ne, List.contains_iff_mem]
    exact fun member => dashless (values a member)
  · rw [Bool.eq_false_iff, Ne, List.contains_iff_mem]
    exact fun member => dashless (noValues a member)

/-- `RemoveLocalArgs` does not take the value of this word for an option. -/
def Tame (word : Word GoString) : Prop :=
  word.head ∉ localArgsWithValues → ∀ value ∈ word.value, removable value = false

theorem removeLocalLoop_kept (kept : removable a = false) (rest : List GoString) :
    removeLocalLoop false (a :: rest) = a :: removeLocalLoop false rest := by
  rw [removable, Bool.or_eq_false_iff] at kept
  rw [removeLocalLoop, if_neg (ne_true_of_eq_false kept.1), if_neg (ne_true_of_eq_false kept.2)]

theorem removable_language : removable (bytes "-x") = false := by decide

theorem removable_output : removable (bytes "-o") = false := by decide

theorem mem_of_removable_of_takesValue (dropped : removable a = true)
    (taking : takesValue a = true) : a ∈ localArgsWithValues := by
  rcases takesValue_iff.mp taking with rfl | rfl | member
  · exact absurd (removable_language.symm.trans dropped) nofun
  · exact absurd (removable_output.symm.trans dropped) nofun
  · exact member

/-- **`RemoveLocalArgs` drops whole words.** -/
theorem removeLocalLoop_spell {ws : List (Word GoString)}
    (complete : ∀ word ∈ ws, Complete takesValue word) (tame : ∀ word ∈ ws, Tame word)
    (more : List GoString) :
    removeLocalLoop false (spell ws ++ more) =
      spell (ws.filter fun word => !removable word.head) ++ removeLocalLoop false more := by
  induction ws with
  | nil => rfl
  | cons word ws ih =>
    rw [List.forall_mem_cons] at complete tame
    obtain ⟨head, value⟩ := word
    have full : value.isSome = takesValue head := complete.1
    have tameHere : head ∉ localArgsWithValues → ∀ x ∈ value, removable x = false := tame.1
    have rest := ih complete.2 tame.2
    rw [spell_cons, List.cons_append, List.append_assoc]
    by_cases dropped : removable head = true
    · rw [List.filter_cons_of_neg (by simp [dropped]), ← rest]
      cases value with
      | none =>
        have single : ¬ localArgsWithValues.contains head = true := fun member => by
          rw [takesValue_iff.mpr (.inr (.inr (List.contains_iff_mem.mp member)))] at full
          cases full
        rw [removable, Bool.or_eq_true] at dropped
        rw [removeLocalLoop, if_neg single, if_pos (dropped.resolve_left single)]
        rfl
      | some x =>
        have member := mem_of_removable_of_takesValue dropped full.symm
        rw [removeLocalLoop, if_pos (List.contains_iff_mem.mpr member)]
        rfl
    · have kept := Bool.eq_false_iff.mpr dropped
      rw [List.filter_cons_of_pos (by simp [kept]), removeLocalLoop_kept kept, spell_cons,
        List.cons_append, List.append_assoc, ← rest]
      cases value with
      | none => rfl
      | some x =>
        have outside : head ∉ localArgsWithValues := fun member => dropped (by
          rw [removable, List.contains_iff_mem.mpr member, Bool.true_or])
        exact congrArg (head :: ·) (removeLocalLoop_kept (tameHere outside x rfl) _)

/-! ### Settled argument lists -/

/-- The words name this input, this output if any, and this action and no other. -/
structure Names (ws : List (Word GoString)) (input : GoString) (output : Option GoString)
    (act : ActionOpt) : Prop where
  input : lastInput ws = some input
  output : lastOutput ws = output
  action : ∀ option ∈ actionOptions, hasOption option ws = decide (option = act.text)

/-- **A settled argument list.** Its last argument may lack a value; it is not `-o` then. -/
structure Settled (args : List GoString) (input output : GoString) (act : ActionOpt) : Prop where
  plain : ∀ a ∈ args, Plain a
  spelled : ∃ ws : List (Word GoString), ∃ lacking : Option GoString,
    args = spell ws ++ lacking.toList ∧ (∀ word ∈ ws, Complete takesValue word) ∧
      (∀ word ∈ ws, Tame word) ∧ (∀ last ∈ lacking, takesValue last = true) ∧
      Names ws input (some output) act

variable {args : List GoString} {ws : List (Word GoString)} {input output : GoString}
  {given : Option GoString} {act : ActionOpt}

theorem not_isInput_of_takesValue (taking : takesValue a = true) : isInput a = false := by
  rw [Bool.eq_false_iff]
  intro is
  rw [isInput, Bool.and_eq_true, decide_eq_true_eq] at is
  rw [takesValue, is.1] at taking
  cases taking

theorem not_action_of_takesValue {a option : GoString} (taking : takesValue a = true)
    (action : option ∈ actionOptions) : a ≠ option := by
  have table : ∀ option ∈ actionOptions, takesValue option = false := by decide
  rintro rfl
  rw [table a action] at taking
  cases taking

theorem names_congr {more : List (Word GoString)} (sameInput : lastInput more = lastInput ws)
    (sameOutput : lastOutput more = lastOutput ws)
    (sameAction : ∀ option ∈ actionOptions, hasOption option more = hasOption option ws) :
    Names more input given act ↔ Names ws input given act := by
  have transfer : ∀ {these those : List (Word GoString)}, lastInput these = lastInput those →
      lastOutput these = lastOutput those →
      (∀ option ∈ actionOptions, hasOption option these = hasOption option those) →
      Names those input given act → Names these input given act :=
    fun sameInput sameOutput sameAction names => ⟨sameInput.trans names.input,
      sameOutput.trans names.output, fun option is => (sameAction option is).trans (names.action option is)⟩
  exact ⟨transfer sameInput.symm sameOutput.symm fun option is => (sameAction option is).symm,
    transfer sameInput sameOutput sameAction⟩

/-- A word that is neither an input, nor an output, nor an action changes nothing, wherever it
stands. -/
theorem names_insert {before after : List (Word GoString)} {word : Word GoString}
    (noInput : isInput word.head = false) (noOutput : kind word.head = .output → word.value = none)
    (noAction : word.head ∉ actionOptions) :
    Names (before ++ word :: after) input given act ↔ Names (before ++ after) input given act := by
  have sameInput : lastInput (before ++ word :: after) = lastInput (before ++ after) := by
    simp [lastInput, noInput]
  have sameOutput : lastOutput (before ++ word :: after) = lastOutput (before ++ after) := by
    by_cases output : kind word.head = .output
    · simp [lastOutput, output, noOutput output]
    · simp [lastOutput, output]
  have sameAction : ∀ option ∈ actionOptions,
      hasOption option (before ++ word :: after) = hasOption option (before ++ after) := by
    intro option action
    have differs : word.head ≠ option := fun same => noAction (same ▸ action)
    simp [hasOption, differs]
  exact names_congr sameInput sameOutput sameAction

theorem names_lacking {lacking : Option GoString}
    (taking : ∀ last ∈ lacking, takesValue last = true) :
    Names (ws ++ lacking.toList.map (⟨·, none⟩)) input given act ↔ Names ws input given act := by
  cases lacking with
  | none => rw [Option.toList_none, List.map_nil, List.append_nil]
  | some last =>
    have taking := taking last rfl
    refine (names_insert (not_isInput_of_takesValue taking) (fun _ => rfl) fun action => ?_).trans
      (by rw [List.map_nil, List.append_nil])
    exact not_action_of_takesValue taking action rfl

theorem Settled.names (settled : Settled args input output act) :
    Names (words takesValue args) input (some output) act := by
  obtain ⟨ws, lacking, rfl, complete, -, taking, names⟩ := settled.spelled
  rw [words_spell_append complete]
  refine Eq.mp ?_ ((names_lacking taking).mpr names)
  cases lacking <;> rfl

/-- What `Parse` leaves after a settled list: the list itself, and where its action stands. -/
structure Found (ap : ArgParser) (args : List GoString) (input output : GoString)
    (act : ActionOpt) : Prop where
  args_eq : ap.args = args
  input : ap.inputPath = some input
  output : ap.outputPath = some output
  action : ap.actionOpt = act
  present : ∀ option ∈ actionOptions, (ap.flagIndexMap option).isSome = decide (option = act.text)
  located : ∀ option ∈ actionOptions, ∀ i, ap.flagIndexMap option = some i → args[i]? = some option

theorem Reports.found (reports : Reports args ap)
    (hasInput : lastInput (words takesValue args) = some input)
    (hasOutput : (lastOutput (words takesValue args)).or (madeOutput (words takesValue args)) =
      some output)
    (hasAction : ∀ option ∈ actionOptions,
      hasOption option (words takesValue args) = decide (option = act.text)) :
    Found ap ap.args input output act := by
  refine ⟨rfl, reports.input.trans hasInput, reports.output.trans hasOutput, ?_, ?_, reports.located⟩
  · rw [reports.action, Cc.action, hasAction (bytes "-c") (by decide),
      hasAction (bytes "-S") (by decide), hasAction (bytes "-E") (by decide)]
    cases act <;> decide
  · exact fun option is => (reports.present option is).trans (hasAction option is)

theorem settled_parse (settled : Settled args input output act) (ap : ArgParser)
    (same : ap.args = args) : ∃ result, ap.parse = some result ∧ Found result args input output act := by
  subst same
  obtain ⟨result, parsed, reports⟩ :=
    parse_reports ap fun a member => (settled.plain a member).nonempty
  rw [cleaned_eq_self settled.plain] at reports
  have names := settled.names
  have unmade : madeOutput (words takesValue ap.args) = none := by
    rw [madeOutput, names.output, if_pos (by simp)]
  have argsEq : result.args = ap.args := by
    rw [reports.args_eq, unmade, Option.map_none, Option.getD_none, List.append_nil]
  have hasOutput : (lastOutput (words takesValue ap.args)).or (madeOutput (words takesValue ap.args)) =
      some output := by rw [names.output, Option.some_or]
  exact ⟨result, parsed, argsEq ▸ reports.found names.input hasOutput names.action⟩

/-! ### The names of files -/

theorem head_of_kind_file (file : kind a = .file) (notDash : a ≠ bytes "-") :
    a.head? ≠ some (byte '-') := by
  have optionKinds : ∀ test ∈ switch, test.2 ≠ .file := by decide
  intro dash
  have long : 1 < a.length := by
    rcases a with _ | ⟨c, _ | ⟨d, rest⟩⟩
    · cases dash
    · exact absurd (congrArg (fun c => [c]) (Option.some.inj dash)) notDash
    · simp
  rw [kind, if_pos ⟨dash, long⟩, optionKind] at file
  split at file
  · rename_i found
    exact optionKinds _ (List.mem_of_find?_eq_some found) file
  · cases file

theorem head_of_isInput (is : isInput a = true) (notDash : a ≠ bytes "-") :
    a.head? ≠ some (byte '-') := by
  rw [isInput, Bool.and_eq_true, decide_eq_true_eq] at is
  exact head_of_kind_file is.1 notDash

theorem removable_of_isInput (input : isInput a = true) : removable a = false := by
  by_cases dash : a = bytes "-"
  · rw [dash]
    decide
  · exact removable_of_head (head_of_isInput input dash)

theorem isInput_of_lastInput {ws : List (Word GoString)} {input : GoString}
    (last : lastInput ws = some input) : isInput input = true := by
  obtain ⟨word, -, is⟩ := List.mem_filterMap.mp (List.mem_of_getLast? last)
  rw [Option.ite_none_right_eq_some] at is
  exact Option.some.inj is.2 ▸ is.1

def ActionOpt.extension : ActionOpt → GoString
  | .genAssembly => bytes ".s"
  | _ => bytes ".o"

theorem extension_ne_nil (act : ActionOpt) : act.extension ≠ [] := by cases act <;> decide

theorem head_replaceExtension {path extension : GoString} (dashless : path.head? ≠ some (byte '-'))
    (dot : extension.head? = some (byte '.')) :
    (replaceExtension path extension).head? ≠ some (byte '-') := by
  unfold replaceExtension
  cases kept : path.take (path.length - (ext path).length) with
  | nil =>
    rw [List.nil_append, dot]
    decide
  | cons c rest =>
    have whole := List.take_append_drop (path.length - (ext path).length) path
    rw [kept] at whole
    rw [← whole] at dashless
    exact dashless

theorem plain_replaceExtension {act : ActionOpt} (is : isInput input = true)
    (acts : act = .compile ∨ act = .genAssembly) :
    Plain (replaceExtension input act.extension) ∧
      removable (replaceExtension input act.extension) = false := by
  by_cases dash : input = bytes "-"
  · subst dash
    rcases acts with rfl | rfl <;> exact ⟨⟨by decide, by decide, by decide, by decide⟩, by decide⟩
  · have dot : act.extension.head? = some (byte '.') := by rcases acts with rfl | rfl <;> rfl
    have dashless := head_replaceExtension (head_of_isInput is dash) dot
    refine ⟨plain_of_head ?_ dashless, removable_of_head dashless⟩
    exact replaceExtension_ne_nil _ _ (extension_ne_nil act)

/-! ### The passes keep a list settled -/

theorem names_filter (ws : List (Word GoString)) :
    Names (ws.filter fun word => !removable word.head) input given act ↔
      Names ws input given act := by
  have sameInput : lastInput (ws.filter fun word => !removable word.head) = lastInput ws := by
    unfold lastInput
    rw [List.filterMap_filter]
    refine congrArg (fun f => (ws.filterMap f).getLast?) (funext fun word => ?_)
    by_cases is : isInput word.head = true
    · rw [removable_of_isInput is, Bool.not_false, if_pos rfl]
    · rw [if_neg is, ite_self]
  have sameOutput : lastOutput (ws.filter fun word => !removable word.head) = lastOutput ws := by
    unfold lastOutput
    rw [List.filterMap_filter]
    refine congrArg (fun f => (ws.filterMap f).getLast?) (funext fun word => ?_)
    by_cases is : kind word.head = .output
    · rw [kind_eq_output_iff.mp is, removable_output, Bool.not_false,
        if_pos rfl]
    · rw [if_neg is, ite_self]
  have sameAction : ∀ option ∈ actionOptions,
      hasOption option (ws.filter fun word => !removable word.head) = hasOption option ws := by
    have table : ∀ option ∈ actionOptions, removable option = false := by decide
    intro option action
    unfold hasOption
    rw [List.any_filter]
    refine congrArg (List.any ws) (funext fun word => ?_)
    by_cases is : word.head = option
    · rw [is, table option action]
      simp
    · simp [is]
  exact names_congr sameInput sameOutput sameAction

theorem settled_removeLocal (settled : Settled args input output act) :
    Settled (removeLocalLoop false args) input output act := by
  obtain ⟨ws, lacking, rfl, complete, tame, taking, names⟩ := settled.spelled
  refine ⟨fun a member => settled.plain a (mem_of_mem_removeLocalLoop member), ?_⟩
  have still : ∀ word ∈ ws.filter fun word => !removable word.head, word ∈ ws := fun word member =>
    List.mem_of_mem_filter member
  rw [removeLocalLoop_spell complete tame]
  refine ⟨_, lacking.filter (!removable ·), ?_, fun word member => complete word (still word member),
    fun word member => tame word (still word member), ?_, (names_filter ws).mpr names⟩
  · congr 1
    cases lacking with
    | none => rfl
    | some last =>
      by_cases dropped : removable last = true
      · have member := mem_of_removable_of_takesValue dropped (taking last rfl)
        rw [Option.toList_some, removeLocalLoop, if_pos (List.contains_iff_mem.mpr member)]
        simp [Option.filter, dropped, removeLocalLoop]
      · rw [Option.toList_some, removeLocalLoop_kept (Bool.eq_false_iff.mpr dropped)]
        simp [Option.filter, dropped, removeLocalLoop]
  · intro last member
    exact taking last (Option.mem_filter_iff.mp member).1

/-- **An option in front keeps a list settled**, if it takes no value and is no action. -/
theorem settled_prepend (settled : Settled args input output act) (plain : Plain a)
    (single : takesValue a = false) (noInput : isInput a = false) (noOutput : kind a ≠ .output)
    (noAction : a ∉ actionOptions) : Settled (a :: args) input output act := by
  obtain ⟨ws, lacking, rfl, complete, tame, taking, names⟩ := settled.spelled
  refine ⟨List.forall_mem_cons.mpr ⟨plain, settled.plain⟩, ⟨a, none⟩ :: ws, lacking, rfl, ?_, ?_,
    taking, ?_⟩
  · exact List.forall_mem_cons.mpr ⟨single.symm, complete⟩
  · exact List.forall_mem_cons.mpr ⟨fun _ _ member => (nomatch member), tame⟩
  · show Names ([] ++ (⟨a, none⟩ : Word GoString) :: ws) input (some output) act
    exact (names_insert noInput (fun is => absurd is noOutput) noAction).mpr names

/-! ### Preprocessing and back -/

theorem preprocess_eq (output : ap.outputPath.isSome = true) : ap.preprocess = some ap := by
  obtain ⟨path, located⟩ := Option.isSome_iff_exists.mp output
  obtain ⟨i, index, here⟩ := Option.bind_eq_some_iff.mp located
  have inside : i < ap.args.length := (List.getElem?_eq_some_iff.mp here).1
  unfold ArgParser.preprocess ArgParser.replaceOutputPath
  simp [index, inside]
  rw [← index]

theorem Found.flag_eq (found : Found ap args input output act) {option : GoString}
    (action : option ∈ actionOptions) (other : option ≠ act.text) : ap.flagIndexMap option = none := by
  have present := found.present option action
  rwa [decide_eq_false other, Option.isSome_eq_false_iff, Option.isNone_iff_eq_none] at present

theorem Found.exists_flag (found : Found ap args input output act) (action : act.text ∈ actionOptions) :
    ∃ i, ap.flagIndexMap act.text = some i ∧ ap.args[i]? = some act.text := by
  have present := found.present act.text action
  rw [decide_eq_true rfl, Option.isSome_iff_exists] at present
  obtain ⟨i, index⟩ := present
  exact ⟨i, index, found.args_eq ▸ found.located act.text action i index⟩

/-- The parser with the action `old`, which stands at `i`, replaced by `new`. -/
def ArgParser.withAction (ap : ArgParser) (i : ℕ) (old new : ActionOpt) : ArgParser :=
  { ap with
    args := ap.args.set i new.text
    flagIndexMap := Function.update (Function.update ap.flagIndexMap old.text none) new.text (some i) }

theorem setActionOpt_eq {i : ℕ} (is : ap.actionOpt = act) (acts : act ≠ .none)
    (index : ap.flagIndexMap act.text = some i) (inside : i < ap.args.length) (opt : ActionOpt) :
    ap.setActionOpt opt = some (ap.withAction i act opt, none) := by
  have replaced : (ap.replaceOpt i act opt).map (·, none) =
      some (ap.withAction i act opt, (none : Option GoString)) := by
    rw [ArgParser.replaceOpt, if_pos inside]
    rfl
  rw [← replaced]
  unfold ArgParser.actionOpt at is
  unfold ArgParser.setActionOpt
  cases c : ap.flagIndexMap (bytes "-c") with
  | some j =>
    obtain rfl : ActionOpt.compile = act := by simpa [c] using is
    rw [Option.some.inj (c.symm.trans index)]
  | none =>
    cases s : ap.flagIndexMap (bytes "-S") with
    | some j =>
      obtain rfl : ActionOpt.genAssembly = act := by simpa [c, s] using is
      rw [Option.some.inj (s.symm.trans index)]
    | none =>
      cases e : ap.flagIndexMap (bytes "-E") with
      | some j =>
        obtain rfl : ActionOpt.preprocess = act := by simpa [c, s, e] using is
        rw [Option.some.inj (e.symm.trans index)]
      | none => exact absurd (by simpa [c, s, e] using is.symm) acts

/-- Of `-c` and `-S` at most this action is recorded. -/
def ArgParser.OnlyAction (ap : ArgParser) (act : ActionOpt) : Prop :=
  ∀ option ∈ [bytes "-c", bytes "-S"], option ≠ act.text → ap.flagIndexMap option = none

theorem actionOpt_of_only {i : ℕ} (acts : act ≠ .none)
    (index : ap.flagIndexMap act.text = some i) (only : ap.OnlyAction act) : ap.actionOpt = act := by
  unfold ArgParser.actionOpt
  cases act with
  | compile =>
    have index : ap.flagIndexMap (bytes "-c") = some i := index
    rw [index]
    rfl
  | genAssembly =>
    have index : ap.flagIndexMap (bytes "-S") = some i := index
    rw [only (bytes "-c") (by decide) (by decide), index]
    rfl
  | preprocess =>
    have index : ap.flagIndexMap (bytes "-E") = some i := index
    rw [only (bytes "-c") (by decide) (by decide), only (bytes "-S") (by decide) (by decide), index]
    rfl
  | none => exact absurd rfl acts

theorem withAction_flag (ap : ArgParser) (i : ℕ) (old new : ActionOpt) :
    (ap.withAction i old new).flagIndexMap new.text = some i := Function.update_self _ _ _

theorem ArgParser.OnlyAction.withAction {old : ActionOpt}
    (only : ap.OnlyAction old) (i : ℕ) (new : ActionOpt) : (ap.withAction i old new).OnlyAction new := by
  intro option member other
  show Function.update (Function.update ap.flagIndexMap old.text none) new.text (some i) option = none
  rw [Function.update_of_ne other]
  by_cases same : option = old.text
  · rw [same, Function.update_self]
  · rw [Function.update_of_ne same, only option member same]

/-- **Switching to preprocessing and back**, when the other one of `-c` and `-S` is not given. -/
theorem switch_and_back {i : ℕ} (acts : act ≠ .none)
    (index : ap.flagIndexMap act.text = some i) (here : ap.args[i]? = some act.text)
    (only : ap.OnlyAction act) :
    ∃ back, ap.setActionOpt .preprocess = some (ap.withAction i act .preprocess, none) ∧
      (ap.withAction i act .preprocess).setActionOpt act = some (back, none) ∧
      back.args = ap.args ∧ back.outputArgIndex = ap.outputArgIndex ∧ back.actionOpt = act := by
  have inside : i < ap.args.length := (List.getElem?_eq_some_iff.mp here).1
  have restores : (ap.args.set i (bytes "-E")).set i act.text = ap.args := by
    rw [List.set_set, ← (List.getElem?_eq_some_iff.mp here).2, List.set_getElem_self]
  set there := ap.withAction i act .preprocess with isThere
  have stillInside : i < there.args.length := by simpa [isThere, ArgParser.withAction] using inside
  have onlyThere : there.OnlyAction .preprocess := only.withAction i .preprocess
  have indexThere : there.flagIndexMap (bytes "-E") = some i := withAction_flag ap i act .preprocess
  have preprocesses : there.actionOpt = .preprocess :=
    actionOpt_of_only (by decide) indexThere onlyThere
  refine ⟨there.withAction i .preprocess act, ?_, ?_, restores, rfl, ?_⟩
  · exact setActionOpt_eq (actionOpt_of_only acts index only) acts index inside _
  · exact setActionOpt_eq preprocesses (by decide) indexThere stillInside _
  · exact actionOpt_of_only acts (withAction_flag there i .preprocess act) (onlyThere.withAction i act)

theorem Found.switch_and_back (found : Found ap args input output act)
    (acts : act = .compile ∨ act = .genAssembly) :
    ∃ preprocessing restored, ap.setActionOpt .preprocess = some (preprocessing, none) ∧
      preprocessing.preprocess = some preprocessing ∧
      preprocessing.setActionOpt act = some (restored, none) ∧ restored.args = args ∧
      restored.outputPath = some output := by
  have notNone : act ≠ .none := by rcases acts with rfl | rfl <;> decide
  have isAction : ∀ option ∈ [bytes "-c", bytes "-S"], option ∈ actionOptions := by decide
  obtain ⟨i, index, here⟩ := found.exists_flag (by rcases acts with rfl | rfl <;> decide)
  obtain ⟨back, forth, again, args, output, -⟩ := Cc.switch_and_back notNone index here
    fun option member other => found.flag_eq (isAction option member) other
  refine ⟨_, back, forth, preprocess_eq ?_, again, args.trans found.args_eq, ?_⟩
  · obtain ⟨j, outputIndex, there⟩ := Option.bind_eq_some_iff.mp found.output
    have outputInside : j < ap.args.length := (List.getElem?_eq_some_iff.mp there).1
    simp [ArgParser.outputPath, ArgParser.withAction, outputIndex, outputInside]
  · rw [ArgParser.outputPath, args, output]
    exact found.output

/-- Switching to preprocessing and back restores the arguments and the action. -/
def ArgParser.RestoresAction (ap : ArgParser) : Prop :=
  ∃ there back, ap.setActionOpt .preprocess = some (there, none) ∧
    there.setActionOpt ap.actionOpt = some (back, none) ∧ back.args = ap.args ∧
    back.actionOpt = ap.actionOpt

/-- With both `-c` and `-S`, the way back replaces the `-S`. -/
theorem not_restoresAction {i j : ℕ}
    (compiles : ap.flagIndexMap (bytes "-c") = some i) (here : ap.args[i]? = some (bytes "-c"))
    (assembles : ap.flagIndexMap (bytes "-S") = some j) (there : ap.args[j]? = some (bytes "-S")) :
    ¬ ap.RestoresAction := by
  rintro ⟨preprocessing, back, forth, again, args, -⟩
  have inside : i < ap.args.length := (List.getElem?_eq_some_iff.mp here).1
  have apart : j ≠ i := by
    rintro rfl
    exact absurd (Option.some.inj (here.symm.trans there)) (by decide)
  have compiling : ap.actionOpt = .compile := by
    rw [ArgParser.actionOpt, compiles]
    rfl
  rw [setActionOpt_eq compiling (by decide) compiles inside] at forth
  obtain ⟨rfl, -⟩ := Prod.mk.inj (Option.some.inj forth)
  have assembling : (ap.withAction i .compile .preprocess).actionOpt = .genAssembly := by
    have index : (ap.withAction i .compile .preprocess).flagIndexMap (bytes "-S") = some j := assembles
    rw [ArgParser.actionOpt, index]
    rfl
  have stillInside : j < (ap.withAction i .compile .preprocess).args.length := by
    simpa [ArgParser.withAction] using (List.getElem?_eq_some_iff.mp there).1
  rw [compiling, setActionOpt_eq assembling (by decide) assembles stillInside] at again
  obtain ⟨rfl, -⟩ := Prod.mk.inj (Option.some.inj again)
  have changed : ((ap.args.set i (bytes "-E")).set j (bytes "-c"))[i]? = some (bytes "-E") := by
    rw [List.getElem?_set_ne apart, List.getElem?_set_self inside]
  rw [show (ap.args.set i (bytes "-E")).set j (bytes "-c") = ap.args from args, here] at changed
  exact absurd (Option.some.inj changed) (by decide)

theorem exists_flag_of_actionOpt (acts : ap.actionOpt ≠ .none) :
    ∃ i, ap.flagIndexMap ap.actionOpt.text = some i := by
  rw [← Option.isSome_iff_exists]
  unfold ArgParser.actionOpt at acts ⊢
  split_ifs at acts ⊢ with compiles assembles preprocesses
  · exact compiles
  · exact assembles
  · exact preprocesses
  · exact absurd rfl acts

/-- **When the way back restores**: exactly if not both `-c` and `-S` are given. -/
theorem restoresAction_iff (start ap : ArgParser) (nonempty : ∀ a ∈ start.args, a ≠ [])
    (parsed : start.parse = some ap)
    (acts : ap.actionOpt = .compile ∨ ap.actionOpt = .genAssembly) :
    ap.RestoresAction ↔ ¬ (hasOption (bytes "-c") (words takesValue (cleaned start.args)) = true ∧
      hasOption (bytes "-S") (words takesValue (cleaned start.args)) = true) := by
  obtain ⟨result, again, reports⟩ := parse_reports start nonempty
  obtain rfl := Option.some.inj (again.symm.trans parsed)
  rw [← reports.present _ (by decide), ← reports.present _ (by decide), Option.isSome_iff_exists,
    Option.isSome_iff_exists]
  by_cases both : (∃ i, result.flagIndexMap (bytes "-c") = some i) ∧
      ∃ j, result.flagIndexMap (bytes "-S") = some j
  · obtain ⟨⟨i, compiles⟩, j, assembles⟩ := both
    refine iff_of_false ?_ (not_not_intro ⟨⟨i, compiles⟩, j, assembles⟩)
    exact not_restoresAction compiles (reports.located _ (by decide) i compiles) assembles
      (reports.located _ (by decide) j assembles)
  · refine iff_of_true ?_ both
    have notNone : result.actionOpt ≠ .none := by rcases acts with is | is <;> rw [is] <;> decide
    obtain ⟨i, index⟩ := exists_flag_of_actionOpt notNone
    have isAction : result.actionOpt.text ∈ actionOptions := by
      rcases acts with is | is <;> rw [is] <;> decide
    have only : result.OnlyAction result.actionOpt := by
      intro option member other
      by_contra given
      obtain ⟨j, given⟩ := Option.ne_none_iff_exists'.mp given
      rcases List.mem_pair.mp member with rfl | rfl <;> rcases acts with is | is <;>
        rw [is] at index other
      · exact other rfl
      · exact both ⟨⟨j, given⟩, i, index⟩
      · exact both ⟨⟨i, index⟩, j, given⟩
      · exact other rfl
    obtain ⟨back, forth, backAgain, args, -, action⟩ :=
      switch_and_back notNone index (reports.located _ isAction i index) only
    exact ⟨_, back, forth, backAgain, args, action⟩

theorem restoresAction_compile : ∃ ap,
    (newArgParser [bytes "-E", bytes "-c", bytes "a.c"]).parse = some ap ∧
      ap.actionOpt = .compile ∧ ap.RestoresAction :=
  ⟨_, rfl, rfl, (restoresAction_iff (newArgParser [bytes "-E", bytes "-c", bytes "a.c"]) _ (by decide)
    rfl (.inl rfl)).mpr (by decide)⟩

/-- With `-c` and `-S` the list ends up as `-E -c`. -/
theorem both_actions_lost : ∃ ap there back,
    (newArgParser [bytes "-c", bytes "-S", bytes "a.c"]).parse = some ap ∧
      ap.actionOpt = .compile ∧
      ap.args = [bytes "-c", bytes "-S", bytes "a.c", bytes "-o", bytes "a.s"] ∧
      ap.setActionOpt .preprocess = some (there, none) ∧
      there.setActionOpt .compile = some (back, none) ∧
      back.args = [bytes "-E", bytes "-c", bytes "a.c", bytes "-o", bytes "a.s"] ∧
      ¬ ap.RestoresAction := by
  refine ⟨_, _, _, rfl, rfl, by decide, rfl, rfl, by decide, ?_⟩
  exact not_restoresAction rfl (by decide) rfl (by decide)

/-! ### The whole pipeline on a settled list -/

theorem settled_prependPIC (settled : Settled ap.args input output act) (tc : Toolchain) :
    ∃ result, ap.prependExplicitPICArgs tc = some result ∧
      Settled result.args input output act := by
  have one : ∀ {args}, Settled args input output act → ∀ on : Bool,
      ∀ option ∈ [bytes "-fPIC", bytes "-fPIE"],
      Settled (if on then option :: args else args) input output act := by
    intro args settled on option is
    cases on with
    | false => exact settled
    | true =>
      have table : ∀ option ∈ [bytes "-fPIC", bytes "-fPIE"], option ≠ [] ∧
          hasPrefix option (bytes "-o/") = false ∧ unsupported option = false ∧
          hasPrefix option (bytes "-Wp") = false ∧ takesValue option = false ∧
          isInput option = false ∧ kind option ≠ .output ∧ option ∉ actionOptions := by decide
      obtain ⟨nonempty, joined, supported, wp, single, noInput, noOutput, noAction⟩ := table option is
      exact settled_prepend settled ⟨nonempty, joined, supported, wp⟩ single noInput noOutput noAction
  have both := fun pic pie => one (one settled pic (bytes "-fPIC") (by decide)) pie (bytes "-fPIE")
    (by decide)
  obtain ⟨result, parsed, found⟩ := settled_parse (both _ _) { ap with args := _ } rfl
  exact ⟨result, parsed, found.args_eq ▸ both _ _⟩

/-- **The agent finds in the arguments it is sent what the list is settled on**, if
`ConfigurePreprocessorOptions` leaves a settled list. -/
theorem process_of_configured {ap configured : ArgParser}
    (configures : ap.configurePreprocessorOptions = some configured)
    (found : Found configured args input output act) (settled : Settled args input output act)
    (acts : act = .compile ∨ act = .genAssembly) (tc : Toolchain) :
    ∃ sent agent, ap.process tc = some (.ok sent) ∧
      (newArgParser sent.args).parse = some agent ∧ agent.inputPath = some input ∧
      agent.outputPath = some output ∧ agent.actionOpt = act := by
  obtain ⟨preprocessing, restored, forth, stays, back, restoredArgs, restoredOutput⟩ :=
    found.switch_and_back acts
  have trimmed := settled_removeLocal settled
  obtain ⟨removed, removes, removedFound⟩ := settled_parse trimmed
    { restored with args := removeLocalLoop false restored.args } (by rw [restoredArgs])
  replace removes : restored.removeLocalArgs = some removed := removes
  obtain ⟨sent, prepended, sentSettled⟩ :=
    settled_prependPIC (removedFound.args_eq ▸ trimmed : Settled removed.args input output act) tc
  obtain ⟨agent, agentParsed, agentFound⟩ :=
    settled_parse sentSettled (newArgParser sent.args) rfl
  refine ⟨sent, agent, ?_, agentParsed, agentFound.input, agentFound.output, agentFound.action⟩
  unfold ArgParser.process
  simp [configures, found.action, forth, stays, back, restoredOutput, removes, prepended]

theorem configure_eq (plain : ∀ a ∈ ap.args, Plain a) : ap.configurePreprocessorOptions = ap.parse := by
  rw [ArgParser.configurePreprocessorOptions, expandLoop_eq plain]
  rfl

end Kubecc.Cc
