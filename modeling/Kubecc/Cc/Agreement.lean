/-
**The consumerd and the agent agree on the command.**

The first `Parse` on the consumerd leaves a settled list, with one exception. When the command names
no output, `Parse` appends `-o` and a made-up path; if the last argument lacks its value, it takes
this `-o` as its value, and the path is left as an argument of its own. The next `Parse` then appends
the output once more. With `-c` nothing else happens; with `-S` the path left over is itself a source
file, and both sides go on with it as the input.

* `Admissible` — the command lines considered.
* `agent_agrees_iff` — the agent finds what the consumerd found, unless the appended output is
  swallowed (`SwallowsOutput`).
-/

import Kubecc.Cc.Pipeline

namespace Kubecc.Cc

open Kubecc.Go Kubecc.Lib Kubecc.Types

/-! ### The command lines considered -/

/-- After `-o` stands something that does not begin with a dash. -/
def OutputThen (a next : GoString) : Prop := a = bytes "-o" → next.head? ≠ some (byte '-')

instance : DecidableRel OutputThen := fun a next =>
  inferInstanceAs (Decidable (a = bytes "-o" → next.head? ≠ some (byte '-')))

/-- **The command lines considered**: no option for the preprocessor, exactly one action, at most one
output, and what follows `-o` is not an option. -/
structure Admissible (args : List GoString) : Prop where
  nonempty : ∀ a ∈ args, a ≠ []
  noPreprocessor : ∀ a ∈ args, hasPrefix a (bytes "-Wp") = false
  oneAction : args.countP (actionOptions.contains ·) = 1
  oneOutput : args.countP (hasPrefix · (bytes "-o")) ≤ 1
  outputThen : args.IsChain OutputThen

variable {args : List GoString}

/-! ### What `Parse` works on -/

theorem standardize_noJoinedOutput (oneOutput : args.countP (hasPrefix · (bytes "-o")) ≤ 1) :
    ∀ a ∈ standardize args, hasPrefix a (bytes "-o/") = false := by
  have output : ∀ a, hasPrefix a (bytes "-o/") = true → hasPrefix a (bytes "-o") = true := by
    intro a joined
    obtain ⟨rest, rfl⟩ := hasPrefix_iff.mp joined
    exact hasPrefix_iff.mpr ⟨byte '/' :: rest, rfl⟩
  induction args with
  | nil => exact nofun
  | cons first rest ih =>
    rw [standardize]
    split
    · rename_i joined
      have none : rest.countP (hasPrefix · (bytes "-o")) = 0 := by
        rw [List.countP_cons, if_pos (output first joined)] at oneOutput
        omega
      obtain ⟨path, rfl⟩ := hasPrefix_iff.mp joined
      refine List.forall_mem_cons.mpr ⟨by decide, List.forall_mem_cons.mpr ⟨rfl, ?_⟩⟩
      intro a member
      exact Bool.eq_false_iff.mpr fun joined => List.countP_eq_zero.mp none a member (output a joined)
    · rename_i split
      refine List.forall_mem_cons.mpr ⟨Bool.eq_false_iff.mpr split, ih ?_⟩
      exact le_trans (List.sublist_cons_self first rest).countP_le oneOutput

/-- `standardize` puts an absolute path after the `-o` it splits off. -/
theorem standardize_outputThen (chain : args.IsChain OutputThen) :
    (standardize args).IsChain OutputThen := by
  induction args with
  | nil => exact chain
  | cons first rest ih =>
    rw [List.isChain_cons] at chain
    rw [standardize]
    split
    · rename_i joined
      obtain ⟨path, rfl⟩ := hasPrefix_iff.mp joined
      refine List.isChain_cons_cons.mpr ⟨fun _ => ?_, List.isChain_cons.mpr ⟨?_, chain.2⟩⟩
      · show some (byte '/') ≠ some (byte '-')
        decide
      · rintro next - ⟨⟩
    · refine List.isChain_cons.mpr ⟨fun next member => ?_, ih chain.2⟩
      cases rest with
      | nil => cases member
      | cons second rest =>
        rw [standardize] at member
        split at member
        · rename_i joined
          obtain ⟨path, rfl⟩ := hasPrefix_iff.mp joined
          exact fun is => absurd rfl (chain.1 _ rfl is)
        · exact chain.1 next member

theorem head_of_unsupported {a : GoString} (dropped : unsupported a = true) :
    a.head? = some (byte '-') := by
  by_contra dashless
  have nonempty : a ≠ [] := by
    rintro rfl
    exact absurd dropped (by decide)
  rw [(plain_of_head nonempty dashless).supported] at dropped
  cases dropped

theorem strip_outputThen (chain : args.IsChain OutputThen) :
    (stripUnsupportedArgs args).IsChain OutputThen := by
  unfold stripUnsupportedArgs
  induction args with
  | nil => exact chain
  | cons first rest ih =>
    rw [List.isChain_cons] at chain
    by_cases dropped : unsupported first = true
    · rw [List.filter_cons_of_neg (by simp [dropped])]
      exact ih chain.2
    · rw [List.filter_cons_of_pos (by simp [dropped])]
      refine List.isChain_cons.mpr ⟨fun next member => ?_, ih chain.2⟩
      cases rest with
      | nil => cases member
      | cons second rest =>
        by_cases dropped : unsupported second = true
        · exact fun is => absurd (head_of_unsupported dropped) (chain.1 second rfl is)
        · rw [List.filter_cons_of_pos (by simp [dropped])] at member
          exact chain.1 next member

theorem Admissible.cleaned_outputThen (admissible : Admissible args) :
    (cleaned args).IsChain OutputThen :=
  strip_outputThen (standardize_outputThen admissible.outputThen)

theorem Admissible.cleaned_plain (admissible : Admissible args) : ∀ a ∈ cleaned args, Plain a := by
  intro a member
  obtain ⟨within, kept⟩ := List.mem_filter.mp member
  refine ⟨cleaned_nonempty admissible.nonempty a member,
    standardize_noJoinedOutput admissible.oneOutput a within, by simpa using kept, ?_⟩
  exact forall_mem_standardize admissible.noPreprocessor (by decide) (fun _ => rfl) a within

theorem mem_of_hasOption {option : GoString} (action : option ∈ actionOptions)
    (has : hasOption option (words takesValue (cleaned args)) = true) : option ∈ args := by
  rw [hasOption, ← any_spots_word, List.any_eq_true] at has
  obtain ⟨spot, member, is⟩ := has
  obtain ⟨j, -, here, -⟩ := getElem?_of_mem_spots member
  obtain rfl : spot.arg = option := of_decide_eq_true is
  have differs : ∀ option ∈ actionOptions, bytes "-o" ≠ option ∧ option.head? ≠ some (byte '/') := by
    decide
  refine forall_mem_standardize (P := fun a => a = spot.arg → spot.arg ∈ args) ?_ ?_ ?_ spot.arg
    (List.mem_of_mem_filter (List.mem_of_getElem? here)) rfl
  · rintro a member rfl
    exact member
  · exact fun same => absurd same (differs _ action).1
  · exact fun rest same => absurd (same ▸ rfl) (differs _ action).2

theorem Admissible.action_unique (admissible : Admissible args) {option other : GoString}
    (action : option ∈ actionOptions) (otherAction : other ∈ actionOptions)
    (has : hasOption option (words takesValue (cleaned args)) = true)
    (hasOther : hasOption other (words takesValue (cleaned args)) = true) : option = other := by
  have one := admissible.oneAction
  rw [List.countP_eq_length_filter, List.length_eq_one_iff] at one
  obtain ⟨only, filtered⟩ := one
  have is : ∀ option ∈ actionOptions, option ∈ args → option = only := by
    intro option action member
    have kept := List.mem_filter.mpr ⟨member, List.contains_iff_mem.mpr action⟩
    rwa [filtered, List.mem_singleton] at kept
  rw [is option action (mem_of_hasOption action has),
    is other otherAction (mem_of_hasOption otherAction hasOther)]

/-! ### The words of a remote command -/

theorem head_of_language {spot : Spot} (free : spot.forcesLocal = false)
    (language : spot.arg = bytes "-x") {value : GoString} (next : spot.next = some value) :
    value.head? ≠ some (byte '-') := by
  have names : ∀ name ∈ remoteLanguages, name.head?.isSome = true ∧ name.head? ≠ some (byte '-') := by
    decide
  have known : remoteLanguages.any (hasPrefix value ·) = true := by
    unfold Spot.forcesLocal at free
    rw [language, show kind (bytes "-x") = .language by decide, next] at free
    simpa using free
  obtain ⟨name, member, begins⟩ := List.any_eq_true.mp known
  obtain ⟨rest, rfl⟩ := hasPrefix_iff.mp begins
  cases name with
  | nil => exact absurd (names [] member).1 (by decide)
  | cons c name => exact (names _ member).2

theorem Admissible.tame (admissible : Admissible args)
    (free : Unopposed (spots false 0 (cleaned args))) :
    ∀ word ∈ words takesValue (cleaned args), Tame word := by
  intro word member notLocal value is
  rw [← spots_word 0, List.mem_map] at member
  obtain ⟨spot, within, rfl⟩ := member
  obtain ⟨taking, next⟩ : takesValue spot.arg = true ∧ spot.next = some value := by
    simpa [Spot.word] using is
  refine removable_of_head ?_
  rcases takesValue_iff.mp taking with language | output | isLocal
  · exact head_of_language (free.free spot within) language next
  · obtain ⟨j, -, here, after⟩ := getElem?_of_mem_spots within
    obtain ⟨inside, hereIs⟩ := List.getElem?_eq_some_iff.mp here
    obtain ⟨insideNext, nextIs⟩ := List.getElem?_eq_some_iff.mp (after.trans next)
    have chain := List.isChain_iff_getElem.mp admissible.cleaned_outputThen j insideNext
    rw [hereIs, nextIs] at chain
    exact chain output
  · exact absurd isLocal notLocal

/-- **The words of a remote command**: complete, up to one missing value at the end that is not the
path of an output. -/
theorem Admissible.exists_words (admissible : Admissible args)
    (free : Unopposed (spots false 0 (cleaned args))) :
    ∃ ws : List (Word GoString), ∃ lacking : Option GoString,
      cleaned args = spell ws ++ lacking.toList ∧
      words takesValue (cleaned args) = ws ++ lacking.toList.map (⟨·, none⟩) ∧
      (∀ word ∈ ws, Complete takesValue word) ∧ (∀ word ∈ ws, Tame word) ∧
      ∀ last ∈ lacking, takesValue last = true ∧ last ≠ bytes "-o" := by
  obtain ⟨ws, complete, spelled⟩ := words_cases takesValue (cleaned args)
  have tame := admissible.tame free
  rcases spelled with spelled | ⟨last, taking, spelled⟩
  · have read : words takesValue (cleaned args) = ws := by rw [spelled, words_spell complete]
    rw [read] at tame
    exact ⟨ws, none, by simpa using spelled, by simpa using read, complete, tame, nofun⟩
  · have read : words takesValue (cleaned args) = ws ++ [⟨last, none⟩] := by
      rw [spelled, words_spell_append complete]
      rfl
    rw [read, List.forall_mem_append] at tame
    refine ⟨ws, some last, spelled, read, complete, tame.1, ?_⟩
    intro _ same
    obtain rfl := Option.some.inj same
    refine ⟨taking, ?_⟩
    rintro rfl
    -- An output without its path asks for a local run.
    have member : (⟨bytes "-o", none⟩ : Word GoString) ∈ words takesValue (cleaned args) := by
      simp [read]
    rw [← spots_word 0, List.mem_map] at member
    obtain ⟨spot, within, is⟩ := member
    obtain ⟨arg, next⟩ : spot.arg = bytes "-o" ∧ spot.next = none := by
      have arg := congrArg Word.head is
      have value := congrArg Word.value is
      simp only [Spot.word] at arg value
      rw [arg, if_pos taking] at value
      exact ⟨arg, value⟩
    have forces := free.free spot within
    unfold Spot.forcesLocal at forces
    rw [arg, kind_eq_output_iff.mpr rfl, next] at forces
    cases forces

/-! ### The output `Parse` makes up -/

variable {ws : List (Word GoString)} {input : GoString} {given : Option GoString} {act : ActionOpt}

theorem Names.isInput (names : Names ws input given act) : isInput input = true :=
  isInput_of_lastInput names.input

theorem Names.madeOutput (names : Names ws input none act)
    (acts : act = .compile ∨ act = .genAssembly) :
    madeOutput ws = some (replaceExtension input act.extension) := by
  rw [Cc.madeOutput, names.output, if_neg (by simp), names.action (bytes "-c") (by decide),
    names.action (bytes "-S") (by decide), names.input]
  rcases acts with rfl | rfl <;> rfl

theorem ext_replaceExtension (acts : act = .compile ∨ act = .genAssembly) (path : GoString) :
    ext (replaceExtension path act.extension) = act.extension := by
  rcases acts with rfl | rfl
  · exact ext_append_o _
  · exact ext_append_s _

theorem ext_made_ne_nil (acts : act = .compile ∨ act = .genAssembly) (path : GoString) :
    ext (replaceExtension path act.extension) ≠ [] := by
  rw [ext_replaceExtension acts]
  exact extension_ne_nil act

theorem not_takesValue_of_ext {a : GoString} (extended : ext a ≠ []) : takesValue a = false := by
  have table : ∀ a ∈ bytes "-x" :: bytes "-o" :: localArgsWithValues, ext a = [] := by decide
  rw [Bool.eq_false_iff]
  intro taking
  exact extended (table a (mem_of_takesValue taking))

theorem plain_output : Plain (bytes "-o") := ⟨by decide, by decide, by decide, by decide⟩

theorem Names.append_output (names : Names ws input none act) (path : GoString) :
    Names (ws ++ [⟨bytes "-o", some path⟩]) input (some path) act := by
  have noInput : Cc.isInput (bytes "-o") = false := not_isInput_of_takesValue takesValue_output
  have isOutput : kind (bytes "-o") = .output := kind_eq_output_iff.mpr rfl
  have noAction : ∀ option ∈ actionOptions, bytes "-o" ≠ option := fun _ =>
    not_action_of_takesValue takesValue_output
  refine ⟨?_, ?_, fun option is => ?_⟩
  · rw [← names.input]
    simp [lastInput, noInput]
  · simp [lastOutput, isOutput]
  · rw [← names.action option is]
    simp [hasOption, noAction option is]

theorem settled_append (plain : ∀ a ∈ spell ws, Plain a)
    (complete : ∀ word ∈ ws, Complete takesValue word) (tame : ∀ word ∈ ws, Tame word)
    (names : Names ws input none act) (acts : act = .compile ∨ act = .genAssembly) :
    Settled (spell ws ++ [bytes "-o", replaceExtension input act.extension]) input
      (replaceExtension input act.extension) act := by
  obtain ⟨made, kept⟩ := plain_replaceExtension names.isInput acts
  refine ⟨?_, ws ++ [⟨bytes "-o", some (replaceExtension input act.extension)⟩], none, by simp, ?_,
    ?_, nofun, names.append_output _⟩
  · refine List.forall_mem_append.mpr ⟨plain, List.forall_mem_cons.mpr ⟨?_, by simpa using made⟩⟩
    exact plain_output
  · refine List.forall_mem_append.mpr ⟨complete, List.forall_mem_singleton.mpr ?_⟩
    exact takesValue_output.symm
  · refine List.forall_mem_append.mpr ⟨tame, List.forall_mem_singleton.mpr ?_⟩
    rintro - value is
    exact Option.some.inj is ▸ kept

theorem parse_appends {ap : ArgParser} (plain : ∀ a ∈ ap.args, Plain a)
    (names : Names (words takesValue ap.args) input none act)
    (acts : act = .compile ∨ act = .genAssembly) :
    ∃ result, ap.parse = some result ∧
      Found result (ap.args ++ [bytes "-o", replaceExtension input act.extension]) input
        (replaceExtension input act.extension) act := by
  obtain ⟨result, parsed, reports⟩ := parse_reports ap fun a member => (plain a member).nonempty
  rw [cleaned_eq_self plain] at reports
  have made := names.madeOutput acts
  have hasOutput : (lastOutput (words takesValue ap.args)).or (madeOutput (words takesValue ap.args)) =
      some (replaceExtension input act.extension) := by rw [names.output, made, Option.none_or]
  have argsEq : result.args = ap.args ++ [bytes "-o", replaceExtension input act.extension] := by
    rw [reports.args_eq, made, Option.map_some, Option.getD_some]
  exact ⟨result, parsed, argsEq ▸ reports.found names.input hasOutput names.action⟩

/-! ### Agreement -/

/-- **The agent finds what the consumerd found**: the request is sent, and the agent's `Parse` of the
arguments sent finds the input path, the output path and the action of the consumerd's first. -/
def Agrees (tc : Toolchain) (first : ArgParser) : Prop :=
  ∃ sent agent, first.process tc = some (.ok sent) ∧
    (newArgParser sent.args).parse = some agent ∧
    (∃ input, first.inputPath = some input ∧ agent.inputPath = some input) ∧
    (∃ output, first.outputPath = some output ∧ agent.outputPath = some output) ∧
    agent.actionOpt = first.actionOpt

/-- The command assembles, names no output, ends in an option that lacks its value, and its input is
neither `-` nor an assembler file. -/
structure SwallowsOutput (args : List GoString) : Prop where
  assembles : hasOption (bytes "-S") (words takesValue (cleaned args)) = true
  noOutput : lastOutput (words takesValue (cleaned args)) = none
  lacks : ∃ last, takesValue last = true ∧
    (words takesValue (cleaned args)).getLast? = some ⟨last, none⟩
  input : ∃ file, lastInput (words takesValue (cleaned args)) = some file ∧ file ≠ bytes "-" ∧
    ext file ≠ bytes ".s"

theorem hasOption_of_action (is : action ws = act) (acts : act ≠ .none) :
    act.text ∈ actionOptions ∧ hasOption act.text ws = true := by
  unfold action at is
  split_ifs at is with compiles assembles preprocesses <;> subst is
  · exact ⟨by decide, compiles⟩
  · exact ⟨by decide, assembles⟩
  · exact ⟨by decide, preprocesses⟩
  · exact absurd rfl acts

theorem Admissible.hasOption_eq (admissible : Admissible args)
    (is : action (words takesValue (cleaned args)) = act) (acts : act ≠ .none) :
    ∀ option ∈ actionOptions,
      hasOption option (words takesValue (cleaned args)) = decide (option = act.text) := by
  obtain ⟨own, has⟩ := hasOption_of_action is acts
  intro option member
  by_cases same : option = act.text
  · rw [decide_eq_true same, same, has]
  · rw [decide_eq_false same, Bool.eq_false_iff]
    exact fun hasOther => same (admissible.action_unique member own hasOther has)

theorem isInput_replaceExtension (is : isInput input = true)
    (acts : act = .compile ∨ act = .genAssembly) :
    isInput (replaceExtension input act.extension) = true ↔
      act = .genAssembly ∧ input ≠ bytes "-" := by
  have extension := ext_replaceExtension acts input
  rcases acts with rfl | rfl
  · refine iff_of_false (fun isInput => ?_) (by simp)
    rw [Cc.isInput, Bool.and_eq_true, Bool.or_eq_true, decide_eq_true_eq (p := _ = bytes "-"),
      isSourceFile, extension] at isInput
    rcases isInput.2 with source | dash
    · exact absurd source (by decide)
    · rw [dash] at extension
      exact absurd extension (by decide)
  · by_cases dash : input = bytes "-"
    · subst dash
      decide
    · refine iff_of_true ?_ ⟨rfl, dash⟩
      have dashless := head_replaceExtension (head_of_isInput is dash)
        (show ActionOpt.genAssembly.extension.head? = some (byte '.') from rfl)
      rw [isInput, Bool.and_eq_true, Bool.or_eq_true, decide_eq_true_eq, kind,
        if_neg fun option => dashless option.1]
      refine ⟨rfl, .inl ?_⟩
      rw [isSourceFile, extension]
      decide

/-- The words when the appended output is swallowed: `last` takes the `-o`, and the path is left. -/
theorem names_swallowed (names : Names ws input none act) {last : GoString}
    (taking : takesValue last = true) (notOutput : last ≠ bytes "-o")
    (acts : act = .compile ∨ act = .genAssembly) :
    Names (ws ++ [⟨last, some (bytes "-o")⟩, ⟨replaceExtension input act.extension, none⟩])
      (if act = .genAssembly ∧ input ≠ bytes "-" then replaceExtension input act.extension else input)
      none act := by
  have extended := ext_made_ne_nil acts input
  have single := not_takesValue_of_ext extended
  have noAction : replaceExtension input act.extension ∉ actionOptions := by
    have table : ∀ option ∈ actionOptions, ext option = [] := by decide
    exact fun member => extended (table _ member)
  have noOutput : kind (replaceExtension input act.extension) ≠ .output := fun is => by
    rw [kind_eq_output_iff.mp is, takesValue_output] at single
    cases single
  refine (names_insert (not_isInput_of_takesValue taking) ?_ ?_).mpr ?_
  · exact fun is => absurd (kind_eq_output_iff.mp is) notOutput
  · exact fun action => not_action_of_takesValue taking action rfl
  · by_cases isInput : Cc.isInput (replaceExtension input act.extension) = true
    · rw [if_pos ((isInput_replaceExtension names.isInput acts).mp isInput)]
      refine ⟨by simp [lastInput, isInput], ?_, fun option is => ?_⟩
      · rw [← names.output]
        simp [lastOutput, noOutput]
      · have differs : replaceExtension input act.extension ≠ option := fun same =>
          noAction (same ▸ is)
        rw [← names.action option is]
        simp [hasOption, differs]
    · rw [if_neg fun is => isInput ((isInput_replaceExtension names.isInput acts).mpr is)]
      refine (names_insert (Bool.eq_false_iff.mpr isInput) (fun _ => rfl) noAction).mpr ?_
      rwa [List.append_nil]

theorem process_swallowed {ap : ArgParser} {last : GoString}
    (argsEq : ap.args =
      spell ws ++ [last] ++ [bytes "-o", replaceExtension input act.extension])
    (plain : ∀ a ∈ spell ws ++ [last], Plain a)
    (complete : ∀ word ∈ ws, Complete takesValue word) (tame : ∀ word ∈ ws, Tame word)
    (names : Names ws input none act) (taking : takesValue last = true)
    (notOutput : last ≠ bytes "-o") (acts : act = .compile ∨ act = .genAssembly) (tc : Toolchain) :
    ∃ sent agent, ap.process tc = some (.ok sent) ∧
      (newArgParser sent.args).parse = some agent ∧
      agent.inputPath = some (if act = .genAssembly ∧ input ≠ bytes "-" then
        replaceExtension input act.extension else input) ∧
      agent.outputPath = some (replaceExtension input act.extension) ∧ agent.actionOpt = act := by
  have swallowed := names_swallowed names taking notOutput acts
  have made := plain_replaceExtension names.isInput acts
  have extension := ext_replaceExtension acts input
  have single := not_takesValue_of_ext (ext_made_ne_nil acts input)
  set path := replaceExtension input act.extension
  set input' := if act = .genAssembly ∧ input ≠ bytes "-" then path else input
  have samePath : replaceExtension input' act.extension = path := by
    by_cases same : act = .genAssembly ∧ input ≠ bytes "-"
    · rw [show input' = path from if_pos same, replaceExtension_eq_self_iff, extension]
    · rw [show input' = input from if_neg same]
  have spelled : ap.args = spell (ws ++ [⟨last, some (bytes "-o")⟩, ⟨path, none⟩]) := by
    simp [argsEq]
  have plain : ∀ a ∈ ap.args, Plain a := by
    rw [argsEq]
    refine List.forall_mem_append.mpr ⟨plain, List.forall_mem_cons.mpr ⟨?_, by simpa using made.1⟩⟩
    exact plain_output
  have complete : ∀ word ∈ ws ++ [⟨last, some (bytes "-o")⟩, ⟨path, none⟩],
      Complete takesValue word := by
    refine List.forall_mem_append.mpr ⟨complete, List.forall_mem_cons.mpr ⟨taking.symm, ?_⟩⟩
    exact List.forall_mem_singleton.mpr single.symm
  have tame : ∀ word ∈ ws ++ [⟨last, some (bytes "-o")⟩, ⟨path, none⟩], Tame word := by
    refine List.forall_mem_append.mpr ⟨tame, List.forall_mem_cons.mpr ⟨?_, ?_⟩⟩
    · rintro - value is
      rw [← Option.some.inj is]
      exact removable_output
    · exact List.forall_mem_singleton.mpr fun _ value is => nomatch is
  have read : words takesValue ap.args = _ := spelled ▸ words_spell complete
  obtain ⟨configured, parsed, found⟩ := parse_appends plain (read ▸ swallowed) acts
  have settled := settled_append (spelled ▸ plain) complete tame swallowed acts
  rw [← spelled] at settled
  rw [samePath] at settled found
  exact process_of_configured ((configure_eq plain).trans parsed) found settled acts tc

theorem process_settled {ap : ArgParser} {output : GoString}
    (settled : Settled ap.args input output act) (acts : act = .compile ∨ act = .genAssembly)
    (tc : Toolchain) :
    ∃ sent agent, ap.process tc = some (.ok sent) ∧
      (newArgParser sent.args).parse = some agent ∧ agent.inputPath = some input ∧
      agent.outputPath = some output ∧ agent.actionOpt = act := by
  obtain ⟨configured, parsed, found⟩ := settled_parse settled ap rfl
  exact process_of_configured ((configure_eq settled.plain).trans parsed) found settled acts tc

theorem agrees_of_process {tc : Toolchain} {first : ArgParser} {output : GoString}
    (firstInput : first.inputPath = some input) (firstOutput : first.outputPath = some output)
    (processed : ∃ sent agent, first.process tc = some (.ok sent) ∧
      (newArgParser sent.args).parse = some agent ∧ agent.inputPath = some input ∧
      agent.outputPath = some output ∧ agent.actionOpt = first.actionOpt) : Agrees tc first := by
  obtain ⟨sent, agent, sends, parsed, agentInput, agentOutput, agentAction⟩ := processed
  exact ⟨sent, agent, sends, parsed, ⟨input, firstInput, agentInput⟩,
    ⟨output, firstOutput, agentOutput⟩, agentAction⟩

/-- **A remote command after the first `Parse`**: its words, the option that lacks its value at the
end, and what the words name. -/
structure Command (args : List GoString) (first : ArgParser) (ws : List (Word GoString))
    (lacking : Option GoString) (input : GoString) (given : Option GoString) : Prop where
  reports : Reports (cleaned args) first
  acts : first.actionOpt = .compile ∨ first.actionOpt = .genAssembly
  plain : ∀ a ∈ cleaned args, Plain a
  spelled : cleaned args = spell ws ++ lacking.toList
  read : words takesValue (cleaned args) = ws ++ lacking.toList.map (⟨·, none⟩)
  complete : ∀ word ∈ ws, Complete takesValue word
  tame : ∀ word ∈ ws, Tame word
  lacks : ∀ last ∈ lacking, takesValue last = true ∧ last ≠ bytes "-o"
  names : Names ws input given first.actionOpt

theorem Admissible.exists_command (admissible : Admissible args) {first : ArgParser}
    (parsed : (newArgParser args).parse = some first) (remote : first.canRunRemote = true)
    (acts : first.actionOpt = .compile ∨ first.actionOpt = .genAssembly) :
    ∃ ws lacking input given, Command args first ws lacking input given := by
  obtain ⟨result, again, reports⟩ := parse_reports (newArgParser args) admissible.nonempty
  obtain rfl := Option.some.inj (parsed.symm.trans again)
  obtain ⟨free, input, hasInput, -⟩ := (canRunRemote_iff admissible.nonempty parsed).mp remote
  have names : Names (words takesValue (cleaned args)) input _ first.actionOpt :=
    ⟨hasInput, rfl, admissible.hasOption_eq reports.action.symm
      (by rcases acts with is | is <;> rw [is] <;> decide)⟩
  obtain ⟨ws, lacking, spelled, read, complete, tame, lacks⟩ := admissible.exists_words free
  rw [read, names_lacking fun last is => (lacks last is).1] at names
  exact ⟨ws, lacking, input, _, reports, acts, admissible.cleaned_plain, spelled, read, complete, tame,
    lacks, names⟩

section Cases

variable {first : ArgParser} {lacking : Option GoString}

theorem Command.namesAll (command : Command args first ws lacking input given) :
    Names (words takesValue (cleaned args)) input given first.actionOpt := by
  rw [command.read]
  exact (names_lacking fun last is => (command.lacks last is).1).mpr command.names

theorem Command.firstInput (command : Command args first ws lacking input given) :
    first.inputPath = some input := command.reports.input.trans command.namesAll.input

theorem Command.agrees_of_given {output : GoString}
    (command : Command args first ws lacking input (some output)) (tc : Toolchain) :
    Agrees tc first := by
  have given := command.namesAll.output
  have unmade : madeOutput (words takesValue (cleaned args)) = none := by
    rw [madeOutput, given, if_pos (by simp)]
  have argsEq : first.args = cleaned args := by
    rw [command.reports.args_eq, unmade, Option.map_none, Option.getD_none, List.append_nil]
  have settled : Settled first.args input output first.actionOpt := by
    rw [argsEq]
    exact ⟨command.plain, ws, lacking, command.spelled, command.complete, command.tame,
      fun last is => (command.lacks last is).1, command.names⟩
  refine agrees_of_process command.firstInput ?_ (process_settled settled command.acts tc)
  rw [command.reports.output, given, Option.some_or]

theorem Command.made (command : Command args first ws lacking input none) :
    first.args = cleaned args ++ [bytes "-o", replaceExtension input first.actionOpt.extension] ∧
      first.outputPath = some (replaceExtension input first.actionOpt.extension) := by
  have made := command.namesAll.madeOutput command.acts
  rw [command.reports.args_eq, command.reports.output, made, command.namesAll.output]
  exact ⟨rfl, rfl⟩

theorem Command.agrees_of_complete (command : Command args first ws none input none)
    (tc : Toolchain) : Agrees tc first := by
  obtain ⟨argsEq, firstOutput⟩ := command.made
  have spelled : cleaned args = spell ws := by
    rw [command.spelled, Option.toList_none, List.append_nil]
  have settled := settled_append (spelled ▸ command.plain) command.complete command.tame command.names
    command.acts
  rw [← spelled, ← argsEq] at settled
  exact agrees_of_process command.firstInput firstOutput (process_settled settled command.acts tc)

theorem Command.agrees_iff_of_lacking {last : GoString}
    (command : Command args first ws (some last) input none) (tc : Toolchain) :
    Agrees tc first ↔ ¬ (first.actionOpt = .genAssembly ∧ input ≠ bytes "-" ∧
      ext input ≠ bytes ".s") := by
  obtain ⟨argsEq, firstOutput⟩ := command.made
  obtain ⟨taking, notOutput⟩ := command.lacks last rfl
  have spelled : cleaned args = spell ws ++ [last] := command.spelled
  have processed := process_swallowed (spelled ▸ argsEq) (spelled ▸ command.plain) command.complete
    command.tame command.names taking notOutput command.acts tc
  constructor
  · rintro ⟨sent', agent', sends', parsed', ⟨found, firstInput, agentInput'⟩, -⟩
      ⟨assembles, notDash, notAssembler⟩
    obtain ⟨sent, agent, sends, parsed, agentInput, -⟩ := processed
    obtain rfl : sent = sent' := by simpa using sends.symm.trans sends'
    obtain rfl := Option.some.inj (parsed.symm.trans parsed')
    rw [if_pos ⟨assembles, notDash⟩, agentInput', ← firstInput, command.firstInput, assembles]
      at agentInput
    exact notAssembler ((replaceExtension_eq_self_iff _ _).mp (Option.some.inj agentInput).symm)
  · intro spared
    refine agrees_of_process command.firstInput firstOutput ?_
    have same : (if first.actionOpt = .genAssembly ∧ input ≠ bytes "-" then
        replaceExtension input first.actionOpt.extension else input) = input := by
      split
      · rename_i assembles
        rw [replaceExtension_eq_self_iff, assembles.1]
        by_contra notAssembler
        exact spared ⟨assembles.1, assembles.2, notAssembler⟩
      · rfl
    rwa [same] at processed

end Cases

/-- **The agent finds what the consumerd found, unless the appended output is swallowed.** -/
theorem agent_agrees_iff (tc : Toolchain) (args : List GoString) (admissible : Admissible args)
    (first : ArgParser) (parsed : (newArgParser args).parse = some first)
    (remote : first.canRunRemote = true)
    (acts : first.actionOpt = .compile ∨ first.actionOpt = .genAssembly) :
    Agrees tc first ↔ ¬ SwallowsOutput args := by
  obtain ⟨ws, lacking, input, given, command⟩ := admissible.exists_command parsed remote acts
  have names := command.namesAll
  cases given with
  | some output =>
    refine iff_of_true (command.agrees_of_given tc) fun swallows => ?_
    cases names.output.symm.trans swallows.noOutput
  | none =>
    cases lacking with
    | none =>
      refine iff_of_true (command.agrees_of_complete tc) fun swallows => ?_
      obtain ⟨last, taking, isLast⟩ := swallows.lacks
      have read : words takesValue (cleaned args) = ws := by simpa using command.read
      rw [read] at isLast
      have full : (none : Option GoString).isSome = takesValue last :=
        command.complete _ (List.mem_of_getLast? isLast)
      rw [taking] at full
      cases full
    | some last =>
      rw [command.agrees_iff_of_lacking tc, not_iff_not]
      have lacks : ∃ last, takesValue last = true ∧
          (words takesValue (cleaned args)).getLast? = some ⟨last, none⟩ := by
        refine ⟨last, (command.lacks last rfl).1, ?_⟩
        rw [command.read]
        simp
      have assembles : hasOption (bytes "-S") (words takesValue (cleaned args)) = true ↔
          first.actionOpt = .genAssembly := by
        rw [names.action (bytes "-S") (by decide), decide_eq_true_iff]
        rcases acts with is | is <;> rw [is] <;> decide
      constructor
      · rintro ⟨isS, notDash, notAssembler⟩
        exact ⟨assembles.mpr isS, names.output, lacks, input, names.input, notDash, notAssembler⟩
      · rintro ⟨hasS, -, -, file, isFile, notDash, notAssembler⟩
        obtain rfl := Option.some.inj (names.input.symm.trans isFile)
        exact ⟨assembles.mp hasS, notDash, notAssembler⟩

def gcc : Toolchain :=
  ⟨1, 1, bytes "/usr/bin/gcc", bytes "x86_64-linux-gnu", bytes "11", true, true⟩

/-- `gcc -S foo.c -D`: the consumerd finds the input `foo.c`, the agent finds `foo.s`. -/
theorem swallowed_output_is_input :
    Admissible [bytes "-S", bytes "foo.c", bytes "-D"] ∧
    ∃ first, (newArgParser [bytes "-S", bytes "foo.c", bytes "-D"]).parse = some first ∧
      first.canRunRemote = true ∧ first.actionOpt = .genAssembly ∧
      first.inputPath = some (bytes "foo.c") ∧
      (∃ sent agent, first.process gcc = some (.ok sent) ∧
        (newArgParser sent.args).parse = some agent ∧ agent.inputPath = some (bytes "foo.s")) ∧
      ¬ Agrees gcc first := by
  refine ⟨⟨by decide, by decide, by decide, by decide, by decide⟩, ?_⟩
  have runs : ∃ first sent agent,
      (newArgParser [bytes "-S", bytes "foo.c", bytes "-D"]).parse = some first ∧
      (first.canRunRemote = true ∧ first.actionOpt = .genAssembly ∧
        first.inputPath = some (bytes "foo.c")) ∧
      first.process gcc = some (.ok sent) ∧ (newArgParser sent.args).parse = some agent ∧
      agent.inputPath = some (bytes "foo.s") := by
    refine ⟨_, _, _, rfl, ?_, rfl, rfl, ?_⟩ <;> decide
  obtain ⟨first, sent, agent, parsed, ⟨remote, assembles, input⟩, sends, agentParsed, other⟩ := runs
  refine ⟨first, parsed, remote, assembles, input, ⟨sent, agent, sends, agentParsed, other⟩, ?_⟩
  rintro ⟨sent', agent', sends', parsed', ⟨found, firstInput, agentInput⟩, -⟩
  obtain rfl : sent = sent' := by simpa using sends.symm.trans sends'
  obtain rfl := Option.some.inj (agentParsed.symm.trans parsed')
  have same : bytes "foo.c" = bytes "foo.s" := Option.some.inj
    ((input.symm.trans firstInput).trans (agentInput.symm.trans other))
  exact absurd same (by decide)

/-- `gcc -c foo.c`: both find the input `foo.c` and the output `foo.o`. -/
theorem agrees_compile : ∃ first, (newArgParser [bytes "-c", bytes "foo.c"]).parse = some first ∧
    Agrees gcc first :=
  ⟨_, rfl, (agent_agrees_iff gcc [bytes "-c", bytes "foo.c"]
    ⟨by decide, by decide, by decide, by decide, by decide⟩ _ rfl (by decide) (by decide)).mpr
      fun swallows => absurd swallows.assembles (by decide)⟩

end Kubecc.Cc
