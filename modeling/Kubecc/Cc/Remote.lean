/-
**When a command may run on an agent.**

`Parse` makes a command remote when nothing objects. The objections are of two kinds: an option that
asks for a local run whatever else is there (`Spot.forcesLocal`), and a second input or a second
object file.

* `foldl_mode` — when something objected during the loop.
* `canRunRemote_iff` — what has to hold for a command to be remote.
* `onlyCompileSteps_iff` — a remote command is a compile step with an input and an output, except
  when it is a link step whose output has an extension (`LinksRemotely`).
-/

import Kubecc.Cc.Parse

namespace Kubecc.Cc

open Kubecc.Go Kubecc.Lib

/-- The spot asks for a local run, whatever else is on the command line. -/
def Spot.forcesLocal (spot : Spot) : Bool :=
  match kind spot.arg with
  | .preprocess | .dependOther | .native | .specs | .profile | .repo | .dumpRtl => true
  | .assembler => contains spot.arg (bytes ",-a") || contains spot.arg (bytes "--MD")
  | .language => spot.next.any fun lang => !remoteLanguages.any (hasPrefix lang ·)
  | .output => spot.next.all fun path => ext path = []
  | _ => false

def Spot.isObject (spot : Spot) : Bool := spot.output.any fun pair => ext pair.2 = bytes ".o"

theorem visitSpot_mode (st : Scan) (spot : Spot) : (visitSpot st spot).mode =
    if spot.forcesLocal || spot.input.isSome && st.inputArg ≠ [] ||
      spot.isObject && st.outputArg ≠ [] then .runLocal else st.mode := by
  unfold visitSpot visit Spot.forcesLocal Spot.isObject Spot.input Spot.output isInput
  cases here : kind spot.arg
  case output =>
    cases next : spot.next with
    | none => rfl
    | some path =>
      by_cases object : ext path = bytes ".o"
      · have named : bytes ".o" ≠ [] := by decide
        simp [visitOutput, object, named]
      · simp [visitOutput, object]
  case file =>
    by_cases source : isSourceFile spot.arg || decide (spot.arg = bytes "-")
    · simp [visitFile, source]
    · simp [visitFile, source]
  all_goals simp [Scan.setFlag]

/-! ### The mode after the loop -/

def Spot.Nonempty (spot : Spot) : Prop := spot.arg ≠ [] ∧ ∀ path, spot.next = some path → path ≠ []

variable {args : List GoString} {seen : List Spot}

theorem nonempty_of_mem_spots (nonempty : ∀ a ∈ args, a ≠ []) {spot : Spot}
    (member : spot ∈ spots false 0 args) : spot.Nonempty := by
  obtain ⟨j, -, here, next⟩ := getElem?_of_mem_spots member
  refine ⟨nonempty _ (List.mem_of_getElem? here), fun path is => ?_⟩
  rw [is] at next
  exact nonempty _ (List.mem_of_getElem? next)

theorem getLast?_snd_ne_nil {found : List (ℕ × GoString)} (nonempty : ∀ pair ∈ found, pair.2 ≠ []) :
    (found.getLast?.map Prod.snd).getD [] ≠ [] ↔ found ≠ [] := by
  cases last : found.getLast? with
  | none => simpa using List.getLast?_eq_none_iff.mp last
  | some pair =>
    have member := List.mem_of_getLast? last
    exact iff_of_true (nonempty pair member) (List.ne_nil_of_mem member)

theorem input_nonempty (nonempty : ∀ spot ∈ seen, spot.Nonempty) :
    ∀ pair ∈ seen.filterMap Spot.input, pair.2 ≠ [] := by
  intro pair member
  obtain ⟨spot, within, is⟩ := List.mem_filterMap.mp member
  rw [Spot.input, Option.ite_none_right_eq_some] at is
  obtain rfl := Option.some.inj is.2
  exact (nonempty spot within).1

theorem output_nonempty (nonempty : ∀ spot ∈ seen, spot.Nonempty) :
    ∀ pair ∈ seen.filterMap Spot.output, pair.2 ≠ [] := by
  intro pair member
  obtain ⟨spot, within, is⟩ := List.mem_filterMap.mp member
  rw [Spot.output, Option.ite_none_right_eq_some, Option.map_eq_some_iff] at is
  obtain ⟨-, path, given, rfl⟩ := is
  exact (nonempty spot within).2 path given

theorem foldl_inputArg (seen : List Spot) (mode : RunMode) :
    (seen.foldl visitSpot (scanStart mode)).inputArg =
      ((seen.filterMap Spot.input).getLast?.map Prod.snd).getD [] := by
  have last := foldl_field (fun st : Scan => (st.inputArgIndex, st.inputArg)) _ visitSpot_input seen
    (scanStart mode)
  rw [← List.map_filterMap, List.getLast?_map] at last
  have arg := congrArg Prod.snd last
  rw [show (seen.foldl visitSpot (scanStart mode)).inputArg = _ from arg]
  cases (seen.filterMap Spot.input).getLast? <;> rfl

theorem foldl_outputArg (seen : List Spot) (mode : RunMode) :
    (seen.foldl visitSpot (scanStart mode)).outputArg =
      ((seen.filterMap Spot.output).getLast?.map Prod.snd).getD [] := by
  have last := foldl_field (fun st : Scan => (st.outputArgIndex, st.outputArg)) _ visitSpot_output
    seen (scanStart mode)
  rw [← List.map_filterMap, List.getLast?_map] at last
  have arg := congrArg Prod.snd last
  rw [show (seen.foldl visitSpot (scanStart mode)).outputArg = _ from arg]
  cases (seen.filterMap Spot.output).getLast? <;> rfl

structure Unopposed (seen : List Spot) : Prop where
  free : ∀ spot ∈ seen, spot.forcesLocal = false
  oneInput : (seen.filterMap Spot.input).length ≤ 1
  oneObject : ∀ pair ∈ (seen.filterMap Spot.output).tail, ext pair.2 ≠ bytes ".o"

theorem length_append_toList_le_one {α : Type} (found : List α) (more : Option α) :
    (found ++ more.toList).length ≤ 1 ↔ found.length ≤ 1 ∧ (more.isSome = true → found = []) := by
  rw [List.length_append, ← List.length_eq_zero_iff]
  cases more with
  | none => simp
  | some value =>
    simp only [Option.toList_some, List.length_singleton, Option.isSome_some, forall_const]
    omega

theorem forall_mem_tail_append {α : Type} (good : α → Prop) (found : List α) (more : Option α) :
    (∀ item ∈ (found ++ more.toList).tail, good item) ↔
      (∀ item ∈ found.tail, good item) ∧ ∀ item ∈ more, found ≠ [] → good item := by
  cases more with
  | none => simp
  | some value =>
    cases found with
    | nil => simp
    | cons first found => simp [or_imp, forall_and]

theorem unopposed_append_singleton {spot : Spot} :
    Unopposed (seen ++ [spot]) ↔ Unopposed seen ∧ spot.forcesLocal = false ∧
      (spot.input.isSome = true → seen.filterMap Spot.input = []) ∧
      (spot.isObject = true → seen.filterMap Spot.output = []) := by
  have object : (∀ pair ∈ spot.output, seen.filterMap Spot.output ≠ [] → ext pair.2 ≠ bytes ".o") ↔
      (spot.isObject = true → seen.filterMap Spot.output = []) := by
    unfold Spot.isObject
    cases spot.output with
    | none => simp
    | some pair =>
      simp only [Option.mem_some_iff, forall_eq', Option.any_some, decide_eq_true_eq]
      exact not_imp_not
  have single (f : Spot → Option (ℕ × GoString)) : [spot].filterMap f = (f spot).toList := by
    cases is : f spot <;> simp [is]
  constructor
  · rintro ⟨free, oneInput, oneObject⟩
    rw [List.forall_mem_append, List.forall_mem_singleton] at free
    rw [List.filterMap_append, single, length_append_toList_le_one] at oneInput
    rw [List.filterMap_append, single, forall_mem_tail_append] at oneObject
    exact ⟨⟨free.1, oneInput.1, oneObject.1⟩, free.2, oneInput.2, object.mp oneObject.2⟩
  · rintro ⟨⟨free, oneInput, oneObject⟩, here, noInput, noOutput⟩
    refine ⟨?_, ?_, ?_⟩
    · exact List.forall_mem_append.mpr ⟨free, List.forall_mem_singleton.mpr here⟩
    · rw [List.filterMap_append, single, length_append_toList_le_one]
      exact ⟨oneInput, noInput⟩
    · rw [List.filterMap_append, single, forall_mem_tail_append]
      exact ⟨oneObject, object.mpr noOutput⟩

theorem foldl_mode (nonempty : ∀ spot ∈ seen, spot.Nonempty) :
    (seen.foldl visitSpot (scanStart .unset)).mode = .unset ∧ Unopposed seen ∨
      (seen.foldl visitSpot (scanStart .unset)).mode = .runLocal ∧ ¬ Unopposed seen := by
  induction seen using List.reverseRecOn with
  | nil => exact .inl ⟨rfl, by simp, by simp, by simp⟩
  | append_singleton seen spot ih =>
    rw [List.forall_mem_append, List.forall_mem_singleton] at nonempty
    have before := ih nonempty.1
    rw [List.foldl_append, List.foldl_cons, List.foldl_nil, visitSpot_mode, foldl_inputArg,
      foldl_outputArg, unopposed_append_singleton]
    have inputs := getLast?_snd_ne_nil (input_nonempty nonempty.1)
    have outputs := getLast?_snd_ne_nil (output_nonempty nonempty.1)
    simp only [inputs, outputs]
    cases spot.forcesLocal <;> cases spot.input.isSome <;> cases spot.isObject <;> simp <;> grind

/-! ### What is remote -/

theorem Unopposed.not_preprocess (free : Unopposed (spots false 0 args)) :
    hasOption (bytes "-E") (words takesValue args) = false := by
  rw [← any_spots_kind kind_eq_preprocess_iff, List.any_eq_false]
  intro spot member preprocesses
  have forces := free.free spot member
  unfold Spot.forcesLocal at forces
  rw [of_decide_eq_true preprocesses] at forces
  cases forces

/-- **When a fresh parser makes a command remote**: nothing objects, there is an input that is not a
special case, and the command compiles, assembles, or names its output. -/
theorem finalMode_eq_runRemote_iff (nonempty : ∀ a ∈ args, a ≠ []) :
    finalMode (scan .unset args) = .runRemote ↔ Unopposed (spots false 0 args) ∧
      ∃ input, lastInput (words takesValue args) = some input ∧ shouldRunLocal input = false ∧
        (hasOption (bytes "-c") (words takesValue args) = true ∨
          hasOption (bytes "-S") (words takesValue args) = true ∨
          (lastOutput (words takesValue args)).isSome = true) := by
  obtain ⟨inputAt, input⟩ := scan_input .unset args
  obtain ⟨outputAt, output⟩ := scan_output .unset args
  have noInput := inputAt.getD_eq_nil_iff nonempty
  have noOutput := outputAt.getD_eq_nil_iff nonempty
  have mode := foldl_mode fun spot => nonempty_of_mem_spots nonempty
  unfold finalMode
  rw [input, output, scan_seenOptC, scan_seenOptS, scan_seenOptE]
  rcases mode with ⟨unset, free⟩ | ⟨isLocal, opposed⟩
  · rw [show (scan .unset args).mode = .unset from unset, free.not_preprocess]
    cases found : lastInput (words takesValue args) with
    | none =>
      rw [found] at inputAt
      cases index : (scan .unset args).inputArgIndex with
      | none => simp
      | some i => rw [index] at inputAt; exact inputAt.elim
    | some path =>
      rw [found] at inputAt noInput
      cases index : (scan .unset args).inputArgIndex with
      | none => rw [index] at inputAt; exact inputAt.elim
      | some i =>
        have named : path ≠ [] := fun empty => by simpa using noInput.mp empty
        simp only [Option.getD_some, noOutput]
        rcases Bool.eq_false_or_eq_true (shouldRunLocal path) with special | ordinary
        · simp [special]
        · cases hasOption (bytes "-c") (words takesValue args) <;>
            cases hasOption (bytes "-S") (words takesValue args) <;>
            cases lastOutput (words takesValue args) <;> simp [free, named, ordinary]
  · rw [show (scan .unset args).mode = .runLocal from isLocal]
    simp [opposed]

theorem canRunRemote_iff (nonempty : ∀ a ∈ args, a ≠ [])
    {result : ArgParser} (parsed : (newArgParser args).parse = some result) :
    result.canRunRemote = true ↔ Unopposed (spots false 0 (cleaned args)) ∧
      ∃ input, lastInput (words takesValue (cleaned args)) = some input ∧
        shouldRunLocal input = false ∧
        (hasOption (bytes "-c") (words takesValue (cleaned args)) = true ∨
          hasOption (bytes "-S") (words takesValue (cleaned args)) = true ∨
          (lastOutput (words takesValue (cleaned args))).isSome = true) := by
  rw [← finalMode_eq_runRemote_iff (cleaned_nonempty nonempty)]
  obtain rfl := Option.some.inj (parsed.symm.trans (parse_eq (newArgParser args) nonempty))
  exact decide_eq_true_iff

/-! ### Only compile steps -/

/-- **Only compile steps go remote**: if a fresh parser makes the command remote, its action is to
compile or to assemble, and the indices of its input and its output stand in its argument list. -/
def OnlyCompileSteps (args : List GoString) : Prop :=
  ∃ result, (newArgParser args).parse = some result ∧ (result.canRunRemote = true →
    (result.actionOpt = .compile ∨ result.actionOpt = .genAssembly) ∧
      (∃ i, result.inputArgIndex = some i ∧ i < result.args.length) ∧
      ∃ i, result.outputArgIndex = some i ∧ i < result.args.length)

/-- The command has neither `-c` nor `-S`, and still nothing makes it local: it has one ordinary
input, its outputs have an extension and none after the first is an object file, and no option asks
for a local run. -/
structure LinksRemotely (args : List GoString) : Prop where
  links : ∀ spot ∈ spots false 0 (cleaned args),
    kind spot.arg ≠ .compile ∧ kind spot.arg ≠ .genAssembly
  free : ∀ spot ∈ spots false 0 (cleaned args), spot.forcesLocal = false
  input : ∃ file, (spots false 0 (cleaned args)).filterMap Spot.input = [file] ∧
    shouldRunLocal file.2 = false
  output : ∃ first more, (spots false 0 (cleaned args)).filterMap Spot.output = first :: more ∧
    ∀ file ∈ more, ext file.2 ≠ bytes ".o"

theorem exists_index_of_path {index : Option ℕ} {path : GoString}
    (located : index.bind (args[·]?) = some path) : ∃ i, index = some i ∧ i < args.length := by
  obtain ⟨i, is, here⟩ := Option.bind_eq_some_iff.mp located
  exact ⟨i, is, (List.getElem?_eq_some_iff.mp here).1⟩

theorem linksRemotely_iff (args : List GoString) : LinksRemotely args ↔
    (Unopposed (spots false 0 (cleaned args)) ∧
      ∃ input, lastInput (words takesValue (cleaned args)) = some input ∧
        shouldRunLocal input = false ∧
          (lastOutput (words takesValue (cleaned args))).isSome = true) ∧
      hasOption (bytes "-c") (words takesValue (cleaned args)) = false ∧
      hasOption (bytes "-S") (words takesValue (cleaned args)) = false := by
  have lastInput : lastInput (words takesValue (cleaned args)) = _ := last_word input_word _
  have lastOutput : lastOutput (words takesValue (cleaned args)) = _ := last_word output_word _
  rw [lastInput, lastOutput, ← any_spots_kind kind_eq_compile_iff,
    ← any_spots_kind kind_eq_genAssembly_iff, List.any_eq_false, List.any_eq_false]
  simp only [decide_eq_true_eq]
  constructor
  · rintro ⟨links, free, ⟨file, oneInput, ordinary⟩, first, more, outputs, objects⟩
    refine ⟨⟨⟨free, ?_, ?_⟩, file.2, ?_, ordinary, ?_⟩, fun spot member => (links spot member).1,
      fun spot member => (links spot member).2⟩
    · rw [oneInput, List.length_singleton]
    · rw [outputs]
      exact objects
    · rw [oneInput]
      rfl
    · rw [outputs, List.getLast?_cons]
      rfl
  · rintro ⟨⟨⟨free, oneInput, oneObject⟩, input, found, ordinary, given⟩, notC, notS⟩
    refine ⟨fun spot member => ⟨notC spot member, notS spot member⟩, free, ?_, ?_⟩
    · cases inputs : (spots false 0 (cleaned args)).filterMap Spot.input with
      | nil =>
        rw [inputs] at found
        cases found
      | cons file rest =>
        rw [inputs] at found oneInput
        obtain rfl : rest = [] := List.eq_nil_of_length_eq_zero (by simpa using oneInput)
        obtain rfl := Option.some.inj found
        exact ⟨file, rfl, ordinary⟩
    · cases outputs : (spots false 0 (cleaned args)).filterMap Spot.output with
      | nil =>
        rw [outputs] at given
        cases given
      | cons first more =>
        rw [outputs] at oneObject
        exact ⟨first, more, rfl, oneObject⟩

theorem madeOutput_of_compiles {ws : List (Word GoString)}
    (compiles : hasOption (bytes "-c") ws = true ∨ hasOption (bytes "-S") ws = true) :
    ∃ path, (lastOutput ws).or (madeOutput ws) = some path := by
  unfold madeOutput
  cases lastOutput ws with
  | some path => exact ⟨path, rfl⟩
  | none =>
    cases assembles : hasOption (bytes "-S") ws with
    | true => exact ⟨_, rfl⟩
    | false =>
      rw [assembles] at compiles
      rw [compiles.resolve_right (by simp)]
      exact ⟨_, rfl⟩

/-- **A remote command is a compile step with an input and an output, unless it is a link step whose
output has an extension.** -/
theorem onlyCompileSteps_iff (args : List GoString) (nonempty : ∀ a ∈ args, a ≠ []) :
    OnlyCompileSteps args ↔ ¬ LinksRemotely args := by
  obtain ⟨result, parsed, reports⟩ := parse_reports (newArgParser args) nonempty
  replace reports : Reports (cleaned args) result := reports
  have remote := canRunRemote_iff nonempty parsed
  rw [linksRemotely_iff]
  constructor
  · rintro ⟨result', parsed', steps⟩ ⟨⟨free, input, found, ordinary, given⟩, notC, notS⟩
    obtain rfl := Option.some.inj (parsed.symm.trans parsed')
    obtain ⟨acts, -⟩ := steps (remote.mpr ⟨free, input, found, ordinary, .inr (.inr given)⟩)
    rw [reports.action] at acts
    unfold action at acts
    rw [notC, notS, free.not_preprocess] at acts
    simp at acts
  · intro notLink
    refine ⟨result, parsed, fun canRun => ?_⟩
    obtain ⟨free, input, found, ordinary, acts⟩ := remote.mp canRun
    have compiles : hasOption (bytes "-c") (words takesValue (cleaned args)) = true ∨
        hasOption (bytes "-S") (words takesValue (cleaned args)) = true := by
      by_contra neither
      rw [not_or, Bool.not_eq_true, Bool.not_eq_true] at neither
      have given := (acts.resolve_left (by simp [neither.1])).resolve_left (by simp [neither.2])
      exact notLink ⟨⟨free, input, found, ordinary, given⟩, neither⟩
    obtain ⟨output, made⟩ := madeOutput_of_compiles compiles
    refine ⟨?_, exists_index_of_path (reports.input.trans found),
      exists_index_of_path (reports.output.trans made)⟩
    rw [reports.action]
    unfold action
    rcases compiles with compiles | assembles
    · exact .inl (if_pos compiles)
    · by_cases compiles : hasOption (bytes "-c") (words takesValue (cleaned args)) = true
      · exact .inl (if_pos compiles)
      · exact .inr (by rw [if_neg compiles, if_pos assembles])

/-- `gcc main.c -o main.so` is sent to an agent, which runs the linker. -/
theorem links_shared_library :
    (∃ result, (newArgParser [bytes "main.c", bytes "-o", bytes "main.so"]).parse = some result ∧
      result.canRunRemote = true ∧ result.actionOpt = .none) ∧
    ¬ OnlyCompileSteps [bytes "main.c", bytes "-o", bytes "main.so"] := by
  have remote : ∃ result,
      (newArgParser [bytes "main.c", bytes "-o", bytes "main.so"]).parse = some result ∧
        result.canRunRemote = true ∧ result.actionOpt = .none := by
    refine ⟨_, rfl, ?_, ?_⟩ <;> decide
  refine ⟨remote, ?_⟩
  rintro ⟨result, parsed, steps⟩
  obtain ⟨_, parsed', canRun, acts⟩ := remote
  obtain rfl := Option.some.inj (parsed.symm.trans parsed')
  rw [acts] at steps
  simpa using (steps canRun).1

theorem onlyCompileSteps_compile : OnlyCompileSteps [bytes "-c", bytes "main.c"] :=
  (onlyCompileSteps_iff _ (by decide)).mpr fun links =>
    (links.links ⟨0, bytes "-c", some (bytes "main.c")⟩ (by decide)).1 (by decide)

end Kubecc.Cc
