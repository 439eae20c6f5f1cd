/-
**The output path.**

The compiler writes to the path of its output option, written apart (`-o PATH`) or joined (`-oPATH`), and
without one into the working directory, under the base name of its input. `Parse` splits a joined path
only if it is absolute, and makes up a path next to the input.

* `compilerOutput` — the path the compiler writes to.
* `outputRight_iff` — `Parse` finds it, and leaves one output option, exactly if a joined path is
  absolute, the input of a list without output has no directory, and the arguments that
  `stripUnsupportedArgs` drops were not the values of options on which this depends.
-/

import Kubecc.Cc.Pipeline

namespace Kubecc.Cc

open Kubecc.Go Kubecc.Lib

/-! ### What the compiler does -/

/-- The argument is spelled like an output option. -/
def isOutputOption (a : GoString) : Bool := hasPrefix a (bytes "-o")

/-- The path an output option names: the argument after it, or what is joined to it. -/
def namedPath (word : Word GoString) : GoString :=
  if word.head = bytes "-o" then word.value.getD [] else word.head.drop 2

def stem (path : GoString) : GoString := path.take (path.length - (ext path).length)

/-- **The path the compiler writes to** when it compiles or assembles `file`. -/
def compilerOutput (args : List GoString) (file : GoString) : GoString :=
  match (words takesValue args).find? (isOutputOption ·.head) with
  | some word => namedPath word
  | none => stem (base file) ++
      if hasOption (bytes "-S") (words takesValue args) then bytes ".s" else bytes ".o"

/-- A list with `-c` or `-S`, one source file and at most one output option, which has its path and is
not a value itself. -/
structure OneSource (args : List GoString) (file : GoString) : Prop where
  nonempty : ∀ a ∈ args, a ≠ []
  acts : (hasOption (bytes "-c") (words takesValue args) ||
    hasOption (bytes "-S") (words takesValue args)) = true
  source : ((words takesValue args).map Word.head).filter
    (fun a => kind a = .file && isSourceFile a) = [file]
  oneOutput : (args.filter isOutputOption).length ≤ 1
  option : ∀ a ∈ args, isOutputOption a = true →
    ∃ word ∈ words takesValue args, word.head = a ∧ (a = bytes "-o" → word.value.isSome = true)

def OutputRight (args : List GoString) (file : GoString) : Prop :=
  ∃ ap, (newArgParser args).parse = some ap ∧
    ap.outputPath = some (compilerOutput args file) ∧ (ap.args.filter isOutputOption).length = 1

/-- The words without the unsupported arguments still name the output: the output option is among them,
and a joined path is absolute; or they name the action and an input with the base name of the file. -/
def OutputKept (args : List GoString) (file : GoString) : Prop :=
  let kept := words takesValue (stripUnsupportedArgs args)
  match (words takesValue args).find? (isOutputOption ·.head) with
  | some word => word ∈ kept ∧ (word.head ≠ bytes "-o" → hasPrefix word.head (bytes "-o/") = true)
  | none => (hasOption (bytes "-c") kept || hasOption (bytes "-S") kept) = true ∧
      hasOption (bytes "-S") kept = hasOption (bytes "-S") (words takesValue args) ∧
      stem ((lastInput kept).getD []) = stem (base file)

/-! ### The list without the unsupported arguments -/

variable {a : GoString} {args : List GoString} {word : Word GoString} {file : GoString}

theorem supported_of_output (output : isOutputOption a = true) : unsupported a = false := by
  obtain ⟨rest, rfl⟩ := hasPrefix_iff.mp output
  have other : ∀ {option : GoString}, (option.drop 1).head? = some (byte 'W') ∨
      (option.drop 1).head? = some (byte 'p') ∨ (option.drop 1).head? = some (byte 'f') →
      bytes "-o" ++ rest ≠ option := by
    rintro option second rfl
    revert second
    show some (byte 'o') = _ ∨ some (byte 'o') = _ ∨ some (byte 'o') = _ → False
    decide
  have noPrefix : hasPrefix (bytes "-o" ++ rest) (bytes "-flto") = false := by
    rw [Bool.eq_false_iff, Ne, hasPrefix_iff]
    rintro ⟨more, same⟩
    exact other (.inr (.inr rfl)) same
  rw [unsupported, noPrefix, decide_eq_false (other (.inl rfl)),
    decide_eq_false (other (.inr (.inl rfl))), decide_eq_false (other (.inr (.inl rfl)))]
  rfl

theorem filter_output_strip (args : List GoString) :
    (stripUnsupportedArgs args).filter isOutputOption = args.filter isOutputOption := by
  rw [stripUnsupportedArgs, List.filter_filter]
  refine List.filter_congr fun a _ => ?_
  cases output : isOutputOption a with
  | false => rfl
  | true => rw [supported_of_output output]; rfl

theorem isOutputOption_of_joined (joined : hasPrefix a (bytes "-o/") = true) :
    isOutputOption a = true := by
  obtain ⟨rest, rfl⟩ := hasPrefix_iff.mp joined
  exact hasPrefix_iff.mpr ⟨byte '/' :: rest, rfl⟩

/-- It does not matter which of the two passes comes first. -/
theorem cleaned_eq (args : List GoString) : cleaned args = standardize (stripUnsupportedArgs args) := by
  induction args with
  | nil => rfl
  | cons a rest ih =>
    have strip : ∀ {a : GoString}, unsupported a = false → ∀ rest : List GoString,
        stripUnsupportedArgs (a :: rest) = a :: stripUnsupportedArgs rest := fun kept rest =>
      List.filter_cons_of_pos (by rw [kept]; rfl)
    by_cases joined : hasPrefix a (bytes "-o/") = true
    · have kept := supported_of_output (isOutputOption_of_joined joined)
      have path_kept : unsupported (a.drop 2) = false := by
        obtain ⟨path, rfl⟩ := hasPrefix_iff.mp joined
        exact (@plain_of_head (byte '/' :: path) (by simp) (by simp [byte])).supported
      rw [cleaned, standardize, if_pos joined, strip (by decide), strip path_kept, strip kept,
        standardize, if_pos joined]
    · rw [cleaned, standardize, if_neg joined]
      cases dropped : unsupported a with
      | true =>
        rw [stripUnsupportedArgs, List.filter_cons_of_neg (by simp [dropped]), stripUnsupportedArgs,
          List.filter_cons_of_neg (by simp [dropped])]
        exact ih
      | false =>
        rw [strip dropped, strip dropped, standardize, if_neg joined]
        exact congrArg (a :: ·) ih

/-! ### One output option -/

section One

variable {args : List GoString} (one : (args.filter isOutputOption).length ≤ 1)

include one

theorem split_output {a : GoString} (member : a ∈ args) (output : isOutputOption a = true) :
    ∃ before after, args = before ++ a :: after ∧
      ∀ b ∈ before ++ after, isOutputOption b = false := by
  obtain ⟨before, after, rfl⟩ := List.append_of_mem member
  refine ⟨before, after, rfl, fun b within => ?_⟩
  rw [List.filter_append, List.filter_cons_of_pos output, List.length_append, List.length_cons] at one
  have none : ∀ rest : List GoString, (rest.filter isOutputOption).length = 0 →
      ∀ b ∈ rest, isOutputOption b = false := fun rest empty b within =>
    Bool.eq_false_iff.mpr (List.filter_eq_nil_iff.mp (List.eq_nil_of_length_eq_zero empty) b within)
  rcases List.mem_append.mp within with within | within
  · exact none before (by omega) b within
  · exact none after (by omega) b within

theorem output_unique {a b : GoString} {i j : ℕ} (here : args[i]? = some a)
    (output : isOutputOption a = true) (there : args[j]? = some b)
    (output' : isOutputOption b = true) : i = j := by
  induction args generalizing i j with
  | nil => cases here
  | cons c rest ih =>
    have shorter : (rest.filter isOutputOption).length ≤ 1 :=
      le_trans ((List.sublist_cons_self c rest).filter _).length_le one
    have alone : isOutputOption c = true → ∀ (k : ℕ) (d : GoString), rest[k]? = some d →
        ¬ isOutputOption d = true := by
      intro first k d at_
      rw [List.filter_cons_of_pos first, List.length_cons] at one
      have empty := List.eq_nil_of_length_eq_zero (by omega : (rest.filter isOutputOption).length = 0)
      exact List.filter_eq_nil_iff.mp empty d (List.mem_of_getElem? at_)
    cases i with
    | zero =>
      obtain rfl := Option.some.inj here
      cases j with
      | zero => rfl
      | succ j => exact absurd output' (alone output j b there)
    | succ i =>
      cases j with
      | zero =>
        obtain rfl := Option.some.inj there
        exact absurd output (alone output' i a here)
      | succ j => rw [ih shorter here there]

theorem output_word_unique {word other : Word GoString} (member : word ∈ words takesValue args)
    (output : isOutputOption word.head = true) (there : other ∈ words takesValue args)
    (output' : isOutputOption other.head = true) : word = other := by
  rw [← spots_word 0, List.mem_map] at member there
  obtain ⟨spot, within, rfl⟩ := member
  obtain ⟨spot', within', rfl⟩ := there
  obtain ⟨here, next⟩ := spot_located within
  obtain ⟨here', next'⟩ := spot_located within'
  have index := output_unique one here output here' output'
  rw [index] at here next
  have same : spot = spot' := by
    cases spot
    cases spot'
    simp_all
  rw [same]

theorem lastOutput_eq_some_iff {path : GoString} : lastOutput (words takesValue args) = some path ↔
    ⟨bytes "-o", some path⟩ ∈ words takesValue args := by
  have given : ∀ path, lastOutput (words takesValue args) = some path →
      ⟨bytes "-o", some path⟩ ∈ words takesValue args := by
    intro path last
    obtain ⟨⟨head, value⟩, member, is⟩ := List.mem_filterMap.mp (List.mem_of_getLast? last)
    rw [Option.ite_none_right_eq_some, kind_eq_output_iff] at is
    obtain ⟨rfl, rfl⟩ : head = bytes "-o" ∧ value = some path := is
    exact member
  refine ⟨given path, fun member => ?_⟩
  have found : path ∈ (words takesValue args).filterMap fun word =>
      if kind word.head = .output then word.value else none :=
    List.mem_filterMap.mpr ⟨_, member, if_pos (kind_eq_output_iff.mpr rfl)⟩
  have isLast := List.getLast?_eq_some_getLast (List.ne_nil_of_mem found)
  have same := output_word_unique one member rfl (given _ isLast) rfl
  rw [lastOutput, isLast]
  exact (congrArg Word.value same).symm

end One

/-! ### A joined path -/

theorem head_mem_of_words (member : word ∈ words takesValue args) : word.head ∈ args := by
  rw [← spots_word 0, List.mem_map] at member
  obtain ⟨spot, within, rfl⟩ := member
  exact List.mem_of_getElem? (spot_located within).1

theorem value_of_words (member : word ∈ words takesValue args) (single : takesValue word.head = false) :
    word.value = none := by
  rw [← spots_word 0, List.mem_map] at member
  obtain ⟨spot, within, rfl⟩ := member
  exact if_neg (Bool.eq_false_iff.mp single)

theorem not_takesValue_of_output (output : isOutputOption a = true)
    (joined : a ≠ bytes "-o") : takesValue a = false := by
  have table : ∀ a ∈ bytes "-x" :: localArgsWithValues, isOutputOption a = false := by decide
  rw [Bool.eq_false_iff]
  intro taking
  refine Bool.eq_false_iff.mp (table a ?_) output
  rcases takesValue_iff.mp taking with rfl | rfl | member
  · exact List.mem_cons_self
  · exact absurd rfl joined
  · exact List.mem_cons_of_mem _ member

theorem standardize_joined {before after : List GoString}
    (none : ∀ b ∈ before, isOutputOption b = false) (joined : hasPrefix a (bytes "-o/") = true) :
    standardize (before ++ a :: after) = before ++ bytes "-o" :: a.drop 2 :: after := by
  induction before with
  | nil => rw [List.nil_append, standardize, if_pos joined, List.nil_append]
  | cons b before ih =>
    rw [List.forall_mem_cons] at none
    have apart : ¬ hasPrefix b (bytes "-o/") = true := fun is =>
      Bool.eq_false_iff.mp none.1 (isOutputOption_of_joined is)
    rw [List.cons_append, standardize, if_neg apart, ih none.2, List.cons_append]

/-- **A joined absolute path is split where it is not itself a value.** -/
theorem mem_words_split {before after : List GoString} {path : GoString}
    (none : ∀ b ∈ before ++ after, isOutputOption b = false) :
    ⟨bytes "-o", some (byte '/' :: path)⟩ ∈
        words takesValue (before ++ bytes "-o" :: (byte '/' :: path) :: after) ↔
      ⟨bytes "-o/" ++ path, Option.none⟩ ∈
        words takesValue (before ++ (bytes "-o/" ++ path) :: after) := by
  have single : takesValue (bytes "-o/" ++ path) = false :=
    not_takesValue_of_output (hasPrefix_iff.mpr ⟨byte '/' :: path, rfl⟩) (by simp [bytes])
  obtain ⟨ws, complete, rfl | ⟨last, lacking, rfl⟩⟩ := words_cases takesValue before
  · rw [words_spell_append complete, words_spell_append complete,
      words_cons_of_takes takesValue_output,
      words_cons_of_not_takes single]
    exact iff_of_true (by simp) (by simp)
  · have noneOf : ∀ {word : Word GoString} {z : GoString} {rest : List GoString},
        isOutputOption word.head = true → (∀ b ∈ rest, isOutputOption b = false) →
        word ∉ ws ++ ⟨last, some z⟩ :: words takesValue rest := by
      intro word z rest output noneAfter member
      have inBefore : word.head ∈ spell ws ++ [last] → False := fun within =>
        Bool.eq_false_iff.mp (none _ (List.mem_append_left _ within)) output
      rcases List.mem_append.mp member with member | member
      · exact inBefore (List.mem_append_left _
          (List.mem_flatMap.mpr ⟨word, member, List.mem_cons_self⟩))
      · rcases List.mem_cons.mp member with rfl | member
        · exact inBefore (List.mem_append_right _ List.mem_cons_self)
        · exact Bool.eq_false_iff.mp (noneAfter _ (head_mem_of_words member)) output
    have noneAfter : ∀ b ∈ after, isOutputOption b = false := fun b within =>
      none b (List.mem_append_right _ within)
    rw [List.append_assoc, List.append_assoc, words_spell_append complete,
      words_spell_append complete]
    show _ ∈ ws ++ words takesValue (last :: bytes "-o" :: _) ↔
      _ ∈ ws ++ words takesValue (last :: (bytes "-o/" ++ path) :: after)
    rw [words_cons_of_takes lacking, words_cons_of_takes lacking]
    refine iff_of_false (noneOf rfl (List.forall_mem_cons.mpr ⟨rfl, noneAfter⟩)) (noneOf ?_ noneAfter)
    exact hasPrefix_iff.mpr ⟨byte '/' :: path, rfl⟩

/-! ### What `Parse` finds -/

theorem outputRight_iff_words (nonempty : ∀ a ∈ args, a ≠ []) : OutputRight args file ↔
      (lastOutput (words takesValue (cleaned args))).or (madeOutput (words takesValue (cleaned args))) =
        some (compilerOutput args file) ∧
      (cleaned args ++ ((madeOutput (words takesValue (cleaned args))).map
        fun path => [bytes "-o", path]).getD []).countP isOutputOption = 1 := by
  obtain ⟨ap, parsed, reports⟩ := parse_reports (newArgParser args) nonempty
  have listed : ap.args = cleaned args ++ _ := reports.args_eq
  have output : ap.outputPath = (lastOutput (words takesValue (cleaned args))).or _ := reports.output
  rw [OutputRight, parsed]
  constructor
  · rintro ⟨ap, ⟨⟩, right, one⟩
    exact ⟨output.symm.trans right, listed ▸ List.countP_eq_length_filter ▸ one⟩
  · rintro ⟨right, one⟩
    exact ⟨ap, rfl, output.trans right, List.countP_eq_length_filter ▸ listed ▸ one⟩

/-- With one output option in the list, `Parse` is right exactly if it finds the path there. -/
theorem outputRight_iff_of_one
    (nonempty : ∀ a ∈ args, a ≠ []) (one : (cleaned args).countP isOutputOption = 1) :
    OutputRight args file ↔
      lastOutput (words takesValue (cleaned args)) = some (compilerOutput args file) := by
  rw [outputRight_iff_words nonempty, List.countP_append, one]
  cases last : lastOutput (words takesValue (cleaned args)) with
  | some path =>
    have unmade : madeOutput (words takesValue (cleaned args)) = none := by
      rw [madeOutput, last]
      rfl
    rw [unmade, Option.some_or]
    exact and_iff_left rfl
  | none =>
    rw [Option.none_or]
    cases made : madeOutput (words takesValue (cleaned args)) with
    | none => simp
    | some path =>
      refine iff_of_false ?_ (Option.some_ne_none _).symm
      rintro ⟨-, count⟩
      rw [Option.map_some, Option.getD_some,
        List.countP_cons_of_pos (show isOutputOption (bytes "-o") = true from rfl)] at count
      omega

theorem outputRight_iff_of_given (source : OneSource args file) (member : word ∈ words takesValue args)
    (output : isOutputOption word.head = true) (named : compilerOutput args file = namedPath word) :
    OutputRight args file ↔ word ∈ words takesValue (stripUnsupportedArgs args) ∧
      (word.head ≠ bytes "-o" → hasPrefix word.head (bytes "-o/") = true) := by
  have one : ((stripUnsupportedArgs args).filter isOutputOption).length ≤ 1 := by
    rw [filter_output_strip]
    exact source.oneOutput
  have within : word.head ∈ stripUnsupportedArgs args :=
    List.mem_filter.mpr ⟨head_mem_of_words member, by rw [supported_of_output output]; rfl⟩
  obtain ⟨before, after, split, none⟩ := split_output one within output
  have noneBefore : before.countP isOutputOption = 0 := List.countP_eq_zero.mpr fun b within =>
    Bool.eq_false_iff.mp (none b (List.mem_append_left _ within))
  have noneAfter : after.countP isOutputOption = 0 := List.countP_eq_zero.mpr fun b within =>
    Bool.eq_false_iff.mp (none b (List.mem_append_right _ within))
  by_cases joined : hasPrefix word.head (bytes "-o/") = true
  · obtain ⟨path, isJoined⟩ := hasPrefix_iff.mp joined
    have isWord : word = ⟨bytes "-o/" ++ path, Option.none⟩ := by
      have apart : word.head ≠ bytes "-o" := by
        rw [isJoined]
        simp [bytes]
      have single := value_of_words member (not_takesValue_of_output output apart)
      rw [← isJoined, ← single]
    have list : cleaned args = before ++ bytes "-o" :: (byte '/' :: path) :: after := by
      rw [cleaned_eq, split, standardize_joined (fun b within => none b (List.mem_append_left _ within))
        joined, isJoined]
      rfl
    have count : (cleaned args).countP isOutputOption = 1 := by
      rw [list, List.countP_append, noneBefore,
        List.countP_cons_of_pos (show isOutputOption (bytes "-o") = true from rfl),
        List.countP_cons_of_neg (show ¬ isOutputOption (byte '/' :: path) = true from Bool.false_ne_true), noneAfter]
    have path_eq : namedPath word = byte '/' :: path := by
      rw [isWord]
      rfl
    rw [outputRight_iff_of_one source.nonempty count, named, path_eq,
      lastOutput_eq_some_iff (List.countP_eq_length_filter ▸ count.le), list, mem_words_split none,
      split, isWord]
    exact (and_iff_left fun _ => isWord ▸ joined).symm
  · have list : cleaned args = stripUnsupportedArgs args := by
      rw [cleaned_eq]
      refine standardize_eq_self fun b within => Bool.eq_false_iff.mpr fun is => ?_
      rw [split] at within
      have outputs := isOutputOption_of_joined is
      rcases List.mem_append.mp within with within | within
      · exact Bool.eq_false_iff.mp (none b (List.mem_append_left _ within)) outputs
      · rcases List.mem_cons.mp within with rfl | within
        · exact joined is
        · exact Bool.eq_false_iff.mp (none b (List.mem_append_right _ within)) outputs
    have count : (cleaned args).countP isOutputOption = 1 := by
      rw [list, split, List.countP_append, noneBefore, List.countP_cons_of_pos output, noneAfter]
    rw [outputRight_iff_of_one source.nonempty count, named,
      lastOutput_eq_some_iff (List.countP_eq_length_filter ▸ count.le), list]
    by_cases separate : word.head = bytes "-o"
    · obtain ⟨other, there, same, given⟩ := source.option _ (head_mem_of_words member) output
      obtain rfl := output_word_unique source.oneOutput member output there (same ▸ output)
      obtain ⟨path, isPath⟩ := Option.isSome_iff_exists.mp (given separate)
      have isWord : word = ⟨bytes "-o", some path⟩ := by rw [← separate, ← isPath]
      have path_eq : namedPath word = path := by
        rw [isWord]
        rfl
      rw [path_eq, ← isWord]
      exact (and_iff_left fun apart => absurd separate apart).symm
    · refine iff_of_false (fun found => ?_) fun right => joined (right.2 separate)
      have apart := head_mem_of_words found
      rw [split] at apart
      have isNone : ¬ bytes "-o" ∈ before ++ after := fun within => by cases none _ within
      rcases List.mem_append.mp apart with within | within
      · exact isNone (List.mem_append_left _ within)
      · rcases List.mem_cons.mp within with same | within
        · exact separate same.symm
        · exact isNone (List.mem_append_right _ within)

/-! ### What `Parse` makes up -/

theorem not_output_of_head (dashless : a.head? ≠ some (byte '-')) : isOutputOption a = false := by
  rw [Bool.eq_false_iff]
  intro output
  obtain ⟨rest, rfl⟩ := hasPrefix_iff.mp output
  exact dashless rfl

theorem not_output_of_made {ws : List (Word GoString)} {path : GoString}
    (made : madeOutput ws = some path) : isOutputOption path = false := by
  have replaced : ∀ newExt ∈ [bytes ".s", bytes ".o"],
      isOutputOption (replaceExtension ((lastInput ws).getD []) newExt) = false := by
    intro newExt member
    have dot : newExt.head? = some (byte '.') := by
      rcases List.mem_pair.mp member with rfl | rfl <;> rfl
    by_cases dash : (lastInput ws).getD [] = bytes "-"
    · rw [dash]
      rcases List.mem_pair.mp member with rfl | rfl <;> decide
    · refine not_output_of_head (head_replaceExtension ?_ dot)
      cases last : lastInput ws with
      | none => nofun
      | some input =>
        rw [last] at dash
        exact head_of_isInput (isInput_of_lastInput last) dash
  unfold madeOutput at made
  split_ifs at made
  · exact Option.some.inj made ▸ replaced _ (by decide)
  · exact Option.some.inj made ▸ replaced _ (by decide)
  · exact Option.some.inj made ▸ rfl

theorem append_extension_eq_iff {name other : GoString} {assembles assembles' : Bool} :
    (name ++ if assembles then bytes ".s" else bytes ".o") =
        (other ++ if assembles' then bytes ".s" else bytes ".o") ↔
      assembles = assembles' ∧ name = other := by
  have extension : ∀ (name : GoString) (assembles : Bool),
      ext (name ++ if assembles then bytes ".s" else bytes ".o") =
        if assembles then bytes ".s" else bytes ".o" := by
    rintro name (_ | _)
    · exact ext_append_o name
    · exact ext_append_s name
  constructor
  · intro same
    have table : ∀ a b : Bool, (if a then bytes ".s" else bytes ".o") =
        (if b then bytes ".s" else bytes ".o") → a = b := by decide
    obtain rfl := table assembles assembles'
      ((extension name assembles).symm.trans ((congrArg ext same).trans (extension _ _)))
    exact ⟨rfl, List.append_cancel_right same⟩
  · rintro ⟨rfl, rfl⟩
    rfl

theorem madeOutput_eq_some_iff {ws : List (Word GoString)} {name : GoString} {assembles : Bool}
    (unnamed : lastOutput ws = none) :
    madeOutput ws = some (name ++ if assembles then bytes ".s" else bytes ".o") ↔
      (hasOption (bytes "-c") ws || hasOption (bytes "-S") ws) = true ∧
        hasOption (bytes "-S") ws = assembles ∧ stem ((lastInput ws).getD []) = name := by
  by_cases acts : (hasOption (bytes "-c") ws || hasOption (bytes "-S") ws) = true
  · have made : madeOutput ws = some (stem ((lastInput ws).getD []) ++
        if hasOption (bytes "-S") ws then bytes ".s" else bytes ".o") := by
      rw [madeOutput, unnamed]
      cases assembly : hasOption (bytes "-S") ws with
      | true => rfl
      | false =>
        rw [assembly, Bool.or_false] at acts
        rw [acts]
        rfl
    rw [made, Option.some_inj, append_extension_eq_iff, and_iff_right acts]
  · refine iff_of_false (fun made => ?_) fun is => acts is.1
    rw [Bool.or_eq_true, not_or, Bool.not_eq_true, Bool.not_eq_true] at acts
    rw [madeOutput, unnamed, acts.1, acts.2, Option.isSome_none, if_neg Bool.false_ne_true, if_neg Bool.false_ne_true,
      if_neg Bool.false_ne_true, Option.ite_none_right_eq_some] at made
    have exts := congrArg ext (Option.some.inj made.2)
    cases assembles with
    | true => exact absurd (exts.trans (ext_append_s name)) (by decide)
    | false => exact absurd (exts.trans (ext_append_o name)) (by decide)

/-- **Which lists `Parse` finds the output of.** -/
theorem outputRight_iff (args : List GoString) (file : GoString) (source : OneSource args file) :
    OutputRight args file ↔ OutputKept args file := by
  rw [OutputKept]
  cases found : (words takesValue args).find? (isOutputOption ·.head) with
  | some word =>
    have output := List.find?_some found
    refine outputRight_iff_of_given source (List.mem_of_find?_eq_some found) output ?_
    rw [compilerOutput, found]
  | none =>
    have noWord := List.find?_eq_none.mp found
    have noOption : ∀ a ∈ args, isOutputOption a = false := by
      intro a member
      rw [Bool.eq_false_iff]
      intro output
      obtain ⟨word, within, rfl, -⟩ := source.option a member output
      exact noWord word within output
    have list : cleaned args = stripUnsupportedArgs args := by
      rw [cleaned_eq]
      refine standardize_eq_self fun a member => Bool.eq_false_iff.mpr fun is => ?_
      exact Bool.eq_false_iff.mp (noOption a (List.mem_of_mem_filter member))
        (isOutputOption_of_joined is)
    have noneLeft : (stripUnsupportedArgs args).countP isOutputOption = 0 :=
      List.countP_eq_zero.mpr fun a member =>
        Bool.eq_false_iff.mp (noOption a (List.mem_of_mem_filter member))
    have unnamed : lastOutput (words takesValue (stripUnsupportedArgs args)) = none := by
      refine Option.eq_none_iff_forall_ne_some.mpr fun path last => ?_
      rw [lastOutput_eq_some_iff (List.countP_eq_length_filter ▸ noneLeft.le.trans zero_le_one)] at last
      exact List.countP_eq_zero.mp noneLeft _ (head_mem_of_words last) rfl
    rw [outputRight_iff_words source.nonempty, list, unnamed, Option.none_or, compilerOutput, found,
      madeOutput_eq_some_iff unnamed]
    refine and_iff_left_of_imp fun is => ?_
    have made := (madeOutput_eq_some_iff unnamed).mpr is
    rw [made, List.countP_append, noneLeft, Option.map_some, Option.getD_some,
      List.countP_cons_of_pos (show isOutputOption (bytes "-o") = true from rfl),
      List.countP_cons_of_neg (Bool.eq_false_iff.mp (not_output_of_made made)), List.countP_nil]

/-- An absolute path, joined to its option. -/
theorem outputRight_joined : OutputRight [bytes "-c", bytes "-o/tmp/a.o", bytes "src/a.c"]
    (bytes "src/a.c") :=
  (outputRight_iff _ _ ⟨by decide, by decide, by decide, by decide, by decide⟩).mpr
    ⟨by decide, by decide⟩

/-- A path that is joined and not absolute, and an input in another directory. -/
theorem output_elsewhere :
    OneSource [bytes "-c", bytes "-oa.o", bytes "b.c"] (bytes "b.c") ∧
      (∃ ap, (newArgParser [bytes "-c", bytes "-oa.o", bytes "b.c"]).parse = some ap ∧
        ap.args = [bytes "-c", bytes "-oa.o", bytes "b.c", bytes "-o", bytes "b.o"] ∧
        ap.outputPath = some (bytes "b.o")) ∧
      ¬ OutputRight [bytes "-c", bytes "-oa.o", bytes "b.c"] (bytes "b.c") ∧
    OneSource [bytes "-c", bytes "src/a.c"] (bytes "src/a.c") ∧
      (∃ ap, (newArgParser [bytes "-c", bytes "src/a.c"]).parse = some ap ∧
        ap.outputPath = some (bytes "src/a.o")) ∧
      ¬ OutputRight [bytes "-c", bytes "src/a.c"] (bytes "src/a.c") := by
  refine ⟨⟨by decide, by decide, by decide, by decide, by decide⟩, ⟨_, rfl, by decide, by decide⟩, ?_,
    ⟨by decide, by decide, by decide, by decide, by decide⟩, ⟨_, rfl, by decide⟩, ?_⟩
  · rintro ⟨ap, parsed, right, -⟩
    obtain rfl := Option.some.inj parsed
    exact absurd right (by decide)
  · rintro ⟨ap, parsed, right, -⟩
    obtain rfl := Option.some.inj parsed
    exact absurd right (by decide)

end Kubecc.Cc
