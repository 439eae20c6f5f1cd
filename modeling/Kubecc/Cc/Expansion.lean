/-
**The options for the preprocessor.**

`ConfigurePreprocessorOptions` takes `-Wp,-X,-Y` apart into `-X -Y`, puts `-MF` before the path that
follows `-MD` or `-MMD`, and parses the list again. It takes every argument that begins with `-Wp` for
such an option, and reads the first byte of a path that may be empty.

* `expansion` — what an argument is to be replaced by.
* `expandsOnly_iff` — the list handed to `Parse` is that of the expansions exactly if no argument begins
  with `-Wp` and not with `-Wp,`; another one, such as `-Wpadded`, is lost.
* `neverCrashes_iff` — on which lists neither `Parse` nor `ConfigurePreprocessorOptions` panics.
-/

import Kubecc.Cc.Pipeline

namespace Kubecc.Cc

open Kubecc.Go Kubecc.Lib

/-! ### The fields of an option -/

/-- The fields, with `-MF` between `-MD` or `-MMD` and a path. -/
def withDepFile : List GoString → List GoString
  | str :: next :: rest =>
    if (str = bytes "-MD" ∨ str = bytes "-MMD") ∧ ¬ hasPrefix next (bytes "-") = true then
      str :: bytes "-MF" :: withDepFile (next :: rest)
    else str :: withDepFile (next :: rest)
  | fields => fields

/-- What the argument is to be replaced by. -/
def expansion (arg : GoString) : List GoString :=
  if hasPrefix arg (bytes "-Wp,") then withDepFile (split arg (byte ',')).tail else [arg]

def ExpandsOnly (args : List GoString) : Prop := expandLoop [] args = some (args.flatMap expansion)

/-- After `-MD` or `-MMD` no field is empty. -/
def DepThen (str next : GoString) : Prop := str = bytes "-MD" ∨ str = bytes "-MMD" → next ≠ []

instance : DecidableRel DepThen := fun str next =>
  inferInstanceAs (Decidable (str = bytes "-MD" ∨ str = bytes "-MMD" → next ≠ []))

/-- What the code replaces the argument by. -/
def unpacked (arg : GoString) : List GoString :=
  if hasPrefix arg (bytes "-Wp") then withDepFile (split arg (byte ',')).tail else [arg]

theorem head?_eq_dash_iff {c : UInt8} {rest : GoString} :
    c = byte '-' ↔ hasPrefix (c :: rest) (bytes "-") = true := by
  rw [hasPrefix_iff]
  constructor
  · rintro rfl
    exact ⟨rest, rfl⟩
  · rintro ⟨more, same⟩
    exact (List.cons.inj same).1

theorem chain_of_nonempty {fields : List GoString} (nonempty : ∀ field ∈ fields, field ≠ []) :
    fields.IsChain DepThen := by
  induction fields with
  | nil => exact .nil
  | cons str rest ih =>
    rw [List.forall_mem_cons] at nonempty
    refine List.isChain_cons.mpr ⟨fun next first _ => ?_, ih nonempty.2⟩
    exact nonempty.2 next (List.mem_of_mem_head? first)

/-- **The inner loop** puts the `-MF` in, and panics on an empty field after `-MD` or `-MMD`. -/
theorem insertDepFile_eq_some_iff {fields out : List GoString} :
    insertDepFile fields = some out ↔ fields.IsChain DepThen ∧ withDepFile fields = out := by
  induction fields generalizing out with
  | nil => simp [insertDepFile, withDepFile]
  | cons str rest ih =>
    cases rest with
    | nil => simp [insertDepFile, withDepFile]
    | cons next rest =>
      have passes : ∀ (f : List GoString → List GoString), DepThen str next →
          ((insertDepFile (next :: rest)).map f = some out ↔
            (DepThen str next ∧ (next :: rest).IsChain DepThen) ∧
              f (withDepFile (next :: rest)) = out) := by
        intro f named
        simp only [Option.map_eq_some_iff, ih, named, true_and, and_assoc, exists_and_left,
          exists_eq_left']
      rw [insertDepFile, withDepFile, List.isChain_cons_cons]
      by_cases dep : str = bytes "-MD" ∨ str = bytes "-MMD"
      · rw [if_pos (by simpa using dep)]
        cases next with
        | nil => simp [DepThen, dep]
        | cons c path =>
          have named : DepThen str (c :: path) := fun _ => nofun
          show (if c = byte '-' then _ else _) = some out ↔ _
          by_cases dash : c = byte '-'
          · rw [if_pos dash, if_neg fun is => is.2 (head?_eq_dash_iff.mp dash)]
            exact passes (str :: ·) named
          · rw [if_neg dash, if_pos ⟨dep, fun is => dash (head?_eq_dash_iff.mpr is)⟩]
            exact passes (fun fields => str :: bytes "-MF" :: fields) named
      · rw [if_neg (by simpa using dep), if_neg fun is => dep is.1]
        exact passes (str :: ·) fun is => absurd is dep

/-- **The outer loop** takes the options apart one after the other. -/
theorem expandLoop_eq_some_iff {args left out : List GoString} :
    expandLoop left args = some out ↔
      (∀ arg ∈ args, hasPrefix arg (bytes "-Wp") = true →
        (split arg (byte ',')).tail.IsChain DepThen) ∧ left ++ args.flatMap unpacked = out := by
  induction args generalizing left with
  | nil => simp [expandLoop]
  | cons arg rest ih =>
    rw [expandLoop, List.forall_mem_cons, List.flatMap_cons, ← List.append_assoc]
    by_cases isWp : hasPrefix arg (bytes "-Wp") = true
    · rw [if_pos isWp, Option.bind_eq_some_iff, unpacked, if_pos isWp]
      simp only [insertDepFile_eq_some_iff, ih, isWp, true_imp_iff]
      constructor
      · rintro ⟨fields, ⟨chain, rfl⟩, rest, same⟩
        exact ⟨⟨chain, rest⟩, same⟩
      · rintro ⟨⟨chain, rest⟩, same⟩
        exact ⟨_, ⟨chain, rfl⟩, rest, same⟩
    · rw [if_neg isWp, ih, unpacked, if_neg isWp]
      exact and_congr_left' (and_iff_right fun is => absurd is isWp).symm

/-! ### What is lost -/

/-- How often the byte `W` occurs. -/
def weight (args : List GoString) : ℕ := args.flatten.count (byte 'W')

theorem weight_cons (arg : GoString) (args : List GoString) :
    weight (arg :: args) = arg.count (byte 'W') + weight args := by
  rw [weight, List.flatten_cons, List.count_append, weight]

theorem weight_append (args more : List GoString) :
    weight (args ++ more) = weight args + weight more := by
  rw [weight, List.flatten_append, List.count_append, weight, weight]

theorem weight_withDepFile (fields : List GoString) : weight (withDepFile fields) = weight fields := by
  induction fields with
  | nil => rfl
  | cons str rest ih =>
    cases rest with
    | nil => rfl
    | cons next rest =>
      rw [withDepFile]
      split
      · rw [weight_cons, weight_cons, ih, weight_cons str,
          show (bytes "-MF").count (byte 'W') = 0 by decide, Nat.zero_add]
      · rw [weight_cons, ih, weight_cons str]

theorem split_cons_of_ne {c sep : UInt8} (differs : c ≠ sep) (s : GoString) :
    split (c :: s) sep = (split s sep).modifyHead (c :: ·) := by
  rw [split, List.splitOn, List.splitOnP_cons_eq_if_modifyHead, if_neg (by simpa using differs)]
  rfl

theorem tail_split_cons_of_ne {c sep : UInt8} (differs : c ≠ sep) (s : GoString) :
    (split (c :: s) sep).tail = (split s sep).tail := by
  rw [split_cons_of_ne differs]
  cases split s sep <;> rfl

theorem weight_split_le (s : GoString) : weight (split s (byte ',')) ≤ s.count (byte 'W') := by
  induction s with
  | nil => exact Nat.zero_le _
  | cons c s ih =>
    by_cases comma : c = byte ','
    · have empty : split (c :: s) (byte ',') = [] :: split s (byte ',') := by
        rw [split, List.splitOn, List.splitOnP_cons_eq_if_modifyHead, if_pos (by simpa using comma)]
        rfl
      rw [empty, weight_cons, List.count_nil, Nat.zero_add]
      exact le_trans ih List.count_le_count_cons
    · rw [split_cons_of_ne comma, List.count_cons]
      cases fields : split s (byte ',') with
      | nil => exact Nat.zero_le _
      | cons field rest =>
        rw [fields, weight_cons] at ih
        rw [List.modifyHead_cons, weight_cons, List.count_cons]
        omega

theorem weight_tail_lt {arg : GoString} (isWp : hasPrefix arg (bytes "-Wp") = true) :
    weight (split arg (byte ',')).tail < arg.count (byte 'W') := by
  obtain ⟨rest, rfl⟩ := hasPrefix_iff.mp isWp
  show weight (split (byte '-' :: byte 'W' :: byte 'p' :: rest) (byte ',')).tail <
    (byte '-' :: byte 'W' :: byte 'p' :: rest).count (byte 'W')
  rw [tail_split_cons_of_ne (by decide), tail_split_cons_of_ne (by decide),
    tail_split_cons_of_ne (by decide)]
  have fields := weight_split_le rest
  have tail : weight (split rest (byte ',')).tail ≤ weight (split rest (byte ',')) := by
    cases split rest (byte ',') with
    | nil => exact le_rfl
    | cons field fields => exact weight_cons field fields ▸ Nat.le_add_left _ _
  have more : (byte '-' :: byte 'W' :: byte 'p' :: rest).count (byte 'W') =
      rest.count (byte 'W') + 1 := by
    rw [List.count_cons_of_ne (by decide), List.count_cons_self, List.count_cons_of_ne (by decide)]
  omega

theorem unpacked_eq_expansion {arg : GoString}
    (option : hasPrefix arg (bytes "-Wp") = true → hasPrefix arg (bytes "-Wp,") = true) :
    unpacked arg = expansion arg := by
  rw [unpacked, expansion]
  by_cases comma : hasPrefix arg (bytes "-Wp,") = true
  · have isWp : hasPrefix arg (bytes "-Wp") = true := by
      obtain ⟨rest, rfl⟩ := hasPrefix_iff.mp comma
      exact hasPrefix_iff.mpr ⟨byte ',' :: rest, rfl⟩
    rw [if_pos comma, if_pos isWp]
  · rw [if_neg comma, if_neg fun isWp => comma (option isWp)]

/-- The code never adds to what an argument is to be replaced by, and takes from an argument that it
should keep. -/
theorem weight_unpacked_lt {arg : GoString} (isWp : hasPrefix arg (bytes "-Wp") = true)
    (kept : ¬ hasPrefix arg (bytes "-Wp,") = true) :
    weight (unpacked arg) < weight (expansion arg) := by
  rw [unpacked, expansion, if_pos isWp, if_neg kept, weight_withDepFile, weight_cons]
  exact Nat.lt_add_right _ (weight_tail_lt isWp)

theorem weight_flatMap (f : GoString → List GoString) (args : List GoString) :
    weight (args.flatMap f) = (args.map fun arg => weight (f arg)).sum := by
  induction args with
  | nil => rfl
  | cons arg rest ih => rw [List.flatMap_cons, weight_append, ih, List.map_cons, List.sum_cons]

/-- **What is touched.** The list handed to `Parse` is that of the expansions exactly if every argument
that begins with `-Wp` begins with `-Wp,`. -/
theorem expandsOnly_iff (args : List GoString)
    (fields : ∀ arg ∈ args, hasPrefix arg (bytes "-Wp,") = true →
      ∀ field ∈ split arg (byte ','), field ≠ []) :
    ExpandsOnly args ↔
      ∀ arg ∈ args, hasPrefix arg (bytes "-Wp") = true → hasPrefix arg (bytes "-Wp,") = true := by
  rw [ExpandsOnly, expandLoop_eq_some_iff, List.nil_append]
  constructor
  · rintro ⟨-, same⟩ arg member isWp
    by_contra kept
    have fewer : (args.map fun arg => weight (unpacked arg)).sum <
        (args.map fun arg => weight (expansion arg)).sum := by
      refine List.sum_lt_sum _ _ (fun arg _ => ?_) ⟨arg, member, weight_unpacked_lt isWp kept⟩
      by_cases lost : hasPrefix arg (bytes "-Wp") = true ∧ ¬ hasPrefix arg (bytes "-Wp,") = true
      · exact (weight_unpacked_lt lost.1 lost.2).le
      · exact (congrArg weight (unpacked_eq_expansion (by tauto))).le
    rw [← weight_flatMap, ← weight_flatMap, same] at fewer
    exact lt_irrefl _ fewer
  · intro option
    refine ⟨fun arg member isWp => ?_, ?_⟩
    · exact chain_of_nonempty fun field within =>
        fields arg member (option arg member isWp) field (List.mem_of_mem_tail within)
    · exact List.flatMap_congr fun arg member => unpacked_eq_expansion (option arg member)

/-- Options of both kinds, a path after `-MD`, a warning. -/
theorem expandsOnly_mixed :
    ExpandsOnly [bytes "-Wp,-MD,a.d,-DX", bytes "-Wall", bytes "-c", bytes "a.c"] :=
  (expandsOnly_iff _ (by decide)).mpr (by decide)

theorem padded_lost : (∀ arg ∈ [bytes "-Wpadded", bytes "-c", bytes "a.c"], arg ≠ []) ∧
    (∀ arg ∈ [bytes "-Wpadded", bytes "-c", bytes "a.c"], hasPrefix arg (bytes "-Wp,") = true →
      ∀ field ∈ split arg (byte ','), field ≠ []) ∧
    expandLoop [] [bytes "-Wpadded", bytes "-c", bytes "a.c"] = some [bytes "-c", bytes "a.c"] ∧
    ¬ ExpandsOnly [bytes "-Wpadded", bytes "-c", bytes "a.c"] := by
  unfold ExpandsOnly
  decide

/-! ### Empty arguments -/

/-- No argument is empty, but for the values of options. -/
def NoneEmpty (args : List GoString) : Prop := ∀ word ∈ words takesValue args, word.head ≠ []

instance (args : List GoString) : Decidable (NoneEmpty args) :=
  inferInstanceAs (Decidable (∀ word ∈ words takesValue args, word.head ≠ []))

def NeverCrashes (args : List GoString) : Prop :=
  ∃ ap configured, (newArgParser args).parse = some ap ∧
    ap.configurePreprocessorOptions = some configured

theorem noneEmpty_iff (args : List GoString) :
    NoneEmpty args ↔ ∀ arg ∈ (spots false 0 args).map Spot.arg, arg ≠ [] := by
  rw [NoneEmpty, ← spots_word 0, List.forall_mem_map, List.forall_mem_map]
  rfl

theorem parse_isSome_iff (ap : ArgParser) : ap.parse.isSome = true ↔ NoneEmpty (cleaned ap.args) := by
  rw [noneEmpty_iff, List.forall_mem_map]
  constructor
  · intro returns
    rw [ArgParser.parse, Option.isSome_map] at returns
    exact @visited_of_parseLoop _ _ (scanStart ap.mode) rfl _ returns
  · intro visited
    rw [parse_eq_of_visited ap visited]
    rfl

theorem exists_spots_append (skip : Bool) (i : ℕ) (args more : List GoString) : ∃ skip' j,
    (spots skip i (args ++ more)).map Spot.arg =
      (spots skip i args).map Spot.arg ++ (spots skip' j more).map Spot.arg := by
  induction args generalizing skip i with
  | nil => cases skip <;> exact ⟨_, _, rfl⟩
  | cons arg rest ih =>
    cases skip with
    | true => exact ih false (i + 1)
    | false =>
      obtain ⟨skip', j, same⟩ := ih (takesValue arg) (i + 1)
      exact ⟨skip', j, congrArg (arg :: ·) same⟩

theorem noneEmpty_append_iff {args more : List GoString} (nonempty : ∀ arg ∈ more, arg ≠ []) :
    NoneEmpty (args ++ more) ↔ NoneEmpty args := by
  rw [noneEmpty_iff, noneEmpty_iff]
  obtain ⟨skip, j, same⟩ := exists_spots_append false 0 args more
  rw [same, List.forall_mem_append]
  refine and_iff_left fun arg member => ?_
  obtain ⟨spot, within, rfl⟩ := List.mem_map.mp member
  obtain ⟨k, -, here, -⟩ := getElem?_of_mem_spots within
  exact nonempty _ (List.mem_of_getElem? here)

theorem standardize_append {more : List GoString}
    (unjoined : ∀ a ∈ more, hasPrefix a (bytes "-o/") = false) (args : List GoString) :
    standardize (args ++ more) = standardize args ++ more := by
  induction args with
  | nil => exact standardize_eq_self unjoined
  | cons arg rest ih =>
    rw [List.cons_append, standardize, standardize]
    split
    · rfl
    · rw [ih, List.cons_append]

theorem cleaned_append {more : List GoString} (plain : ∀ a ∈ more, Plain a) (args : List GoString) :
    cleaned (args ++ more) = cleaned args ++ more := by
  rw [cleaned, standardize_append fun a member => (plain a member).noJoinedOutput, cleaned,
    stripUnsupportedArgs, List.filter_append]
  congr 1
  exact List.filter_eq_self.mpr fun a member => by rw [(plain a member).supported, Bool.not_false]

/-! ### The path that `Parse` makes up -/

theorem defaultOutput_cases {st : Scan} {path : GoString} (made : defaultOutput st = some path) :
    path = bytes "a.out" ∨ ∃ act : ActionOpt, (act = .compile ∨ act = .genAssembly) ∧
      path = replaceExtension st.inputArg act.extension := by
  unfold defaultOutput at made
  split at made
  · cases made
  · split at made
    · dsimp only at made
      rw [Option.ite_none_right_eq_some] at made
      obtain rfl := Option.some.inj made.2
      split
      · exact .inr ⟨.genAssembly, .inr rfl, rfl⟩
      · exact .inr ⟨.compile, .inl rfl, rfl⟩
    · rw [Option.ite_none_right_eq_some] at made
      exact .inl (Option.some.inj made.2).symm

theorem plain_defaultOutput {mode : RunMode} {args : List GoString} {path : GoString}
    (made : defaultOutput (scan mode args) = some path) : Plain path := by
  rcases defaultOutput_cases made with rfl | ⟨act, acts, rfl⟩
  · exact ⟨by decide, by decide, by decide, by decide⟩
  · rw [(scan_input mode args).2]
    cases last : lastInput (words takesValue args) with
    | none => rcases acts with rfl | rfl <;> exact ⟨by decide, by decide, by decide, by decide⟩
    | some input => exact (plain_replaceExtension (isInput_of_lastInput last) acts).1

theorem exists_parse_args {args : List GoString} (none : NoneEmpty (cleaned args)) :
    ∃ ap more, (newArgParser args).parse = some ap ∧ ap.args = cleaned args ++ more ∧
      ∀ arg ∈ more, Plain arg := by
  rw [noneEmpty_iff, List.forall_mem_map] at none
  refine ⟨_, _, parse_eq_of_visited (newArgParser args) none, rfl, ?_⟩
  cases made : defaultOutput (scan (newArgParser args).mode (cleaned (newArgParser args).args)) with
  | none => exact List.forall_mem_nil _
  | some path =>
    refine List.forall_mem_cons.mpr ⟨⟨by decide, by decide, by decide, by decide⟩, ?_⟩
    exact List.forall_mem_singleton.mpr (plain_defaultOutput made)

theorem configures_iff (ap : ArgParser) : ap.configurePreprocessorOptions.isSome = true ↔
    (∀ arg ∈ ap.args, hasPrefix arg (bytes "-Wp") = true →
      (split arg (byte ',')).tail.IsChain DepThen) ∧
    NoneEmpty (cleaned (ap.args.flatMap unpacked)) := by
  rw [ArgParser.configurePreprocessorOptions, Option.isSome_bind, Option.any_eq_true]
  constructor
  · rintro ⟨args, expanded, returns⟩
    obtain ⟨chains, rfl⟩ := expandLoop_eq_some_iff.mp expanded
    exact ⟨chains, (parse_isSome_iff _).mp returns⟩
  · rintro ⟨chains, none⟩
    exact ⟨_, expandLoop_eq_some_iff.mpr ⟨chains, rfl⟩, (parse_isSome_iff _).mpr none⟩

/-- **When nothing panics.** No argument that `Parse` visits is empty, no field after `-MD` or `-MMD`
is, and no argument that the second `Parse` visits. -/
theorem neverCrashes_iff (args : List GoString) : NeverCrashes args ↔
    NoneEmpty (cleaned args) ∧
      (∀ arg ∈ cleaned args, hasPrefix arg (bytes "-Wp") = true →
        (split arg (byte ',')).tail.IsChain DepThen) ∧
      NoneEmpty (cleaned ((cleaned args).flatMap unpacked)) := by
  by_cases none : NoneEmpty (cleaned args)
  · obtain ⟨ap, more, first, list, plain⟩ := exists_parse_args none
    have noOption : ∀ arg ∈ more, ¬ hasPrefix arg (bytes "-Wp") = true := fun arg member =>
      Bool.eq_false_iff.mp (plain arg member).noPreprocessor
    have unchanged : more.flatMap unpacked = more := by
      conv_rhs => rw [← List.flatMap_singleton' more]
      exact List.flatMap_congr fun arg member => if_neg (noOption arg member)
    have second := configures_iff ap
    rw [list, List.forall_mem_append, and_iff_left fun arg member is => absurd is (noOption arg member),
      List.flatMap_append, unchanged, cleaned_append plain,
      noneEmpty_append_iff fun arg member => (plain arg member).nonempty,
      Option.isSome_iff_exists] at second
    rw [NeverCrashes, first, and_iff_right none, ← second]
    constructor
    · rintro ⟨ap, configured, ⟨⟩, returns⟩
      exact ⟨configured, returns⟩
    · rintro ⟨configured, returns⟩
      exact ⟨ap, configured, rfl, returns⟩
  · refine iff_of_false ?_ fun all => none all.1
    rintro ⟨ap, configured, first, -⟩
    exact none ((parse_isSome_iff _).mp (Option.isSome_iff_exists.mpr ⟨ap, first⟩))

/-- An empty argument, and a `-MD` whose path is empty. -/
theorem empty_panics : ((newArgParser [[]]).parse = none ∧ ¬ NeverCrashes [[]]) ∧
    (newArgParser [bytes "-Wp,-MD,"]).parse.isSome = true ∧ ¬ NeverCrashes [bytes "-Wp,-MD,"] := by
  refine ⟨⟨rfl, ?_⟩, rfl, ?_⟩
  · rintro ⟨ap, -, parsed, -⟩
    cases parsed
  · rintro ⟨ap, configured, parsed, returns⟩
    obtain rfl := Option.some.inj parsed
    cases returns

end Kubecc.Cc
