/-
**What `Parse` finds.**

The loop of `Parse` passes over the value of every option that takes one, so it sees the words of the
argument list (`Lib.words`). Each variable of the loop is written by some words only, and the last
write stands. From this: what `Parse` reports as input, output and action is a function of the words.

* `parse_eq` — `Parse` does not panic on non-empty arguments, and is a fold over the words.
* `parse_inputPath`, `parse_outputPath`, `parse_actionOpt`, `parse_args` — the reports.
-/

import Kubecc.Lib.Words
import Kubecc.Cc.Args

namespace Kubecc.Cc

open Kubecc.Go Kubecc.Lib

/-! ### Which arguments take a value -/

/-- The argument makes `Parse` pass over the next one. -/
def takesValue (a : GoString) : Bool :=
  match kind a with
  | .dependValue => a.length = 3
  | .language => a = bytes "-x"
  | .localValue => true
  | .output => true
  | _ => false

/-- The conditions under which the switch reaches a case. -/
def testsOf (k : Kind) : List Test := (switch.filter (·.2 = k)).map Prod.fst

variable {a : GoString} {args : List GoString} {i : ℕ} {option : GoString} {index : Option ℕ}
  {path : Option GoString}

theorem exists_test_of_kind {k : Kind} (here : kind a = k) (notOther : k ≠ .other)
    (notFile : k ≠ .file) : ∃ test ∈ testsOf k, test.holds a = true := by
  unfold kind at here
  split at here
  · unfold optionKind at here
    split at here
    · rename_i test k' found
      subst here
      exact ⟨test, List.mem_map.mpr ⟨_, List.mem_filter.mpr
        ⟨List.mem_of_find?_eq_some found, by simp⟩, rfl⟩, by simpa using List.find?_some found⟩
    · exact absurd here.symm notOther
  · exact absurd here.symm notFile

theorem eq_of_kind {a option : GoString} {k : Kind} (here : kind a = k)
    (only : testsOf k = [.isOneOf [option]]) (notOther : k ≠ .other) (notFile : k ≠ .file) :
    a = option := by
  obtain ⟨test, member, holds⟩ := exists_test_of_kind here notOther notFile
  rw [only, List.mem_singleton] at member
  subst member
  simpa [Test.holds] using holds

theorem kind_eq_compile_iff : kind a = .compile ↔ a = bytes "-c" :=
  ⟨fun here => eq_of_kind here (by decide) (by decide) (by decide), by rintro rfl; decide⟩

theorem kind_eq_genAssembly_iff : kind a = .genAssembly ↔ a = bytes "-S" :=
  ⟨fun here => eq_of_kind here (by decide) (by decide) (by decide), by rintro rfl; decide⟩

theorem kind_eq_preprocess_iff : kind a = .preprocess ↔ a = bytes "-E" :=
  ⟨fun here => eq_of_kind here (by decide) (by decide) (by decide), by rintro rfl; decide⟩

theorem kind_eq_output_iff : kind a = .output ↔ a = bytes "-o" :=
  ⟨fun here => eq_of_kind here (by decide) (by decide) (by decide), by rintro rfl; decide⟩

theorem mem_of_kind_localValue (here : kind a = .localValue) : a ∈ localArgsWithValues := by
  obtain ⟨test, member, holds⟩ := exists_test_of_kind here (by decide) (by decide)
  have only : testsOf .localValue = [.isOneOf localArgsWithValues] := by decide
  rw [only, List.mem_singleton] at member
  subst member
  exact List.contains_iff_mem.mp holds

theorem take_of_kind_dependValue (here : kind a = .dependValue) :
    a.take 3 ∈ [bytes "-MF", bytes "-MT", bytes "-MQ"] := by
  obtain ⟨test, member, holds⟩ := exists_test_of_kind here (by decide) (by decide)
  have only : testsOf .dependValue = [.startsWith [bytes "-MF", bytes "-MT", bytes "-MQ"]] := by
    decide
  rw [only, List.mem_singleton] at member
  subst member
  obtain ⟨start, member, begins⟩ := List.any_eq_true.mp holds
  obtain ⟨rest, rfl⟩ := hasPrefix_iff.mp begins
  have short : ∀ start ∈ [bytes "-MF", bytes "-MT", bytes "-MQ"], start.length = 3 := by decide
  rwa [List.take_left' (short start member)]

/-- **The arguments that take a value**: `-x`, `-o` and those of `LocalArgsWithValues`. -/
theorem takesValue_iff :
    takesValue a = true ↔ a = bytes "-x" ∨ a = bytes "-o" ∨ a ∈ localArgsWithValues := by
  constructor
  · intro taking
    unfold takesValue at taking
    cases here : kind a <;> simp only [here, decide_eq_true_eq, reduceCtorEq] at taking
    case dependValue =>
      have member := take_of_kind_dependValue here
      rw [List.take_of_length_le taking.le] at member
      have table : ∀ a ∈ [bytes "-MF", bytes "-MT", bytes "-MQ"], a ∈ localArgsWithValues := by
        decide
      exact .inr (.inr (table a member))
    case language => exact .inl taking
    case localValue => exact .inr (.inr (mem_of_kind_localValue here))
    case output => exact .inr (.inl (kind_eq_output_iff.mp here))
  · have table : ∀ a ∈ localArgsWithValues, takesValue a = true := by decide
    rintro (rfl | rfl | member)
    · decide
    · decide
    · exact table a member

theorem mem_of_takesValue (taking : takesValue a = true) :
    a ∈ bytes "-x" :: bytes "-o" :: localArgsWithValues := by
  rw [List.mem_cons, List.mem_cons]
  exact takesValue_iff.mp taking

theorem takesValue_output : takesValue (bytes "-o") = true := takesValue_iff.mpr (.inr (.inl rfl))

/-! ### The loop sees the words -/

/-- An argument the loop visits: its index, its text, and the argument after it. -/
structure Spot where
  index : ℕ
  arg : GoString
  next : Option GoString
deriving DecidableEq

def spots : Bool → ℕ → List GoString → List Spot
  | _, _, [] => []
  | true, i, _ :: rest => spots false (i + 1) rest
  | false, i, a :: rest => ⟨i, a, rest.head?⟩ :: spots (takesValue a) (i + 1) rest

def Spot.word (spot : Spot) : Word GoString :=
  ⟨spot.arg, if takesValue spot.arg then spot.next else none⟩

theorem spots_word (i : ℕ) (args : List GoString) :
    (spots false i args).map Spot.word = words takesValue args := by
  induction args using words.induct takesValue generalizing i with
  | case1 => rfl
  | case2 arg => simp [spots, words, Spot.word]
  | case3 arg next rest taking ih => simp [spots, words, Spot.word, taking, ih]
  | case4 arg next rest plain ih =>
    have skips : spots (takesValue arg) (i + 1) (next :: rest) =
        spots false (i + 1) (next :: rest) := by rw [Bool.eq_false_iff.mpr plain]
    rw [spots, skips, List.map_cons, ih, words, if_neg plain]
    simp [Spot.word, plain]

theorem getElem?_of_mem_spots {skip : Bool} {spot : Spot} (member : spot ∈ spots skip i args) :
    ∃ j, spot.index = i + j ∧ args[j]? = some spot.arg ∧ args[j + 1]? = spot.next := by
  induction args generalizing skip i with
  | nil => simp [spots] at member
  | cons a rest ih =>
    have later : ∀ skip, spot ∈ spots skip (i + 1) rest →
        ∃ j, spot.index = i + j ∧ (a :: rest)[j]? = some spot.arg ∧
          (a :: rest)[j + 1]? = spot.next := by
      intro skip member
      obtain ⟨j, index, here, next⟩ := ih member
      exact ⟨j + 1, by omega, here, next⟩
    cases skip with
    | true => exact later _ member
    | false =>
      rcases List.mem_cons.mp member with rfl | member
      · exact ⟨0, rfl, rfl, by simp [List.head?_eq_getElem?]⟩
      · exact later _ member

theorem index_ne_of_takesValue {skip : Bool} {spot other : Spot}
    (member : spot ∈ spots skip i args) (taking : takesValue spot.arg = true)
    (there : other ∈ spots skip i args) : other.index ≠ spot.index + 1 := by
  induction args generalizing skip i with
  | nil => simp [spots] at member
  | cons a rest ih =>
    have later : ∀ {skip spot}, spot ∈ spots skip (i + 1) rest → i < spot.index := by
      intro skip spot member
      obtain ⟨j, index, -⟩ := getElem?_of_mem_spots member
      omega
    cases skip with
    | true => exact ih member there
    | false =>
      rcases List.mem_cons.mp member with rfl | member
      · rcases List.mem_cons.mp there with rfl | there
        · exact (Nat.succ_ne_self i).symm
        · -- the value of the option is not visited
          rw [show takesValue a = true from taking] at there
          cases rest with
          | nil => simp [spots] at there
          | cons b rest =>
            have there : other ∈ spots false (i + 2) rest := there
            obtain ⟨j, index, -⟩ := getElem?_of_mem_spots there
            show other.index ≠ i + 1
            omega
      · rcases List.mem_cons.mp there with rfl | there
        · have after := later member
          show i ≠ spot.index + 1
          omega
        · exact ih member there

/-- The body of the loop at a spot, with `skip` taken back. -/
def visitSpot (st : Scan) (spot : Spot) : Scan :=
  { visit st spot.index spot.arg spot.next with skip := false }

theorem visit_skip {st : Scan} (clear : st.skip = false) (i : ℕ) (a : GoString)
    (next : Option GoString) :
    (visit st i a next).skip = (takesValue a && (next.isSome || kind a ≠ .output)) := by
  unfold visit takesValue
  cases here : kind a
  case output => cases next <;> simp [visitOutput, Scan.setFlag, clear]
  case file =>
    dsimp only [visitFile]
    split <;> simp [clear]
  all_goals simp [Scan.setFlag, clear]

/-- A visit to an argument that another one follows, with `skip` taken back and asked for again. -/
theorem visit_eq {st : Scan} (clear : st.skip = false) (i : ℕ) (a b : GoString)
    (rest : List GoString) : visit st i a (b :: rest).head? =
      { visitSpot st ⟨i, a, (b :: rest).head?⟩ with skip := takesValue a } := by
  have asks := visit_skip clear i a (some b)
  rw [Option.isSome_some, Bool.true_or, Bool.and_true] at asks
  rw [← asks]
  rfl

/-- **The loop is a fold over the spots**, if it meets no empty argument there. -/
theorem parseLoop_eq (args : List GoString) (st : Scan) (clear : st.skip = false) (skip : Bool)
    (i : ℕ) (visited : ∀ spot ∈ spots skip i args, spot.arg ≠ []) :
    (parseLoop { st with skip := skip } i args).map ({ · with skip := false }) =
      some ((spots skip i args).foldl visitSpot st) := by
  induction args generalizing st skip i with
  | nil =>
    rw [parseLoop, spots, List.foldl_nil, Option.map_some, ← clear]
  | cons a rest ih =>
    cases skip with
    | true =>
      rw [parseLoop, if_pos rfl, spots]
      exact ih st clear false (i + 1) visited
    | false =>
      rw [spots, List.forall_mem_cons] at visited
      have same : { st with skip := false } = st := by rw [← clear]
      rw [same, parseLoop, if_neg (by simp [clear]), if_neg visited.1, spots, List.foldl_cons]
      cases rest with
      | nil => rfl
      | cons b rest =>
        rw [visit_eq clear]
        exact ih _ rfl (takesValue a) (i + 1) visited.2

theorem visited_of_parseLoop {st : Scan} (clear : st.skip = false)
    {skip : Bool} (returns : (parseLoop { st with skip := skip } i args).isSome = true) :
    ∀ spot ∈ spots skip i args, spot.arg ≠ [] := by
  induction args generalizing st skip i with
  | nil => exact List.forall_mem_nil _
  | cons a rest ih =>
    cases skip with
    | true =>
      rw [parseLoop, if_pos rfl] at returns
      exact ih clear returns
    | false =>
      have same : { st with skip := false } = st := by rw [← clear]
      rw [same, parseLoop, if_neg (by simp [clear])] at returns
      split at returns
      · cases returns
      · rename_i here
        refine List.forall_mem_cons.mpr ⟨here, ?_⟩
        cases rest with
        | nil => cases takesValue a <;> exact List.forall_mem_nil _
        | cons b rest =>
          rw [visit_eq clear] at returns
          exact @ih (i + 1) (visitSpot st ⟨i, a, some b⟩) rfl (takesValue a) returns

def scan (mode : RunMode) (args : List GoString) : Scan :=
  (spots false 0 args).foldl visitSpot (scanStart mode)

def cleaned (args : List GoString) : List GoString := stripUnsupportedArgs (standardize args)

/-- What holds of all arguments, of `-o` and of every absolute path holds of the arguments that
`standardize` leaves. -/
theorem forall_mem_standardize {P : GoString → Prop} (all : ∀ a ∈ args, P a)
    (option : P (bytes "-o")) (path : ∀ rest, P (byte '/' :: rest)) : ∀ a ∈ standardize args, P a := by
  induction args with
  | nil => exact all
  | cons first rest ih =>
    rw [List.forall_mem_cons] at all
    rw [standardize]
    split
    · rename_i joined
      obtain ⟨rest, rfl⟩ := hasPrefix_iff.mp joined
      exact List.forall_mem_cons.mpr ⟨option, List.forall_mem_cons.mpr ⟨path rest, all.2⟩⟩
    · exact List.forall_mem_cons.mpr ⟨all.1, ih all.2⟩

theorem cleaned_nonempty (nonempty : ∀ a ∈ args, a ≠ []) : ∀ a ∈ cleaned args, a ≠ [] := fun a member =>
  forall_mem_standardize nonempty (by decide) nofun a (List.mem_of_mem_filter member)

theorem parse_eq_of_visited (ap : ArgParser)
    (visited : ∀ spot ∈ spots false 0 (cleaned ap.args), spot.arg ≠ []) :
    ap.parse = some (finish (cleaned ap.args) (scan ap.mode (cleaned ap.args))) := by
  have loop := parseLoop_eq (cleaned ap.args) (scanStart ap.mode) rfl false 0 visited
  obtain ⟨st, looped, same⟩ := Option.map_eq_some_iff.mp loop
  show (parseLoop (scanStart ap.mode) 0 (cleaned ap.args)).map _ = _
  rw [show parseLoop (scanStart ap.mode) 0 (cleaned ap.args) = some st from looped, scan, ← same]
  rfl

theorem parse_eq (ap : ArgParser) (nonempty : ∀ a ∈ ap.args, a ≠ []) :
    ap.parse = some (finish (cleaned ap.args) (scan ap.mode (cleaned ap.args))) := by
  refine parse_eq_of_visited ap fun spot member => ?_
  obtain ⟨j, -, here, -⟩ := getElem?_of_mem_spots member
  exact cleaned_nonempty nonempty _ (List.mem_of_getElem? here)

/-! ### The last write stands -/

/-- A field that some spots write and the others leave alone holds what the last of them wrote. -/
theorem foldl_field {σ τ β : Type} {step : σ → τ → σ} (field : σ → β) (write : τ → Option β)
    (writes : ∀ st item, field (step st item) = (write item).getD (field st)) (items : List τ)
    (st : σ) :
    field (items.foldl step st) = (items.filterMap write).getLast?.getD (field st) := by
  induction items generalizing st with
  | nil => rfl
  | cons item items ih =>
    rw [List.foldl_cons, ih, writes]
    cases written : write item with
    | none => rw [List.filterMap_cons_none written, Option.getD_none]
    | some value =>
      rw [List.filterMap_cons_some written, List.getLast?_cons, Option.getD_some, Option.getD_some]

theorem foldl_raised {σ τ : Type} {step : σ → τ → σ} (flag : σ → Bool) (raises : τ → Bool)
    (raised : ∀ st item, flag (step st item) = (raises item || flag st)) (items : List τ) (st : σ) :
    flag (items.foldl step st) = (items.any raises || flag st) := by
  induction items generalizing st with
  | nil => rfl
  | cons item items ih =>
    rw [List.foldl_cons, ih, raised, List.any_cons, ← Bool.or_assoc, Bool.or_comm (raises item)]

def isInput (a : GoString) : Bool := kind a = .file && (isSourceFile a || a = bytes "-")

/-- The input file at a spot, and where it stands. -/
def Spot.input (spot : Spot) : Option (ℕ × GoString) :=
  if isInput spot.arg then some (spot.index, spot.arg) else none

/-- The output path given at a spot, and where it stands. -/
def Spot.output (spot : Spot) : Option (ℕ × GoString) :=
  if kind spot.arg = .output then spot.next.map fun path => (spot.index + 1, path) else none

theorem visitSpot_input (st : Scan) (spot : Spot) :
    ((visitSpot st spot).inputArgIndex, (visitSpot st spot).inputArg) =
      (spot.input.map fun pair => (some pair.1, pair.2)).getD (st.inputArgIndex, st.inputArg) := by
  unfold visitSpot visit Spot.input isInput
  cases kind spot.arg
  case output => cases spot.next <;> rfl
  case file =>
    rw [decide_eq_true rfl, Bool.true_and]
    dsimp only [visitFile]
    split <;> rfl
  all_goals rfl

theorem visitSpot_output (st : Scan) (spot : Spot) :
    ((visitSpot st spot).outputArgIndex, (visitSpot st spot).outputArg) =
      (spot.output.map fun pair => (some pair.1, pair.2)).getD
        (st.outputArgIndex, st.outputArg) := by
  unfold visitSpot visit Spot.output
  cases kind spot.arg
  case output => cases spot.next <;> rfl
  case file =>
    dsimp only [visitFile]
    split <;> rfl
  all_goals rfl

theorem visitSpot_seenOpts (st : Scan) (spot : Spot) :
    ((visitSpot st spot).seenOptC, (visitSpot st spot).seenOptS, (visitSpot st spot).seenOptE) =
      (decide (kind spot.arg = .compile) || st.seenOptC,
        decide (kind spot.arg = .genAssembly) || st.seenOptS,
        decide (kind spot.arg = .preprocess) || st.seenOptE) := by
  unfold visitSpot visit
  cases kind spot.arg
  case output => cases spot.next <;> rfl
  case file =>
    dsimp only [visitFile]
    split <;> rfl
  all_goals rfl

theorem visitSpot_seenOptC (st : Scan) (spot : Spot) : (visitSpot st spot).seenOptC =
    (decide (kind spot.arg = .compile) || st.seenOptC) :=
  congrArg Prod.fst (visitSpot_seenOpts st spot)

theorem visitSpot_seenOptS (st : Scan) (spot : Spot) : (visitSpot st spot).seenOptS =
    (decide (kind spot.arg = .genAssembly) || st.seenOptS) :=
  congrArg (fun seen => seen.2.1) (visitSpot_seenOpts st spot)

theorem visitSpot_seenOptE (st : Scan) (spot : Spot) : (visitSpot st spot).seenOptE =
    (decide (kind spot.arg = .preprocess) || st.seenOptE) :=
  congrArg (fun seen => seen.2.2) (visitSpot_seenOpts st spot)

def actionOptions : List GoString := [bytes "-c", bytes "-S", bytes "-E"]

theorem setFlag_flag (st : Scan) (flag option : GoString) (i : ℕ) :
    (st.setFlag flag i).flagIndexMap option =
      (if flag = option then some (some i) else none).getD (st.flagIndexMap option) := by
  unfold Scan.setFlag
  by_cases same : flag = option
  · simp [same]
  · simp [same, Function.update_of_ne (Ne.symm same)]

/-- The flag under which the loop records the argument. -/
def flagOf (a : GoString) : Option GoString :=
  match kind a with
  | .preprocess | .depend | .dependOther | .pic | .genAssembly | .compile | .output => some a
  | .dependValue => some (a.take 3)
  | .assembler => some (bytes "-Wa")
  | _ => none

theorem visitSpot_flagIndexMap (flag : GoString) (st : Scan) (spot : Spot) :
    (visitSpot st spot).flagIndexMap flag =
      (if flagOf spot.arg = some flag then some (some spot.index) else none).getD
        (st.flagIndexMap flag) := by
  have sets : ∀ own, (st.setFlag own spot.index).flagIndexMap flag =
      (if some own = some flag then some (some spot.index) else none).getD
        (st.flagIndexMap flag) := by
    intro own
    rw [setFlag_flag]
    simp only [Option.some.injEq]
  unfold visitSpot visit flagOf
  cases kind spot.arg
  case output => cases spot.next <;> exact sets _
  case file =>
    dsimp only [visitFile]
    split <;> rfl
  case preprocess | depend | dependValue | dependOther | pic | assembler | genAssembly | compile =>
    exact sets _
  all_goals rfl

/-- Options that are recorded under their own name, and of which the loop looks for no other spelling. -/
def flagOptions : List GoString := actionOptions ++ picArgs

theorem flagOf_eq_option_iff {a option : GoString} (listed : option ∈ flagOptions) :
    flagOf a = some option ↔ a = option := by
  have table : ∀ option ∈ flagOptions, flagOf option = some option ∧
      option ∉ [bytes "-MF", bytes "-MT", bytes "-MQ"] ∧ bytes "-Wa" ≠ option := by decide
  obtain ⟨own, notValue, notAssembler⟩ := table option listed
  refine ⟨fun is => ?_, by rintro rfl; exact own⟩
  unfold flagOf at is
  cases here : kind a <;> rw [here] at is
  case dependValue =>
    exact absurd (Option.some.inj is ▸ take_of_kind_dependValue here) notValue
  case assembler => exact absurd (Option.some.inj is) notAssembler
  case preprocess | depend | dependOther | pic | genAssembly | compile | output =>
    exact Option.some.inj is
  all_goals exact absurd is nofun

theorem visitSpot_flag (listed : option ∈ flagOptions) (st : Scan)
    (spot : Spot) : (visitSpot st spot).flagIndexMap option =
      (if spot.arg = option then some (some spot.index) else none).getD
        (st.flagIndexMap option) := by
  rw [visitSpot_flagIndexMap]
  simp only [flagOf_eq_option_iff listed]

/-! ### The reports, in terms of the words -/

def lastInput (ws : List (Word GoString)) : Option GoString :=
  (ws.filterMap fun word => if isInput word.head then some word.head else none).getLast?

def lastOutput (ws : List (Word GoString)) : Option GoString :=
  (ws.filterMap fun word => if kind word.head = .output then word.value else none).getLast?

def hasOption (option : GoString) (ws : List (Word GoString)) : Bool :=
  ws.any fun word => word.head = option

theorem spot_located {spot : Spot} (member : spot ∈ spots false 0 args) :
    args[spot.index]? = some spot.arg ∧ args[spot.index + 1]? = spot.next := by
  obtain ⟨j, index, located⟩ := getElem?_of_mem_spots member
  rw [Nat.zero_add] at index
  rwa [index]

theorem exists_spot_of_last {β : Type} {write : Spot → Option β} {value : β}
    (last : ((spots false 0 args).filterMap write).getLast? = some value) :
    ∃ spot, write spot = some value ∧ args[spot.index]? = some spot.arg ∧
      args[spot.index + 1]? = spot.next := by
  obtain ⟨spot, member, written⟩ := List.mem_filterMap.mp (List.mem_of_getLast? last)
  exact ⟨spot, written, spot_located member⟩

theorem last_word {β γ : Type} {write : Spot → Option β} {read : Word GoString → Option γ}
    {f : β → γ} (same : ∀ spot, (write spot).map f = read spot.word) (args : List GoString) :
    ((words takesValue args).filterMap read).getLast? =
      ((spots false 0 args).filterMap write).getLast?.map f := by
  rw [← spots_word 0, List.filterMap_map, ← List.getLast?_map, List.map_filterMap]
  exact congrArg (fun g => ((spots false 0 args).filterMap g).getLast?)
    (funext fun spot => (same spot).symm)

theorem getElem?_append_of_some {args more : List GoString}
    (here : args[i]? = some a) : (args ++ more)[i]? = some a := by
  rw [List.getElem?_append_left (List.getElem?_eq_some_iff.mp here).1, here]

/-- The index says where the path stands, and there is no index without a path. -/
def PointsAt (args : List GoString) : Option ℕ → Option GoString → Prop
  | none, none => True
  | some i, some path => args[i]? = some path
  | _, _ => False

theorem PointsAt.bind_eq (points : PointsAt args index path) : index.bind (args[·]?) = path := by
  cases index <;> cases path <;> first | exact points.elim | exact points | rfl

theorem PointsAt.append (points : PointsAt args index path) (more : List GoString) :
    PointsAt (args ++ more) index path := by
  cases index <;> cases path <;> first | exact points.elim | trivial | skip
  exact getElem?_append_of_some points

theorem PointsAt.getD_eq_nil_iff (nonempty : ∀ a ∈ args, a ≠ []) (points : PointsAt args index path) :
    path.getD [] = [] ↔ path = none := by
  cases index <;> cases path <;> first | exact points.elim | exact iff_of_true rfl rfl | skip
  exact iff_of_false (nonempty _ (List.mem_of_getElem? points)) nofun

/-- **An argument the loop keeps, with its index**: it is the last one of its kind, and the index says
where it stands. -/
theorem scan_located {index : Scan → Option ℕ} {arg : Scan → GoString}
    {write : Spot → Option (ℕ × GoString)} {read : Word GoString → Option GoString} {mode : RunMode}
    (start : (index (scanStart mode), arg (scanStart mode)) = (none, []))
    (writes : ∀ st spot, (index (visitSpot st spot), arg (visitSpot st spot)) =
      ((write spot).map fun pair => (some pair.1, pair.2)).getD (index st, arg st))
    (same : ∀ spot, (write spot).map Prod.snd = read spot.word)
    (located : ∀ (args : List GoString) (spot : Spot) pair, args[spot.index]? = some spot.arg →
      args[spot.index + 1]? = spot.next → write spot = some pair → args[pair.1]? = some pair.2)
    (args : List GoString) :
    PointsAt args (index (scan mode args)) ((words takesValue args).filterMap read).getLast? ∧
      arg (scan mode args) = ((words takesValue args).filterMap read).getLast?.getD [] := by
  have last := foldl_field (fun st => (index st, arg st)) _ writes (spots false 0 args)
    (scanStart mode)
  rw [start, ← List.map_filterMap, List.getLast?_map] at last
  rw [last_word same]
  unfold scan
  cases written : ((spots false 0 args).filterMap write).getLast? with
  | none =>
    rw [written] at last
    obtain ⟨noIndex, noArg⟩ := Prod.ext_iff.mp last
    refine ⟨?_, noArg⟩
    rw [show index _ = none from noIndex]
    trivial
  | some pair =>
    rw [written] at last
    obtain ⟨theIndex, theArg⟩ := Prod.ext_iff.mp last
    obtain ⟨spot, here, found, next⟩ := exists_spot_of_last written
    refine ⟨?_, theArg⟩
    rw [show index _ = some pair.1 from theIndex]
    exact located args spot pair found next here

theorem input_word (spot : Spot) : spot.input.map Prod.snd =
    if isInput spot.word.head then some spot.word.head else none := by
  unfold Spot.input Spot.word
  split <;> rfl

theorem output_word (spot : Spot) : spot.output.map Prod.snd =
    if kind spot.word.head = .output then spot.word.value else none := by
  unfold Spot.output Spot.word
  by_cases output : kind spot.arg = .output
  · have taking : takesValue spot.arg = true := by
      rw [kind_eq_output_iff.mp output]
      exact takesValue_output
    simp [output, taking]
  · simp [output]

theorem scan_input (mode : RunMode) (args : List GoString) :
    PointsAt args (scan mode args).inputArgIndex (lastInput (words takesValue args)) ∧
      (scan mode args).inputArg = (lastInput (words takesValue args)).getD [] := by
  refine scan_located rfl visitSpot_input input_word (fun args spot pair here _ is => ?_) args
  rw [Spot.input, Option.ite_none_right_eq_some] at is
  obtain rfl := Option.some.inj is.2
  exact here

theorem scan_output (mode : RunMode) (args : List GoString) :
    PointsAt args (scan mode args).outputArgIndex (lastOutput (words takesValue args)) ∧
      (scan mode args).outputArg = (lastOutput (words takesValue args)).getD [] := by
  refine scan_located rfl visitSpot_output output_word (fun args spot pair _ next is => ?_) args
  rw [Spot.output, Option.ite_none_right_eq_some, Option.map_eq_some_iff] at is
  obtain ⟨-, path, given, rfl⟩ := is
  rw [next, given]

theorem any_spots_word (test : Word GoString → Bool) (args : List GoString) :
    ((spots false 0 args).any fun spot => test spot.word) = (words takesValue args).any test := by
  rw [← spots_word 0, List.any_map]
  rfl

theorem any_spots_kind {k : Kind} (own : ∀ {a}, kind a = k ↔ a = option)
    (args : List GoString) : ((spots false 0 args).any fun spot => decide (kind spot.arg = k)) =
      hasOption option (words takesValue args) := by
  rw [hasOption, ← any_spots_word]
  exact congrArg (List.any _) (funext fun spot => decide_eq_decide.mpr own)

theorem scan_seenOptC (mode : RunMode) (args : List GoString) :
    (scan mode args).seenOptC = hasOption (bytes "-c") (words takesValue args) := by
  rw [scan, foldl_raised _ _ visitSpot_seenOptC, any_spots_kind kind_eq_compile_iff]
  exact Bool.or_false _

theorem scan_seenOptS (mode : RunMode) (args : List GoString) :
    (scan mode args).seenOptS = hasOption (bytes "-S") (words takesValue args) := by
  rw [scan, foldl_raised _ _ visitSpot_seenOptS, any_spots_kind kind_eq_genAssembly_iff]
  exact Bool.or_false _

theorem scan_seenOptE (mode : RunMode) (args : List GoString) :
    (scan mode args).seenOptE = hasOption (bytes "-E") (words takesValue args) := by
  rw [scan, foldl_raised _ _ visitSpot_seenOptE, any_spots_kind kind_eq_preprocess_iff]
  exact Bool.or_false _

theorem scan_flag (listed : option ∈ flagOptions) (mode : RunMode) (args : List GoString) :
    ((scan mode args).flagIndexMap option).isSome = hasOption option (words takesValue args) ∧
      ∀ i, (scan mode args).flagIndexMap option = some i → args[i]? = some option := by
  have last := foldl_field (Scan.flagIndexMap · option) _ (visitSpot_flag listed)
    (spots false 0 args) (scanStart mode)
  have present : hasOption option (words takesValue args) = ((spots false 0 args).filterMap
      fun spot => if spot.arg = option then some (some spot.index) else none).getLast?.isSome := by
    rw [Bool.eq_iff_iff, hasOption, ← any_spots_word, List.any_eq_true,
      Option.isSome_iff_ne_none, Ne, List.getLast?_eq_none_iff, List.filterMap_eq_nil_iff]
    simp only [reduceCtorEq, ite_eq_right_iff, imp_false, not_forall, not_not, exists_prop]
    exact exists_congr fun _ => and_congr_right fun _ => decide_eq_true_iff
  rw [scan, last, present]
  cases written : ((spots false 0 args).filterMap
      fun spot => if spot.arg = option then some (some spot.index) else none).getLast? with
  | none => exact ⟨rfl, nofun⟩
  | some index =>
    obtain ⟨spot, here, found, -⟩ := exists_spot_of_last written
    rw [Option.ite_none_right_eq_some] at here
    obtain rfl := Option.some.inj here.2
    refine ⟨rfl, fun i is => ?_⟩
    obtain rfl := Option.some.inj is
    rw [found, here.1]

/-! ### `Parse` -/

def madeOutput (ws : List (Word GoString)) : Option GoString :=
  if (lastOutput ws).isSome then none
  else if hasOption (bytes "-S") ws then
    some (replaceExtension ((lastInput ws).getD []) (bytes ".s"))
  else if hasOption (bytes "-c") ws then
    some (replaceExtension ((lastInput ws).getD []) (bytes ".o"))
  else if (lastInput ws).isSome && !hasOption (bytes "-E") ws then some (bytes "a.out")
  else none

def action (ws : List (Word GoString)) : ActionOpt :=
  if hasOption (bytes "-c") ws then .compile
  else if hasOption (bytes "-S") ws then .genAssembly
  else if hasOption (bytes "-E") ws then .preprocess
  else .none

def ArgParser.inputPath (ap : ArgParser) : Option GoString := ap.inputArgIndex.bind (ap.args[·]?)

def ArgParser.outputPath (ap : ArgParser) : Option GoString := ap.outputArgIndex.bind (ap.args[·]?)

theorem replaceExtension_ne_nil (path newExt : GoString) (nonempty : newExt ≠ []) :
    replaceExtension path newExt ≠ [] := by
  unfold replaceExtension
  simp [nonempty]

theorem defaultOutput_scan (nonempty : ∀ a ∈ args, a ≠ []) (mode : RunMode) :
    defaultOutput (scan mode args) = madeOutput (words takesValue args) := by
  obtain ⟨inputAt, input⟩ := scan_input mode args
  obtain ⟨outputAt, output⟩ := scan_output mode args
  have noInput := inputAt.getD_eq_nil_iff nonempty
  have noOutput := outputAt.getD_eq_nil_iff nonempty
  unfold defaultOutput madeOutput
  rw [input, output, scan_seenOptC, scan_seenOptS, scan_seenOptE]
  have named : ∀ path, replaceExtension path (bytes ".s") ≠ [] ∧
      replaceExtension path (bytes ".o") ≠ [] := fun path =>
    ⟨replaceExtension_ne_nil path _ (by decide), replaceExtension_ne_nil path _ (by decide)⟩
  cases given : lastOutput (words takesValue args) with
  | some path =>
    rw [given, Option.getD_some] at noOutput
    simp [noOutput]
  | none =>
    cases hasOption (bytes "-S") (words takesValue args) <;>
      cases hasOption (bytes "-c") (words takesValue args) <;>
      cases found : lastInput (words takesValue args) <;> simp_all

/-- **What a call of `Parse` reports** when it worked on the list `args`. -/
structure Reports (args : List GoString) (ap : ArgParser) : Prop where
  args_eq : ap.args = args ++
    ((madeOutput (words takesValue args)).map fun path => [bytes "-o", path]).getD []
  input : ap.inputPath = lastInput (words takesValue args)
  output : ap.outputPath =
    (lastOutput (words takesValue args)).or (madeOutput (words takesValue args))
  action : ap.actionOpt = action (words takesValue args)
  present : ∀ option ∈ actionOptions,
    (ap.flagIndexMap option).isSome = hasOption option (words takesValue args)
  located : ∀ option ∈ actionOptions, ∀ i, ap.flagIndexMap option = some i →
    ap.args[i]? = some option

theorem parse_reports (ap : ArgParser) (nonempty : ∀ a ∈ ap.args, a ≠ []) :
    ∃ result, ap.parse = some result ∧ Reports (cleaned ap.args) result := by
  have clean := cleaned_nonempty nonempty
  refine ⟨_, parse_eq ap nonempty, ?_⟩
  set args := cleaned ap.args
  obtain ⟨inputAt, -⟩ := scan_input ap.mode args
  obtain ⟨outputAt, -⟩ := scan_output ap.mode args
  have made := defaultOutput_scan clean ap.mode
  have flag := fun option (action : option ∈ actionOptions) =>
    scan_flag (List.mem_append_left picArgs action) ap.mode args
  constructor
  · show args ++ _ = _
    rw [made]
  · exact (inputAt.append _).bind_eq
  · show Option.bind (if (defaultOutput _).isSome then _ else _) _ = _
    rw [made]
    cases new : madeOutput (words takesValue args) with
    | none =>
      rw [if_neg (by simp), Option.or_none]
      exact (outputAt.append _).bind_eq
    | some path =>
      have none : lastOutput (words takesValue args) = none := by
        by_contra given
        rw [madeOutput, if_pos (Option.isSome_iff_ne_none.mpr given)] at new
        cases new
      rw [if_pos (by simp), none, Option.none_or, Option.bind_some, finish, made, new]
      simp
  · unfold ArgParser.actionOpt action
    rw [show (finish args (scan ap.mode args)).flagIndexMap = (scan ap.mode args).flagIndexMap from rfl,
      (flag (bytes "-c") (by decide)).1, (flag (bytes "-S") (by decide)).1,
      (flag (bytes "-E") (by decide)).1]
  · exact fun option action => (flag option action).1
  · exact fun option action i is => getElem?_append_of_some ((flag option action).2 i is)

end Kubecc.Cc
