/-
**Paths and what they lead to.**

`path.Join`, and the place that a path leads to on a file system without links (`locate`): a path that
begins with a slash is walked from the top, any other one from the working directory. A place is the
list of the names on the way to it, the last one first, so that to be below a directory is to have it as
a suffix.

* `locate_clean` — cleaning a path does not change where it leads.
* `clean_clean_append`, `join_join` — a path is cleaned, and joined, as well in two steps.
* `locate_join` — a joined path leads where its elements lead, one after another.
-/

import Kubecc.Go.Strings

namespace Kubecc.Go

/-- `path.Join(elems...)`: empty elements in front are dropped, later ones are cleaned away. -/
def join (elems : List GoString) : GoString :=
  match elems.dropWhile (· = []) with
  | [] => []
  | elems => clean ([byte '/'].intercalate elems)

/-- A place in the file system: the names on the way to it, the last one first. -/
abbrev Location := List GoString

/-- Where a path leads, from a place: `.` and an empty name stay, `..` goes up, but not from the top. -/
def walk (place : Location) (path : GoString) : Location :=
  (split path (byte '/')).foldl (cleanElem true) place

def locate (cwd : Location) (path : GoString) : Location :=
  walk (if path.head? = some (byte '/') then [] else cwd) path

def Below (directory place : Location) : Prop := ∃ names, names ≠ [] ∧ place = names ++ directory

/-! ### Elements -/

/-- An element that `path.Clean` keeps. -/
def Kept (elem : GoString) : Prop := elem ≠ [] ∧ elem ≠ bytes "." ∧ byte '/' ∉ elem

theorem not_mem_of_mem_split {s elem : GoString} (member : elem ∈ split s (byte '/')) :
    byte '/' ∉ elem := by
  induction s generalizing elem with
  | nil =>
    rw [List.mem_singleton.mp (show elem ∈ [[]] from member)]
    exact List.not_mem_nil
  | cons c s ih =>
    rw [split, List.splitOn_cons_eq_if_modifyHead] at member
    split at member
    · rcases List.mem_cons.mp member with rfl | member
      · exact List.not_mem_nil
      · exact ih member
    · rename_i differs
      cases fields : List.splitOn (byte '/') s with
      | nil => exact absurd fields (List.splitOn_ne_nil _ _)
      | cons first rest =>
        rw [fields, List.modifyHead_cons] at member
        rcases List.mem_cons.mp member with rfl | member
        · refine List.not_mem_cons_of_ne_of_not_mem (fun is => differs (beq_iff_eq.mpr is.symm)) ?_
          exact ih (by rw [split, fields]; exact List.mem_cons_self)
        · exact ih (by rw [split, fields]; exact List.mem_cons_of_mem _ member)

section Clean

variable {rooted anchored : Bool} {out elems : List GoString} {elem : GoString} {place : Location}

theorem cleanElem_skip (skipped : elem = [] ∨ elem = bytes ".") : cleanElem rooted out elem = out := by
  unfold cleanElem
  exact if_pos (by simpa using skipped)

theorem cleanElem_enter (kept : ¬ (elem = [] ∨ elem = bytes ".")) (ordinary : elem ≠ bytes "..") :
    cleanElem rooted out elem = elem :: out := by
  unfold cleanElem
  rw [if_neg (by simpa using kept), if_neg ordinary]

theorem cleanElem_up {last : GoString} (ordinary : last ≠ bytes "..") :
    cleanElem rooted (last :: out) (bytes "..") = out := by
  unfold cleanElem
  rw [if_neg (by decide), if_pos rfl]
  exact if_neg ordinary

theorem cleanElem_up_again :
    cleanElem rooted (bytes ".." :: out) (bytes "..") = bytes ".." :: bytes ".." :: out := by
  unfold cleanElem
  rw [if_neg (by decide), if_pos rfl]
  exact if_pos rfl

theorem kept_cleanElem (slashless : byte '/' ∉ elem) (kept : ∀ name ∈ out, Kept name) :
    ∀ name ∈ cleanElem rooted out elem, Kept name := by
  unfold cleanElem
  split
  · exact kept
  · rename_i other
    have here : Kept elem := by
      simp only [Bool.or_eq_true, decide_eq_true_eq, not_or] at other
      exact ⟨other.1, other.2, slashless⟩
    split
    · split
      · split
        · exact List.forall_mem_cons.mpr ⟨here, kept⟩
        · exact (List.forall_mem_cons.mp kept).2
      · split
        · exact List.forall_mem_nil _
        · exact List.forall_mem_singleton.mpr here
    · exact List.forall_mem_cons.mpr ⟨here, kept⟩

theorem kept_foldl (slashless : ∀ elem ∈ elems, byte '/' ∉ elem) (kept : ∀ name ∈ out, Kept name) :
    ∀ name ∈ elems.foldl (cleanElem rooted) out, Kept name := by
  induction elems generalizing out with
  | nil => exact kept
  | cons elem elems ih =>
    obtain ⟨here, later⟩ := List.forall_mem_cons.mp slashless
    exact ih later (kept_cleanElem here kept)

/-- Where the elements lead that have been kept, the last one first. With `anchored` there is nothing
above the top. -/
def follow (anchored : Bool) (place : Location) (out : List GoString) : Location :=
  out.foldr (fun elem place => cleanElem anchored place elem) place

/-- **One element**: it is followed at once, or kept and followed later. At the top there is nothing
above. -/
theorem follow_cleanElem (top : rooted = true → anchored = true ∧ place = [])
    (kept : ∀ name ∈ out, Kept name) :
    follow anchored place (cleanElem rooted out elem) =
      cleanElem anchored (follow anchored place out) elem := by
  by_cases skipped : elem = [] ∨ elem = bytes "."
  · rw [cleanElem_skip skipped, cleanElem_skip skipped]
  · by_cases up : elem = bytes ".."
    · subst up
      cases out with
      | nil =>
        cases rooted with
        | true =>
          rw [(top rfl).1, (top rfl).2]
          rfl
        | false => rfl
      | cons last before =>
        by_cases upAgain : last = bytes ".."
        · subst upAgain
          rw [cleanElem_up_again]
          rfl
        · obtain ⟨nonempty, noDot, _⟩ := (List.forall_mem_cons.mp kept).1
          have entered : follow anchored place (last :: before) = last :: follow anchored place before :=
            cleanElem_enter (not_or.mpr ⟨nonempty, noDot⟩) upAgain
          rw [cleanElem_up upAgain, entered, cleanElem_up upAgain]
    · rw [cleanElem_enter skipped up]
      rfl

theorem follow_foldl (top : rooted = true → anchored = true ∧ place = [])
    (slashless : ∀ elem ∈ elems, byte '/' ∉ elem) (kept : ∀ name ∈ out, Kept name) :
    follow anchored place (elems.foldl (cleanElem rooted) out) =
      elems.foldl (cleanElem anchored) (follow anchored place out) := by
  induction elems generalizing out with
  | nil => rfl
  | cons elem elems ih =>
    obtain ⟨here, later⟩ := List.forall_mem_cons.mp slashless
    rw [List.foldl_cons, List.foldl_cons, ih later (kept_cleanElem here kept), follow_cleanElem top kept]

end Clean

/-! ### Cleaned paths -/

/-- The elements that `path.Clean` keeps, the last one first. -/
def keptElems (rooted : Bool) (path : GoString) : List GoString :=
  (split path (byte '/')).foldl (cleanElem rooted) []

/-- The path that `path.Clean` makes of them. -/
def render (rooted : Bool) (out : List GoString) : GoString :=
  if rooted then byte '/' :: [byte '/'].intercalate out.reverse
  else if out = [] then bytes "."
  else [byte '/'].intercalate out.reverse

theorem clean_eq_render (path : GoString) :
    clean path = render (path.head? = some (byte '/')) (keptElems (path.head? = some (byte '/')) path) := by
  by_cases rooted : path.head? = some (byte '/') <;>
    simp only [clean, render, keptElems, rooted, decide_true, decide_false, if_true, if_false,
      Bool.false_eq_true]

section Render

variable {rooted anchored : Bool} {out : List GoString} {place : Location}

theorem kept_keptElems (rooted : Bool) (path : GoString) : ∀ name ∈ keptElems rooted path, Kept name :=
  kept_foldl (fun _ => not_mem_of_mem_split) (List.forall_mem_nil _)

theorem follow_keptElems (top : rooted = true → anchored = true ∧ place = []) (path : GoString) :
    follow anchored place (keptElems rooted path) =
      (split path (byte '/')).foldl (cleanElem anchored) place :=
  follow_foldl top (fun _ => not_mem_of_mem_split) (List.forall_mem_nil _)

/-- The kept elements, joined again, lead where they lead one by one. -/
theorem foldl_split_render (kept : ∀ name ∈ out, Kept name) :
    (split (render rooted out) (byte '/')).foldl (cleanElem anchored) place =
      follow anchored place out := by
  have joined : (split ([byte '/'].intercalate out.reverse) (byte '/')).foldl (cleanElem anchored) place =
      follow anchored place out := by
    by_cases empty : out = []
    · subst empty
      rfl
    · have fields : split ([byte '/'].intercalate out.reverse) (byte '/') = out.reverse :=
        List.splitOn_intercalate _ (fun name member => (kept name (List.mem_reverse.mp member)).2.2)
          (by simpa using empty)
      rw [fields, follow, List.foldl_reverse]
  unfold render
  split
  · have fields : split (byte '/' :: [byte '/'].intercalate out.reverse) (byte '/') =
        [] :: split ([byte '/'].intercalate out.reverse) (byte '/') :=
      List.splitOn_append_cons_self [] ([byte '/'].intercalate out.reverse)
    rw [fields]
    exact joined
  · split
    · rename_i empty
      rw [empty]
      rfl
    · exact joined

theorem head?_intercalate {elem : GoString} (nonempty : elem ≠ []) (elems : List GoString) :
    ([byte '/'].intercalate (elem :: elems)).head? = elem.head? := by
  cases elems with
  | nil => rw [List.intercalate_singleton]
  | cons next elems =>
    rw [List.intercalate_cons_cons, List.append_assoc]
    exact List.head?_append_of_ne_nil _ nonempty

theorem head?_render (kept : ∀ name ∈ out, Kept name) :
    render rooted out ≠ [] ∧ ((render rooted out).head? = some (byte '/') ↔ rooted = true) := by
  unfold render
  split
  · rename_i is
    exact ⟨List.cons_ne_nil _ _, fun _ => is, fun _ => rfl⟩
  · rename_i isNot
    split
    · exact ⟨by decide, fun is => absurd is (by decide), fun is => absurd is isNot⟩
    · rename_i some
      cases reversed : out.reverse with
      | nil => exact absurd (List.reverse_eq_nil_iff.mp reversed) some
      | cons first rest =>
        obtain ⟨nonempty, _, slashless⟩ := kept first (List.mem_reverse.mp (reversed ▸ List.mem_cons_self))
        have head := head?_intercalate nonempty rest
        refine ⟨fun empty => ?_, fun is => ?_, fun is => absurd is isNot⟩
        · rw [empty] at head
          exact nonempty (List.head?_eq_none_iff.mp head.symm)
        · rw [head] at is
          exact absurd (List.mem_of_head? is) slashless

end Render

theorem clean_ne_nil (path : GoString) : clean path ≠ [] := by
  rw [clean_eq_render]
  exact (head?_render (kept_keptElems _ path)).1

theorem head?_clean (path : GoString) :
    (clean path).head? = some (byte '/') ↔ path.head? = some (byte '/') := by
  rw [clean_eq_render, (head?_render (kept_keptElems _ path)).2, decide_eq_true_eq]

theorem locate_clean (cwd : Location) (path : GoString) : locate cwd (clean path) = locate cwd path := by
  have place : (if (clean path).head? = some (byte '/') then [] else cwd) =
      if path.head? = some (byte '/') then [] else cwd := if_congr (head?_clean path) rfl rfl
  rw [locate, locate, place, walk, clean_eq_render, foldl_split_render (kept_keptElems _ path)]
  refine follow_keptElems (fun rooted => ⟨rfl, ?_⟩) path
  exact if_pos (of_decide_eq_true rooted)

theorem clean_clean_append {path : GoString} (nonempty : path ≠ []) (more : GoString) :
    clean (clean path ++ byte '/' :: more) = clean (path ++ byte '/' :: more) := by
  have fields : ∀ path, split (path ++ byte '/' :: more) (byte '/') =
      split path (byte '/') ++ split more (byte '/') := fun path =>
    List.splitOn_append_cons_self path more
  have rooted : decide ((clean path ++ byte '/' :: more).head? = some (byte '/')) =
      decide ((path ++ byte '/' :: more).head? = some (byte '/')) := by
    rw [List.head?_append_of_ne_nil _ (clean_ne_nil path), List.head?_append_of_ne_nil _ nonempty]
    exact decide_eq_decide.mpr (head?_clean path)
  have start : decide ((path ++ byte '/' :: more).head? = some (byte '/')) =
      decide (path.head? = some (byte '/')) := by
    rw [List.head?_append_of_ne_nil _ nonempty]
  have same : ∀ rooted : Bool, rooted = decide (path.head? = some (byte '/')) →
      keptElems rooted (clean path ++ byte '/' :: more) = keptElems rooted (path ++ byte '/' :: more) := by
    intro rooted is
    rw [keptElems, keptElems, fields, fields, List.foldl_append, List.foldl_append, clean_eq_render,
      foldl_split_render (kept_keptElems _ path), ← is, follow_keptElems fun is => ⟨is, rfl⟩]
  rw [clean_eq_render (clean path ++ byte '/' :: more), clean_eq_render (path ++ byte '/' :: more), rooted,
    same _ start]

/-! ### Joined paths -/

theorem walk_append (place : Location) (path more : GoString) :
    walk place (path ++ byte '/' :: more) = walk (walk place path) more := by
  have fields : split (path ++ byte '/' :: more) (byte '/') =
      split path (byte '/') ++ split more (byte '/') := List.splitOn_append_cons_self path more
  rw [walk, fields, List.foldl_append]
  rfl

theorem walk_intercalate (place : Location) (elem : GoString) (elems : List GoString) :
    walk place ([byte '/'].intercalate (elem :: elems)) = (elem :: elems).foldl walk place := by
  induction elems generalizing place elem with
  | nil => rw [List.intercalate_singleton, List.foldl_cons, List.foldl_nil]
  | cons next elems ih =>
    rw [List.intercalate_cons_cons, List.append_assoc, List.singleton_append, walk_append, ih]
    rfl

variable {elem : GoString}

theorem join_cons (nonempty : elem ≠ []) (elems : List GoString) :
    join (elem :: elems) = clean ([byte '/'].intercalate (elem :: elems)) := by
  rw [join, List.dropWhile_cons_of_neg (by simpa using nonempty)]

theorem join_ne_nil (nonempty : elem ≠ []) (elems : List GoString) : join (elem :: elems) ≠ [] := by
  rw [join_cons nonempty]
  exact clean_ne_nil _

theorem locate_join (cwd : Location) (nonempty : elem ≠ []) (elems : List GoString) :
    locate cwd (join (elem :: elems)) = elems.foldl walk (locate cwd elem) := by
  rw [join_cons nonempty, locate_clean, locate, head?_intercalate nonempty, walk_intercalate,
    List.foldl_cons]
  rfl

theorem join_join (nonempty : elem ≠ []) (next last : GoString) :
    join [join [elem, next], last] = join [elem, next, last] := by
  have inner : [byte '/'].intercalate [elem, next] ≠ [] := by
    rw [List.intercalate_cons_cons, List.append_assoc]
    exact List.append_ne_nil_of_left_ne_nil nonempty _
  rw [join_cons (join_ne_nil nonempty _), join_cons nonempty, join_cons nonempty]
  have both : [byte '/'].intercalate [elem, next, last] =
      [byte '/'].intercalate [elem, next] ++ byte '/' :: last := by
    simp [List.intercalate_cons_cons]
  rw [both, List.intercalate_cons_cons, List.intercalate_singleton, List.append_assoc,
    List.singleton_append, clean_clean_append inner]

end Kubecc.Go
