/-
**Files and directories.**

A file system without links (`Disk`): what is there is in a directory. The functions are `os.Stat`,
`ioutil.ReadFile`, `os.MkdirAll`, `ioutil.WriteFile` and `os.Remove`, as far as they concern what is
where. A system call may fail for reasons of its own: permissions, a full disk, a name that is too long
(`Environment.fails`). Those that change something also say where.

* `makeDirs_spec` — what `os.MkdirAll` makes, and what it leaves alone.
* `makeDirs_ok` — when it succeeds.
-/

import Kubecc.Go.Paths
import Mathlib.Logic.Function.Basic

namespace Kubecc.Go

inductive Node
  | directory
  | file (data : GoString)
deriving DecidableEq

/-- **A file system without links.** -/
structure Disk where
  node : Location → Option Node
  top : node [] = some .directory
  tree : ∀ name place, node (name :: place) ≠ none → node place = some .directory

namespace Disk

def set (disk : Disk) (name : GoString) (place : Location) (node : Node)
    (inside : disk.node place = some .directory)
    (free : disk.node (name :: place) ≠ some .directory) : Disk where
  node := Function.update disk.node (name :: place) (some node)
  top := (Function.update_of_ne (List.cons_ne_nil _ _).symm _ _).trans disk.top
  tree := by
    intro other parent there
    by_cases here : other :: parent = name :: place
    · obtain ⟨rfl, rfl⟩ := List.cons.inj here
      rw [Function.update_of_ne (List.cons_ne_self _ _).symm]
      exact inside
    · rw [Function.update_of_ne here] at there
      have above := disk.tree other parent there
      have elsewhere : parent ≠ name :: place := by
        rintro rfl
        exact free above
      rw [Function.update_of_ne elsewhere]
      exact above

/-- A file is taken away. -/
def remove (disk : Disk) (place : Location) (data : GoString)
    (there : disk.node place = some (.file data)) : Disk where
  node := Function.update disk.node place none
  top := by
    rw [Function.update_of_ne]
    · exact disk.top
    · rintro rfl
      exact absurd (disk.top.symm.trans there) nofun
  tree := by
    intro name parent child
    have old : disk.node (name :: parent) ≠ none := by
      intro none
      refine child ?_
      by_cases here : name :: parent = place
      · rw [here, Function.update_self]
      · rw [Function.update_of_ne here]
        exact none
    have above := disk.tree name parent old
    rw [Function.update_of_ne]
    · exact above
    · rintro rfl
      exact absurd (above.symm.trans there) nofun

theorem node_set_of_ne (disk : Disk) {name : GoString} {place other : Location} {node : Node}
    {inside : disk.node place = some .directory} {free : disk.node (name :: place) ≠ some .directory}
    (differs : other ≠ name :: place) :
    (disk.set name place node inside free).node other = disk.node other :=
  Function.update_of_ne differs _ _

theorem directory_of_append {disk : Disk} {names : List GoString} {place : Location} (below : names ≠ [])
    (there : disk.node (names ++ place) ≠ none) : disk.node place = some .directory := by
  induction names with
  | nil => exact absurd rfl below
  | cons name names ih =>
    have above := disk.tree name (names ++ place) there
    by_cases last : names = []
    · subst last
      exact above
    · exact ih last (by rw [above]; exact nofun)

end Disk

/-! ### System calls -/

inductive SysCall
  | stat
  | read
  | mkdir
  | write
  | remove
deriving DecidableEq

/-- What surrounds a call: the system calls that fail for reasons of their own, the texts of the errors,
and what is left by a write that fails after it has opened the file. -/
structure Environment where
  fails : SysCall → Location → Bool
  describe : SysCall → GoString → GoString
  torn : Option GoString

/-- The place of a path. No name has a zero byte in it. -/
def resolve (cwd : Location) (path : GoString) : Option Location :=
  if path = [] ∨ 0 ∈ path then none else some (locate cwd path)

section Calls

variable (cwd : Location) (env : Environment) (disk : Disk) (path : GoString)

/-- `os.Stat(path)`. -/
def stat : Except GoString Node :=
  match resolve cwd path with
  | none => .error (env.describe .stat path)
  | some place =>
    match env.fails .stat place, disk.node place with
    | false, some node => .ok node
    | _, _ => .error (env.describe .stat path)

/-- `ioutil.ReadFile(path)`. -/
def readFile : Except GoString GoString :=
  match resolve cwd path with
  | none => .error (env.describe .read path)
  | some place =>
    match env.fails .read place, disk.node place with
    | false, some (.file data) => .ok data
    | _, _ => .error (env.describe .read path)

/-- What a call that changes something has done: whether it succeeded, the disk, and where it has made
or written something. -/
structure Changed where
  ok : Bool
  disk : Disk
  touched : List Location

/-- The directories on the way to a place, from the top. -/
def makeDirs (env : Environment) (disk : Disk) : Location → Changed
  | [] => ⟨true, disk, []⟩
  | name :: place =>
    let above := makeDirs env disk place
    if above.ok = false ∨ above.disk.node (name :: place) = some .directory then above
    else if free : above.disk.node (name :: place) = none ∧
        above.disk.node place = some .directory ∧ env.fails .mkdir (name :: place) = false then
      ⟨true, above.disk.set name place .directory free.2.1 (by rw [free.1]; exact nofun),
        (name :: place) :: above.touched⟩
    else { above with ok := false }

/-- `os.MkdirAll(path, …)`. -/
def mkdirAll : Changed :=
  match resolve cwd path with
  | none => ⟨false, disk, []⟩
  | some place => makeDirs env disk place

/-- `ioutil.WriteFile(path, data, …)`. -/
def writeFile (data : GoString) : Changed :=
  match resolve cwd path with
  | some (name :: place) =>
    if free : disk.node place = some .directory ∧ disk.node (name :: place) ≠ some .directory then
      match env.fails .write (name :: place), env.torn with
      | false, _ => ⟨true, disk.set name place (.file data) free.1 free.2, [name :: place]⟩
      | true, some rest => ⟨false, disk.set name place (.file rest) free.1 free.2, [name :: place]⟩
      | true, none => ⟨false, disk, []⟩
    else ⟨false, disk, []⟩
  | _ => ⟨false, disk, []⟩

/-- `os.Remove(path)`, of a file. -/
def removeFile : Changed :=
  match resolve cwd path with
  | none => ⟨false, disk, []⟩
  | some place =>
    match there : disk.node place with
    | some (.file data) =>
      if env.fails .remove place then ⟨false, disk, []⟩
      else ⟨true, disk.remove place data there, [place]⟩
    | _ => ⟨false, disk, []⟩

end Calls

/-! ### What they do -/

section Spec

variable {cwd : Location} {env : Environment} {disk : Disk} {path : GoString} {place : Location}

/-- **`os.MkdirAll`**: what was there stays; what is new was not there, is a directory on the way and is
reported; and if it succeeds, every place on the way is a directory. -/
structure Made (disk : Disk) (place : Location) (changed : Changed) : Prop where
  kept : ∀ other, disk.node other ≠ none → changed.disk.node other = disk.node other
  fresh : ∀ other, disk.node other = none → changed.disk.node other = none ∨
    changed.disk.node other = some .directory ∧ other <:+ place
  touched : ∀ other ∈ changed.touched, disk.node other = none ∧ other <:+ place
  made : changed.ok = true → ∀ other, other <:+ place → changed.disk.node other = some .directory

theorem makeDirs_spec (env : Environment) (disk : Disk) (place : Location) :
    Made disk place (makeDirs env disk place) := by
  induction place with
  | nil =>
    refine ⟨fun _ _ => rfl, fun _ none => .inl none, List.forall_mem_nil _, fun _ other onWay => ?_⟩
    rw [List.suffix_nil.mp onWay]
    exact disk.top
  | cons name place ih =>
    have longer : ∀ {other}, other <:+ place → other <:+ name :: place := fun onWay =>
      onWay.trans (List.suffix_cons name place)
    have fresh : ∀ other, disk.node other = none → (makeDirs env disk place).disk.node other = none ∨
        (makeDirs env disk place).disk.node other = some .directory ∧ other <:+ name :: place := by
      intro other none
      exact (ih.fresh other none).imp_right fun ⟨made, onWay⟩ => ⟨made, longer onWay⟩
    have touched : ∀ other ∈ (makeDirs env disk place).touched,
        disk.node other = none ∧ other <:+ name :: place := fun other member =>
      ⟨(ih.touched other member).1, longer (ih.touched other member).2⟩
    dsimp only [makeDirs]
    split
    · rename_i stays
      refine ⟨ih.kept, fresh, touched, fun ok other onWay => ?_⟩
      rcases List.suffix_cons_iff.mp onWay with rfl | above
      · exact stays.resolve_left (by rw [ok]; exact nofun)
      · exact ih.made ok other above
    · rename_i new
      split
      · rename_i free
        have absent : disk.node (name :: place) = none := by
          by_contra there
          exact absurd (ih.kept _ there) (by rw [free.1]; exact fun is => there is.symm)
        refine ⟨fun other there => ?_, fun other none => ?_, ?_, fun _ other onWay => ?_⟩
        · have elsewhere : other ≠ name :: place := by
            rintro rfl
            exact there absent
          rw [Disk.node_set_of_ne _ elsewhere]
          exact ih.kept other there
        · by_cases here : other = name :: place
          · subst here
            exact .inr ⟨Function.update_self .., List.suffix_rfl⟩
          · rw [Disk.node_set_of_ne _ here]
            exact fresh other none
        · exact List.forall_mem_cons.mpr ⟨⟨absent, List.suffix_rfl⟩, touched⟩
        · rcases List.suffix_cons_iff.mp onWay with rfl | above
          · exact Function.update_self ..
          · have ok : (makeDirs env disk place).ok = true := Bool.eq_true_of_not_eq_false (not_or.mp new).1
            rw [Disk.node_set_of_ne]
            · exact ih.made ok other above
            · rintro rfl
              exact absurd above.length_le (by simp)
      · exact ⟨ih.kept, fresh, touched, nofun⟩

theorem makeDirs_ok (working : ∀ other, env.fails .mkdir other = false)
    (clear : ∀ other data, other <:+ place → disk.node other ≠ some (.file data)) :
    (makeDirs env disk place).ok = true := by
  induction place with
  | nil => rfl
  | cons name place ih =>
    have ok := ih fun other data onWay => clear other data (onWay.trans (List.suffix_cons name place))
    have spec := makeDirs_spec env disk place
    dsimp only [makeDirs]
    split
    · exact ok
    · rename_i new
      split
      · rfl
      · rename_i blocked
        refine absurd ⟨?_, spec.made ok place List.suffix_rfl, working _⟩ blocked
        cases there : disk.node (name :: place) with
        | none =>
          rcases spec.fresh _ there with none | ⟨_, onWay⟩
          · exact none
          · exact absurd onWay.length_le (by simp)
        | some node =>
          have same := spec.kept (name :: place) (by rw [there]; exact nofun)
          cases node with
          | directory => exact absurd (.inr (same.trans there)) new
          | file data => exact absurd there (clear _ data List.suffix_rfl)

theorem writeFile_ok_iff {data : GoString} : (writeFile cwd env disk path data).ok = true ↔
    ∃ place, resolve cwd path = some place ∧ env.fails .write place = false ∧
      disk.node place.tail = some .directory ∧ disk.node place ≠ some .directory := by
  unfold writeFile
  rcases resolve cwd path with _ | _ | ⟨name, parent⟩
  · simp
  · simp [disk.top]
  · by_cases free : disk.node parent = some .directory ∧ disk.node (name :: parent) ≠ some .directory
    · cases fails : env.fails .write (name :: parent) <;> cases env.torn <;> simp [free, fails]
    · simp only [dif_neg free, Bool.false_eq_true, Option.some.injEq, exists_eq_left', List.tail_cons,
        false_iff, not_and]
      exact fun _ inside => not_and.mp free inside

theorem writeFile_of_ok {data : GoString} (ok : (writeFile cwd env disk path data).ok = true)
    (resolved : resolve cwd path = some place) :
    (writeFile cwd env disk path data).disk.node = Function.update disk.node place (some (.file data)) ∧
      (writeFile cwd env disk path data).touched = [place] := by
  obtain ⟨place', is, works, inside, free⟩ := writeFile_ok_iff.mp ok
  obtain rfl := Option.some.inj (resolved.symm.trans is)
  cases place with
  | nil => exact absurd disk.top free
  | cons name parent =>
    have both : disk.node parent = some .directory ∧ disk.node (name :: parent) ≠ some .directory :=
      ⟨inside, free⟩
    simp only [writeFile, resolved, dif_pos both, works]
    exact ⟨rfl, trivial⟩

theorem stat_ok_iff {node : Node} : stat cwd env disk path = .ok node ↔
    ∃ place, resolve cwd path = some place ∧ env.fails .stat place = false ∧
      disk.node place = some node := by
  unfold stat
  cases resolved : resolve cwd path with
  | none => simp
  | some place =>
    cases fails : env.fails .stat place <;> cases there : disk.node place <;> simp [fails, there]

end Spec

end Kubecc.Go
