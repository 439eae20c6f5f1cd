/-
**Command lines read word by word.**

An argument list in which some arguments take the next one as their value (`takes`). Reading it from
the left gives its words: an argument, with the value it takes. Only the last argument of a list can
be short of its value.

* `words` — the words of a list.
* `words_spell` — a list of complete words is read back as these words, whatever follows.
* `words_cases` — every list is spelled by complete words, or by complete words and one argument
  whose value is missing.
-/

import Mathlib.Data.List.Basic
import Mathlib.Tactic

namespace Kubecc.Lib

variable {α : Type}

/-- An argument and the value it takes, if any. -/
structure Word (α : Type) where
  head : α
  value : Option α
deriving DecidableEq

/-- The arguments a word is written with. -/
def Word.spell (word : Word α) : List α := word.head :: word.value.toList

/-- The arguments a list of words is written with. -/
def spell (ws : List (Word α)) : List α := ws.flatMap Word.spell

@[simp] theorem spell_nil : spell ([] : List (Word α)) = [] := rfl

@[simp] theorem spell_cons (word : Word α) (ws : List (Word α)) :
    spell (word :: ws) = word.head :: (word.value.toList ++ spell ws) := rfl

@[simp] theorem spell_append (ws more : List (Word α)) :
    spell (ws ++ more) = spell ws ++ spell more := List.flatMap_append

section Reading

variable (takes : α → Bool)

/-- The words of an argument list, read from the left. -/
def words : List α → List (Word α)
  | [] => []
  | [arg] => [⟨arg, none⟩]
  | arg :: next :: rest =>
    if takes arg then ⟨arg, some next⟩ :: words rest else ⟨arg, none⟩ :: words (next :: rest)

/-- A word has a value if and only if its argument takes one. -/
def Complete (word : Word α) : Prop := word.value.isSome = takes word.head

variable {takes}

theorem words_cons_of_not_takes {arg : α} (plain : takes arg = false) (rest : List α) :
    words takes (arg :: rest) = ⟨arg, none⟩ :: words takes rest := by
  cases rest with
  | nil => rfl
  | cons next rest => rw [words, if_neg (by simp [plain])]

theorem words_cons_of_takes {arg : α} (taking : takes arg = true) (value : α) (rest : List α) :
    words takes (arg :: value :: rest) = ⟨arg, some value⟩ :: words takes rest := by
  rw [words, if_pos taking]

/-- **Complete words are read back.** -/
theorem words_spell_append {ws : List (Word α)} (complete : ∀ word ∈ ws, Complete takes word)
    (more : List α) : words takes (spell ws ++ more) = ws ++ words takes more := by
  induction ws with
  | nil => rfl
  | cons word ws ih =>
    rw [List.forall_mem_cons] at complete
    obtain ⟨head, value⟩ := word
    have first : value.isSome = takes head := complete.1
    rw [List.cons_append, ← ih complete.2]
    cases value with
    | none => exact words_cons_of_not_takes first.symm _
    | some value => exact words_cons_of_takes first.symm _ _

theorem words_spell {ws : List (Word α)} (complete : ∀ word ∈ ws, Complete takes word) :
    words takes (spell ws) = ws := by
  simpa [words] using words_spell_append complete []

variable (takes) in
/-- **Every argument list is spelled by complete words, up to one missing value at its end.** -/
theorem words_cases (args : List α) :
    ∃ ws, (∀ word ∈ ws, Complete takes word) ∧
      (args = spell ws ∨ ∃ last, takes last = true ∧ args = spell ws ++ [last]) := by
  induction args using words.induct takes with
  | case1 => exact ⟨[], by simp, .inl rfl⟩
  | case2 arg =>
    by_cases taking : takes arg = true
    · exact ⟨[], by simp, .inr ⟨arg, taking, rfl⟩⟩
    · exact ⟨[⟨arg, none⟩], by simpa [Complete] using taking, .inl rfl⟩
  | case3 arg next rest taking ih =>
    obtain ⟨ws, complete, spelled⟩ := ih
    refine ⟨⟨arg, some next⟩ :: ws, List.forall_mem_cons.mpr ⟨taking.symm, complete⟩, ?_⟩
    rcases spelled with rfl | ⟨last, lacking, rfl⟩
    · exact .inl rfl
    · exact .inr ⟨last, lacking, rfl⟩
  | case4 arg next rest taking ih =>
    obtain ⟨ws, complete, spelled⟩ := ih
    refine ⟨⟨arg, none⟩ :: ws, List.forall_mem_cons.mpr ⟨by simpa [Complete] using taking, complete⟩, ?_⟩
    rcases spelled with same | ⟨last, lacking, same⟩
    · exact .inl (by rw [same]; rfl)
    · exact .inr ⟨last, lacking, by rw [same]; rfl⟩

end Reading

end Kubecc.Lib
