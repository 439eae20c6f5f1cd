/-
**Routed by hash, matched by equivalence.**

The scheduler's router finds an agent by the hash of the request's toolchain; the agent then looks for
a toolchain of its own store that is equivalent to it (`Store.TryMatch` of `pkg/toolchains/store.go`).
The two agree as long as the hash tells toolchains apart exactly when `EquivalentTo` does.

`Toolchain.Hash` writes the architecture, the two enum names and the version with nothing between them.
So the text of one field may be read as part of the next.

* `Clash` — the ways in which two toolchains that are not equivalent write one text.
* `hash_agrees_iff` — hash and equivalence agree on two toolchains exactly if they do not clash; and
  what this means for the request's way to a match.
-/

import Kubecc.Types.Toolchain

namespace Kubecc.Toolchains

open Kubecc.Go Kubecc.Types

/-- `Store.TryMatch`, over the toolchains that `Items` yields, in some order. -/
def tryMatch (items : List Toolchain) (other : Toolchain) : Except GoString Toolchain :=
  match items.find? (·.equivalentTo other) with
  | some tc => .ok tc
  | none => .error (bytes "No local toolchain matches remote")

theorem tryMatch_ok_iff {items : List Toolchain} {other : Toolchain} :
    (∃ found, tryMatch items other = .ok found) ↔ ∃ tc ∈ items, tc.equivalentTo other = true := by
  unfold tryMatch
  rw [← List.find?_isSome]
  cases items.find? (·.equivalentTo other) <;> simp

/-! ### What one text can be read as -/

/-- The names written for the kind and the language. -/
def names (tc : Toolchain) : GoString :=
  enumName toolchainKindNames tc.kind ++ enumName toolchainLangNames tc.lang

theorem hash_eq (tc : Toolchain) : tc.hash = tc.targetArch ++ (names tc ++ tc.version) := by
  simp [Toolchain.hash, Toolchain.writes, names]

/-- **Text moves across the end of the architecture**: `other` has it in its architecture, `tc` after
its own. -/
def ArchGoesOn (tc other : Toolchain) : Prop :=
  ∃ moved ≠ [], other.targetArch = tc.targetArch ++ moved ∧
    names tc ++ tc.version = moved ++ (names other ++ other.version)

/-- **Text moves across the start of the version**: the names of `other` go on where those of `tc` end,
and the version of `tc` supplies the rest. -/
def NamesGoOn (tc other : Toolchain) : Prop :=
  tc.targetArch = other.targetArch ∧
    ∃ moved ≠ [], names other = names tc ++ moved ∧ tc.version = moved ++ other.version

/-- Different numbers that have the same name, or none. -/
def NamedAlike (tc other : Toolchain) : Prop :=
  tc.targetArch = other.targetArch ∧ tc.version = other.version ∧ names tc = names other ∧
    ¬ (tc.kind = other.kind ∧ tc.lang = other.lang)

def Clash (tc other : Toolchain) : Prop :=
  ArchGoesOn tc other ∨ ArchGoesOn other tc ∨ NamesGoOn tc other ∨ NamesGoOn other tc ∨
    NamedAlike tc other

variable {tc other : Toolchain}

theorem hash_eq_of_equivalentTo (equivalent : tc.equivalentTo other = true) : tc.hash = other.hash := by
  obtain ⟨kind, lang, arch, version⟩ := Toolchain.equivalentTo_iff.mp equivalent
  rw [hash_eq, hash_eq, names, names, kind, lang, arch, version]

theorem Clash.hash_eq_and_not (clash : Clash tc other) :
    tc.hash = other.hash ∧ ¬ tc.equivalentTo other = true := by
  rw [Toolchain.equivalentTo_iff, hash_eq, hash_eq]
  rcases clash with ⟨moved, some, arch, rest⟩ | ⟨moved, some, arch, rest⟩ |
    ⟨arch, moved, some, goesOn, version⟩ | ⟨arch, moved, some, goesOn, version⟩ |
    ⟨arch, version, same, differ⟩
  · refine ⟨by rw [arch, rest, List.append_assoc], fun ⟨_, _, same, _⟩ => some ?_⟩
    exact List.append_right_eq_self.mp (arch.symm.trans same.symm)
  · refine ⟨by rw [arch, rest, List.append_assoc], fun ⟨_, _, same, _⟩ => some ?_⟩
    exact List.append_right_eq_self.mp (arch.symm.trans same)
  · refine ⟨by rw [arch, goesOn, version, List.append_assoc], fun ⟨_, _, _, same⟩ => some ?_⟩
    exact List.append_left_eq_self.mp (version.symm.trans same)
  · refine ⟨by rw [arch, goesOn, version, List.append_assoc], fun ⟨_, _, _, same⟩ => some ?_⟩
    exact List.append_left_eq_self.mp (version.symm.trans same.symm)
  · exact ⟨by rw [arch, version, same], fun ⟨kind, lang, _, _⟩ => differ ⟨kind, lang⟩⟩

theorem equivalent_or_clash_of_names (arch : tc.targetArch = other.targetArch)
    (version : tc.version = other.version) (same : names tc = names other) :
    tc.equivalentTo other = true ∨ Clash tc other := by
  by_cases numbers : tc.kind = other.kind ∧ tc.lang = other.lang
  · exact .inl (Toolchain.equivalentTo_iff.mpr ⟨numbers.1, numbers.2, arch, version⟩)
  · exact .inr (.inr (.inr (.inr (.inr ⟨arch, version, same, numbers⟩))))

theorem equivalent_or_clash_of_arch (arch : tc.targetArch = other.targetArch)
    (same : names tc ++ tc.version = names other ++ other.version) :
    tc.equivalentTo other = true ∨ Clash tc other := by
  rcases List.append_eq_append_iff.mp same with ⟨moved, goesOn, version⟩ | ⟨moved, goesOn, version⟩
  · by_cases none : moved = []
    · subst none
      rw [List.append_nil] at goesOn
      rw [List.nil_append] at version
      exact equivalent_or_clash_of_names arch version goesOn.symm
    · exact .inr (.inr (.inr (.inl ⟨arch, moved, none, goesOn, version⟩)))
  · by_cases none : moved = []
    · subst none
      rw [List.append_nil] at goesOn
      rw [List.nil_append] at version
      exact equivalent_or_clash_of_names arch version.symm goesOn
    · exact .inr (.inr (.inr (.inr (.inl ⟨arch.symm, moved, none, goesOn, version⟩))))

theorem equivalent_or_clash (same : tc.hash = other.hash) :
    tc.equivalentTo other = true ∨ Clash tc other := by
  rw [hash_eq, hash_eq] at same
  rcases List.append_eq_append_iff.mp same with ⟨moved, arch, rest⟩ | ⟨moved, arch, rest⟩
  · by_cases none : moved = []
    · subst none
      exact equivalent_or_clash_of_arch (by rw [arch, List.append_nil]) rest
    · exact .inr (.inl ⟨moved, none, arch, rest⟩)
  · by_cases none : moved = []
    · subst none
      exact equivalent_or_clash_of_arch (by rw [arch, List.append_nil]) rest.symm
    · exact .inr (.inr (.inl ⟨moved, none, arch, rest⟩))

/-- **Hash and equivalence agree on two toolchains exactly if they do not clash**; and the way from the
hash to a match in the store leads through exactly if a clash is made up for by another toolchain. -/
theorem hash_agrees_iff (tc other : Toolchain) (items : List Toolchain) :
    ((tc.hash = other.hash ↔ tc.equivalentTo other = true) ↔ ¬ Clash tc other) ∧
      ((tc ∈ items → tc.hash = other.hash → ∃ found, tryMatch items other = .ok found) ↔
        (tc ∈ items → Clash tc other → ∃ found ∈ items, found.equivalentTo other = true)) := by
  constructor
  · constructor
    · intro agree clash
      obtain ⟨same, differ⟩ := clash.hash_eq_and_not
      exact differ (agree.mp same)
    · intro apart
      exact ⟨fun same => (equivalent_or_clash same).resolve_right apart, hash_eq_of_equivalentTo⟩
  · rw [tryMatch_ok_iff]
    constructor
    · intro found member clash
      exact found member clash.hash_eq_and_not.1
    · intro madeUp member same
      rcases equivalent_or_clash same with equivalent | clash
      · exact ⟨tc, member, equivalent⟩
      · exact madeUp member clash

/-- **A C toolchain of version `XX1` and a C++ toolchain of version `1`** write one text; a request for
one is routed to an agent that has only the other, and finds no match. -/
theorem hash_agrees_clash :
    let tc : Toolchain := ⟨1, 1, bytes "/usr/bin/gcc", bytes "amd64", bytes "XX1", false, false⟩
    let other : Toolchain := ⟨1, 2, bytes "/usr/bin/g++", bytes "amd64", bytes "1", false, false⟩
    tc.hash = other.hash ∧ tc.equivalentTo other = false ∧
      tryMatch [tc] other = .error (bytes "No local toolchain matches remote") := by
  decide

end Kubecc.Toolchains
