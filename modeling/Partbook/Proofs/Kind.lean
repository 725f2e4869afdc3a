import Partbook.Kind
import Mathlib.Data.List.Nodup

namespace Partbook

namespace Text

def lowerPlain (c : Char) : Char :=
  if 65 ≤ c.toNat ∧ c.toNat ≤ 90 then Char.ofNat (c.toNat + 32) else c

theorem lowerChar_of_plain {c : Char} (plain : c.toNat < 128) : lowerChar c = [lowerPlain c] := by
  have later : ∀ run ∈ capitalRuns.tail, 128 ≤ run.first := by decide +kernel
  have runs : capitalRuns = ⟨65, 90, 1, 32⟩ :: capitalRuns.tail := rfl
  have undotted : c ≠ 'İ' := by
    rintro rfl
    exact absurd plain (by decide)
  have capital : CapitalRun.holds ⟨65, 90, 1, 32⟩ c = decide (65 ≤ c.toNat ∧ c.toNat ≤ 90) := by
    simp [CapitalRun.holds, Nat.mod_one]
  have small : CapitalRun.lower ⟨65, 90, 1, 32⟩ c = Char.ofNat (c.toNat + 32) := rfl
  have none : capitalRuns.tail.find? (·.holds c) = none := by
    rw [List.find?_eq_none]
    intro run member holds
    simp only [CapitalRun.holds, Bool.and_eq_true, decide_eq_true_eq] at holds
    exact absurd (later run member) (by omega)
  rw [lowerChar, if_neg (by simpa using undotted), runs, List.find?_cons, capital, none, lowerPlain]
  by_cases upper : 65 ≤ c.toNat ∧ c.toNat ≤ 90 <;> simp [upper, small]

theorem lowerFrom_of_plain {chars : List Char} (plain : ∀ c ∈ chars, c.toNat < 128)
    (before : List Char) : lowerFrom before chars = chars.map lowerPlain := by
  induction chars generalizing before with
  | nil => rfl
  | cons c chars ih =>
    rw [List.forall_mem_cons] at plain
    have other : c ≠ 'Σ' := by
      rintro rfl
      exact absurd plain.1 (by decide)
    simp [lowerFrom, other, lowerChar_of_plain plain.1, ih plain.2]

end Text

namespace Kind

open Text

def all : List Kind := PlainKind.all.map plain ++ TextKind.all.map text

theorem mem_all (kind : Kind) : kind ∈ all := by
  cases kind with
  | plain kind => cases kind <;> decide
  | text kind => cases kind <;> decide

def letters (kind : Kind) : List Char := (hyphenate '-' kind.title.toList).map lowerPlain

theorem tag_eq (kind : Kind) : kind.tag = String.ofList kind.letters := by
  have titles : (all.all fun kind =>
      (hyphenate '-' kind.title.toList).all fun c => decide (c.toNat < 128)) = true := by
    decide +kernel
  have plain : ∀ c ∈ hyphenate '-' kind.title.toList, c.toNat < 128 := by
    simpa using List.all_eq_true.mp titles kind kind.mem_all
  rw [tag, kebab, lower, String.toList_ofList, lowerFrom_of_plain plain, letters]

theorem tag_inj {kind kind' : Kind} (same : kind.tag = kind'.tag) : kind = kind' := by
  have distinct : (all.map letters).Nodup := by decide +kernel
  rw [tag_eq, tag_eq, String.ofList_inj] at same
  exact List.inj_on_of_nodup_map distinct kind.mem_all kind'.mem_all same

def ofTag? (tag : String) : Option Kind := all.find? (·.tag == tag)

theorem ofTag?_tag (kind : Kind) : ofTag? kind.tag = some kind := by
  have exists_ : (ofTag? kind.tag).isSome :=
    List.find?_isSome.mpr ⟨kind, kind.mem_all, beq_self_eq_true _⟩
  obtain ⟨found, is⟩ := Option.isSome_iff_exists.mp exists_
  have same : found.tag = kind.tag := by simpa using List.find?_some is
  rw [is, tag_inj same]

end Kind

end Partbook
