import Partbook.Source.Music

namespace Partbook.Source

open Text

def blankCodes : List Nat :=
  blankRanges.flatMap fun range => List.range' range.1 (range.2 - range.1 + 1)

theorem mem_blankCodes {c : Char} (blank : isBlank c) : c.toNat ∈ blankCodes := by
  obtain ⟨range, member, within⟩ := List.any_eq_true.mp blank
  simp only [Bool.and_eq_true, decide_eq_true_eq] at within
  refine List.mem_flatMap.mpr ⟨range, member, List.mem_range'.mpr ⟨c.toNat - range.1, ?_, ?_⟩⟩ <;>
    omega

def signs : List Char := [':', '"', '#', '/']

-- one evaluation of the letter tables for all the characters
theorem isNameChar_codes :
    ∀ code ∈ blankCodes ++ signs.map Char.toNat, isNameChar (Char.ofNat code) = false := by
  decide +kernel

theorem isNameChar_of_isBlank {c : Char} (blank : isBlank c) : isNameChar c = false := by
  simpa using isNameChar_codes c.toNat (List.mem_append_left _ (mem_blankCodes blank))

theorem isNameChar_of_sign {c : Char} (sign : c ∈ signs) : isNameChar c = false := by
  simpa using isNameChar_codes c.toNat (List.mem_append_right _ (List.mem_map_of_mem sign))

theorem isWordChar_of_isNameChar {c : Char} (other : isNameChar c = false) :
    isWordChar c = false := by
  simp only [isNameChar, Bool.or_eq_false_iff] at other
  simp [isWordChar, other]

theorem isDecimal_of_isNameChar {c : Char} (other : isNameChar c = false) :
    isDecimal c = false := by
  simp only [isNameChar, isWord, Bool.or_eq_false_iff] at other
  exact other.1.1.1.2

def isCallChar (c : Char) : Bool := isNameChar c || c == '/'

theorem isNameChar_of_isCallChar {c : Char} (other : isCallChar c = false) :
    isNameChar c = false := by
  simp only [isCallChar, Bool.or_eq_false_iff] at other
  exact other.1

theorem isCallChar_of_isBlank {c : Char} (blank : isBlank c) : isCallChar c = false := by
  have other : c ≠ '/' := by
    rintro rfl
    exact absurd blank (by decide)
  simp [isCallChar, isNameChar_of_isBlank blank, other]

theorem isCallChar_of_sign {c : Char} (sign : c ∈ signs) (other : c ≠ '/') :
    isCallChar c = false := by
  simp [isCallChar, isNameChar_of_sign sign, other]

theorem isBlank_of_isLetter {c : Char} (letter : isLetter c) : isBlank c = false := by
  apply Bool.eq_false_iff.mpr
  intro blank
  have none := isNameChar_of_isBlank blank
  simp [isNameChar, isWord_of_isLetter letter] at none

theorem isBlank_of_isDecimal {c : Char} (digit : isDecimal c) : isBlank c = false := by
  apply Bool.eq_false_iff.mpr
  intro blank
  rw [isDecimal_of_isNameChar (isNameChar_of_isBlank blank)] at digit
  cases digit

theorem isLetter_of_isPitch {c : Char} (pitch : isPitch c) : isLetter c := by
  simp only [isPitch, Bool.and_eq_true, decide_eq_true_eq] at pitch
  have high : c ≤ 'z' := Char.le_trans pitch.2 (by decide)
  simp [isLetter, pitch.1, high]

theorem isDecimal_newline : isDecimal '\n' = false :=
  isDecimal_of_isNameChar (isNameChar_of_isBlank (by decide))

theorem isWordChar_newline : isWordChar '\n' = false :=
  isWordChar_of_isNameChar (isNameChar_of_isBlank (by decide))

end Partbook.Source
