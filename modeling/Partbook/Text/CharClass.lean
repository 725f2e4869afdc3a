import Partbook.Text.DigitRanges
import Partbook.Text.WordRanges
import Partbook.Text.HiddenRanges

/-!
The character classes that scores, names and messages are made of.
-/
namespace Partbook.Text

/-- White space of Unicode, and the four information separators. -/
def blankRanges : Ranges :=
  [(9, 13), (28, 32), (133, 133), (160, 160), (5760, 5760), (8192, 8202), (8232, 8233),
   (8239, 8239), (8287, 8287), (12288, 12288)]

def isBlank (c : Char) : Bool := blankRanges.contains c

/-- The letters that names begin with: those of ASCII. -/
def isLetter (c : Char) : Bool :=
  ('a' ≤ c && c ≤ 'z') || ('A' ≤ c && c ≤ 'Z')

/-- The value of a decimal digit of any script. -/
def decimal? (c : Char) : Option Nat :=
  (decimalZeros.find? fun first => first ≤ c.toNat && c.toNat < first + 10).map (c.toNat - ·)

def isDecimal (c : Char) : Bool := (decimal? c).isSome

/-- A decimal digit or another character that stands for a digit, such as a superscript. -/
def isDigit (c : Char) : Bool := isDecimal c || otherDigitRanges.contains c

/-- A letter, a numeric character or the underscore. -/
def isWord (c : Char) : Bool :=
  c == '_' || isLetter c || isDecimal c || letterRanges.contains c

/-- A character that is shown as itself in quoted text. -/
def isPrintable (c : Char) : Bool := !hiddenRanges.contains c

theorem isWord_of_isDecimal {c : Char} (decimal : isDecimal c) : isWord c := by
  simp [isWord, decimal]

theorem isWord_of_isLetter {c : Char} (letter : isLetter c) : isWord c := by
  simp [isWord, letter]

theorem decimal?_isSome {c : Char} : (decimal? c).isSome = isDecimal c := rfl

end Partbook.Text
