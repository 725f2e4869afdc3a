import Partbook.Text.Quoted

/-!
Integers in decimal notation: blanks around, a sign, digits of any script with single underscores
between them.
-/
namespace Partbook.Text

/-- Digits that may be parted by single underscores, continuing the value `n`. -/
def digitsFrom (n : Nat) : List Char → Option Nat
  | [] => some n
  | '_' :: c :: rest => do digitsFrom (10 * n + (← decimal? c)) rest
  | c :: rest => do digitsFrom (10 * n + (← decimal? c)) rest

def natOfChars? : List Char → Option Nat
  | [] => none
  | c :: rest => do digitsFrom (← decimal? c) rest

def intOfChars? : List Char → Option Int
  | '-' :: rest => (natOfChars? rest).map fun n => -(n : Int)
  | '+' :: rest => (natOfChars? rest).map fun n => (n : Int)
  | rest => (natOfChars? rest).map fun n => (n : Int)

/-- The blanks that may surround a numeral: all but the information separators. -/
def isMargin (c : Char) : Bool := isBlank c && !(28 ≤ c.toNat && c.toNat ≤ 31)

def trim (p : Char → Bool) (text : List Char) : List Char :=
  ((text.dropWhile p).reverse.dropWhile p).reverse

def int? (text : String) : Option Int := intOfChars? (trim isMargin text.toList)

/-- What is said of a text that is no numeral. A long text is cut off. -/
def refusal (text : String) : String :=
  "invalid literal for int() with base 10: " ++ String.ofList ((quoteChars text.toList).take 200)

end Partbook.Text
