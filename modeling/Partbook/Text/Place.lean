/-!
Places in a text, as a reader counts them: lines and columns from one.
-/
namespace Partbook.Text

structure Place where
  line : Nat
  column : Int
deriving DecidableEq, Repr

/-- The characters before a position, which is counted from the end if it is negative. -/
def before (text : List Char) (pos : Int) : List Char :=
  text.take (if pos < 0 then text.length + pos else pos).toNat

/-- The place of the character at `pos`, counted from zero. A position past the end lies on the
last line. Columns of negative positions are negative. -/
def Place.ofPos (text : String) (pos : Int) : Place :=
  let before := before text.toList pos
  let onLine := before.reverse.takeWhile (· != '\n')
  { line := before.count '\n' + 1
    column := pos - (before.length - onLine.length : Nat) + 1 }

example : Place.ofPos "a\n\nbc" 4 = ⟨3, 2⟩ := by decide

example : Place.ofPos "a\n\nbc" (-1) = ⟨3, -3⟩ := by decide

end Partbook.Text
