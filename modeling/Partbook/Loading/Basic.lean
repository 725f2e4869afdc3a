import Partbook.Catalog.Alda
import Partbook.Interpretation
import Partbook.Loading.Encoding

/-!
Interpreting a file: its bytes are decoded, its line ends unified, and the catalog tells how it is
read.
-/
namespace Partbook.Loading
open Source

/-- All line ends as line feeds. -/
def unifyLineEnds : List Char → List Char
  | '\r' :: '\n' :: rest => '\n' :: unifyLineEnds rest
  | '\r' :: rest => '\n' :: unifyLineEnds rest
  | c :: rest => c :: unifyLineEnds rest
  | [] => []

/-- The text of a file. -/
def textOf (encoding : Encoding) (bytes : List UInt8) : Except DecodeError String := do
  return String.ofList (unifyLineEnds (← encoding.decode bytes).toList)

/-- The rule for a file. What is in no catalog is taken for a score. -/
def ruleFor (catalog : Catalog) (filename text : String) : StartRule :=
  (catalog.find none { filename := some filename, contents := some text }).getD .score

/-- Interprets the text of a file, with nobody called before. -/
def interpret (catalog : Catalog) (filename text : String) :
    Except InterpretError Interpretation := do
  let element ← (Element.read (ruleFor catalog filename text) text).mapError .unread
  Interpretation.ofScore {} element

end Partbook.Loading
