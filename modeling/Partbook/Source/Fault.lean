import Partbook.Source.Cursor
import Partbook.Text.Quoted
import Partbook.Text.Place

/-!
What can be wrong with a text, and the error that says so: a message, the offending text with its
position, and its place once the whole text is known.
-/
namespace Partbook
open Text Source

structure ParseError where
  reason : String
  text : Option String := none
  pos : Option Int := none
  place : Option Place := none
deriving DecidableEq, Repr

namespace ParseError

/-- Finds the place of the error in the text that it is about. -/
def locate (source : String) (error : ParseError) : ParseError :=
  match error.pos with
  | some pos => { error with place := some (Place.ofPos source pos) }
  | none => error

def message (error : ParseError) : String :=
  match error.place, error.pos with
  | some place, _ =>
    error.reason ++ " (line " ++ toString place.line ++ ", column " ++ toString place.column ++ ")"
  | none, some pos => error.reason ++ " (position " ++ toString pos ++ ")"
  | none, none => error.reason

end ParseError

namespace Source

inductive Fault where
  | invalidInput (text : Lexeme)
  | invalidNickname (text : Lexeme)
  /-- Attribute changes end with the text. -/
  | unclosed (bracket : Lexeme)
  /-- A chord separator with nothing before it that can sound in a chord. -/
  | misplacedSeparator (slash : Lexeme)
  /-- A chord separator with no note or rest after it. -/
  | danglingSeparator (slash : Lexeme)
  /-- A part has one call. -/
  | callCount (n : Nat)
deriving DecidableEq, Repr

namespace Fault

/-- The text that is to blame, if it is one piece. -/
def lexeme? : Fault → Option Lexeme
  | invalidInput text | invalidNickname text => some text
  | unclosed bracket => some bracket
  | misplacedSeparator slash | danglingSeparator slash => some slash
  | callCount _ => none

def reason : Fault → String
  | invalidInput text => "invalid input: " ++ quote text.text
  | invalidNickname text => "invalid nickname: " ++ quote text.text
  | unclosed bracket => "missing closing parenthesis after: " ++ quote bracket.text
  | misplacedSeparator slash => "misplaced chord separator: " ++ quote slash.text
  | danglingSeparator slash => "chord separator not followed by a note: " ++ quote slash.text
  | callCount n => "expected one instrument call, got " ++ toString n

def toError (fault : Fault) : ParseError :=
  { reason := fault.reason
    text := fault.lexeme?.map Lexeme.text
    pos := fault.lexeme?.map fun lexeme => (lexeme.pos : Int) }

end Fault

end Source

end Partbook
