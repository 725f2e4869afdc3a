import Partbook.Source.Cursor

/-!
Instrument calls: names parted by slashes, an optional nickname in quotes after a blank, a colon.
-/
namespace Partbook.Source
open Text

/-- The quoted text of a call. It is a nickname only if a whole name stands between the quotes. -/
inductive Quotation where
  | nickname (opening name closing : Lexeme)
  | invalid (text : Lexeme)
deriving DecidableEq, Repr

structure Call where
  name : Lexeme
  /-- Each further name with the slash before it. -/
  others : List (Lexeme × Lexeme)
  quotation : Option Quotation
  colon : Lexeme
deriving DecidableEq, Repr

/-- What may follow the first two letters of a name. -/
def isNameChar (c : Char) : Bool := isWord c || c == '-' || c == '+'

/-- A name begins with two letters. -/
def isName : List Char → Bool
  | a :: b :: rest => isLetter a && isLetter b && rest.all isNameChar
  | _ => false

namespace Cursor

def name? (cursor : Cursor) : Option (Lexeme × Cursor) :=
  match cursor.rest with
  | a :: b :: rest =>
    if isLetter a && isLetter b then
      some (cursor.cut (a :: b :: rest.takeWhile isNameChar) (rest.dropWhile isNameChar))
    else none
  | _ => none

def otherName? (cursor : Cursor) : Option ((Lexeme × Lexeme) × Cursor) := do
  let (slash, cursor) ← cursor.next? (· == '/')
  let (name, cursor) ← cursor.name?
  return ((slash, name), cursor)

/-- Text in double quotes that ends on the same line, in quotes, text and quotes. -/
def quoted? (cursor : Cursor) : Option ((Lexeme × Lexeme × Lexeme) × Cursor) := do
  let (opening, cursor) ← cursor.next? (· == '"')
  let (text, cursor) := cursor.run fun c => c != '"' && c != '\n'
  let (closing, cursor) ← cursor.next? (· == '"')
  return ((opening, text, closing), cursor)

def quotation? (cursor : Cursor) : Option (Quotation × Cursor) := do
  let ((opening, text, closing), cursor) ← cursor.quoted?
  if isName text.chars then return (.nickname opening text closing, cursor)
  else return (.invalid ⟨opening.pos, opening.chars ++ text.chars ++ closing.chars⟩, cursor)

/-- The quotation of a call stands behind at least one blank. -/
def spacedQuotation? (cursor : Cursor) : Option (Quotation × Cursor) := do
  let (_, cursor) ← cursor.run? isBlank
  cursor.quotation?

def call? (cursor : Cursor) : Option (Call × Cursor) := do
  let (name, cursor) ← cursor.name?
  let (others, cursor) := cursor.many otherName?
  let (quotation, cursor) := match cursor.spacedQuotation? with
    | some (quotation, cursor) => (some quotation, cursor)
    | none => (none, cursor)
  let (colon, cursor) ← cursor.skipBlanks.next? (· == ':')
  return ({ name, others, quotation, colon }, cursor)

end Cursor

/-- An instrument call begins here. -/
def startsCall (text : List Char) : Bool := (Cursor.mk 0 text).call?.isSome

end Partbook.Source
