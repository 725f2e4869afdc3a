import Partbook.Source.Call

/-!
Music: notes, rests, octaves, barlines, chord separators and attribute changes, with comments and
text that is none of these. Everything between two blanks is kept, in order, with its position.
-/
namespace Partbook.Source
open Text

/-- One part of a written duration. -/
inductive LengthMark where
  | length (number : Lexeme) (dots : Option Lexeme)
  | tie (tilde : Lexeme)
deriving DecidableEq, Repr

/-- Lengths and ties in any order. A tilde without a digit after it is a slur and ends them. -/
structure Duration where
  marks : List LengthMark
  slur : Option Lexeme
deriving DecidableEq, Repr

inductive ValueItem where
  | number (digits : Lexeme)
  | word (text : Lexeme)
  | comment (text : Lexeme)
  | invalid (text : Lexeme)
deriving DecidableEq, Repr

inductive ChangeItem where
  | comma (text : Lexeme)
  | comment (text : Lexeme)
  | invalid (text : Lexeme)
  | change (name : Lexeme) (values : List ValueItem)
deriving DecidableEq, Repr

/-- Attribute changes in parentheses. The closing one is missing if the text ends before it. -/
structure Changes where
  opening : Lexeme
  items : List ChangeItem
  closing : Option Lexeme
deriving DecidableEq, Repr

inductive MusicItem where
  | note (pitch : Lexeme) (accidentals : List Lexeme) (duration : Option Duration)
  | rest (rest : Lexeme) (duration : Option Duration)
  | octaveSet (mark number : Lexeme)
  | octaveUp (mark : Lexeme)
  | octaveDown (mark : Lexeme)
  | barline (mark : Lexeme)
  | separator (slash : Lexeme)
  | changes (changes : Changes)
  | comment (text : Lexeme)
  | invalid (text : Lexeme)
deriving DecidableEq, Repr

def isPitch (c : Char) : Bool := 'a' ≤ c && c ≤ 'g'

def isAccidental (c : Char) : Bool := c == '-' || c == '+' || c == '_'

/-- What may follow the first letter of an attribute's name or of a word. -/
def isWordChar (c : Char) : Bool := isWord c || c == '-'

namespace Cursor

def comment? (cursor : Cursor) : Option (Lexeme × Cursor) :=
  match cursor.rest with
  | '#' :: _ => some (cursor.run (· != '\n'))
  | _ => none

def lengthMark? (cursor : Cursor) : Option (LengthMark × Cursor) :=
  match cursor.run? isDecimal with
  | some (number, cursor) =>
    match cursor.run? (· == '.') with
    | some (dots, cursor) => some (.length number (some dots), cursor)
    | none => some (.length number none, cursor)
  | none => do
    let (tilde, cursor) ← cursor.next? (· == '~')
    if (cursor.next? isDecimal).isSome then return (.tie tilde, cursor) else none

def duration (cursor : Cursor) : Duration × Cursor :=
  let (marks, cursor) := cursor.many lengthMark?
  match cursor.next? (· == '~') with
  | some (slur, cursor) => ({ marks, slur := some slur }, cursor)
  | none => ({ marks, slur := none }, cursor)

/-- A duration begins with a digit or a tilde, directly behind the note or rest. -/
def duration? (cursor : Cursor) : Option Duration × Cursor :=
  if (cursor.next? fun c => isDecimal c || c == '~').isSome then
    let (duration, cursor) := cursor.duration
    (some duration, cursor)
  else (none, cursor)

def note? (cursor : Cursor) : Option (MusicItem × Cursor) := do
  let (pitch, cursor) ← cursor.next? isPitch
  let (accidentals, cursor) := cursor.many (next? isAccidental)
  let (duration, cursor) := cursor.duration?
  return (.note pitch accidentals duration, cursor)

/-- The letter of a rest has no letter behind it. -/
def rest? (cursor : Cursor) : Option (MusicItem × Cursor) := do
  let (rest, cursor) ← cursor.next? (· == 'r')
  if (cursor.next? isLetter).isSome then none
  else
    let (duration, cursor) := cursor.duration?
    return (.rest rest duration, cursor)

def octaveSet? (cursor : Cursor) : Option (MusicItem × Cursor) := do
  let (mark, cursor) ← cursor.next? (· == 'o')
  let (number, cursor) ← cursor.run? isDecimal
  return (.octaveSet mark number, cursor)

def mark? (cursor : Cursor) : Option (MusicItem × Cursor) :=
  match cursor.rest with
  | '>' :: rest => let (mark, cursor) := cursor.cut ['>'] rest; some (.octaveUp mark, cursor)
  | '<' :: rest => let (mark, cursor) := cursor.cut ['<'] rest; some (.octaveDown mark, cursor)
  | '|' :: rest => let (mark, cursor) := cursor.cut ['|'] rest; some (.barline mark, cursor)
  | '/' :: rest => let (mark, cursor) := cursor.cut ['/'] rest; some (.separator mark, cursor)
  | _ => none

/-- A value begins here, or the values end. -/
def startsValue (text : List Char) : Bool :=
  text.head?.any fun c =>
    c == ',' || c == ')' || isDecimal c || isLetter c || isBlank c || c == '#'

/-- A letter and all that can belong to a word. -/
def word? (cursor : Cursor) : Option (Lexeme × Cursor) :=
  match cursor.rest with
  | c :: rest =>
    if isLetter c then
      some (cursor.cut (c :: rest.takeWhile isWordChar) (rest.dropWhile isWordChar))
    else none
  | [] => none

/-- The name of an attribute: a word, with an exclamation mark if the change is for all. -/
def attributeName? (cursor : Cursor) : Option (Lexeme × Cursor) := do
  let (word, cursor) ← cursor.word?
  match cursor.next? (· == '!') with
  | some (mark, cursor) => return (⟨word.pos, word.chars ++ mark.chars⟩, cursor)
  | none => return (word, cursor)

def valueItem? (cursor : Cursor) : Option (ValueItem × Cursor) :=
  let cursor := cursor.skipBlanks
  (cursor.run? isDecimal).map (fun (lexeme, cursor) => (.number lexeme, cursor))
  <|> cursor.word?.map (fun (lexeme, cursor) => (.word lexeme, cursor))
  <|> cursor.comment?.map (fun (lexeme, cursor) => (.comment lexeme, cursor))
  <|> (cursor.junk? startsValue).map (fun (lexeme, cursor) => (.invalid lexeme, cursor))

/-- A change begins here, or the changes end. -/
def startsChange (text : List Char) : Bool :=
  text.head?.any fun c => c == ')' || c == ',' || isLetter c || isBlank c || c == '#'

def changeItem? (cursor : Cursor) : Option (ChangeItem × Cursor) :=
  let cursor := cursor.skipBlanks
  (cursor.next? (· == ',')).map (fun (lexeme, cursor) => (.comma lexeme, cursor))
  <|> cursor.attributeName?.map (fun (name, cursor) =>
    let (values, cursor) := cursor.many valueItem?
    (.change name values, cursor))
  <|> cursor.comment?.map (fun (lexeme, cursor) => (.comment lexeme, cursor))
  <|> (cursor.junk? startsChange).map (fun (lexeme, cursor) => (.invalid lexeme, cursor))

def changes? (cursor : Cursor) : Option (Changes × Cursor) := do
  let (opening, cursor) ← cursor.next? (· == '(')
  let (items, cursor) := cursor.many changeItem?
  match cursor.skipBlanks.next? (· == ')') with
  | some (closing, cursor) => return ({ opening, items, closing := some closing }, cursor)
  | none => return ({ opening, items, closing := none }, cursor)

/-- An item of music other than text that is none. -/
def musicMark? (cursor : Cursor) : Option (MusicItem × Cursor) :=
  cursor.note? <|> cursor.rest? <|> cursor.octaveSet? <|> cursor.mark?
  <|> cursor.changes?.map (fun (changes, cursor) => (.changes changes, cursor))
  <|> cursor.comment?.map (fun (lexeme, cursor) => (.comment lexeme, cursor))

end Cursor

/-- An item of music begins here. -/
def startsMusicMark : List Char → Bool
  | [] => false
  | c :: rest =>
    isPitch c || (c == 'r' && !(rest.head?.any isLetter)) || (c == 'o' && rest.head?.any isDecimal)
    || c == '>' || c == '<' || c == '|' || c == '/' || c == '(' || c == '#'

/-- The next item of music, up to a place where `stops` holds. -/
def Cursor.musicItem? (stops : List Char → Bool) (cursor : Cursor) : Option (MusicItem × Cursor) :=
  let cursor := cursor.skipBlanks
  if stops cursor.rest then none
  else
    cursor.musicMark?
    <|> (cursor.junk? fun text =>
          stops text || startsMusicMark text || text.head?.any isBlank).map
        (fun (lexeme, cursor) => (.invalid lexeme, cursor))

/-- Music up to a place where `stops` holds or to the end of the text. -/
def Cursor.music (stops : List Char → Bool) (cursor : Cursor) : List MusicItem × Cursor :=
  cursor.many (musicItem? stops)

end Partbook.Source
