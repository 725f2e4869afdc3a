import Partbook.Source.TokenTree

/-!
The modes of reading as lists of rules, and the loop that reads a text with them. The loop keeps a
stack of modes and goes from place to place: the first rule of the innermost mode that finds
something there gives its tokens and may leave modes or enter others. Some rules only look ahead.
Where no rule finds anything, the modes inside notes and rests are left. All others take the text up
to the next place where one of their rules does find something, as text that is none.
-/
namespace Partbook.Source
open Text

structure Rule where
  /-- The tokens at the front of a text, and the place behind them. -/
  find : Cursor → Option (List (Lexeme × Action) × Cursor)
  /-- How many modes are left behind what was found. -/
  leaves : Nat := 0
  /-- The modes that are entered then, the outermost first. -/
  enters : List Mode := []

namespace Rule

variable (read : Cursor → Option (Lexeme × Cursor))

/-- One token. -/
def token (action : Action) : Rule where
  find cursor := (read cursor).map fun (text, after) => ([(text, action)], after)

/-- Text that is no token. -/
def skip : Rule where
  find cursor := (read cursor).map fun (_, after) => ([], after)

/-- Nothing is taken where the text that follows begins as it should. -/
def ahead (starts : List Char → Bool) : Rule where
  find cursor := if starts cursor.rest then some ([], cursor) else none

end Rule

namespace Cursor

/-- The letter of a rest, with no letter behind it. -/
def restLetter? (cursor : Cursor) : Option (Lexeme × Cursor) := do
  let (mark, after) ← cursor.next? (· == 'r')
  if (after.next? isLetter).isSome then none else return (mark, after)

/-- A tilde before a digit. -/
def tie? (cursor : Cursor) : Option (Lexeme × Cursor) := do
  let (tilde, after) ← cursor.next? (· == '~')
  if (after.next? isDecimal).isSome then return (tilde, after) else none

/-- The letter of an octave and all digits behind it. -/
def octaveTokens? (cursor : Cursor) : Option (List (Lexeme × Action) × Cursor) := do
  let (mark, cursor) ← cursor.next? (· == 'o')
  let (number, cursor) ← cursor.run? isDecimal
  return ([(mark, .octave), (number, .number)], cursor)

/-- A number and all dots behind it. -/
def lengthTokens? (cursor : Cursor) : Option (List (Lexeme × Action) × Cursor) := do
  let (number, cursor) ← cursor.run? isDecimal
  match cursor.run? (· == '.') with
  | some (dots, cursor) => return ([(number, .number), (dots, .dots)], cursor)
  | none => return ([(number, .number)], cursor)

/-- A whole name in quotes. -/
def nicknameTokens? (cursor : Cursor) : Option (List (Lexeme × Action) × Cursor) := do
  let ((opening, text, closing), cursor) ← cursor.quoted?
  if isName text.chars then
    return ([(opening, .nicknameStart), (text, .nickname), (closing, .nicknameEnd)], cursor)
  else none

/-- Anything in quotes, with the quotes. -/
def wholeQuotation? (cursor : Cursor) : Option (Lexeme × Cursor) := do
  let ((opening, text, closing), cursor) ← cursor.quoted?
  return (⟨opening.pos, opening.chars ++ text.chars ++ closing.chars⟩, cursor)

end Cursor

open Rule

/-- Blanks and comments. -/
def gapRules : List Rule := [skip (·.run? isBlank), token (·.comment?) .comment]

def callRule : Rule := { ahead startsCall with enters := [.instrument, .instrumentCall] }

def groupRule : Rule :=
  { token (·.next? (· == '(')) .bracketStart with enters := [.attributeChanges] }

def durationRule : Rule :=
  { ahead (fun text => text.head?.any fun c => isDecimal c || c == '~') with enters := [.duration] }

def eventRules : List Rule :=
  [{ token (·.next? isPitch) .pitch with enters := [.note] },
    { token (·.restLetter?) .rest with enters := [.rest] },
    { find := (·.octaveTokens?) },
    token (·.next? (· == '>')) .octaveUp,
    token (·.next? (· == '<')) .octaveDown,
    token (·.next? (· == '|')) .barline,
    token (·.next? (· == '/')) .chordSeparator,
    groupRule] ++ gapRules

namespace Mode

/-- The rules of a mode, in the order in which they are tried. -/
def rules : Mode → List Rule
  | root => callRule :: groupRule :: gapRules
  | part => callRule :: gapRules
  | fragment => eventRules
  | instrument => []
  | instrumentCall =>
    [token (·.name?) .instrumentName,
      token (·.next? (· == '/')) .separator,
      { find := (·.nicknameTokens?) },
      token (·.wholeQuotation?) .invalidNickname,
      { token (·.next? (· == ':')) .colon with leaves := 1, enters := [.musicData] },
      skip (·.run? isBlank)]
  | musicData => { ahead startsCall with leaves := 2 } :: eventRules
  | note => [token (·.next? isAccidental) .accidental, durationRule]
  | rest => [durationRule]
  | duration =>
    [{ find := (·.lengthTokens?) },
      token (·.tie?) .tie,
      { token (·.next? (· == '~')) .slur with leaves := 2 }]
  | attributeChanges =>
    [{ token (·.next? (· == ')')) .bracketEnd with leaves := 1 },
      token (·.next? (· == ',')) .separator,
      { token (·.attributeName?) .attribute with enters := [.attributeValue] }] ++ gapRules
  | attributeValue =>
    [{ ahead (fun text => text.head?.any fun c => c == ',' || c == ')') with leaves := 1 },
      token (·.run? isDecimal) .number,
      token (·.word?) .word] ++ gapRules

/-- How many modes are left where no rule finds anything. All other modes take what stands there as
text that is none. -/
def leftBy? : Mode → Option Nat
  | instrument | note | rest => some 1
  | duration => some 2
  | root | part | fragment | instrumentCall | musicData | attributeChanges | attributeValue => none

end Mode

/-- The first of the rules that finds something, and what it finds. -/
def firstRule? (rules : List Rule) (cursor : Cursor) :
    Option (Rule × List (Lexeme × Action) × Cursor) :=
  rules.findSome? fun rule => (rule.find cursor).map fun found => (rule, found)

/-- The loop on its way: the modes that it is in, the innermost first, and its place. -/
structure Lexer where
  modes : List Mode
  cursor : Cursor

namespace Lexer

/-- What the loop starts from. -/
def start (rule : StartRule) (text : String) : Lexer where
  modes := [match rule with
    | .score => .root
    | .part => .part
    | .musicData => .fragment]
  cursor := .ofText text

/-- The tokens of one round, and where the loop goes on. It ends where no text is left to the mode
that it is in. -/
def step (lexer : Lexer) : Option (List (Lexeme × Action) × Lexer) :=
  match lexer.modes with
  | [] => none
  | mode :: outer =>
    match firstRule? mode.rules lexer.cursor with
    | some (rule, tokens, after) =>
      some (tokens, ⟨rule.enters.reverse ++ (mode :: outer).drop rule.leaves, after⟩)
    | none =>
      match mode.leftBy? with
      | some leaves => some ([], ⟨(mode :: outer).drop leaves, lexer.cursor⟩)
      | none =>
        (lexer.cursor.junk? fun text => (firstRule? mode.rules ⟨0, text⟩).isSome).map
          fun (text, after) => ([(text, .invalid)], ⟨mode :: outer, after⟩)

end Lexer

end Partbook.Source
