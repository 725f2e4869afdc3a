/-!
File name patterns. An asterisk stands for any text, a question mark for any character, brackets for
one of the characters and ranges in them, or for any other if they begin with an exclamation mark.
Everything else stands for itself; a bracket that is not closed does so too.
-/
namespace Partbook.Glob

inductive Piece where
  | char (c : Char)
  | any
  | many
  | oneOf (negated : Bool) (ranges : List (Char × Char))
deriving DecidableEq, Repr

/-- The characters and ranges between brackets. A hyphen between two characters makes a range. -/
def rangesOf : List Char → List (Char × Char)
  | first :: '-' :: last :: rest => (first, last) :: rangesOf rest
  | c :: rest => (c, c) :: rangesOf rest
  | [] => []

/-- What is between brackets and what is behind them, if they are closed. A closing bracket at the
very beginning stands for itself. -/
def bracket? (text : List Char) : Option (List Char × List Char) :=
  let (front, rest) := match text with
    | '!' :: ']' :: rest => (['!', ']'], rest)
    | '!' :: rest => (['!'], rest)
    | ']' :: rest => ([']'], rest)
    | rest => ([], rest)
  match rest.dropWhile (· != ']') with
  | _ :: behind => some (front ++ rest.takeWhile (· != ']'), behind)
  | [] => none

def oneOfPiece (inside : List Char) : Piece :=
  match inside with
  | '!' :: rest => .oneOf true (rangesOf rest)
  | inside => .oneOf false (rangesOf inside)

/-- The pieces of a pattern. Every round takes at least a character, so that there are no more
rounds than characters. -/
def pieces : Nat → List Char → List Piece
  | 0, _ | _, [] => []
  | rounds + 1, '*' :: rest => .many :: pieces rounds rest
  | rounds + 1, '?' :: rest => .any :: pieces rounds rest
  | rounds + 1, '[' :: rest =>
    match bracket? rest with
    | some (inside, behind) => oneOfPiece inside :: pieces rounds behind
    | none => .char '[' :: pieces rounds rest
  | rounds + 1, c :: rest => .char c :: pieces rounds rest

def Piece.matchesChar (c : Char) : Piece → Bool
  | .char d => c == d
  | .any => true
  | .many => false
  | .oneOf negated ranges => ranges.any (fun (first, last) => first ≤ c && c ≤ last) != negated

def matchesPieces : List Piece → List Char → Bool
  | [], text => text.isEmpty
  | .many :: pieces, [] => matchesPieces pieces []
  | .many :: pieces, c :: text =>
    matchesPieces pieces (c :: text) || matchesPieces (.many :: pieces) text
  | _ :: _, [] => false
  | piece :: pieces, c :: text => piece.matchesChar c && matchesPieces pieces text
termination_by pieces text => (pieces.length + text.length)

/-- The pattern describes the whole text. -/
def describes (pattern text : String) : Bool :=
  matchesPieces (pieces pattern.length pattern.toList) text.toList

end Partbook.Glob
