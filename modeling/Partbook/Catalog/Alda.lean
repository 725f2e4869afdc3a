import Partbook.Catalog.Basic

/-!
The catalog to begin with. It has one entry: scores, in files that end in `.alda`, or that begin
like an instrument call.
-/
namespace Partbook.Catalog
open Text Source

/-- The text begins with names, an optional text in quotes, and a colon, with blanks between. -/
def beginsLikeCall (text : String) : Bool :=
  match (Cursor.ofText text).skipBlanks.name? with
  | none => false
  | some (_, cursor) =>
    let cursor := (cursor.many Cursor.otherName?).2.skipBlanks
    let cursor := match cursor.quoted? with
      | some ((_, inside, _), behind) => if inside.chars = [] then cursor else behind.skipBlanks
      | none => cursor
    (cursor.next? (· == ':')).isSome

def score : CatalogEntry :=
  { name := some "Alda"
    aliases := ["alda"]
    filenames := [("*.alda", 1)]
    mimetypes := [("text/x-alda", 1)]
    guesses := [(beginsLikeCall, 0.5)] }

def initial : Catalog := { entries := [(.score, score)] }

end Partbook.Catalog
