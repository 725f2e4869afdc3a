import Partbook.Source.Music

/-!
Whole texts: a score is a prelude and parts, each part an instrument call with its music. Bare
music is read without looking for calls.
-/
namespace Partbook.Source
open Text

/-- What a text is read as. -/
inductive StartRule where
  | score
  | part
  | musicData
deriving DecidableEq, Repr

def StartRule.name : StartRule → String
  | .score => "score"
  | .part => "part"
  | .musicData => "music_data"

def StartRule.ofName? : String → Option StartRule
  | "score" => some .score
  | "part" => some .part
  | "music_data" => some .musicData
  | _ => none

/-- What stands before the first call. -/
inductive PreludeItem where
  | changes (changes : Changes)
  | comment (text : Lexeme)
  | invalid (text : Lexeme)
deriving DecidableEq, Repr

structure Part where
  call : Call
  music : List MusicItem
deriving DecidableEq, Repr

structure Document where
  prelude : List PreludeItem
  parts : List Part
deriving DecidableEq, Repr

/-- Attribute changes may stand before the first call of a score, not of a single part. -/
def Cursor.preludeItem? (withChanges : Bool) (cursor : Cursor) : Option (PreludeItem × Cursor) :=
  let cursor := cursor.skipBlanks
  if startsCall cursor.rest then none
  else
    (if withChanges then cursor.changes?.map (fun (changes, cursor) => (.changes changes, cursor))
      else none)
    <|> cursor.comment?.map (fun (lexeme, cursor) => (.comment lexeme, cursor))
    <|> (cursor.junk? fun text =>
          startsCall text
            || text.head?.any (fun c => isBlank c || c == '#' || withChanges && c == '(')).map
        (fun (lexeme, cursor) => (.invalid lexeme, cursor))

def Cursor.part? (cursor : Cursor) : Option (Part × Cursor) := do
  let (call, cursor) ← cursor.skipBlanks.call?
  let (music, cursor) := cursor.music startsCall
  return ({ call, music }, cursor)

def Document.ofText (withChanges : Bool) (text : String) : Document :=
  let (prelude, cursor) := (Cursor.ofText text).many (Cursor.preludeItem? withChanges)
  { prelude, parts := (cursor.many Cursor.part?).1 }

def musicOfText (text : String) : List MusicItem := ((Cursor.ofText text).music fun _ => false).1

end Partbook.Source
