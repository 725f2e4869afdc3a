import Partbook.Source.Document

/-!
The tokens of a text as a tree: what each piece of the text is, grouped by the mode of reading that
found it. A mode that found nothing leaves no trace in the tree.
-/
namespace Partbook.Source

inductive Action where
  | instrumentName
  | nicknameStart
  | nickname
  | nicknameEnd
  | invalidNickname
  | separator
  | colon
  | comment
  | invalid
  | bracketStart
  | bracketEnd
  | attribute
  | number
  | word
  | pitch
  | accidental
  | rest
  | octave
  | octaveUp
  | octaveDown
  | barline
  | chordSeparator
  | dots
  | tie
  | slur
deriving DecidableEq, Repr

inductive Mode where
  | root
  | part
  | fragment
  | instrument
  | instrumentCall
  | musicData
  | note
  | rest
  | duration
  | attributeChanges
  | attributeValue
deriving DecidableEq, Repr

inductive TokenTree where
  | token (lexeme : Lexeme) (action : Action)
  | context (mode : Mode) (children : List TokenTree)

namespace TokenTree

/-- A mode with what it found, if it found anything. -/
def found (mode : Mode) (children : List TokenTree) : List TokenTree :=
  if children.isEmpty then [] else [context mode children]

mutual

/-- The tokens in the order of the text. -/
def tokens : TokenTree → List (Lexeme × Action)
  | token lexeme action => [(lexeme, action)]
  | context _ children => tokensOfAll children

def tokensOfAll : List TokenTree → List (Lexeme × Action)
  | [] => []
  | tree :: trees => tree.tokens ++ tokensOfAll trees

end

def optional (action : Action) (lexeme : Option Lexeme) : List TokenTree :=
  lexeme.toList.map (token · action)

end TokenTree

open TokenTree

def LengthMark.trees : LengthMark → List TokenTree
  | .length number dots => token number .number :: optional .dots dots
  | .tie tilde => [token tilde .tie]

def Duration.trees (duration : Duration) : List TokenTree :=
  found .duration (duration.marks.flatMap LengthMark.trees ++ optional .slur duration.slur)

def durationTrees (duration : Option Duration) : List TokenTree :=
  duration.toList.flatMap Duration.trees

def ValueItem.tree : ValueItem → TokenTree
  | .number digits => token digits .number
  | .word text => token text .word
  | .comment text => token text .comment
  | .invalid text => token text .invalid

def ChangeItem.trees : ChangeItem → List TokenTree
  | .comma text => [token text .separator]
  | .comment text => [token text .comment]
  | .invalid text => [token text .invalid]
  | .change name values =>
    token name .attribute :: found .attributeValue (values.map ValueItem.tree)

def Changes.tree (changes : Changes) : TokenTree :=
  context .attributeChanges
    (token changes.opening .bracketStart
      :: changes.items.flatMap ChangeItem.trees ++ optional .bracketEnd changes.closing)

def MusicItem.trees : MusicItem → List TokenTree
  | .note pitch accidentals duration =>
    [context .note (token pitch .pitch :: accidentals.map (token · .accidental)
      ++ durationTrees duration)]
  | .rest mark duration => [context .rest (token mark .rest :: durationTrees duration)]
  | .octaveSet mark number => [token mark .octave, token number .number]
  | .octaveUp mark => [token mark .octaveUp]
  | .octaveDown mark => [token mark .octaveDown]
  | .barline mark => [token mark .barline]
  | .separator slash => [token slash .chordSeparator]
  | .changes group => [group.tree]
  | .comment text => [token text .comment]
  | .invalid text => [token text .invalid]

def Quotation.trees : Quotation → List TokenTree
  | .nickname opening name closing =>
    [token opening .nicknameStart, token name .nickname, token closing .nicknameEnd]
  | .invalid text => [token text .invalidNickname]

def Call.tree (call : Call) : TokenTree :=
  context .instrumentCall
    (token call.name .instrumentName
      :: call.others.flatMap (fun (slash, name) =>
          [token slash .separator, token name .instrumentName])
      ++ call.quotation.toList.flatMap Quotation.trees ++ [token call.colon .colon])

def Part.tree (part : Part) : TokenTree :=
  context .instrument
    (part.call.tree :: found .musicData (part.music.flatMap MusicItem.trees))

def PreludeItem.tree : PreludeItem → TokenTree
  | .changes group => group.tree
  | .comment text => token text .comment
  | .invalid text => token text .invalid

def Document.tree (mode : Mode) (document : Document) : TokenTree :=
  context mode (document.prelude.map PreludeItem.tree ++ document.parts.map Part.tree)

/-- The tokens of a text that is read by the given rule. -/
def TokenTree.ofText (rule : StartRule) (text : String) : TokenTree :=
  match rule with
  | .score => (Document.ofText true text).tree .root
  | .part => (Document.ofText false text).tree .part
  | .musicData => context .fragment ((musicOfText text).flatMap MusicItem.trees)

end Partbook.Source
