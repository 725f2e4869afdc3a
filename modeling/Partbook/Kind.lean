import Partbook.Text.Kebab

/-!
The kinds of nodes that document trees are made of, in a hierarchy: each kind has an ancestry of
more general kinds up to the bare node. Kinds of text elements hold a datum, the others do not.
-/
namespace Partbook
open Text

inductive PlainKind where
  | node
  | element
  | headElement
  | blockElement
  | event
  | score
  | globalAttributes
  | instrument
  | instrumentCall
  | tracks
  | musicData
  | attributeChanges
  | attributeChange
  | note
  | rest
  | chord
  | octaveSet
  | octaveUp
  | octaveDown
  | barline
  | duration
  | noteLength
  | tie
  | slur
deriving DecidableEq, Repr

inductive TextKind where
  | textElement
  | value
  | name
  | nickname
  | track
  | attributeName
  | word
  | number
  | pitch
  | accidental
  | dots
deriving DecidableEq, Repr

inductive Kind where
  | plain (kind : PlainKind)
  | text (kind : TextKind)
deriving DecidableEq, Repr

namespace PlainKind

def title : PlainKind → String
  | node => "Node"
  | element => "Element"
  | headElement => "HeadElement"
  | blockElement => "BlockElement"
  | event => "Event"
  | score => "Score"
  | globalAttributes => "GlobalAttributes"
  | instrument => "Instrument"
  | instrumentCall => "InstrumentCall"
  | tracks => "Tracks"
  | musicData => "MusicData"
  | attributeChanges => "AttributeChanges"
  | attributeChange => "AttributeChange"
  | note => "Note"
  | rest => "Rest"
  | chord => "Chord"
  | octaveSet => "OctaveSet"
  | octaveUp => "OctaveUp"
  | octaveDown => "OctaveDown"
  | barline => "Barline"
  | duration => "Duration"
  | noteLength => "NoteLength"
  | tie => "Tie"
  | slur => "Slur"

def all : List PlainKind :=
  [node, element, headElement, blockElement, event, score, globalAttributes, instrument,
   instrumentCall, tracks, musicData, attributeChanges, attributeChange, note, rest, chord,
   octaveSet, octaveUp, octaveDown, barline, duration, noteLength, tie, slur]

end PlainKind

namespace TextKind

def title : TextKind → String
  | textElement => "TextElement"
  | value => "Value"
  | name => "Name"
  | nickname => "Nickname"
  | track => "Track"
  | attributeName => "AttributeName"
  | word => "Word"
  | number => "Number"
  | pitch => "Pitch"
  | accidental => "Accidental"
  | dots => "Dots"

def all : List TextKind :=
  [textElement, value, name, nickname, track, attributeName, word, number, pitch, accidental, dots]

end TextKind

namespace Kind

def title : Kind → String
  | plain kind => kind.title
  | text kind => kind.title

def tag (kind : Kind) : String := kebab kind.title

def ofTitle? (title : String) : Option Kind :=
  ((PlainKind.all.find? (·.title == title)).map plain)
  <|> ((TextKind.all.find? (·.title == title)).map text)

/-- The kinds that a kind belongs to, from itself to the most general. -/
def ancestry (kind : Kind) : List Kind :=
  match kind with
  | plain .node => [kind]
  | plain .element => [kind, plain .node]
  | plain .headElement => [kind, plain .element, plain .node]
  | plain .blockElement => [kind, plain .headElement, plain .element, plain .node]
  | plain .instrumentCall =>
    [kind, plain .blockElement, plain .headElement, plain .element, plain .node]
  | plain .attributeChanges =>
    [kind, plain .event, plain .blockElement, plain .headElement, plain .element, plain .node]
  | plain .rest | plain .octaveSet | plain .octaveUp | plain .octaveDown | plain .barline =>
    [kind, plain .event, plain .headElement, plain .element, plain .node]
  | plain .note | plain .chord => [kind, plain .event, plain .element, plain .node]
  | plain .tie | plain .slur => [kind, plain .headElement, plain .element, plain .node]
  | plain _ => [kind, plain .element, plain .node]
  | text .textElement => [kind, plain .headElement, plain .element, plain .node]
  | text .word | text .number =>
    [kind, text .value, text .textElement, plain .headElement, plain .element, plain .node]
  | text _ => [kind, text .textElement, plain .headElement, plain .element, plain .node]

def isA (kind general : Kind) : Bool := general ∈ kind.ancestry

/-- The kinds that the grammar itself does not have are general ones. -/
def isGeneral : Kind → Bool
  | plain .node | plain .element | plain .headElement | plain .blockElement => true
  | text .textElement => true
  | _ => false

/-- What stands between two children in writing. -/
def separator : Kind → String
  | plain .score => "\n"
  | plain .globalAttributes | plain .attributeChanges => ", "
  | plain .instrument | plain .musicData | plain .attributeChange => " "
  | plain .tracks | plain .chord => "/"
  | _ => ""

end Kind

end Partbook
