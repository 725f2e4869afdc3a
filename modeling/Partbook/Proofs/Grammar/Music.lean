import Partbook.Element.OfSource

/-!
The grammar of music, with no word of how it is read. A relation between a text, trees and a rest
says what may stand at the front of the text and what is left behind it. The trees know no origins.
Numbers, words and the parts of a duration go on for as long as they can; gaps, notes and all other
items may follow each other in any order.
-/
namespace Partbook.Grammar

open Text Source

def Apart (p : Char → Bool) (text : List Char) : Prop := ∀ c ∈ text.head?, p c = false

def leaf (kind : TextKind) (chars : List Char) : Element := .text kind (.text (String.ofList chars))

inductive Gap : List Char → List Char → Prop
  | blank {c : Char} {rest : List Char} (blank : isBlank c) : Gap (c :: rest) rest
  | comment {body rest : List Char} (inside : ∀ c ∈ body, c ≠ '\n')
      (ends : ∀ c ∈ rest.head?, c = '\n') : Gap ('#' :: (body ++ rest)) rest

structure Digits (digits rest : List Char) : Prop where
  nonempty : digits ≠ []
  decimal : ∀ c ∈ digits, isDecimal c
  whole : Apart isDecimal rest

structure Word (letter : Char) (more rest : List Char) : Prop where
  letter : isLetter letter
  chars : ∀ c ∈ more, isWordChar c
  whole : Apart isWordChar rest

/-! ## Durations -/

def noteLength (digits dots : List Char) : Element :=
  .plain .noteLength (leaf .number digits :: if dots = [] then [] else [leaf .dots dots])

/-- Note lengths and ties, up to where neither follows. -/
inductive Marks : List Char → List Element → List Char → Prop
  | done {rest : List Char} (noLength : Apart isDecimal rest)
      (noTie : ∀ later, rest = '~' :: later → Apart isDecimal later) : Marks rest [] rest
  | length {digits dots rest later : List Char} {marks : List Element}
      (number : Digits digits (dots ++ rest)) (dotted : ∀ c ∈ dots, c = '.')
      (whole : Apart (· == '.') rest) (more : Marks rest marks later) :
      Marks (digits ++ (dots ++ rest)) (noteLength digits dots :: marks) later
  | tie {rest later : List Char} {marks : List Element} (number : ¬ Apart isDecimal rest)
      (more : Marks rest marks later) : Marks ('~' :: rest) (.plain .tie [] :: marks) later

inductive Lasts : List Char → List Element → List Char → Prop
  | unsaid {rest : List Char} : Lasts rest [] rest
  | said {text rest : List Char} {marks : List Element} (nonempty : marks ≠ [])
      (said : Marks text marks rest) : Lasts text [.plain .duration marks] rest
  | slurred {text rest : List Char} {marks : List Element} (said : Marks text marks ('~' :: rest)) :
      Lasts text [.plain .duration (marks ++ [.plain .slur []])] rest

/-! ## Attribute changes -/

/-- Numbers and words with gaps, up to a comma or a closing parenthesis. -/
inductive Values : List Char → List Element → List Char → Prop
  | done {c : Char} {rest : List Char} (ends : c = ',' ∨ c = ')') :
      Values (c :: rest) [] (c :: rest)
  | gap {text rest later : List Char} {values : List Element} (gap : Gap text rest)
      (more : Values rest values later) : Values text values later
  | number {digits rest later : List Char} {values : List Element} (number : Digits digits rest)
      (more : Values rest values later) :
      Values (digits ++ rest) (leaf .number digits :: values) later
  | word {c : Char} {chars rest later : List Char} {values : List Element}
      (word : Word c chars rest) (more : Values rest values later) :
      Values (c :: (chars ++ rest)) (leaf .word (c :: chars) :: values) later

/-- The name of an attribute, perhaps with an exclamation mark, and the values for it. -/
inductive Change : List Char → Element → List Char → Prop
  | here {c : Char} {chars rest later : List Char} {values : List Element}
      (named : Word c chars rest) (unmarked : Apart (· == '!') rest)
      (valued : Values rest values later) :
      Change (c :: (chars ++ rest))
        (.plain .attributeChange (leaf .attributeName (c :: chars) :: values)) later
  | everywhere {c : Char} {chars rest later : List Char} {values : List Element}
      (named : Word c chars ('!' :: rest)) (valued : Values rest values later) :
      Change (c :: (chars ++ '!' :: rest))
        (.plain .attributeChange (leaf .attributeName (c :: (chars ++ ['!'])) :: values)) later

/-- Changes, commas and gaps in any order, and the closing parenthesis. -/
inductive Changes : List Char → List Element → List Char → Prop
  | close {rest : List Char} : Changes (')' :: rest) [] rest
  | gap {text rest later : List Char} {changes : List Element} (gap : Gap text rest)
      (more : Changes rest changes later) : Changes text changes later
  | comma {rest later : List Char} {changes : List Element} (more : Changes rest changes later) :
      Changes (',' :: rest) changes later
  | change {text rest later : List Char} {change : Element} {changes : List Element}
      (first : Change text change rest) (more : Changes rest changes later) :
      Changes text (change :: changes) later

/-! ## Events -/

def note (pitch : Char) (accidentals : List Char) (duration : List Element) : Element :=
  .plain .note ((leaf .pitch [pitch]).withChildren (accidentals.map fun c => leaf .accidental [c])
    :: duration)

def signs : List (Char × PlainKind) := [('>', .octaveUp), ('<', .octaveDown), ('|', .barline)]

inductive Event : List Char → Element → List Char → Prop
  | note {c : Char} {accidentals rest later : List Char} {duration : List Element}
      (pitch : isPitch c) (signs : ∀ a ∈ accidentals, isAccidental a)
      (lasts : Lasts rest duration later) :
      Event (c :: (accidentals ++ rest)) (note c accidentals duration) later
  | rest {rest later : List Char} {duration : List Element} (alone : Apart isLetter rest)
      (lasts : Lasts rest duration later) : Event ('r' :: rest) (.plain .rest duration) later
  | octaveSet {digits rest : List Char} (nonempty : digits ≠ [])
      (decimal : ∀ c ∈ digits, isDecimal c) :
      Event ('o' :: (digits ++ rest)) (.plain .octaveSet [leaf .number digits]) rest
  | sign {c : Char} {kind : PlainKind} {rest : List Char} (sign : (c, kind) ∈ signs) :
      Event (c :: rest) (.plain kind []) rest
  | changes {rest later : List Char} {changes : List Element}
      (closed : Changes rest changes later) :
      Event ('(' :: rest) (.plain .attributeChanges changes) later

/-! ## Music -/

inductive Token where
  | event (tree : Element)
  | separator

/-- Events, chord separators and gaps in any order. -/
inductive Lexed : List Char → List Token → Prop
  | done : Lexed [] []
  | gap {text rest : List Char} {tokens : List Token} (gap : Gap text rest)
      (more : Lexed rest tokens) : Lexed text tokens
  | event {text rest : List Char} {tree : Element} {tokens : List Token}
      (event : Event text tree rest) (more : Lexed rest tokens) :
      Lexed text (.event tree :: tokens)
  | separator {rest : List Char} {tokens : List Token} (more : Lexed rest tokens) :
      Lexed ('/' :: rest) (.separator :: tokens)

def chordTokens (notes : List Element) : List Token :=
  (notes.map Token.event).intersperse .separator

/-- Events one after another. Separators stand only in chords, between any two of their notes or
rests. -/
inductive Phrased : List Token → List Element → Prop
  | done : Phrased [] []
  | event {tree : Element} {tokens : List Token} {events : List Element}
      (more : Phrased tokens events) : Phrased (.event tree :: tokens) (tree :: events)
  | chord {notes : List Element} {tokens : List Token} {events : List Element}
      (several : 2 ≤ notes.length) (sounding : ∀ note ∈ notes, sounds note)
      (more : Phrased tokens events) :
      Phrased (chordTokens notes ++ tokens) (.plain .chord notes :: events)

/-- The text is music of these events. -/
def Music (text : String) (events : List Element) : Prop :=
  ∃ tokens, Lexed text.toList tokens ∧ Phrased tokens events

end Partbook.Grammar
