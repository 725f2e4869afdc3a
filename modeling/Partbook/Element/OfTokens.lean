import Partbook.Element.OfSource
import Partbook.Source.TokenTree

/-!
Elements made from a tree of tokens, mode by mode from the inside out. Much is counted on here: that
a note has a pitch before its accidentals and its dots a length before them, that values stand
behind the name of an attribute, that the mark of an octave has a number behind it. In the tree of a
text nothing of that is ever missing.
-/
namespace Partbook.Source

/-- Why a tree of tokens comes to nothing. -/
inductive Stop where
  | fault (fault : Fault)
  /-- There is no item, or no element, where one is counted on. -/
  | missing
deriving DecidableEq, Repr

abbrev Tried := Except Stop

/-- What the tokens of a mode come to. -/
inductive Outcome where
  | element (element : Element)
  | values (values : List Element)

def Outcome.elements : Outcome → List Element
  | .element whole => whole.children
  | .values all => all

/-- A token, or what a mode inside has come to. -/
inductive Item where
  | token (lexeme : Lexeme) (action : Action)
  | made (mode : Mode) (outcome : Outcome)

open Text TokenTree

namespace OfTokens

/-- The items but for comments, up to the first that is invalid. -/
def screened : List Item → List (Tried Item)
  | [] => []
  | .token _ .comment :: items => screened items
  | .token text .invalid :: _ => [.error (.fault (.invalidInput text))]
  | .token text .invalidNickname :: _ => [.error (.fault (.invalidNickname text))]
  | item :: items => .ok item :: screened items

def valuesOf : List (Tried Item) → Tried (List Element)
  | [] => .ok []
  | .error stop :: _ => .error stop
  | .ok (.made _ _) :: _ => .error .missing
  | .ok (.token text action) :: items => do
    let values ← valuesOf items
    return text.element (if action = .number then .number else .word) :: values

/-- One more child for the latest of the elements. -/
def extend (children : List Element) : List Element → Tried (List Element)
  | [] => .error .missing
  | last :: earlier => .ok (last.withChildren (last.children ++ children) :: earlier)

/-- The changes of a group, the latest of those before first. Values go to the latest change. -/
def changesOf (before : List Element) : List (Tried Item) → Tried (List Element)
  | [] => .ok before.reverse
  | .error stop :: _ => .error stop
  | .ok (.made _ outcome) :: items => do changesOf (← extend outcome.elements before) items
  | .ok (.token name .attribute) :: items =>
    changesOf (.plain .attributeChange [name.element .attributeName] :: before) items
  | .ok (.token _ _) :: items => changesOf before items

/-- A group of changes, from its bracket to the one that closes it. -/
def groupOf (items : List Item) : Tried Element :=
  match items.head?, items.getLast? with
  | some (.token opening _), some (.token closing .bracketEnd) => do
    let changes ← changesOf [] (screened items.dropLast.tail)
    return .node (.plain .attributeChanges)
      { head := some opening.span, tail := some closing.span } changes
  | some (.token opening _), _ => .error (.fault (.unclosed opening))
  | _, _ => .error .missing

/-- Lengths, ties and slurs, the latest of those before first. Dots go to the latest length. -/
def lengthsOf (before : List Element) : List (Tried Item) → Tried (List Element)
  | [] => .ok before.reverse
  | .error stop :: _ => .error stop
  | .ok (.made _ _) :: _ => .error .missing
  | .ok (.token digits .number) :: items =>
    lengthsOf (.plain .noteLength [digits.element .number] :: before) items
  | .ok (.token dots .dots) :: items => do lengthsOf (← extend [dots.element .dots] before) items
  | .ok (.token tilde .tie) :: items => lengthsOf (tilde.markElement .tie [] :: before) items
  | .ok (.token tilde .slur) :: items => lengthsOf (tilde.markElement .slur [] :: before) items
  | .ok (.token _ _) :: items => lengthsOf before items

/-- A note: its accidentals go to the pitch that has been met. -/
def noteOf (pitch : Option Element) (duration : List Element) : List (Tried Item) → Tried Element
  | [] =>
    match pitch with
    | some pitch => .ok (.plain .note (pitch :: duration))
    | none => .error .missing
  | .error stop :: _ => .error stop
  | .ok (.made _ (.element element)) :: items => noteOf pitch [element] items
  | .ok (.made _ (.values _)) :: _ => .error .missing
  | .ok (.token text .pitch) :: items => noteOf (some (text.element .pitch)) duration items
  | .ok (.token text _) :: items =>
    match pitch with
    | some pitch =>
      noteOf (some (pitch.withChildren (pitch.children ++ [text.element .accidental]))) duration
        items
    | none => .error .missing

/-- The elements that the modes inside have come to. -/
def madeIn : List (Tried Item) → Tried (List Element)
  | [] => .ok []
  | .error stop :: _ => .error stop
  | .ok (.token _ _) :: items => madeIn items
  | .ok (.made _ (.element element)) :: items => return element :: (← madeIn items)
  | .ok (.made _ (.values _)) :: _ => .error .missing

def restOf : List Item → Tried Element
  | .token mark _ :: items => return mark.markElement .rest (← madeIn (screened items))
  | _ => .error .missing

/-- The events with one more. A separator that is still open joins it to the latest. -/
def join (before : List Element) (opened : Option Lexeme) (element : Element) :
    Tried (List Element) :=
  match opened with
  | none => .ok (element :: before)
  | some slash =>
    if sounds element then
      match before with
      | last :: earlier => .ok (chord last element :: earlier)
      | [] => .error .missing
    else .error (.fault (.danglingSeparator slash))

/-- The marks that are events by themselves. -/
def markKind? : Action → Option PlainKind
  | .octaveUp => some .octaveUp
  | .octaveDown => some .octaveDown
  | .barline => some .barline
  | _ => none

/-- The events, the latest of those before first. The mark of an octave takes the next item. -/
def eventsOf (before : List Element) (opened : Option Lexeme) :
    List (Tried Item) → Tried (List Element)
  | [] =>
    match opened with
    | none => .ok before.reverse
    | some slash => .error (.fault (.danglingSeparator slash))
  | .error stop :: _ => .error stop
  | .ok (.made _ (.element element)) :: items => do
    eventsOf (← join before opened element) none items
  | .ok (.made _ (.values _)) :: _ => .error .missing
  | .ok (.token slash .chordSeparator) :: items =>
    match opened, before with
    | none, last :: _ =>
      if sounds last || last.kind = .plain .chord then eventsOf before (some slash) items
      else .error (.fault (.misplacedSeparator slash))
    | _, _ => .error (.fault (.misplacedSeparator slash))
  | .ok (.token mark .octave) :: .ok (.token digits _) :: items => do
    let element := mark.markElement .octaveSet [digits.element .number]
    eventsOf (← join before opened element) none items
  | .ok (.token _ .octave) :: .error stop :: _ => .error stop
  | .ok (.token _ .octave) :: _ => .error .missing
  | .ok (.token mark action) :: items =>
    match markKind? action with
    | some kind => do eventsOf (← join before opened (mark.markElement kind [])) none items
    | none => .error (.fault (.invalidInput mark))

/-- The names of a call, and the tokens of its nickname. -/
def namesOf (nickname : List Lexeme) : List (Tried Item) → Tried (List Element × List Lexeme)
  | [] => .ok ([], nickname)
  | .error stop :: _ => .error stop
  | .ok (.made _ _) :: _ => .error .missing
  | .ok (.token name .instrumentName) :: items => do
    let (names, nickname) ← namesOf nickname items
    return (name.element .name :: names, nickname)
  | .ok (.token text action) :: items =>
    if action = .nicknameStart ∨ nickname ≠ [] ∧ nickname.length < 3 then
      namesOf (nickname ++ [text]) items
    else namesOf nickname items

/-- The nickname between its quotes. -/
def nicknameOf : List Lexeme → List Element
  | [] => []
  | opening :: rest =>
    [.node (.text .nickname (.text (String.ofList (rest.dropLast.flatMap Lexeme.chars))))
      { head := some ⟨opening.span.start, ((opening :: rest).getLast (by simp)).span.stop⟩ } []]

def callOf (items : List Item) : Tried Element := do
  let (items, colon) := match items.getLast? with
    | some (.token text _) =>
      if text.chars = [':'] then (items.dropLast, some text.span) else (items, none)
    | _ => (items, none)
  let (names, nickname) ← namesOf [] (screened items)
  return .node (.plain .instrumentCall) { tail := colon } (names ++ nicknameOf nickname)

/-- An instrument from its call and its music, of which the latter may be missing. -/
def instrumentOf (call music : Option Element) : List Item → Tried Element
  | [] =>
    match call with
    | some call => .ok (.plain .instrument [call, music.getD (.plain .musicData [])])
    | none => .error .missing
  | .made .instrumentCall (.element element) :: items => instrumentOf (some element) music items
  | .made .musicData (.element element) :: items => instrumentOf call (some element) items
  | _ :: items => instrumentOf call music items

/-- The changes and the instruments of a score. -/
def scoreOf : List (Tried Item) → Tried (List Element × List Element)
  | [] => .ok ([], [])
  | .error stop :: _ => .error stop
  | .ok (.token text _) :: _ => .error (.fault (.invalidInput text))
  | .ok (.made .attributeChanges outcome) :: items => do
    let (changes, instruments) ← scoreOf items
    return (outcome.elements ++ changes, instruments)
  | .ok (.made .instrument (.element element)) :: items => do
    let (changes, instruments) ← scoreOf items
    return (changes, element :: instruments)
  | .ok (.made _ _) :: items => scoreOf items

/-- What the items of a mode come to. -/
def make (mode : Mode) (items : List Item) : Tried Outcome :=
  match mode with
  | .attributeValue => return .values (← valuesOf (screened items))
  | .attributeChanges => return .element (← groupOf items)
  | .duration => return .element (.plain .duration (← lengthsOf [] (screened items)))
  | .note => return .element (← noteOf none [] (screened items))
  | .rest => return .element (← restOf items)
  | .musicData | .fragment =>
    return .element (.plain .musicData (← eventsOf [] none (screened items)))
  | .instrumentCall => return .element (← callOf items)
  | .instrument => return .element (← instrumentOf none none items)
  | .part => do
    let instruments ← madeIn (screened items)
    if instruments.length = 1 then return .element (.plain .score instruments)
    else throw (.fault (.callCount instruments.length))
  | .root => do
    let (changes, instruments) ← scoreOf (screened items)
    let globals := if changes.isEmpty then [] else [.plain .globalAttributes changes]
    return .element (.plain .score (globals ++ instruments))

mutual

def item : TokenTree → Tried Item
  | .token lexeme action => .ok (.token lexeme action)
  | .context mode children => do
    let items ← itemsOfAll children
    return .made mode (← make mode items)

def itemsOfAll : List TokenTree → Tried (List Item)
  | [] => .ok []
  | tree :: trees => do
    let first ← item tree
    return first :: (← itemsOfAll trees)

end

end OfTokens

/-- The element that a whole tree of tokens comes to. -/
def TokenTree.element (tree : TokenTree) : Tried Element := do
  match ← OfTokens.item tree with
  | .made _ (.element element) => return element
  | _ => .error .missing

end Partbook.Source
