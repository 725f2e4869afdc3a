import Partbook.Element.Basic
import Partbook.Source.Document
import Partbook.Source.Fault

/-!
From concrete syntax to document trees. Comments and punctuation are dropped; the first fault ends
the reading. Faults are found from the inside out: those of a group before those of the text around
it, and both in the order of the text.
-/
namespace Partbook.Source

abbrev Built := Except Fault

/-- A text element that was read from one piece of text. -/
def Lexeme.element (kind : TextKind) (lexeme : Lexeme) : Element :=
  .node (.text kind (.text lexeme.text)) { head := some lexeme.span } []

/-- An element of fixed text that was read from `lexeme`. -/
def Lexeme.markElement (kind : PlainKind) (lexeme : Lexeme) (children : List Element) : Element :=
  .node (.plain kind) { head := some lexeme.span } children

def LengthMark.element : LengthMark → Element
  | .length number dots =>
    .plain .noteLength (number.element .number :: dots.toList.map (·.element .dots))
  | .tie tilde => tilde.markElement .tie []

def Duration.element (duration : Duration) : Element :=
  .plain .duration
    (duration.marks.map LengthMark.element ++ duration.slur.toList.map (·.markElement .slur []))

def durationElements (duration : Option Duration) : List Element :=
  duration.toList.map Duration.element

def noteElement (pitch : Lexeme) (accidentals : List Lexeme) (duration : Option Duration) :
    Element :=
  .plain .note
    ((pitch.element .pitch).withChildren (accidentals.map (·.element .accidental))
      :: durationElements duration)

/-- The values of a change. Text that is none is a fault. -/
def valueElements : List ValueItem → Built (List Element)
  | [] => .ok []
  | .number digits :: items => return digits.element .number :: (← valueElements items)
  | .word text :: items => return text.element .word :: (← valueElements items)
  | .comment _ :: items => valueElements items
  | .invalid text :: _ => .error (.invalidInput text)

/-- The changes in a group with their values. -/
def changeElements : List ChangeItem → Built (List Element)
  | [] => .ok []
  | .change name values :: items => do
    let values ← valueElements values
    let change := .plain .attributeChange (name.element .attributeName :: values)
    return change :: (← changeElements items)
  | _ :: items => changeElements items

def checkChangeItems : List ChangeItem → Built Unit
  | [] => .ok ()
  | .invalid text :: _ => .error (.invalidInput text)
  | _ :: items => checkChangeItems items

def Changes.element (changes : Changes) : Built Element := do
  let children ← changeElements changes.items
  match changes.closing with
  | none => .error (.unclosed changes.opening)
  | some closing =>
    checkChangeItems changes.items
    return .node (.plain .attributeChanges)
      { head := some changes.opening.span, tail := some closing.span } children

/-- A music item whose inside has been built. -/
inductive Piece where
  | event (element : Element)
  | separator (slash : Lexeme)
  | comment
  | invalid (text : Lexeme)

def MusicItem.piece : MusicItem → Built Piece
  | .note pitch accidentals duration => .ok (.event (noteElement pitch accidentals duration))
  | .rest mark duration => .ok (.event (mark.markElement .rest (durationElements duration)))
  | .octaveSet mark number => .ok (.event (mark.markElement .octaveSet [number.element .number]))
  | .octaveUp mark => .ok (.event (mark.markElement .octaveUp []))
  | .octaveDown mark => .ok (.event (mark.markElement .octaveDown []))
  | .barline mark => .ok (.event (mark.markElement .barline []))
  | .separator slash => .ok (.separator slash)
  | .changes group => return .event (← group.element)
  | .comment _ => .ok .comment
  | .invalid text => .ok (.invalid text)

def pieces : List MusicItem → Built (List Piece)
  | [] => .ok []
  | item :: items => return (← item.piece) :: (← pieces items)

/-- Notes and rests sound, alone or together. -/
def sounds (element : Element) : Bool := element.kind = .plain .note || element.kind = .plain .rest

/-- The chord of the last event with one more note or rest. -/
def chord (last element : Element) : Element :=
  if last.kind = .plain .chord then last.withChildren (last.children ++ [element])
  else .plain .chord [last, element]

/-- The events of the pieces after those read before, the latest of these first. A separator that
is still open joins the next note or rest to the latest event. -/
def assemble (before : List Element) (opened : Option Lexeme) : List Piece → Built (List Element)
  | [] =>
    match opened with
    | none => .ok before.reverse
    | some slash => .error (.danglingSeparator slash)
  | .comment :: pieces => assemble before opened pieces
  | .invalid text :: _ => .error (.invalidInput text)
  | .separator slash :: pieces =>
    match opened, before with
    | none, last :: _ =>
      if sounds last || last.kind = .plain .chord then assemble before (some slash) pieces
      else .error (.misplacedSeparator slash)
    | _, _ => .error (.misplacedSeparator slash)
  | .event element :: pieces =>
    match opened, before with
    | none, before => assemble (element :: before) none pieces
    | some slash, last :: earlier =>
      if sounds element then assemble (chord last element :: earlier) none pieces
      else .error (.danglingSeparator slash)
    | some slash, [] => .error (.danglingSeparator slash)

def musicElement (music : List MusicItem) : Built Element :=
  return .plain .musicData (← assemble [] none (← pieces music))

def Quotation.element : Quotation → Built Element
  | .nickname opening name closing =>
    .ok (.node (.text .nickname (.text name.text))
      { head := some ⟨opening.span.start, closing.span.stop⟩ } [])
  | .invalid text => .error (.invalidNickname text)

def nicknameElements : Option Quotation → Built (List Element)
  | none => .ok []
  | some quotation => return [← quotation.element]

def Call.element (call : Call) : Built Element := do
  let names := call.name.element .name :: call.others.map fun (_, name) => name.element .name
  let nickname ← nicknameElements call.quotation
  return .node (.plain .instrumentCall) { tail := some call.colon.span } (names ++ nickname)

def Part.element (part : Part) : Built Element := do
  let call ← part.call.element
  return .plain .instrument [call, ← musicElement part.music]

def partElements : List Part → Built (List Element)
  | [] => .ok []
  | part :: parts => return (← part.element) :: (← partElements parts)

/-- The changes in a prelude, of all its groups together. -/
def globalChanges : List PreludeItem → Built (List Element)
  | [] => .ok []
  | .changes group :: items => return (← group.element).children ++ (← globalChanges items)
  | _ :: items => globalChanges items

def checkPrelude : List PreludeItem → Built Unit
  | [] => .ok ()
  | .invalid text :: _ => .error (.invalidInput text)
  | _ :: items => checkPrelude items

def Document.scoreElement (document : Document) : Built Element := do
  let changes ← globalChanges document.prelude
  let parts ← partElements document.parts
  checkPrelude document.prelude
  let globals := if changes.isEmpty then [] else [Element.plain .globalAttributes changes]
  return .plain .score (globals ++ parts)

def Document.partElement (document : Document) : Built Element := do
  let parts ← partElements document.parts
  checkPrelude document.prelude
  if parts.length = 1 then return .plain .score parts else .error (.callCount parts.length)

/-- What the text says when it is read by the given rule. -/
def build (rule : StartRule) (text : String) : Built Element :=
  match rule with
  | .score => (Document.ofText true text).scoreElement
  | .part => (Document.ofText false text).partElement
  | .musicData => musicElement (musicOfText text)

end Partbook.Source

namespace Partbook.Element
open Source

/-- Reads a text. The elements know where they were read from. -/
def read (rule : StartRule) (text : String) : Except ParseError Element :=
  match build rule text with
  | .ok element => .ok element
  | .error fault => .error (fault.toError.locate text)

/-- Reads a text, and forgets where the elements came from unless told otherwise. -/
def readAs (rule : StartRule) (keepOrigins : Bool) (text : String) : Except ParseError Element :=
  return (← read rule text) |> fun element => if keepOrigins then element else element.forgetOrigins

/-- The first event of a text that is read as music. -/
def readEvent (keepOrigins : Bool) (text : String) : Except ParseError (Option Element) :=
  return (← readAs .musicData keepOrigins text).children.head?

end Partbook.Element
