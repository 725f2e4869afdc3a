import Partbook.Element.Outline
import Partbook.Source.Call

/-!
Elements made by hand. The head of a text element has to be one that the kind accepts; reading and
copying do not check.
-/
namespace Partbook
open Text Source

/-- Why an element cannot be made. -/
inductive MakeError where
  /-- The head, as it is shown here, is not one of the kind. -/
  | invalidHead (kind : TextKind) (shown : String)
  | missingHead
  /-- Elements of the kind have no head of their own. -/
  | headless
  /-- What is in the place of the head cannot be shown. -/
  | bareNode
deriving DecidableEq, Repr

def MakeError.message : MakeError → Option String
  | invalidHead kind shown => some ("invalid head value for " ++ kind.title ++ ": " ++ shown)
  | missingHead | headless | bareNode => none

def Datum.isTextWith (p : String → Bool) : Datum → Bool
  | .text s => p s
  | _ => false

/-- The heads that the kind accepts. -/
def TextKind.accepts : TextKind → Datum → Bool
  | .name, head | .nickname, head => head.isTextWith fun text => isName text.toList
  | .attributeName, head | .word, head => head.isTextWith fun _ => true
  | .number, head => head.isTextWith fun text => text != "" && text.toList.all isDigit
  | .pitch, head => head.isTextWith (["a", "b", "c", "d", "e", "f", "g"].contains ·)
  | .accidental, head => head.isTextWith (["+", "-", "_"].contains ·)
  | .dots, head => head.isTextWith fun text => text != "" && text.toList.all (· == '.')
  | .track, head => head.items?.any (·.length == 2)
  | .textElement, _ | .value, _ => true

namespace Element

/-- A text element whose head has been checked. -/
def checked (kind : TextKind) (head : Datum) (children : List Element) : Except MakeError Element :=
  if kind.accepts head then .ok (node (.text kind head) {} children)
  else .error (.invalidHead kind head.quoted)

mutual

/-- An element in the place of a head. -/
def asDatum : Element → Datum
  | node label origin children =>
    let shown := match (node label origin children).describe with
      | .ok shown => shown
      | .error _ => label.describe children.length none
    .node shown (asData children)

def asData : List Element → List Datum
  | [] => []
  | element :: elements => element.asDatum :: asData elements

end

/-- A text element with an element in the place of its head. Only the general kinds accept one, and
only a bare node. -/
def headedBy (kind : TextKind) (head : Element) (children : List Element) :
    Except MakeError Element :=
  if (kind = .textElement ∨ kind = .value) ∧ head.kind = .plain .node then
    .ok (node (.text kind head.asDatum) {} children)
  else
    match head.describe with
    | .ok shown => .error (.invalidHead kind shown)
    | .error _ => .error .bareNode

/-- An element of any kind. Where a text element is given no head, its first child takes the place
of one. -/
def make (kind : Kind) (head : Option Datum) (children : List Element) : Except MakeError Element :=
  match kind, head, children with
  | .plain kind, none, children => .ok (plain kind children)
  | .plain _, some _, _ => .error .headless
  | .text kind, some head, children => checked kind head children
  | .text _, none, [] => .error .missingHead
  | .text kind, none, child :: children => headedBy kind child children

/-- An element of any kind with whatever head. -/
def makeUnchecked (kind : Kind) (head : Option Datum) (children : List Element) :
    Except MakeError Element :=
  match kind, head, children with
  | .plain _, _, _ => .error .headless
  | .text kind, some head, children => .ok (node (.text kind head) {} children)
  | .text _, none, [] => .error .missingHead
  | .text kind, none, child :: children => .ok (node (.text kind child.asDatum) {} children)

end Element

end Partbook
