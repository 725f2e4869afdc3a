import Partbook.Element.Basic

/-!
The written form of an element: its head, its children with what stands between them, its tail.
-/
namespace Partbook

/-- Why an element cannot be written. -/
inductive WriteError where
  /-- A bare node has no written form. -/
  | bareNode
  /-- The head is no text. -/
  | headNotText
deriving DecidableEq, Repr

/-- The sign that elements of a kind begin with. -/
def PlainKind.sign? : PlainKind → Option String
  | instrumentCall => some ""
  | attributeChanges => some "("
  | rest => some "r"
  | octaveSet => some "o"
  | octaveUp => some ">"
  | octaveDown => some "<"
  | barline => some "|"
  | tie | slur => some "~"
  | _ => none

/-- The text before the children. A void head is not written. -/
def Label.headText : Label → Except WriteError String
  | .plain .globalAttributes => .ok "("
  | .plain kind => .ok (kind.sign?.getD "")
  | .text .nickname head => .ok ("\"" ++ head.bare ++ "\"")
  | .text .track head => .ok head.bare
  | .text _ (.text s) => .ok s
  | .text _ head => if head.isVoid then .ok "" else .error .headNotText

/-- The text after the children. -/
def Label.tailText : Label → String
  | .plain .globalAttributes | .plain .attributeChanges => ")"
  | .plain .instrumentCall | .plain .tracks => ":"
  | _ => ""

/-- What stands before a child that is not the first. -/
def Label.gap (label : Label) (next : Element) : String :=
  if label.kind = .plain .instrumentCall then
    if next.kind = .text .nickname then " " else "/"
  else label.kind.separator

namespace Element

mutual

def write : Element → Except WriteError String
  | node label _ children =>
    if label.kind = .plain .node then .error .bareNode
    else do
      let body ← writeAll label true children
      let head ← label.headText
      return head ++ body ++ label.tailText

/-- The children of an element with the given label, from the first one or from a later one on. -/
def writeAll (label : Label) (first : Bool) : List Element → Except WriteError String
  | [] => .ok ""
  | element :: elements => do
    let text ← element.write
    let rest ← writeAll label false elements
    return (if first then "" else label.gap element) ++ text ++ rest

end

end Element

end Partbook
