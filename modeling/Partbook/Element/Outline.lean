import Partbook.Element.Basic

/-!
Elements shown on one line each, and whole trees as an outline drawn with branches.
-/
namespace Partbook

def countChildren (n : Nat) : String :=
  "(" ++ toString n ++ (if n = 1 then " child)" else " children)")

/-- The family that the name of a kind is shown with. -/
def Kind.family (kind : Kind) : String := if kind.isGeneral then "element" else "alda"

/-- The head as it is shown. Tracks show the instance itself. -/
def Label.shownHead : Label → Option String
  | .plain _ => none
  | .text .track head => some head.bare
  | .text _ head => some (head.short 6)

/-- A label with the number of its children and the stretch of text that it covers. -/
def Label.describe (label : Label) (children : Nat) (extent : Option (Nat × Nat)) : String :=
  if label.kind = .plain .node then "<Node " ++ countChildren children ++ ">"
  else
    let words := [label.kind.family ++ "." ++ label.kind.title] ++ label.shownHead.toList
      ++ (if children = 0 then [] else [countChildren children])
      ++ extent.toList.map (fun (start, stop) =>
        "[" ++ toString start ++ ":" ++ toString stop ++ "]")
    "<" ++ " ".intercalate words ++ ">"

/-- An element on one line. Bare nodes can be shown, but not an element with one of them where its
position is looked for. -/
def Element.describe (element : Element) : Except BareNode String :=
  let shown := element.label.describe element.children.length
  if element.kind = .plain .node then .ok (shown none) else return shown (← element.extent?)

/-- The strokes of an outline: below an element that has siblings after it, below a last one,
before an element with siblings after it, before a last one. -/
structure Strokes where
  line : String
  blank : String
  branch : String
  last : String
deriving DecidableEq, Repr

namespace Strokes

def ascii : Strokes := ⟨" | ", "   ", " |-", " `-"⟩

def round : Strokes := ⟨" │ ", "   ", " ├╴", " ╰╴"⟩

def square : Strokes := ⟨" │ ", "   ", " ├╴", " └╴"⟩

def flat : Strokes := ⟨"│", " ", "├", "╰"⟩

/-- The strokes of a style; without a name the round ones. -/
def ofName? : String → Option Strokes
  | "" | "round" => some round
  | "ascii" => some ascii
  | "square" => some square
  | "flat" => some flat
  | _ => none

end Strokes

namespace Element

mutual

/-- The lines below an element. -/
def outlineBelow (strokes : Strokes) (indent : String) : Element → Except BareNode (List String)
  | node _ _ children => outlineOfAll strokes indent children

def outlineOfAll (strokes : Strokes) (indent : String) :
    List Element → Except BareNode (List String)
  | [] => .ok []
  | element :: elements => do
    let line := indent ++ (if elements.isEmpty then strokes.last else strokes.branch)
      ++ (← element.describe)
    let below ← element.outlineBelow strokes
      (indent ++ (if elements.isEmpty then strokes.blank else strokes.line))
    return line :: below ++ (← outlineOfAll strokes indent elements)

end

/-- A line for the element and one for each element below it. -/
def outline (strokes : Strokes) (element : Element) : Except BareNode (List String) :=
  return (← element.describe) :: (← element.outlineBelow strokes "")

end Element

end Partbook
