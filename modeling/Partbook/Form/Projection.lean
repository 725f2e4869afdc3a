import Partbook.Element.Outline
import Partbook.Form.Basic
import Partbook.Parts
import Partbook.Text.Numeral

/-!
Elements as forms. An element becomes its tag with its head and the forms of its children. Numbers
become integers and dots their count; ties and slurs become symbols; a track names who plays it.
-/
namespace Partbook
open Text

inductive ProjectError where
  /-- A bare node, as it is shown here. -/
  | bareNode (shown : String)
  /-- The head of a number is no numeral. -/
  | badNumeral (text : String)
  /-- The head is not a value that can be counted. -/
  | oddHead
  /-- The player of a part is nobody with a name and a number. -/
  | oddPlayer
deriving DecidableEq, Repr

def ProjectError.message : ProjectError → Option String
  | bareNode shown => some ("can't project " ++ shown)
  | badNumeral text => some (refusal text)
  | oddHead | oddPlayer => none

namespace Form

/-- The value of the head of a number. -/
def numberOf (head : Datum) : Except ProjectError Form :=
  match head with
  | .text s =>
    match Text.int? s with
    | some n => .ok (atom (.int n))
    | none => .error (.badNumeral s)
  | head =>
    match head.int? with
    | some n => .ok (atom (.int n))
    | none => .error .oddHead

/-- The size of the head of dots. -/
def countOf (head : Datum) : Except ProjectError Form :=
  match head.size? with
  | some size => .ok (atom (.int size))
  | none => .error .oddHead

def headArgs : Label → List Form
  | .plain _ => []
  | .text _ head => [atom head]

mutual

def ofElement : Element → Except ProjectError Form
  | .node label _ children =>
    match label with
    | .plain .node => .error (.bareNode (label.describe children.length none))
    | .plain .tie => .ok (symbol "tie")
    | .plain .slur => .ok (symbol "slur")
    | .text .number head => numberOf head
    | .text .dots head => countOf head
    | .text .track head => .ok (apply (symbol "track") [atom (.text head.bare)])
    | label => do
      let args ← ofElements children
      return apply (symbol label.kind.tag) (headArgs label ++ args)

def ofElements : List Element → Except ProjectError (List Form)
  | [] => .ok []
  | element :: elements => do
    let form ← ofElement element
    let forms ← ofElements elements
    return form :: forms

end

/-- The form of a part: who plays, and the events. -/
def part (name number : Datum) (events : List Element) : Except ProjectError Form := do
  let forms ← ofElements events
  return apply (symbol "part") (atom name :: atom number :: forms)

/-- The forms of all parts. -/
def ofParts : Parts → Except ProjectError (List (Datum × Form))
  | [] => .ok []
  | (.numbered name number, events) :: parts => do
    let form ← part name number events
    let forms ← ofParts parts
    return (.numbered name number, form) :: forms
  | _ :: _ => .error .oddPlayer

end Form

end Partbook
