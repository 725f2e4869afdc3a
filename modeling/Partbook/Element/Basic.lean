import Partbook.Datum
import Partbook.Kind
import Partbook.Source.Cursor

/-!
Document trees. An element is a label, the place in a text that it was read from, and its children.
Elements that were not read from a text have no origin; the position of an element is the first
origin at or below it. Bare nodes are trees too, but know nothing of texts: whatever comes to ask
one of them for its position fails.
-/
namespace Partbook
open Source (Span)

inductive Label where
  | plain (kind : PlainKind)
  | text (kind : TextKind) (head : Datum)

def Label.kind : Label → Kind
  | .plain kind => .plain kind
  | .text kind _ => .text kind

def Label.head? : Label → Option Datum
  | .plain _ => none
  | .text _ head => some head

/-- Equality of what a node holds besides its children. -/
def Label.same : Label → Label → Bool
  | .plain kind, .plain kind' => kind == kind'
  | .text kind head, .text kind' head' => kind == kind' && head.same head'
  | _, _ => false

/-- The stretches of text that an element's own head and tail were read from. -/
structure Origin where
  head : Option Span := none
  tail : Option Span := none
deriving DecidableEq, Repr

/-- A bare node was asked for what only elements know. -/
structure BareNode where
deriving DecidableEq, Repr

inductive Element where
  | node (label : Label) (origin : Origin) (children : List Element)

namespace Element

def label : Element → Label
  | node label _ _ => label

def origin : Element → Origin
  | node _ origin _ => origin

def children : Element → List Element
  | node _ _ children => children

def kind (element : Element) : Kind := element.label.kind

def head? (element : Element) : Option Datum := element.label.head?

/-- The element is of the given kind or of a kind that belongs to it. -/
def isA (element : Element) (kind : Kind) : Bool := element.kind.isA kind

/-- An element without origin. -/
def plain (kind : PlainKind) (children : List Element) : Element := node (.plain kind) {} children

def text (kind : TextKind) (head : Datum) : Element := node (.text kind head) {} []

def withChildren (element : Element) (children : List Element) : Element :=
  node element.label element.origin children

/-- The children of the given kind. -/
def childrenOf (element : Element) (kind : Kind) : List Element :=
  element.children.filter (·.isA kind)

mutual

/-- The same tree, not knowing where it was read from. -/
def forgetOrigins : Element → Element
  | node label _ children => node label {} (forgetOriginsOfAll children)

def forgetOriginsOfAll : List Element → List Element
  | [] => []
  | element :: elements => element.forgetOrigins :: forgetOriginsOfAll elements

end

mutual

/-- All elements below, each before its own children. -/
def descendants : Element → List Element
  | node _ _ children => descendantsOfAll children

def descendantsOfAll : List Element → List Element
  | [] => []
  | element :: elements => element :: element.descendants ++ descendantsOfAll elements

end

mutual

/-- All elements below, from the last to the first, each before its own children. -/
def descendantsBackwards : Element → List Element
  | node _ _ children => descendantsBackwardsOfAll children

def descendantsBackwardsOfAll : List Element → List Element
  | [] => []
  | element :: elements =>
    descendantsBackwardsOfAll elements ++ element :: element.descendantsBackwards

end

mutual

/-- The position of the first text that the element or one below it was read from. -/
def start? : Element → Except BareNode (Option Nat)
  | node label origin children =>
    if label.kind = .plain .node then .error {}
    else
      match origin.head with
      | some span => .ok (some span.start)
      | none => firstStart? children

def firstStart? : List Element → Except BareNode (Option Nat)
  | [] => .ok none
  | element :: elements => do
    match ← element.start? with
    | some start => return some start
    | none => firstStart? elements

end

mutual

/-- The end of the last text that the element or one below it was read from. -/
def stop? : Element → Except BareNode (Option Nat)
  | node label origin children =>
    if label.kind = .plain .node then .error {}
    else
      match origin.tail with
      | some span => .ok (some span.stop)
      | none => do
        match ← lastStop? children with
        | some stop => return some stop
        | none => return origin.head.map Span.stop

def lastStop? : List Element → Except BareNode (Option Nat)
  | [] => .ok none
  | element :: elements => do
    match ← lastStop? elements with
    | some stop => return some stop
    | none => element.stop?

end

mutual

/-- Equality of labels and children all the way down. Origins do not matter. -/
def same : Element → Element → Bool
  | node label _ children, node label' _ children' =>
    label.same label' && sameAll children children'

def sameAll : List Element → List Element → Bool
  | [], [] => true
  | element :: elements, element' :: elements' =>
    element.same element' && sameAll elements elements'
  | _, _ => false

end

mutual

/-- No bare node occurs in the tree: every node has a written form. -/
def isNotated : Element → Bool
  | node label _ children => label.kind != .plain .node && allNotated children

def allNotated : List Element → Bool
  | [] => true
  | element :: elements => element.isNotated && allNotated elements

end

/-- The first and the last position that the element was read from. -/
def extent? (element : Element) : Except BareNode (Option (Nat × Nat)) := do
  match ← element.start? with
  | none => return none
  | some start => return (← element.stop?).map fun stop => (start, stop)

end Element

end Partbook
