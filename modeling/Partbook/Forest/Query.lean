import Partbook.Forest.Basic

/-!
Walks through a forest and the choice of nodes by kind. A walk is given a number of steps and has no
result if it needs more; with one step for every node it ends wherever the links have no circle.
-/
namespace Partbook.Forest

/-- The parent, its parent, and so on, found in at most `steps`. -/
def ancestorsWithin (forest : Forest) : Nat → NodeId → Option (List NodeId)
  | 0, _ => none
  | steps + 1, id =>
    match forest.parent? id with
    | none => some []
    | some parent => (forest.ancestorsWithin steps parent).map (parent :: ·)

def ancestors? (forest : Forest) (id : NodeId) : Option (List NodeId) :=
  forest.ancestorsWithin (forest.links.size + 1) id

/-- The topmost ancestor, or the node itself. -/
def root? (forest : Forest) (id : NodeId) : Option NodeId :=
  (forest.ancestors? id).map fun ancestors => ancestors.getLast?.getD id

/-- All nodes below, each before those below it, from the first child on or from the last. -/
def descendantsWithin (forest : Forest) (backwards : Bool) : Nat → NodeId → Option (List NodeId)
  | 0, _ => none
  | steps + 1, id => do
    let children := if backwards then (forest.children id).reverse else forest.children id
    let below ← children.mapM fun child =>
      (forest.descendantsWithin backwards steps child).map (child :: ·)
    return below.flatten

def descendants? (forest : Forest) (backwards : Bool) (id : NodeId) : Option (List NodeId) :=
  forest.descendantsWithin backwards (forest.links.size + 1) id

/-- The node is the last child of its parent; there is no answer without a parent. -/
def isLast? (forest : Forest) (id : NodeId) : Option (Except EditError Bool) :=
  (forest.parent? id).map fun parent =>
    match (forest.children parent).getLast? with
    | some last => .ok (last == id)
    | none => .error .noPlace

/-- A choice of kinds. -/
inductive Selector where
  | kind (kind : Kind)
  | any (items : List Selector)
  /-- Something that is no kind. -/
  | noKind

namespace Selector

mutual

/-- Whether a kind is chosen. The first item that says yes decides, unless one that is no kind
stands before it. -/
def accepts? (kind : Kind) : Selector → Option Bool
  | .kind general => some (kind.isA general)
  | .any items => anyAccepts? kind items
  | .noKind => none

def anyAccepts? (kind : Kind) : List Selector → Option Bool
  | [] => some false
  | item :: items =>
    match item.accepts? kind with
    | some false => anyAccepts? kind items
    | answer => answer

end

end Selector

/-- The nodes that are, or are not, of the chosen kinds. -/
def chosen (forest : Forest) (selector : Selector) (keep : Bool) :
    List NodeId → Option (List NodeId)
  | [] => some []
  | id :: ids => do
    let accepted ← selector.accepts? (← forest.label? id).kind
    let rest ← forest.chosen selector keep ids
    return if accepted == keep then id :: rest else rest

/-- The nodes that are, or are not, of the chosen kinds. What is no kind chooses nothing, not even
of no nodes. -/
def select (forest : Forest) (selector : Selector) (keep : Bool) (ids : List NodeId) :
    Option (List NodeId) :=
  match selector with
  | .noKind => none
  | selector => forest.chosen selector keep ids

end Partbook.Forest
