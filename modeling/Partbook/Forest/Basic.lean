import Partbook.Element.Basic
import Partbook.Forest.Slot

/-!
Trees that can be edited in place. Every node has an identity, a list of children and a link to its
parent, which is the node that it was last added to. A node that is taken out of a list keeps its
link.
-/
namespace Partbook

abbrev NodeId := Nat

structure Link where
  label : Label
  origin : Origin
  children : List NodeId
  parent : Option NodeId

structure Forest where
  links : Array Link := #[]

namespace Forest

def link? (forest : Forest) (id : NodeId) : Option Link := forest.links[id]?

def children (forest : Forest) (id : NodeId) : List NodeId :=
  ((forest.link? id).map Link.children).getD []

def parent? (forest : Forest) (id : NodeId) : Option NodeId := (forest.link? id).bind Link.parent

def label? (forest : Forest) (id : NodeId) : Option Label := (forest.link? id).map Link.label

def update (forest : Forest) (id : NodeId) (change : Link → Link) : Forest :=
  { links := forest.links.modify id change }

/-- Links nodes to a parent. -/
def adopt (forest : Forest) (parent : NodeId) (nodes : List NodeId) : Forest :=
  nodes.foldl
    (fun forest node => forest.update node fun link => { link with parent := some parent }) forest

/-- A new node without parent over the given children. -/
def grow (forest : Forest) (label : Label) (origin : Origin) (children : List NodeId) :
    Forest × NodeId :=
  let id := forest.links.size
  let grown : Forest := { links := forest.links.push { label, origin, children, parent := none } }
  (grown.adopt id children, id)

mutual

/-- New nodes for an element and all below it. -/
def plant (forest : Forest) : Element → Forest × NodeId
  | .node label origin children =>
    let (forest, ids) := forest.plantAll children
    forest.grow label origin ids

def plantAll (forest : Forest) : List Element → Forest × List NodeId
  | [] => (forest, [])
  | element :: elements =>
    let (forest, id) := forest.plant element
    let (forest, ids) := forest.plantAll elements
    (forest, id :: ids)

end

/-- Gives a node other children, of which the `added` ones are new to it. -/
def rewire (forest : Forest) (id : NodeId) (children added : List NodeId) : Forest :=
  (forest.update id fun link => { link with children }).adopt id added

def append (forest : Forest) (id node : NodeId) : Forest :=
  forest.rewire id (forest.children id ++ [node]) [node]

def extend (forest : Forest) (id : NodeId) (nodes : List NodeId) : Forest :=
  forest.rewire id (forest.children id ++ nodes) nodes

def insert (forest : Forest) (id : NodeId) (i : Int) (node : NodeId) : Forest :=
  forest.rewire id (Slot.insertAt i node (forest.children id)) [node]

def replace (forest : Forest) (id : NodeId) (i : Int) (node : NodeId) : Except EditError Forest :=
  return forest.rewire id (← Slot.replaceAt i node (forest.children id)) [node]

def replaceSlice (forest : Forest) (id : NodeId) (slice : Slice) (nodes : List NodeId) :
    Except EditError Forest :=
  return forest.rewire id (← slice.replace nodes (forest.children id)) nodes

def remove (forest : Forest) (id : NodeId) (i : Int) : Except EditError Forest :=
  return forest.rewire id (← Slot.removeAt i (forest.children id)) []

/-- The element at a node, if it is no deeper than `depth`. -/
def elementWithin (forest : Forest) : Nat → NodeId → Option Element
  | 0, _ => none
  | depth + 1, id => do
    let link ← forest.link? id
    let children ← link.children.mapM (forest.elementWithin depth)
    return .node link.label link.origin children

def element? (forest : Forest) (id : NodeId) : Option Element :=
  forest.elementWithin (forest.links.size + 1) id

/-- A copy of a node and all below it that does not know where it was read from. -/
def copy? (forest : Forest) (id : NodeId) : Option (Forest × NodeId) :=
  (forest.element? id).map fun element => forest.plant element.forgetOrigins

/-- A copy that knows where it was read from. Bare nodes have none. -/
def copyWithOrigin? (forest : Forest) (id : NodeId) : Option (Forest × NodeId) := do
  let element ← forest.element? id
  if element.isNotated then return forest.plant element else none

end Forest

end Partbook
