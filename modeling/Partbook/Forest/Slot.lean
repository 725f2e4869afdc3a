/-!
Places in a list. A place is counted from the front or, as a negative number, from the back. A
slice is a stretch of places with a stride; its ends may lie outside the list.
-/
namespace Partbook

/-- Why a list cannot be edited. -/
inductive EditError where
  /-- There is nothing at the place. -/
  | noPlace
  /-- As many items as the slice has places are needed. -/
  | sizeMismatch
  | zeroStride
deriving DecidableEq, Repr

structure Slice where
  start : Option Int
  stop : Option Int
  stride : Option Int
deriving DecidableEq, Repr

namespace Slot

/-- The place counted from the front, if it is one of a list of the given size. -/
def place? (size : Nat) (i : Int) : Option Nat :=
  let n := if i < 0 then i + size else i
  if 0 ≤ n ∧ n < size then some n.toNat else none

/-- The place counted from the front, or the nearest end of the list. -/
def clamp (size : Nat) (i : Int) : Nat :=
  min size (if i < 0 then i + size else i).toNat

def insertAt {α : Type} (i : Int) (item : α) (items : List α) : List α :=
  let n := clamp items.length i
  items.take n ++ item :: items.drop n

def replaceAt {α : Type} (i : Int) (item : α) (items : List α) : Except EditError (List α) :=
  match place? items.length i with
  | some n => .ok (items.set n item)
  | none => .error .noPlace

def removeAt {α : Type} (i : Int) (items : List α) : Except EditError (List α) :=
  match place? items.length i with
  | some n => .ok (items.eraseIdx n)
  | none => .error .noPlace

end Slot

namespace Slice

/-- An end of a slice that runs backwards, from the last place to the one before the first. -/
def clampBackwards (size : Nat) (i : Int) : Int :=
  let n := if i < 0 then i + size else i
  if n < 0 then -1 else if n ≥ size then size - 1 else n

/-- The places of a slice in the order of the stride. -/
def places (size : Nat) (slice : Slice) : List Nat :=
  let stride := slice.stride.getD 1
  if 0 < stride then
    let start := (slice.start.map (Slot.clamp size)).getD 0
    let stop := (slice.stop.map (Slot.clamp size)).getD size
    (List.range ((stop - start + stride.toNat - 1) / stride.toNat)).map (start + · * stride.toNat)
  else if stride < 0 then
    let start := (slice.start.map (clampBackwards size)).getD (size - 1)
    let stop := (slice.stop.map (clampBackwards size)).getD (-1)
    let step := (-stride).toNat
    (List.range (((start - stop).toNat + step - 1) / step)).map (start.toNat - · * step)
  else []

/-- Puts the items into the given places, one into each. -/
def putAll {α : Type} : List Nat → List α → List α → List α
  | n :: ns, item :: items, list => putAll ns items (list.set n item)
  | _, _, list => list

/-- Replaces a slice. Neighbouring places may be replaced by any number of items, others by as many
as there are. -/
def replace {α : Type} (slice : Slice) (items list : List α) : Except EditError (List α) :=
  let stride := slice.stride.getD 1
  if stride = 0 then .error .zeroStride
  else if stride = 1 then
    let start := (slice.start.map (Slot.clamp list.length)).getD 0
    let stop := (slice.stop.map (Slot.clamp list.length)).getD list.length
    .ok (list.take start ++ items ++ list.drop (max start stop))
  else
    let places := slice.places list.length
    if places.length = items.length then .ok (putAll places items list)
    else .error .sizeMismatch

end Slice

end Partbook
