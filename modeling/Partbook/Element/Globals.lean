import Partbook.Element.Basic

/-!
Global attributes: changes at the beginning of a score, before any instrument. They take effect by
moving into the music of the first instrument.
-/
namespace Partbook.Element

/-- The children of an instrument with the event before the events of the first music. Without
music, the event is all there is to play. -/
def leadWith (event : Element) : List Element → List Element
  | [] => [plain .musicData [event]]
  | child :: children =>
    if child.isA (.plain .musicData) then child.withChildren (event :: child.children) :: children
    else child :: leadWith event children

/-- The elements with the event before the music of the first instrument, if there is one. -/
def leadFirst? (event : Element) : List Element → Option (List Element)
  | [] => none
  | element :: elements =>
    if element.isA (.plain .instrument) then
      some (element.withChildren (leadWith event element.children) :: elements)
    else (leadFirst? event elements).map (element :: ·)

/-- The children of a score with its global attributes moved, if there are any and an instrument
to take them. -/
def moveGlobals : List Element → List Element
  | [] => []
  | first :: rest =>
    if first.isA (.plain .globalAttributes) then
      (leadFirst? (plain .attributeChanges first.children) rest).getD (first :: rest)
    else first :: rest

/-- The score with its global attributes moved into the music. -/
def hoistGlobals (score : Element) : Element := plain .score (moveGlobals score.children)

/-- The score with its global attributes moved, of which nothing may be a bare node. -/
def hoist (score : Element) : Except BareNode Element :=
  if allNotated score.children then .ok score.hoistGlobals else .error {}

end Partbook.Element
