import Partbook.Element.Outline
import Partbook.Element.Written

/-!
The parts of a resolved score: for everyone who plays, in order of first appearance, the events to
be played.
-/
namespace Partbook

/-- Players with their events. -/
abbrev Parts := List (Datum × List Element)

inductive PartsError where
  /-- An instrument, as it is shown here, that does not begin with tracks. -/
  | unresolved (instrument : String)
  /-- A bare node in the place of a track, or in an instrument that is to be shown. -/
  | bareNode
  /-- A player who cannot be looked up. -/
  | unfixed
deriving DecidableEq, Repr

def PartsError.message : PartsError → Option String
  | unresolved instrument => some ("unresolved instrument: " ++ instrument)
  | bareNode | unfixed => none

/-- What is wrong with an instrument without tracks. -/
def PartsError.ofUnresolved (instrument : Element) : PartsError :=
  match instrument.describe with
  | .ok shown => unresolved shown
  | .error _ => bareNode

namespace Parts

/-- More events for a player, who is new or has played before. -/
def play (player : Datum) (events : List Element) : Parts → Parts
  | [] => [(player, events)]
  | (other, played) :: parts =>
    if other.same player then (other, played ++ events) :: parts
    else (other, played) :: play player events parts

/-- Who plays a track: the head of it, or the sign of an element that has no head of its own. -/
def playerOf (track : Element) : Except PartsError Datum :=
  match track.label with
  | .text _ head => if head.isFixed then .ok head else .error .unfixed
  | .plain .node => .error .bareNode
  | .plain kind => .ok ((kind.sign?.map Datum.text).getD .nothing)

/-- The events of all the music of an instrument. -/
def eventsOf (instrument : Element) : List Element :=
  (instrument.childrenOf (.plain .musicData)).flatMap Element.children

/-- The events once more for every track. -/
def playAll (events : List Element) (parts : Parts) : List Element → Except PartsError Parts
  | [] => .ok parts
  | track :: tracks => do playAll events (parts.play (← playerOf track) events) tracks

def addInstrument (parts : Parts) (instrument : Element) : Except PartsError Parts :=
  match instrument.children with
  | [] => .error (.ofUnresolved instrument)
  | first :: _ =>
    if first.isA (.plain .tracks) then playAll (eventsOf instrument) parts first.children
    else .error (.ofUnresolved instrument)

def addAll (parts : Parts) : List Element → Except PartsError Parts
  | [] => .ok parts
  | instrument :: instruments => do addAll (← parts.addInstrument instrument) instruments

def ofScore (score : Element) : Except PartsError Parts :=
  addAll [] (score.childrenOf (.plain .instrument))

end Parts

end Partbook
