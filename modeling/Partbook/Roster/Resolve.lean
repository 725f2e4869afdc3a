import Partbook.Element.Outline
import Partbook.Element.Written
import Partbook.Roster.Basic

/-!
Resolving a score: every instrument call is replaced by the tracks of the instances that it stands
for, from left to right, each call with the roster that the calls before it left. Tracks that are
there already are kept if their numbers leave no gap.
-/
namespace Partbook

inductive ResolveError where
  /-- An instrument, as it is shown here, that begins with neither a call nor tracks. -/
  | noCall (instrument : String)
  | noNames
  | manyNicknames (nicknames : List String)
  /-- Several nicknames of which one is no text. -/
  | oddNicknames
  /-- A number that would leave a gap. -/
  | outOfSequence (inst : Instance)
  /-- A child of tracks that stands for nothing numbered. -/
  | notNumbered
  /-- A track whose number is no number. -/
  | oddNumber
  /-- A name or nickname that cannot be looked up. -/
  | unfixed
  /-- A call that has no written form. -/
  | unwritable (cause : WriteError)
  /-- A bare node in what is to be kept or shown. -/
  | bareNode
deriving DecidableEq, Repr

def ResolveError.message : ResolveError → Option String
  | noCall instrument => some ("instrument without instrument call: " ++ instrument)
  | noNames => some "instrument call without names"
  | manyNicknames nicknames =>
    some ("instrument call with more than one nickname: " ++ ", ".intercalate nicknames)
  | outOfSequence inst => some ("instance number out of sequence: " ++ inst.shown)
  | oddNicknames | notNumbered | oddNumber | unfixed | unwritable _ | bareNode => none

/-- What is wrong with an instrument without a call. -/
def ResolveError.ofUncalled (instrument : Element) : ResolveError :=
  match instrument.describe with
  | .ok shown => noCall shown
  | .error _ => bareNode

namespace Roster

/-- The heads of the children of a kind. -/
def headsOf (element : Element) (kind : TextKind) : List Datum :=
  (element.childrenOf (.text kind)).filterMap Element.head?

def text? : Datum → Option String
  | .text s => some s
  | _ => none

/-- The names and the nickname of a call. -/
def callNames (call : Element) : Except ResolveError (List Datum × Option Datum) :=
  match headsOf call .name, headsOf call .nickname with
  | [], _ => .error .noNames
  | names, [] => .ok (names, none)
  | names, [nickname] => .ok (names, some nickname)
  | _, nicknames =>
    match nicknames.mapM text? with
    | some nicknames => .error (.manyNicknames nicknames)
    | none => .error .oddNicknames

/-- The instances that a call stands for, and the roster after it. All names are looked up before
any is bound. A nickname is bound to the whole group. -/
def call (roster : Roster) (names : List Datum) (nickname : Option Datum) :
    Roster × List Instance :=
  let resolved := names.map fun name => (name, roster.assign nickname name)
  let group := resolved.flatMap (·.2)
  let table := roster.table.bindAll resolved
  match nickname with
  | none => ({ roster with table }, group)
  | some nickname =>
    ({ table := table.bind nickname group,
       nicknames := roster.nicknames.bind nickname group }, group)

/-- The roster after tracks for the instance. Its number may be the next one, or any before. -/
def readmit (roster : Roster) (inst : Instance) : Except ResolveError Roster :=
  if 0 < inst.number ∧ inst.number ≤ roster.allocated inst.name + 1 then
    if inst.name.isFixed then .ok { roster with table := roster.table.bind inst.name [inst] }
    else .error .unfixed
  else .error (.outOfSequence inst)

def readmitAll (roster : Roster) : List Instance → Except ResolveError Roster
  | [] => .ok roster
  | inst :: instances => do readmitAll (← roster.readmit inst) instances

def instanceOf (track : Element) : Except ResolveError Instance :=
  match track.head? with
  | some (.numbered name number) =>
    match number.int? with
    | some number => .ok ⟨name, number⟩
    | none => .error .oddNumber
  | _ => .error .notNumbered

/-- The roster after tracks. Each is looked at after the one before it has been admitted. -/
def readmitTracks (roster : Roster) : List Element → Except ResolveError Roster
  | [] => .ok roster
  | track :: tracks => do readmitTracks (← roster.readmit (← instanceOf track)) tracks

def tracks (instances : List Instance) : Element :=
  .plain .tracks (instances.map fun inst => .text .track inst.datum)

/-- One instrument resolved, and the roster after it. -/
def resolve (roster : Roster) (instrument : Element) : Except ResolveError (Roster × Element) :=
  match instrument.children with
  | [] => .error (.ofUncalled instrument)
  | first :: rest =>
    if first.isA (.plain .tracks) then do
      let roster ← roster.readmitTracks first.children
      if instrument.isNotated then return (roster, instrument) else throw .bareNode
    else if first.isA (.plain .instrumentCall) then do
      let (names, nickname) ← callNames first
      if !(names ++ nickname.toList).all Datum.isFixed then throw .unfixed
      let (roster, group) := roster.call names nickname
      let _ ← first.write.mapError .unwritable
      if Element.allNotated rest then
        return (roster, .plain .instrument (tracks group :: rest))
      else throw .bareNode
    else .error (.ofUncalled instrument)

/-- Instruments resolved in order, and the roster after the last. -/
def resolveAll (roster : Roster) : List Element → Except ResolveError (Roster × List Element)
  | [] => .ok (roster, [])
  | instrument :: instruments => do
    let (roster, instrument) ← roster.resolve instrument
    let (roster, instruments) ← roster.resolveAll instruments
    return (roster, instrument :: instruments)

/-- What is no instrument can at least be shown. -/
def checkOthers : List Element → Except ResolveError Unit
  | [] => .ok ()
  | element :: elements => do
    if !element.isA (.plain .instrument) then
      let _ ← element.describe.mapError fun _ => .bareNode
    checkOthers elements

/-- A score with all calls resolved, and the roster after it. Only instruments are kept. -/
def resolveScore (roster : Roster) (score : Element) : Except ResolveError (Roster × Element) := do
  checkOthers score.children
  let (roster, instruments) ← roster.resolveAll (score.childrenOf (.plain .instrument))
  return (roster, .plain .score instruments)

end Roster

end Partbook
