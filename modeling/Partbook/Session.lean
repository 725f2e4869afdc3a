import Partbook.Interpretation
import Partbook.Text.Initials

/-!
Sessions: texts are interpreted one by one, each with the roster that the texts before it left.
Bare music is played by whoever was called last. A text that fails changes nothing.
-/
namespace Partbook
open Text Source

structure Session where
  /-- The names of the start rules, in the order in which they are tried. -/
  contexts : List String := ["music_data", "part", "score"]
  /-- The rule that read the latest text. -/
  context : Option String := none
  roster : Roster := {}
  /-- Who was called last. -/
  current : List Instance := []
  /-- The texts so far, without those that failed. -/
  history : List String := []
deriving DecidableEq, Repr

namespace Session

/-- Reads a text by the first of the rules that can read it. -/
def readFirst (text : String) : List String → Except InterpretError (String × Element)
  | [] => .error (.unread { reason := "Invalid Alda syntax" })
  | context :: contexts =>
    match StartRule.ofName? context with
    | none => .error (.unknownRule context)
    | some rule =>
      match Element.read rule text with
      | .ok element => .ok (context, element)
      | .error _ => readFirst text contexts

def read (session : Session) (text : String) : Except InterpretError (String × Element) :=
  readFirst text session.contexts

/-- The score to interpret: the one that was read, or the music for those who were called last. -/
def scoreOf (session : Session) (element : Element) : Except InterpretError Element :=
  if element.kind = .plain .musicData then
    if session.current.isEmpty then .error .noCurrent
    else .ok (.plain .score [.plain .instrument [Roster.tracks session.current, element]])
  else .ok element

def instance? (track : Element) : Option Instance := (Roster.instanceOf track).toOption

/-- Who plays the last instrument of a resolved score. -/
def lastCalled (score : Element) : Option (List Instance) :=
  (score.childrenOf (.plain .instrument)).getLast?.map fun instrument =>
    (instrument.children.head?.map Element.children).getD [] |>.filterMap instance?

/-- Interprets a text, and carries the session on. -/
def interpret (session : Session) (text : String) :
    Except InterpretError (Session × List (Datum × Form)) := do
  let (context, element) ← session.read text
  let score ← session.scoreOf element
  let result ← Interpretation.ofScore session.roster score
  return ({ session with
    context := some context
    roster := result.roster
    current := (lastCalled result.score).getD session.current
    history := session.history ++ [text] }, result.parts)

/-- The short name of an instance: the initials of the first nickname that is its own, or else
those of its instrument. -/
def abbreviation (session : Session) (inst : Instance) : String :=
  match session.roster.nicknames.find? (·.2 = [inst]) with
  | some (nickname, _) => initials nickname.bare
  | none => hyphenInitials inst.shown

/-- The text that asks for the next line and tells who would play it. -/
def prompt (session : Session) : String :=
  "/".intercalate (session.current.map session.abbreviation) ++ "> "

end Session

end Partbook
