import Partbook.Element.Globals
import Partbook.Element.OfSource
import Partbook.Form.Projection
import Partbook.Roster.Resolve

/-!
Interpreting a text: it is read, its global attributes are moved into the music, its calls are
resolved with the roster so far, and the parts of the resolved score become forms.
-/
namespace Partbook
open Text Source

inductive InterpretError where
  | unread (error : ParseError)
  /-- A start rule that nobody knows. -/
  | unknownRule (name : String)
  /-- Music that is read without an instrument to play it. -/
  | noCall (rule : StartRule)
  /-- Music in a session in which nobody has been called. -/
  | noCurrent
  | unresolved (error : ResolveError)
  | uncollected (error : PartsError)
  | unprojected (error : ProjectError)
  /-- A bare node in a score. -/
  | bareNode

/-- The result of all steps: the resolved score, the roster after it, and the forms of the parts. -/
structure Interpretation where
  score : Element
  roster : Roster
  parts : List (Datum × Form)

namespace Interpretation

/-- Interprets a score that has been read. -/
def ofScore (roster : Roster) (score : Element) : Except InterpretError Interpretation := do
  let hoisted ← score.hoist.mapError fun _ => .bareNode
  let (roster, resolved) ← (roster.resolveScore hoisted).mapError .unresolved
  let parts ← (Parts.ofScore resolved).mapError .uncollected
  let forms ← (Form.ofParts parts).mapError .unprojected
  return { score := resolved, roster, parts := forms }

/-- Interprets a text. Music without a call is refused. -/
def ofText (roster : Roster) (rule : StartRule) (text : String) :
    Except InterpretError Interpretation := do
  let element ← (Element.read rule text).mapError .unread
  if element.kind = .plain .score then ofScore roster element else throw (.noCall rule)

end Interpretation

/-- What is said of music without a call. -/
def withoutCall (rule : StartRule) : String :=
  "start rule " ++ quote rule.name ++ " gives music data without instrument call"

end Partbook
