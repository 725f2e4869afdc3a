import Partbook.Proofs.Results
import Partbook.Interpretation

/-!
Resolving with a state that is carried on. Beside the roster the state holds the instruments that
have been resolved. Every score starts with none of them, so all that it takes from the state is the
roster.
-/
namespace Partbook

open Source

/-- A roster, and the instruments that were resolved when it came about. -/
structure Resolution where
  roster : Roster := {}
  resolved : List Element := []

namespace Resolution

def update (state : Resolution) (instrument : Element) : Except ResolveError Resolution := do
  let (roster, instrument) ← state.roster.resolve instrument
  return { roster, resolved := state.resolved ++ [instrument] }

/-- The instruments in order. The state's own ones are dropped. -/
def resolve (state : Resolution) (instruments : List Element) : Except ResolveError Resolution :=
  instruments.foldlM update { state with resolved := [] }

def ofScore (state : Resolution) (score : Element) :
    Except InterpretError (Resolution × Interpretation) := do
  let hoisted ← score.hoist.mapError fun _ => .bareNode
  (Roster.checkOthers hoisted.children).mapError .unresolved
  let after ← (state.resolve (hoisted.childrenOf (.plain .instrument))).mapError .unresolved
  let resolved := .plain .score after.resolved
  let parts ← (Parts.ofScore resolved).mapError .uncollected
  let forms ← (Form.ofParts parts).mapError .unprojected
  return (after, { score := resolved, roster := after.roster, parts := forms })

def ofText (state : Resolution) (rule : StartRule) (text : String) :
    Except InterpretError (Resolution × Interpretation) := do
  let element ← (Element.read rule text).mapError .unread
  if element.kind = .plain .score then state.ofScore element else throw (.noCall rule)

/-- Texts of one part each, every one with the state that the text before it left. -/
def inSteps (state : Resolution) : List String →
    Except InterpretError (Resolution × List Interpretation)
  | [] => .ok (state, [])
  | text :: texts => do
    let (state, step) ← state.ofText .part text
    let (state, steps) ← state.inSteps texts
    return (state, step :: steps)

theorem foldlM_update (state : Resolution) (instruments : List Element) :
    instruments.foldlM update state =
      (state.roster.resolveAll instruments).map fun (roster, resolved) =>
        ⟨roster, state.resolved ++ resolved⟩ := by
  induction instruments generalizing state with
  | nil => simp [Roster.resolveAll, Except.map, pure, Except.pure]
  | cons instrument instruments ih =>
    rw [List.foldlM_cons, Roster.resolveAll, update]
    cases state.roster.resolve instrument with
    | error error => rfl
    | ok first =>
      simp only [bind, Except.bind, pure, Except.pure, ih]
      cases first.1.resolveAll instruments with
      | error error => rfl
      | ok rest => simp [Except.map]

theorem resolve_eq (state : Resolution) (instruments : List Element) :
    state.resolve instruments =
      (state.roster.resolveAll instruments).map fun (roster, resolved) => ⟨roster, resolved⟩ :=
  foldlM_update _ _

theorem ofScore_eq (state : Resolution) (score : Element) :
    state.ofScore score = (Interpretation.ofScore state.roster score).map fun result =>
      (⟨result.roster, result.score.children⟩, result) := by
  rw [ofScore, Interpretation.ofScore]
  cases score.hoist with
  | error error => rfl
  | ok hoisted =>
    simp only [mapError_ok, bind, Except.bind, Roster.resolveScore, resolve_eq]
    cases Roster.checkOthers hoisted.children with
    | error error => rfl
    | ok checked =>
      cases state.roster.resolveAll (hoisted.childrenOf (.plain .instrument)) with
      | error error => rfl
      | ok resolved =>
        simp only [mapError_ok, Except.map, pure, Except.pure]
        cases Parts.ofScore (.plain .score resolved.2) with
        | error error => rfl
        | ok parts =>
          simp only [mapError_ok]
          cases Form.ofParts parts <;> rfl

theorem ofText_eq (state : Resolution) (rule : StartRule) (text : String) :
    state.ofText rule text = (Interpretation.ofText state.roster rule text).map fun result =>
      (⟨result.roster, result.score.children⟩, result) := by
  rw [ofText, Interpretation.ofText]
  cases Element.read rule text with
  | error error => rfl
  | ok element =>
    simp only [mapError_ok, bind, Except.bind]
    split
    · exact ofScore_eq state element
    · rfl

end Resolution

end Partbook
