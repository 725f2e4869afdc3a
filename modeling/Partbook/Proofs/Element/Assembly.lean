import Partbook.Element.OfSource

namespace Partbook.Source

open Element

/-- The pieces, taken after the events `before` (the latest first) and with the separator that is
still `opened`, give all these events. -/
inductive Assembled : List Element → Option Lexeme → List Piece → List Element → Prop
  | done (before : List Element) : Assembled before none [] before.reverse
  | comment {before events : List Element} {opened : Option Lexeme} {all : List Piece}
      (later : Assembled before opened all events) :
      Assembled before opened (.comment :: all) events
  | separator {last : Element} {before events : List Element} {slash : Lexeme} {all : List Piece}
      (joins : sounds last || last.kind = .plain .chord)
      (later : Assembled (last :: before) (some slash) all events) :
      Assembled (last :: before) none (.separator slash :: all) events
  | event {element : Element} {before events : List Element} {all : List Piece}
      (later : Assembled (element :: before) none all events) :
      Assembled before none (.event element :: all) events
  | joined {last element : Element} {before events : List Element} {slash : Lexeme}
      {all : List Piece} (sounding : sounds element)
      (later : Assembled (chord last element :: before) none all events) :
      Assembled (last :: before) (some slash) (.event element :: all) events

variable {before events : List Element} {opened : Option Lexeme} {all more : List Piece}

theorem Assembled.assemble (assembled : Assembled before opened all events) :
    assemble before opened all = .ok events := by
  induction assembled with
  | done before => rfl
  | comment later ih => exact ih
  | separator joins later ih => simpa only [Source.assemble, joins, if_true] using ih
  | event later ih => simpa only [Source.assemble] using ih
  | joined sounding later ih => simpa only [Source.assemble, sounding, if_true] using ih

theorem assembled_of_assemble (built : assemble before opened all = .ok events) :
    Assembled before opened all events := by
  induction all generalizing before opened with
  | nil =>
    cases opened with
    | none =>
      cases built
      exact .done before
    | some slash => cases built
  | cons piece all ih =>
    cases piece with
    | comment => exact .comment (ih built)
    | invalid text => cases built
    | separator slash =>
      match opened, before with
      | none, last :: before =>
        simp only [assemble] at built
        split at built
        · rename_i joins
          exact .separator joins (ih built)
        · cases built
      | none, [] | some _, [] | some _, _ :: _ => cases built
    | event element =>
      match opened, before with
      | none, before => exact .event (ih built)
      | some slash, last :: before =>
        simp only [assemble] at built
        split at built
        · rename_i sounding
          exact .joined sounding (ih built)
        · cases built
      | some slash, [] => cases built

theorem assemble_ok_iff :
    assemble before opened all = .ok events ↔ Assembled before opened all events :=
  ⟨assembled_of_assemble, Assembled.assemble⟩

theorem Assembled.not_invalid (assembled : Assembled before opened all events) (text : Lexeme) :
    Piece.invalid text ∉ all := by
  induction assembled with
  | done before => simp
  | comment later ih | separator joins later ih | event later ih | joined sounding later ih =>
    simpa using ih

theorem Assembled.append {later : List Element} (first : Assembled before opened all events)
    (second : Assembled events.reverse none more later) :
    Assembled before opened (all ++ more) later := by
  induction first with
  | done before => rwa [List.reverse_reverse] at second
  | comment rest ih => exact .comment (ih second)
  | separator joins rest ih => exact .separator joins (ih second)
  | event rest ih => exact .event (ih second)
  | joined sounding rest ih => exact .joined sounding (ih second)

theorem Assembled.after (assembled : Assembled before opened all events) (earlier : List Element) :
    Assembled (before ++ earlier) opened all (earlier.reverse ++ events) := by
  induction assembled with
  | done before =>
    rw [← List.reverse_append]
    exact .done _
  | comment later ih => exact .comment ih
  | separator joins later ih => exact .separator joins ih
  | event later ih => exact .event ih
  | joined sounding later ih => exact .joined sounding ih

end Partbook.Source
