import Partbook.Form.Basic
import Partbook.Text.Numeral

/-!
Note lengths in beats. A note length is a number, four for a quarter note, which is one beat. Every
dot adds half of what was added before it. Durations of anything but one note length have no length
yet.
-/
namespace Partbook
open Text

inductive LengthError where
  /-- The number of a note length, as it is shown here, has to be positive. -/
  | notPositive (number : String)
  | negativeDots (dots : Int)
  /-- Too few or too many arguments, or arguments that are no numbers. -/
  | badArguments
  /-- Ties, slurs and several note lengths in a duration. -/
  | unsupported (components : List Form)
  | notLength (form : Form)
  /-- A constant or a symbol in the place of a form with a head. -/
  | headless
  | badNumeral (text : String)

def LengthError.message : LengthError → Option String
  | notPositive number => some ("note type must be positive: " ++ number)
  | negativeDots dots => some ("number of dots can't be negative: " ++ toString dots)
  | badArguments | headless => none
  | unsupported components =>
    some ("unsupported duration: " ++ " ".intercalate (components.map Form.shown))
  | notLength form => some ("not a note length or duration: " ++ form.shown)
  | badNumeral text => some (refusal text)

/-- The beats of a note length. -/
def beatsOf (number dots : Nat) : Rat := 4 / number * (2 - 1 / 2 ^ dots)

/-- The notation of a note length. -/
def lengthText (number : String) (dots : Int) : String :=
  number ++ String.ofList (List.replicate dots.toNat '.')

/-- The beats of a note length whose numbers are yet to be checked. -/
def checkedBeats (number dots : Int) : Except LengthError Rat :=
  if number ≤ 0 then .error (.notPositive (toString number))
  else if dots < 0 then .error (.negativeDots dots)
  else .ok (beatsOf number.toNat dots.toNat)

/-- The beats of the notation of a note length. Dots count wherever they stand. -/
def beatsOfText (text : String) : Except LengthError Rat :=
  let chars := text.toList
  let numeral := String.ofList (trim (fun c => c == ' ' || c == '\t' || c == '.') chars)
  match int? numeral with
  | some number => checkedBeats number (chars.count '.')
  | none => .error (.badNumeral numeral)

namespace Form

/-- The beats of a note length with the given arguments: a number and perhaps dots. -/
def noteLength (args : List Form) : Except LengthError Rat :=
  match args with
  | [number] => measure number (atom (.int 0))
  | [number, dots] => measure number dots
  | _ => .error .badArguments
where
  measure (number dots : Form) : Except LengthError Rat :=
    match number.int? with
    | none => .error .badArguments
    | some n =>
      if n ≤ 0 then .error (.notPositive number.shown)
      else
        match dots.int? with
        | none => .error .badArguments
        | some d => checkedBeats n d

/-- The beats of a duration with the given components. -/
def durationLength (components : List Form) : Except LengthError Rat :=
  match components with
  | [apply (symbol "note-length") args] => noteLength args
  | components => .error (.unsupported components)

/-- The beats of the form of a note length or a duration. -/
def beats : Form → Except LengthError Rat
  | apply (symbol "note-length") args => noteLength args
  | apply (symbol "duration") components => durationLength components
  | apply head args => .error (.notLength (apply head args))
  | _ => .error .headless

end Form

end Partbook
