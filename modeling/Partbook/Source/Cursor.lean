import Partbook.Text.CharClass

/-!
Reading from the front of a text. A cursor is what is left of the text together with its position;
a lexeme is a piece that was taken from the front. All repetition goes through `Cursor.many`, which
ends at the first round that reads nothing.
-/
namespace Partbook.Source
open Text

/-- A half-open stretch of a text, counted in characters. -/
structure Span where
  start : Nat
  stop : Nat
deriving DecidableEq, Repr

/-- A piece of a text and the position of its first character. -/
structure Lexeme where
  pos : Nat
  chars : List Char
deriving DecidableEq, Repr

def Lexeme.text (lexeme : Lexeme) : String := String.ofList lexeme.chars

def Lexeme.span (lexeme : Lexeme) : Span := ⟨lexeme.pos, lexeme.pos + lexeme.chars.length⟩

structure Cursor where
  pos : Nat
  rest : List Char
deriving DecidableEq, Repr

namespace Cursor

def ofText (text : String) : Cursor := ⟨0, text.toList⟩

/-- Takes `taken`, where `rest` is the text that follows it. -/
def cut (cursor : Cursor) (taken rest : List Char) : Lexeme × Cursor :=
  (⟨cursor.pos, taken⟩, ⟨cursor.pos + taken.length, rest⟩)

/-- The next character, if it satisfies `p`. -/
def next? (p : Char → Bool) (cursor : Cursor) : Option (Lexeme × Cursor) :=
  match cursor.rest with
  | c :: rest => if p c then some (cursor.cut [c] rest) else none
  | [] => none

/-- The longest run of characters that satisfy `p`. -/
def run (p : Char → Bool) (cursor : Cursor) : Lexeme × Cursor :=
  cursor.cut (cursor.rest.takeWhile p) (cursor.rest.dropWhile p)

/-- The longest run of characters that satisfy `p`, if there is at least one. -/
def run? (p : Char → Bool) (cursor : Cursor) : Option (Lexeme × Cursor) :=
  if cursor.rest.takeWhile p = [] then none else some (cursor.run p)

def skipBlanks (cursor : Cursor) : Cursor := (cursor.run isBlank).2

/-- Parts a text before its first suffix that satisfies `starts`. -/
def splitAt (starts : List Char → Bool) : List Char → List Char × List Char
  | [] => ([], [])
  | c :: rest =>
    if starts (c :: rest) then ([], c :: rest)
    else
      let parts := splitAt starts rest
      (c :: parts.1, parts.2)

/-- The text up to the first place where `starts` holds, if it is not empty. -/
def junk? (starts : List Char → Bool) (cursor : Cursor) : Option (Lexeme × Cursor) :=
  let parts := splitAt starts cursor.rest
  if parts.1 = [] then none else some (cursor.cut parts.1 parts.2)

/-- Applies `step` until it fails or reads nothing. -/
def many {α : Type} (step : Cursor → Option (α × Cursor)) (cursor : Cursor) : List α × Cursor :=
  match step cursor with
  | none => ([], cursor)
  | some (item, after) =>
    if after.rest.length < cursor.rest.length then
      let more := many step after
      (item :: more.1, more.2)
    else ([item], after)
termination_by cursor.rest.length

end Cursor

/-- A step that leaves less text behind whenever it succeeds. -/
def Consuming {α : Type} (step : Cursor → Option (α × Cursor)) : Prop :=
  ∀ cursor item after, step cursor = some (item, after) →
    after.rest.length < cursor.rest.length

theorem Cursor.many_of_none {α : Type} {step : Cursor → Option (α × Cursor)} {cursor : Cursor}
    (fails : step cursor = none) : cursor.many step = ([], cursor) := by
  rw [many, fails]

theorem Cursor.many_of_some {α : Type} {step : Cursor → Option (α × Cursor)}
    (consuming : Consuming step) {cursor after : Cursor} {item : α}
    (succeeds : step cursor = some (item, after)) :
    cursor.many step = (item :: (after.many step).1, (after.many step).2) := by
  rw [many, succeeds]
  simp [consuming _ _ _ succeeds]

end Partbook.Source
