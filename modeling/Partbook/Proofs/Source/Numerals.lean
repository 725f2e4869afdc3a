import Partbook.Proofs.Source.Progress

namespace Partbook.Source
open Text

def Lexeme.IsNumeral (lexeme : Lexeme) : Prop :=
  lexeme.chars ≠ [] ∧ ∀ c ∈ lexeme.chars, isDecimal c

def LengthMark.Numeric : LengthMark → Prop
  | .length number _ => number.IsNumeral
  | .tie _ => True

def Duration.Numeric (duration : Duration) : Prop := ∀ mark ∈ duration.marks, mark.Numeric

def ValueItem.Numeric : ValueItem → Prop
  | .number digits => digits.IsNumeral
  | _ => True

def ChangeItem.Numeric : ChangeItem → Prop
  | .change _ values => ∀ value ∈ values, value.Numeric
  | _ => True

def Changes.Numeric (changes : Changes) : Prop := ∀ item ∈ changes.items, item.Numeric

def MusicItem.Numeric : MusicItem → Prop
  | .note _ _ duration | .rest _ duration => ∀ length ∈ duration, length.Numeric
  | .octaveSet _ number => number.IsNumeral
  | .changes group => group.Numeric
  | _ => True

def PreludeItem.Numeric : PreludeItem → Prop
  | .changes group => group.Numeric
  | _ => True

namespace Cursor

theorem mem_many {α : Type} {step : Cursor → Option (α × Cursor)} {property : α → Prop}
    (each : ∀ cursor item after, step cursor = some (item, after) → property item)
    (cursor : Cursor) : ∀ item ∈ (cursor.many step).1, property item := by
  induction cursor using many.induct step with
  | case1 cursor fails =>
    rw [many_of_none fails]
    simp
  | case2 cursor item after read shorter ih =>
    rw [many, read]
    simp only [shorter, if_true, List.forall_mem_cons]
    exact ⟨each cursor item after read, ih⟩
  | case3 cursor item after read longer =>
    rw [many, read]
    simp only [longer, if_false, List.forall_mem_singleton]
    exact each cursor item after read

theorem isNumeral_of_run? {cursor after : Cursor} {lexeme : Lexeme}
    (read : cursor.run? isDecimal = some (lexeme, after)) : lexeme.IsNumeral := by
  unfold run? at read
  split at read
  · cases read
  · rename_i nonempty
    cases read
    exact ⟨nonempty, fun c member => List.mem_takeWhile_imp member⟩

theorem numeric_of_lengthMark? (cursor : Cursor) (mark : LengthMark) (after : Cursor)
    (read : cursor.lengthMark? = some (mark, after)) : mark.Numeric := by
  unfold lengthMark? at read
  split at read
  · rename_i number rest digits
    have numeral := isNumeral_of_run? digits
    split at read <;> cases read <;> exact numeral
  · simp only [Option.bind_eq_bind, Option.bind_eq_some_iff] at read
    obtain ⟨⟨tilde, rest⟩, -, read⟩ := read
    split at read
    · cases read
      trivial
    · cases read

theorem marks_duration (cursor : Cursor) :
    cursor.duration.1.marks = (cursor.many lengthMark?).1 := by
  simp only [duration]
  split <;> rfl

theorem numeric_duration (cursor : Cursor) : cursor.duration.1.Numeric := by
  intro mark member
  rw [marks_duration] at member
  exact mem_many numeric_of_lengthMark? cursor mark member

theorem numeric_duration? (cursor : Cursor) : ∀ length ∈ cursor.duration?.1, length.Numeric := by
  unfold duration?
  split
  · rintro length ⟨⟩
    exact numeric_duration cursor
  · rintro length ⟨⟩

theorem numeric_of_valueItem? (cursor : Cursor) (item : ValueItem) (after : Cursor)
    (read : cursor.valueItem? = some (item, after)) : item.Numeric := by
  simp only [valueItem?, Option.orElse_eq_orElse, Option.orElse_eq_or, Option.or_eq_some_iff,
    Option.map_eq_some_iff, Prod.exists, Prod.mk.injEq] at read
  rcases read with ⟨lexeme, rest, digits, rfl, -⟩ | ⟨-, ⟨lexeme, rest, word, rfl, -⟩ |
    ⟨-, ⟨lexeme, rest, comment, rfl, -⟩ | ⟨-, lexeme, rest, junk, rfl, -⟩⟩⟩
  · exact isNumeral_of_run? digits
  · trivial
  · trivial
  · trivial

theorem numeric_of_changeItem? (cursor : Cursor) (item : ChangeItem) (after : Cursor)
    (read : cursor.changeItem? = some (item, after)) : item.Numeric := by
  simp only [changeItem?, Option.orElse_eq_orElse, Option.orElse_eq_or, Option.or_eq_some_iff,
    Option.map_eq_some_iff, Prod.exists, Prod.mk.injEq] at read
  rcases read with ⟨lexeme, rest, comma, rfl, -⟩ | ⟨-, ⟨name, rest, word, rfl, -⟩ |
    ⟨-, ⟨lexeme, rest, comment, rfl, -⟩ | ⟨-, lexeme, rest, junk, rfl, -⟩⟩⟩
  · trivial
  · exact mem_many numeric_of_valueItem? rest
  · trivial
  · trivial

theorem numeric_of_changes? {cursor after : Cursor} {changes : Changes}
    (read : cursor.changes? = some (changes, after)) : changes.Numeric := by
  simp only [changes?, Option.bind_eq_bind, Option.bind_eq_some_iff] at read
  obtain ⟨⟨opening, rest⟩, -, read⟩ := read
  have items := mem_many numeric_of_changeItem? rest
  split at read <;> cases read <;> exact items

theorem numeric_of_musicMark? {cursor after : Cursor} {item : MusicItem}
    (read : cursor.musicMark? = some (item, after)) : item.Numeric := by
  simp only [musicMark?, Option.orElse_eq_orElse, Option.orElse_eq_or, Option.or_eq_some_iff,
    Option.map_eq_some_iff, Prod.exists, Prod.mk.injEq] at read
  rcases read with note | ⟨-, rest | ⟨-, octave | ⟨-, mark | ⟨-, ⟨group, rest, changes, rfl, -⟩ |
    ⟨-, lexeme, rest, comment, rfl, -⟩⟩⟩⟩⟩
  · simp only [note?, Option.bind_eq_bind, Option.bind_eq_some_iff] at note
    obtain ⟨⟨pitch, rest⟩, -, read⟩ := note
    cases read
    exact numeric_duration? _
  · simp only [rest?, Option.bind_eq_bind, Option.bind_eq_some_iff] at rest
    obtain ⟨⟨letter, behind⟩, -, read⟩ := rest
    split at read
    · cases read
    · cases read
      exact numeric_duration? _
  · simp only [octaveSet?, Option.bind_eq_bind, Option.bind_eq_some_iff] at octave
    obtain ⟨⟨letter, behind⟩, -, ⟨number, later⟩, digits, read⟩ := octave
    cases read
    exact isNumeral_of_run? digits
  · unfold mark? at mark
    split at mark <;> cases mark <;> trivial
  · exact numeric_of_changes? changes
  · trivial

theorem numeric_of_musicItem? {stops : List Char → Bool} (cursor : Cursor) (item : MusicItem)
    (after : Cursor) (read : cursor.musicItem? stops = some (item, after)) : item.Numeric := by
  simp only [musicItem?] at read
  split at read
  · cases read
  · simp only [Option.orElse_eq_orElse, Option.orElse_eq_or, Option.or_eq_some_iff,
      Option.map_eq_some_iff, Prod.exists, Prod.mk.injEq] at read
    rcases read with mark | ⟨-, lexeme, rest, junk, rfl, -⟩
    · exact numeric_of_musicMark? mark
    · trivial

theorem numeric_music (stops : List Char → Bool) (cursor : Cursor) :
    ∀ item ∈ (cursor.music stops).1, item.Numeric :=
  mem_many numeric_of_musicItem? cursor

theorem changes?_of_preludeItem? {withChanges : Bool} {cursor after : Cursor} {group : Changes}
    (read : cursor.preludeItem? withChanges = some (.changes group, after)) :
    cursor.skipBlanks.changes? = some (group, after) := by
  rcases preludeItem?_cases read with ⟨_, same, -, changes⟩ | ⟨_, comment, -⟩ | ⟨_, _, junk, -⟩
  · cases same
    exact changes
  · cases comment
  · cases junk

theorem numeric_of_preludeItem? {withChanges : Bool} (cursor : Cursor) (item : PreludeItem)
    (after : Cursor) (read : cursor.preludeItem? withChanges = some (item, after)) :
    item.Numeric := by
  cases item with
  | changes group => exact numeric_of_changes? (changes?_of_preludeItem? read)
  | comment text | invalid text => trivial

theorem part?_eq_some {cursor after : Cursor} {part : Part}
    (read : cursor.part? = some (part, after)) :
    ∃ behind, cursor.skipBlanks.call? = some (part.call, behind) ∧
      part.music = (behind.music startsCall).1 ∧ after = (behind.music startsCall).2 := by
  simp only [part?, Option.bind_eq_bind, Option.bind_eq_some_iff] at read
  obtain ⟨⟨call, behind⟩, called, read⟩ := read
  cases read
  exact ⟨behind, called, rfl, rfl⟩

theorem numeric_of_part? (cursor : Cursor) (part : Part) (after : Cursor)
    (read : cursor.part? = some (part, after)) : ∀ item ∈ part.music, item.Numeric := by
  obtain ⟨behind, -, music, -⟩ := part?_eq_some read
  rw [music]
  exact numeric_music startsCall behind

end Cursor

theorem Document.numeric_ofText (withChanges : Bool) (text : String) :
    (∀ item ∈ (Document.ofText withChanges text).prelude, item.Numeric) ∧
      ∀ part ∈ (Document.ofText withChanges text).parts, ∀ item ∈ part.music, item.Numeric :=
  ⟨Cursor.mem_many Cursor.numeric_of_preludeItem? _, Cursor.mem_many Cursor.numeric_of_part? _⟩

theorem numeric_musicOfText (text : String) : ∀ item ∈ musicOfText text, item.Numeric :=
  Cursor.numeric_music _ _

end Partbook.Source
