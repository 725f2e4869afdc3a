import Partbook.Proofs.Source.Characters
import Partbook.Proofs.Source.Validity
import Mathlib.Data.List.TakeWhile

namespace Partbook.Source

open Text

/-- Neither a colon nor a double quote stands in the text before the sign of a comment. -/
def Tame (text : List Char) : Prop := ∀ c ∈ text.takeWhile (· != '#'), c ≠ ':' ∧ c ≠ '"'

theorem Tame.nil : Tame [] := by simp [Tame]

theorem Tame.of_all {text : List Char} (all : ∀ c ∈ text, c ≠ ':' ∧ c ≠ '"') : Tame text :=
  fun c member => all c ((List.takeWhile_sublist _).subset member)

theorem Tame.comment (text : List Char) : Tame ('#' :: text) := by simp [Tame]

theorem Tame.append {text more : List Char} (first : Tame text) (second : Tame more) :
    Tame (text ++ more) := by
  intro c member
  rw [List.takeWhile_append] at member
  split at member
  · rename_i whole
    have all : text.takeWhile (· != '#') = text :=
      (List.takeWhile_prefix _).eq_of_length whole
    rcases List.mem_append.mp member with here | later
    · exact first c (by rwa [all])
    · exact second c later
  · exact first c member

abbrev Calm (p : Char → Bool) : Prop := p ':' = false ∧ p '"' = false

theorem Tame.of_calm {p : Char → Bool} (calm : Calm p) {text : List Char}
    (all : ∀ c ∈ text, p c) : Tame text := by
  refine .of_all fun c member => ⟨?_, ?_⟩
  · rintro rfl
    exact absurd (all _ member) (by simp [calm.1])
  · rintro rfl
    exact absurd (all _ member) (by simp [calm.2])

namespace Cursor

def Passes (valid : Prop) (cursor after : Cursor) : Prop :=
  ∃ taken, cursor.rest = taken ++ after.rest ∧ after.pos = cursor.pos + taken.length ∧
    (valid → Tame taken)

def Advances (valid : Prop) (cursor after : Cursor) : Prop :=
  Passes valid cursor after ∧ after.rest.length < cursor.rest.length

variable {valid other : Prop} {cursor middle after : Cursor}

theorem Passes.refl (cursor : Cursor) : Passes valid cursor cursor :=
  ⟨[], rfl, rfl, fun _ => .nil⟩

theorem Passes.trans (first : Passes valid cursor middle) (second : Passes valid middle after) :
    Passes valid cursor after := by
  obtain ⟨taken, rest, pos, tame⟩ := first
  obtain ⟨more, rest', pos', tame'⟩ := second
  refine ⟨taken ++ more, ?_, ?_, fun holds => (tame holds).append (tame' holds)⟩
  · rw [rest, rest', List.append_assoc]
  · rw [pos', pos, List.length_append, Nat.add_assoc]

theorem Passes.mono (passes : Passes valid cursor after) (weaker : other → valid) :
    Passes other cursor after := by
  obtain ⟨taken, rest, pos, tame⟩ := passes
  exact ⟨taken, rest, pos, fun holds => tame (weaker holds)⟩

theorem Passes.length_le (passes : Passes valid cursor after) :
    after.rest.length ≤ cursor.rest.length := by
  obtain ⟨taken, rest, -, -⟩ := passes
  simp [rest]

theorem Passes.suffix (passes : Passes valid cursor after) : after.rest <:+ cursor.rest := by
  obtain ⟨taken, rest, -, -⟩ := passes
  exact ⟨taken, rest.symm⟩

theorem Advances.passes (advances : Advances valid cursor after) : Passes valid cursor after :=
  advances.1

theorem Advances.mono (advances : Advances valid cursor after) (weaker : other → valid) :
    Advances other cursor after :=
  ⟨advances.1.mono weaker, advances.2⟩

theorem Advances.calm {p : Char → Bool} (advances : Advances (Calm p) cursor after)
    (calm : Calm p) : Advances valid cursor after :=
  advances.mono fun _ => calm

theorem Advances.trans (first : Advances valid cursor middle) (second : Passes valid middle after) :
    Advances valid cursor after :=
  ⟨first.1.trans second, Nat.lt_of_le_of_lt second.length_le first.2⟩

theorem Passes.trans_advances (first : Passes valid cursor middle)
    (second : Advances valid middle after) : Advances valid cursor after :=
  ⟨first.trans second.1, Nat.lt_of_lt_of_le second.2 first.length_le⟩

theorem passes_cut {taken rest : List Char} (parts : cursor.rest = taken ++ rest)
    (tame : valid → Tame taken) : Passes valid cursor (cursor.cut taken rest).2 :=
  ⟨taken, parts, rfl, tame⟩

theorem advances_cut {taken rest : List Char} (parts : cursor.rest = taken ++ rest)
    (nonempty : taken ≠ []) (tame : valid → Tame taken) :
    Advances valid cursor (cursor.cut taken rest).2 := by
  refine ⟨passes_cut parts tame, ?_⟩
  have some : 0 < taken.length := List.length_pos_iff.mpr nonempty
  simp only [cut, parts, List.length_append]
  omega

/-! ## Single characters and runs -/

theorem next?_eq_some {p : Char → Bool} {lexeme : Lexeme}
    (read : cursor.next? p = some (lexeme, after)) :
    ∃ c rest, cursor.rest = c :: rest ∧ p c ∧ cursor.cut [c] rest = (lexeme, after) := by
  unfold next? at read
  split at read
  · rename_i c rest parts
    split at read
    · rename_i holds
      cases read
      exact ⟨c, rest, parts, holds, rfl⟩
    · cases read
  · cases read

theorem advances_next? {p : Char → Bool} {lexeme : Lexeme}
    (read : cursor.next? p = some (lexeme, after)) : Advances (Calm p) cursor after := by
  obtain ⟨c, rest, parts, holds, same⟩ := next?_eq_some read
  cases same
  exact advances_cut parts nofun fun calm => .of_calm calm (by simpa using holds)

theorem passes_run (p : Char → Bool) (cursor : Cursor) :
    Passes (Calm p) cursor (cursor.run p).2 :=
  passes_cut List.takeWhile_append_dropWhile.symm fun calm =>
    .of_calm calm fun _ member => List.mem_takeWhile_imp member

theorem advances_run? {p : Char → Bool} {lexeme : Lexeme}
    (read : cursor.run? p = some (lexeme, after)) : Advances (Calm p) cursor after := by
  unfold run? at read
  split at read
  · cases read
  · rename_i nonempty
    cases read
    exact advances_cut List.takeWhile_append_dropWhile.symm nonempty fun calm =>
      .of_calm calm fun _ member => List.mem_takeWhile_imp member

theorem calm_isBlank : Calm isBlank := ⟨rfl, rfl⟩

theorem calm_isDecimal : Calm isDecimal :=
  ⟨isDecimal_of_isNameChar (isNameChar_of_sign (by simp [signs])),
    isDecimal_of_isNameChar (isNameChar_of_sign (by simp [signs]))⟩

theorem calm_isWordChar : Calm isWordChar :=
  ⟨isWordChar_of_isNameChar (isNameChar_of_sign (by simp [signs])),
    isWordChar_of_isNameChar (isNameChar_of_sign (by simp [signs]))⟩

theorem passes_skipBlanks (cursor : Cursor) : Passes True cursor cursor.skipBlanks :=
  (passes_run isBlank cursor).mono fun _ => calm_isBlank

theorem splitAt_append (starts : List Char → Bool) (text : List Char) :
    (splitAt starts text).1 ++ (splitAt starts text).2 = text := by
  induction text with
  | nil => rfl
  | cons c text ih =>
    unfold splitAt
    split
    · rfl
    · simpa using ih

theorem advances_junk? {starts : List Char → Bool} {lexeme : Lexeme}
    (read : cursor.junk? starts = some (lexeme, after)) : Advances False cursor after := by
  simp only [junk?] at read
  split at read
  · cases read
  · rename_i nonempty
    cases read
    exact advances_cut (splitAt_append starts cursor.rest).symm nonempty nofun

/-! ## Repetition -/

theorem passes_many {α : Type} {step : Cursor → Option (α × Cursor)} {valid : α → Prop}
    (each : ∀ cursor item after, step cursor = some (item, after) →
      Passes (valid item) cursor after) (cursor : Cursor) :
    Passes (∀ item ∈ (cursor.many step).1, valid item) cursor (cursor.many step).2 := by
  induction cursor using many.induct step with
  | case1 cursor fails =>
    rw [many_of_none fails]
    exact .refl cursor
  | case2 cursor item after read shorter ih =>
    rw [many, read]
    simp only [shorter, if_true, List.forall_mem_cons]
    exact ((each cursor item after read).mono And.left).trans (ih.mono And.right)
  | case3 cursor item after read longer =>
    rw [many, read]
    simp only [longer, if_false, List.forall_mem_singleton]
    exact each cursor item after read

/-! ## Music -/

theorem advances_comment? {lexeme : Lexeme} (read : cursor.comment? = some (lexeme, after)) :
    Advances True cursor after := by
  unfold comment? at read
  split at read
  · rename_i rest parts
    cases read
    apply advances_cut List.takeWhile_append_dropWhile.symm
    · simp [parts]
    · intro _
      rw [parts, List.takeWhile_cons_of_pos (by decide)]
      exact .comment _
  · cases read

theorem advances_lengthMark? (cursor : Cursor) (mark : LengthMark) (after : Cursor)
    (read : cursor.lengthMark? = some (mark, after)) : Advances True cursor after := by
  unfold lengthMark? at read
  split at read
  · rename_i number rest digits
    have first : Advances True cursor rest := (advances_run? digits).calm calm_isDecimal
    split at read
    · rename_i dots later run
      cases read
      exact first.trans ((advances_run? run).calm ⟨rfl, rfl⟩).passes
    · cases read
      exact first
  · simp only [Option.bind_eq_bind, Option.bind_eq_some_iff] at read
    obtain ⟨⟨tilde, rest⟩, tied, read⟩ := read
    split at read
    · cases read
      exact (advances_next? tied).calm ⟨rfl, rfl⟩
    · cases read

theorem passes_duration (cursor : Cursor) : Passes True cursor cursor.duration.2 := by
  have marks := passes_many (fun cursor mark after read =>
    (advances_lengthMark? cursor mark after read).passes) cursor
  replace marks := marks.mono fun _ : True => fun _ _ => trivial
  simp only [duration]
  split
  · rename_i slur rest read
    exact marks.trans ((advances_next? read).calm ⟨rfl, rfl⟩).passes
  · exact marks

theorem passes_duration? (cursor : Cursor) : Passes True cursor cursor.duration?.2 := by
  unfold duration?
  split
  · exact passes_duration cursor
  · exact .refl cursor

theorem advances_note? {item : MusicItem} (read : cursor.note? = some (item, after)) :
    Advances True cursor after := by
  simp only [note?, Option.bind_eq_bind, Option.bind_eq_some_iff] at read
  obtain ⟨⟨pitch, rest⟩, first, read⟩ := read
  cases read
  have each (cursor : Cursor) (lexeme : Lexeme) (after : Cursor)
      (read : cursor.next? isAccidental = some (lexeme, after)) : Passes True cursor after :=
    ((advances_next? read).calm ⟨rfl, rfl⟩).passes
  have accidentals := passes_many each rest
  exact ((advances_next? first).calm ⟨rfl, rfl⟩).trans
    ((accidentals.mono fun _ _ _ => trivial).trans (passes_duration? _))

theorem advances_rest? {item : MusicItem} (read : cursor.rest? = some (item, after)) :
    Advances True cursor after := by
  simp only [rest?, Option.bind_eq_bind, Option.bind_eq_some_iff] at read
  obtain ⟨⟨letter, rest⟩, first, read⟩ := read
  split at read
  · cases read
  · cases read
    exact ((advances_next? first).calm ⟨rfl, rfl⟩).trans (passes_duration? _)

theorem advances_octaveSet? {item : MusicItem} (read : cursor.octaveSet? = some (item, after)) :
    Advances True cursor after := by
  simp only [octaveSet?, Option.bind_eq_bind, Option.bind_eq_some_iff] at read
  obtain ⟨⟨letter, rest⟩, first, ⟨number, later⟩, digits, read⟩ := read
  cases read
  exact ((advances_next? first).calm ⟨rfl, rfl⟩).trans
    ((advances_run? digits).calm calm_isDecimal).passes

theorem advances_mark? {item : MusicItem} (read : cursor.mark? = some (item, after)) :
    Advances True cursor after := by
  unfold mark? at read
  split at read
  case h_5 => cases read
  all_goals
    rename_i rest parts
    cases read
    exact advances_cut parts nofun fun _ => .of_all (by simp)

theorem advances_word? {lexeme : Lexeme} (read : cursor.word? = some (lexeme, after)) :
    Advances True cursor after := by
  unfold word? at read
  split at read
  · rename_i c rest parts
    split at read
    · rename_i letter
      cases read
      refine advances_cut (by simp [parts]) nofun fun _ => .of_calm calm_isWordChar ?_
      rw [List.forall_mem_cons]
      exact ⟨by simp [isWordChar, isWord_of_isLetter letter],
        fun _ member => List.mem_takeWhile_imp member⟩
    · cases read
  · cases read

theorem advances_attributeName? {lexeme : Lexeme}
    (read : cursor.attributeName? = some (lexeme, after)) : Advances True cursor after := by
  simp only [attributeName?, Option.bind_eq_bind, Option.bind_eq_some_iff] at read
  obtain ⟨⟨word, rest⟩, first, read⟩ := read
  have begins := advances_word? first
  split at read
  · rename_i mark later next
    cases read
    exact begins.trans ((advances_next? next).calm ⟨rfl, rfl⟩).passes
  · cases read
    exact begins

theorem advances_valueItem? (cursor : Cursor) (item : ValueItem) (after : Cursor)
    (read : cursor.valueItem? = some (item, after)) : Advances item.IsValid cursor after := by
  have blanks := (passes_skipBlanks cursor).mono fun _ : item.IsValid => trivial
  simp only [valueItem?, Option.orElse_eq_orElse, Option.orElse_eq_or, Option.or_eq_some_iff,
    Option.map_eq_some_iff, Prod.exists, Prod.mk.injEq] at read
  apply blanks.trans_advances
  rcases read with ⟨lexeme, rest, digits, rfl, rfl⟩ | ⟨-, ⟨lexeme, rest, word, rfl, rfl⟩ |
    ⟨-, ⟨lexeme, rest, comment, rfl, rfl⟩ | ⟨-, lexeme, rest, junk, rfl, rfl⟩⟩⟩
  · exact (advances_run? digits).calm calm_isDecimal
  · exact (advances_word? word).mono fun _ => trivial
  · exact (advances_comment? comment).mono fun _ => trivial
  · exact (advances_junk? junk).mono id

theorem advances_changeItem? (cursor : Cursor) (item : ChangeItem) (after : Cursor)
    (read : cursor.changeItem? = some (item, after)) : Advances item.IsValid cursor after := by
  have blanks := (passes_skipBlanks cursor).mono fun _ : item.IsValid => trivial
  simp only [changeItem?, Option.orElse_eq_orElse, Option.orElse_eq_or, Option.or_eq_some_iff,
    Option.map_eq_some_iff, Prod.exists, Prod.mk.injEq] at read
  apply blanks.trans_advances
  rcases read with ⟨lexeme, rest, comma, rfl, rfl⟩ | ⟨-, ⟨name, rest, word, rfl, rfl⟩ |
    ⟨-, ⟨lexeme, rest, comment, rfl, rfl⟩ | ⟨-, lexeme, rest, junk, rfl, rfl⟩⟩⟩
  · exact (advances_next? comma).calm ⟨rfl, rfl⟩
  · have values := passes_many (fun cursor item after read =>
      (advances_valueItem? cursor item after read).passes) rest
    exact ((advances_attributeName? word).mono fun _ => trivial).trans (values.mono id)
  · exact (advances_comment? comment).mono fun _ => trivial
  · exact (advances_junk? junk).mono id

theorem advances_changes? {changes : Changes} (read : cursor.changes? = some (changes, after)) :
    Advances changes.IsValid cursor after := by
  simp only [changes?, Option.bind_eq_bind, Option.bind_eq_some_iff] at read
  obtain ⟨⟨opening, rest⟩, first, read⟩ := read
  have opens : Advances changes.IsValid cursor rest := (advances_next? first).calm ⟨rfl, rfl⟩
  have items := passes_many (fun cursor item after read =>
    (advances_changeItem? cursor item after read).passes) rest
  have behind := opens.trans (items.mono fun valid : changes.IsValid => by
    split at read <;> cases read <;> exact valid.items)
  split at read
  · rename_i closing later last
    cases read
    have closes : Advances True _ after := (advances_next? last).calm ⟨rfl, rfl⟩
    exact behind.trans (((passes_skipBlanks _).trans closes.passes).mono fun _ => trivial)
  · cases read
    exact behind

theorem advances_musicMark? {item : MusicItem} (read : cursor.musicMark? = some (item, after)) :
    Advances item.IsValid cursor after := by
  simp only [musicMark?, Option.orElse_eq_orElse, Option.orElse_eq_or, Option.or_eq_some_iff,
    Option.map_eq_some_iff, Prod.exists, Prod.mk.injEq] at read
  rcases read with note | ⟨-, rest | ⟨-, octave | ⟨-, mark | ⟨-, ⟨group, rest, changes, rfl, rfl⟩ |
    ⟨-, lexeme, rest, comment, rfl, rfl⟩⟩⟩⟩⟩
  · exact (advances_note? note).mono fun _ => trivial
  · exact (advances_rest? rest).mono fun _ => trivial
  · exact (advances_octaveSet? octave).mono fun _ => trivial
  · exact (advances_mark? mark).mono fun _ => trivial
  · exact advances_changes? changes
  · exact (advances_comment? comment).mono fun _ => trivial

theorem advances_musicItem? {stops : List Char → Bool} (cursor : Cursor) (item : MusicItem)
    (after : Cursor) (read : cursor.musicItem? stops = some (item, after)) :
    Advances item.IsValid cursor after := by
  have blanks := (passes_skipBlanks cursor).mono fun _ : item.IsValid => trivial
  simp only [musicItem?] at read
  split at read
  · cases read
  · apply blanks.trans_advances
    simp only [Option.orElse_eq_orElse, Option.orElse_eq_or, Option.or_eq_some_iff,
      Option.map_eq_some_iff, Prod.exists, Prod.mk.injEq] at read
    rcases read with mark | ⟨-, lexeme, rest, junk, rfl, rfl⟩
    · exact advances_musicMark? mark
    · exact (advances_junk? junk).mono id

theorem consuming_musicItem? (stops : List Char → Bool) : Consuming (musicItem? stops) :=
  fun cursor item after read => (advances_musicItem? cursor item after read).2

theorem passes_music (stops : List Char → Bool) (cursor : Cursor) :
    Passes (∀ item ∈ (cursor.music stops).1, item.IsValid) cursor (cursor.music stops).2 :=
  passes_many (fun cursor item after read =>
    (advances_musicItem? cursor item after read).passes) cursor

/-! ## Preludes -/

theorem preludeItem?_cases {withChanges : Bool} {item : PreludeItem}
    (read : cursor.preludeItem? withChanges = some (item, after)) :
    (∃ group, item = .changes group ∧ withChanges ∧
        cursor.skipBlanks.changes? = some (group, after)) ∨
      (∃ lexeme, item = .comment lexeme ∧ cursor.skipBlanks.comment? = some (lexeme, after)) ∨
      ∃ lexeme starts, item = .invalid lexeme ∧
        cursor.skipBlanks.junk? starts = some (lexeme, after) := by
  simp only [preludeItem?] at read
  split at read
  · cases read
  · simp only [Option.orElse_eq_orElse, Option.orElse_eq_or, Option.or_eq_some_iff,
      Option.map_eq_some_iff, Prod.exists, Prod.mk.injEq] at read
    rcases read with changes | ⟨-, ⟨lexeme, rest, comment, rfl, rfl⟩ |
      ⟨-, lexeme, rest, junk, rfl, rfl⟩⟩
    · split at changes
      · rename_i withChanges
        simp only [Option.map_eq_some_iff, Prod.exists, Prod.mk.injEq] at changes
        obtain ⟨group, rest, changes, rfl, rfl⟩ := changes
        exact .inl ⟨group, rfl, withChanges, changes⟩
      · cases changes
    · exact .inr (.inl ⟨lexeme, rfl, comment⟩)
    · exact .inr (.inr ⟨lexeme, _, rfl, junk⟩)

theorem advances_preludeItem? {withChanges : Bool} {item : PreludeItem}
    (read : cursor.preludeItem? withChanges = some (item, after)) :
    Advances False cursor after := by
  have blanks := (passes_skipBlanks cursor).mono (False.elim : False → True)
  apply blanks.trans_advances
  rcases preludeItem?_cases read with ⟨group, -, -, changes⟩ | ⟨lexeme, -, comment⟩ |
    ⟨lexeme, starts, -, junk⟩
  · exact (advances_changes? changes).mono False.elim
  · exact (advances_comment? comment).mono False.elim
  · exact advances_junk? junk

theorem consuming_preludeItem? (withChanges : Bool) :
    Consuming (preludeItem? withChanges) := fun _ _ _ read => (advances_preludeItem? read).2

/-! ## Calls and parts -/

theorem advances_name? {lexeme : Lexeme} (read : cursor.name? = some (lexeme, after)) :
    Advances False cursor after := by
  unfold name? at read
  split at read
  · rename_i first second rest parts
    split at read
    · cases read
      exact advances_cut (by simp [parts]) nofun nofun
    · cases read
  · cases read

theorem advances_otherName? (cursor : Cursor) (item : Lexeme × Lexeme) (after : Cursor)
    (read : cursor.otherName? = some (item, after)) : Advances False cursor after := by
  simp only [otherName?, Option.bind_eq_bind, Option.bind_eq_some_iff] at read
  obtain ⟨⟨slash, rest⟩, first, ⟨name, later⟩, named, read⟩ := read
  cases read
  exact ((advances_next? first).mono nofun).trans (advances_name? named).passes

theorem advances_spacedQuotation? {quotation : Quotation}
    (read : cursor.spacedQuotation? = some (quotation, after)) : Advances False cursor after := by
  simp only [spacedQuotation?, quotation?, quoted?, Option.bind_eq_bind,
    Option.bind_eq_some_iff] at read
  obtain ⟨⟨_, rest⟩, blanks, ⟨⟨opening, text, closing⟩, later⟩, quoted, read⟩ := read
  obtain ⟨⟨opening, inside⟩, opens, ⟨closing, behind⟩, closes, same⟩ := quoted
  cases same
  have all := ((advances_run? blanks).mono (False.elim : False → _)).trans
    (((advances_next? opens).mono nofun).passes.trans (((passes_run _ _).mono nofun).trans
      ((advances_next? closes).mono nofun).passes))
  split at read <;> cases read <;> exact all

theorem advances_call? {call : Call} (read : cursor.call? = some (call, after)) :
    Advances False cursor after := by
  simp only [call?, Option.bind_eq_bind, Option.bind_eq_some_iff] at read
  obtain ⟨⟨name, rest⟩, named, ⟨colon, later⟩, closes, read⟩ := read
  cases read
  have each (cursor : Cursor) (item : Lexeme × Lexeme) (after : Cursor)
      (read : cursor.otherName? = some (item, after)) : Passes False cursor after :=
    (advances_otherName? cursor item after read).passes
  have others := passes_many each rest
  refine (advances_name? named).trans ((others.mono False.elim).trans ?_)
  have colon {cursor : Cursor} (closes : cursor.skipBlanks.next? (· == ':') = some (colon, later)) :
      Passes False cursor later :=
    ((passes_skipBlanks cursor).mono False.elim).trans
      ((advances_next? closes).passes.mono False.elim)
  split at closes
  · rename_i quotation behind quoted
    exact (advances_spacedQuotation? quoted).passes.trans (colon closes)
  · exact colon closes

theorem advances_part? {part : Part} (read : cursor.part? = some (part, after)) :
    Advances False cursor after := by
  simp only [part?, Option.bind_eq_bind, Option.bind_eq_some_iff] at read
  obtain ⟨⟨call, rest⟩, called, read⟩ := read
  cases read
  exact ((passes_skipBlanks cursor).mono (False.elim : False → True)).trans_advances
    ((advances_call? called).trans ((passes_music startsCall rest).mono False.elim))

theorem consuming_part? : Consuming part? := fun _ _ _ read => (advances_part? read).2

end Cursor

end Partbook.Source
