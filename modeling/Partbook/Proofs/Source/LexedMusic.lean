import Partbook.Proofs.Grammar.Completeness
import Partbook.Proofs.Source.Rounds
import Partbook.Source.TokenTree

/-!
Music as the loop reads it. Each reader of music stands for a stretch of rounds: from the modes at
its beginning the loop gives the tokens of what was read, and is in the modes of its end behind it.
-/
namespace Partbook.Source

open Text Cursor TokenTree

variable {cursor after : Cursor} {lexeme : Lexeme}

/-! ## Tokens of lists of trees -/

namespace TokenTree

@[simp] theorem tokens_token (lexeme : Lexeme) (action : Action) :
    (token lexeme action).tokens = [(lexeme, action)] := by simp [tokens]

@[simp] theorem tokens_context (mode : Mode) (children : List TokenTree) :
    (context mode children).tokens = tokensOfAll children := by simp [tokens]

@[simp] theorem tokensOfAll_nil : tokensOfAll [] = [] := by simp [tokensOfAll]

@[simp] theorem tokensOfAll_cons (tree : TokenTree) (trees : List TokenTree) :
    tokensOfAll (tree :: trees) = tree.tokens ++ tokensOfAll trees := by simp [tokensOfAll]

@[simp] theorem tokensOfAll_append (trees others : List TokenTree) :
    tokensOfAll (trees ++ others) = tokensOfAll trees ++ tokensOfAll others := by
  induction trees with
  | nil => simp
  | cons tree trees ih => simp [ih]

@[simp] theorem tokensOfAll_flatMap {α : Type} (trees : α → List TokenTree) (items : List α) :
    tokensOfAll (items.flatMap trees) = items.flatMap fun item => tokensOfAll (trees item) := by
  induction items with
  | nil => simp
  | cons item items ih => simp [ih]

@[simp] theorem tokensOfAll_map {α : Type} (tree : α → TokenTree) (items : List α) :
    tokensOfAll (items.map tree) = items.flatMap fun item => (tree item).tokens := by
  induction items with
  | nil => simp
  | cons item items ih => simp [ih]

@[simp] theorem tokensOfAll_found (mode : Mode) (children : List TokenTree) :
    tokensOfAll (found mode children) = tokensOfAll children := by
  cases children <;> simp [found]

@[simp] theorem tokensOfAll_optional (action : Action) (lexeme : Option Lexeme) :
    tokensOfAll (TokenTree.optional action lexeme) = lexeme.toList.map (·, action) := by
  cases lexeme <;> simp [TokenTree.optional]

end TokenTree

namespace Lexer

variable {mode : Mode} {outer : List Mode}

/-! ## Durations -/

theorem yields_lengthMark? (cursor : Cursor) (mark : LengthMark) (after : Cursor)
    (read : cursor.lengthMark? = some (mark, after)) :
    Yields ⟨.duration :: outer, cursor⟩ (tokensOfAll mark.trees) ⟨.duration :: outer, after⟩ := by
  apply Yields.of_step
  unfold lengthMark? at read
  split at read
  · rename_i number behind digits
    split at read
    · rename_i dots later run
      cases read
      simp [step, Mode.rules, lengthTokens?, digits, run, LengthMark.trees]
    · rename_i run
      cases read
      simp [step, Mode.rules, lengthTokens?, digits, run, LengthMark.trees]
  · rename_i digits
    simp only [Option.bind_eq_bind, Option.bind_eq_some_iff] at read
    obtain ⟨⟨tilde, behind⟩, first, read⟩ := read
    split at read
    · rename_i tied
      cases read
      have tie : cursor.tie? = some (tilde, behind) := by simp [tie?, first, tied]
      simp [step, Mode.rules, lengthTokens?, digits, tie, LengthMark.trees]
    · cases read

theorem not_tied_of_lengthMark? (fails : cursor.lengthMark? = none) :
    cursor.run? isDecimal = none ∧ cursor.tie? = none := by
  unfold lengthMark? at fails
  split at fails
  · split at fails <;> cases fails
  · rename_i digits
    refine ⟨digits, ?_⟩
    simp only [Option.bind_eq_bind, Option.bind_eq_none_iff, tie?] at fails ⊢
    intro found first
    have untied := fails found first
    split at untied
    · cases untied
    · rename_i tied
      simp [tied]

theorem yields_duration (cursor : Cursor) :
    Yields ⟨.duration :: mode :: outer, cursor⟩ (tokensOfAll cursor.duration.1.trees)
      ⟨outer, cursor.duration.2⟩ := by
  have marks : Yields ⟨.duration :: mode :: outer, cursor⟩ _ _ :=
    .many Grammar.consuming_lengthMark? yields_lengthMark? cursor
  obtain ⟨digits, tie⟩ := not_tied_of_lengthMark? (many_end Grammar.consuming_lengthMark? cursor)
  simp only [duration]
  split
  · rename_i slur behind last
    have ends : step ⟨.duration :: mode :: outer, (cursor.many lengthMark?).2⟩ =
        some ([(slur, .slur)], ⟨outer, behind⟩) := by
      simp [step, Mode.rules, lengthTokens?, digits, tie, last]
    simpa [Duration.trees] using marks.trans (.of_step ends)
  · rename_i last
    have ends : step ⟨.duration :: mode :: outer, (cursor.many lengthMark?).2⟩ =
        some ([], ⟨outer, (cursor.many lengthMark?).2⟩) := by
      simp [step, Mode.rules, lengthTokens?, digits, tie, last, Mode.leftBy?]
    simpa [Duration.trees] using marks.trans (.of_step ends)

theorem yields_duration? (left : mode.leftBy? = some 1)
    (only : firstRule? mode.rules cursor = firstRule? [durationRule] cursor) :
    Yields ⟨mode :: outer, cursor⟩ (tokensOfAll (durationTrees cursor.duration?.1))
      ⟨outer, cursor.duration?.2⟩ := by
  unfold duration?
  rw [isSome_next?]
  split
  · rename_i begins
    have enters : step ⟨mode :: outer, cursor⟩ =
        some ([], ⟨.duration :: mode :: outer, cursor⟩) := by
      simp [step, only, durationRule, begins]
    simpa [durationTrees] using (Yields.of_step enters).before (yields_duration cursor)
  · rename_i begins
    have leaves : step ⟨mode :: outer, cursor⟩ = some ([], ⟨outer, cursor⟩) := by
      simp [step, only, durationRule, begins, left]
    exact .of_step leaves

/-! ## Attribute changes -/

theorem begins_of {α : Type} {read : Option α} {found : α} {text : List Char} {p : Char → Bool}
    (isSome : read.isSome = text.head?.any p) (here : read = some found) : text.head?.any p := by
  rw [← isSome, here]
  rfl

theorem begins_other {text : List Char} {p q : Char → Bool} (begins : text.head?.any p)
    (other : ∀ c, q c → p c = false) : text.head?.any q = false := by
  cases text with
  | nil => rfl
  | cons c rest =>
    cases holds : q c with
    | false => exact holds
    | true => cases (other c holds).symm.trans begins

theorem noSign_of_begins {p : Char → Bool} (sign : Char) (begins : cursor.rest.head?.any p)
    (other : p sign = false) : cursor.next? (· == sign) = none := by
  have noSign : cursor.rest.head?.any (· == sign) = false := begins_other begins fun c same => by
    rwa [show c = sign from beq_iff_eq.mp same]
  rw [← Option.isNone_iff_eq_none, ← Option.not_isSome, isSome_next?, noSign]
  rfl

theorem endsValues_other {c : Char} (ends : c == ',' || c == ')') :
    isDecimal c = false ∧ isLetter c = false ∧ (c == '#') = false := by
  simp only [Bool.or_eq_true, beq_iff_eq] at ends
  rcases ends with rfl | rfl
  · exact ⟨(Grammar.punctuation _ (by simp)).1, rfl, rfl⟩
  · exact ⟨(Grammar.punctuation _ (by simp)).1, rfl, rfl⟩

theorem isSome_firstRule?_value (pos : Nat) (text : List Char) :
    (firstRule? Mode.attributeValue.rules ⟨pos, text⟩).isSome = startsValue text := by
  cases text with
  | nil => rfl
  | cons c rest =>
    rw [isSome_firstRule?, Bool.eq_iff_iff]
    simp [Mode.rules, gapRules, isSome_run?, isSome_word?, isSome_comment?, startsValue, or_assoc]

theorem yields_valueItem? (cursor : Cursor) (item : ValueItem) (after : Cursor)
    (read : cursor.valueItem? = some (item, after)) :
    Yields ⟨.attributeValue :: outer, cursor⟩ item.tree.tokens
      ⟨.attributeValue :: outer, after⟩ := by
  refine (yields_blanks rfl cursor).before ?_
  have visible := cursor.run?_skipBlanks
  simp only [valueItem?, Option.orElse_eq_orElse, Option.orElse_eq_or, Option.or_eq_some_iff,
    Option.map_eq_some_iff, Option.map_eq_none_iff, Prod.exists, Prod.mk.injEq] at read
  rcases read with ⟨lexeme, rest, digits, rfl, rfl⟩ | ⟨noDigits, ⟨lexeme, rest, word, rfl, rfl⟩ |
    ⟨noWord, ⟨lexeme, rest, comment, rfl, rfl⟩ | ⟨noComment, lexeme, rest, junk, rfl, rfl⟩⟩⟩
  · have goesOn := begins_other (begins_of (isSome_run? _ _) digits) fun c ends =>
      (endsValues_other ends).1
    exact .of_step (by simp [step, Mode.rules, goesOn, digits, ValueItem.tree])
  · have goesOn := begins_other (begins_of (isSome_word? _) word) fun c ends =>
      (endsValues_other ends).2.1
    exact .of_step (by simp [step, Mode.rules, goesOn, noDigits, word, ValueItem.tree])
  · have goesOn := begins_other (begins_of (isSome_comment? _) comment) fun c ends =>
      (endsValues_other ends).2.2
    exact .of_step (by
      simp [step, Mode.rules, gapRules, goesOn, noDigits, noWord, visible, comment, ValueItem.tree])
  · simpa [ValueItem.tree] using yields_junk rfl isSome_firstRule?_value junk

theorem yields_values (stays : mode.leftBy? = none) (cursor : Cursor) :
    Yields ⟨.attributeValue :: mode :: outer, cursor⟩
      ((cursor.many valueItem?).1.flatMap fun item => item.tree.tokens)
      ⟨mode :: outer, (cursor.many valueItem?).2⟩ := by
  have values : Yields ⟨.attributeValue :: mode :: outer, cursor⟩ _ _ :=
    .many Grammar.consuming_valueItem? yields_valueItem? cursor
  have fails := many_end Grammar.consuming_valueItem? cursor
  generalize (cursor.many valueItem?).2 = after at values fails ⊢
  refine values.behind ((yields_blanks rfl after).before ?_)
  cases parts : after.skipBlanks.rest with
  | nil => exact yields_ended stays parts
  | cons c rest =>
    have ends := Grammar.valueItem?_eq_none fails parts
    exact yields_left stays (by simp [step, Mode.rules, parts, ends])

theorem isSome_firstRule?_change (pos : Nat) (text : List Char) :
    (firstRule? Mode.attributeChanges.rules ⟨pos, text⟩).isSome = startsChange text := by
  cases text with
  | nil => rfl
  | cons c rest =>
    rw [isSome_firstRule?, Bool.eq_iff_iff]
    simp [Mode.rules, gapRules, isSome_run?, isSome_attributeName?, isSome_comment?, startsChange,
      or_assoc]

theorem yields_changeItem? (cursor : Cursor) (item : ChangeItem) (after : Cursor)
    (read : cursor.changeItem? = some (item, after)) :
    Yields ⟨.attributeChanges :: outer, cursor⟩ (tokensOfAll item.trees)
      ⟨.attributeChanges :: outer, after⟩ := by
  refine (yields_blanks rfl cursor).before ?_
  have visible := cursor.run?_skipBlanks
  simp only [changeItem?, Option.orElse_eq_orElse, Option.orElse_eq_or, Option.or_eq_some_iff,
    Option.map_eq_some_iff, Option.map_eq_none_iff, Prod.exists, Prod.mk.injEq] at read
  rcases read with ⟨lexeme, rest, comma, rfl, rfl⟩ | ⟨noComma, ⟨lexeme, rest, word, rfl, rfl⟩ |
    ⟨noWord, ⟨lexeme, rest, comment, rfl, rfl⟩ | ⟨noComment, lexeme, rest, junk, rfl, rfl⟩⟩⟩
  · have goesOn := noSign_of_begins ')' (begins_of (isSome_next? _ _) comma) rfl
    exact .of_step (by simp [step, Mode.rules, goesOn, comma, ChangeItem.trees])
  · have goesOn := noSign_of_begins ')' (begins_of (isSome_attributeName? _) word) rfl
    have name : step ⟨.attributeChanges :: outer, cursor.skipBlanks⟩ =
        some ([(lexeme, .attribute)], ⟨.attributeValue :: .attributeChanges :: outer, rest⟩) := by
      simp [step, Mode.rules, goesOn, noComma, word]
    simpa [ChangeItem.trees] using (Yields.of_step name).trans (yields_values rfl rest)
  · have goesOn := noSign_of_begins ')' (begins_of (isSome_comment? _) comment) rfl
    exact .of_step (by
      simp [step, Mode.rules, gapRules, goesOn, noComma, noWord, visible, comment,
        ChangeItem.trees])
  · simpa [ChangeItem.trees] using yields_junk rfl isSome_firstRule?_change junk

theorem opened_of_changes? {changes : Source.Changes}
    (read : cursor.changes? = some (changes, after)) :
    ∃ opening inside, cursor.next? (· == '(') = some (opening, inside) := by
  simp only [changes?, Option.bind_eq_bind, Option.bind_eq_some_iff] at read
  obtain ⟨⟨opening, inside⟩, opens, -⟩ := read
  exact ⟨opening, inside, opens⟩

theorem not_opened_of_changes? (fails : cursor.changes? = none) :
    cursor.next? (· == '(') = none := by
  cases opens : cursor.next? (· == '(') with
  | none => rfl
  | some found =>
    simp only [changes?, opens, Option.bind_eq_bind, Option.bind_some] at fails
    split at fails <;> cases fails

theorem yields_changes? {opening : Lexeme} {inside : Cursor} {changes : Source.Changes}
    (stays : mode.leftBy? = none) (opens : cursor.next? (· == '(') = some (opening, inside))
    (enters : step ⟨mode :: outer, cursor⟩ =
      some ([(opening, .bracketStart)], ⟨.attributeChanges :: mode :: outer, inside⟩))
    (read : cursor.changes? = some (changes, after)) :
    Yields ⟨mode :: outer, cursor⟩ changes.tree.tokens ⟨mode :: outer, after⟩ := by
  simp only [changes?, opens, Option.bind_eq_bind, Option.bind_some] at read
  have items : Yields ⟨.attributeChanges :: mode :: outer, inside⟩ _ _ :=
    .many Grammar.consuming_changeItem? yields_changeItem? inside
  have fails := many_end Grammar.consuming_changeItem? inside
  have start := (Yields.of_step enters).trans
    (items.behind (yields_blanks rfl (inside.many changeItem?).2))
  split at read
  · rename_i closing later last
    cases read
    have leaves : step ⟨.attributeChanges :: mode :: outer,
        (inside.many changeItem?).2.skipBlanks⟩ =
          some ([(closing, .bracketEnd)], ⟨mode :: outer, after⟩) := by
      simp [step, Mode.rules, last]
    simpa [Changes.tree] using start.trans (.of_step leaves)
  · rename_i last
    cases read
    simp only [changeItem?, Option.orElse_eq_orElse, Option.orElse_eq_or, Option.or_eq_none_iff,
      Option.map_eq_none_iff] at fails
    obtain ⟨comma, name, comment, junk⟩ := fails
    have visible := (inside.many changeItem?).2.run?_skipBlanks
    have ended := ended_of_idle isSome_firstRule?_change
      (by simp [Mode.rules, gapRules, last, comma, name, visible, comment]) junk
    simpa [Changes.tree] using start.trans (yields_ended stays ended)

/-! ## Notes, rests and marks -/

theorem yields_accidental (cursor : Cursor) (lexeme : Lexeme) (after : Cursor)
    (read : cursor.next? isAccidental = some (lexeme, after)) :
    Yields ⟨.note :: outer, cursor⟩ [(lexeme, .accidental)] ⟨.note :: outer, after⟩ :=
  .of_step (by simp [step, Mode.rules, read])

structure ReadsMusic (mode : Mode) (stops : List Char → Bool) : Prop where
  stays : mode.leftBy? = none
  goesOn : ∀ cursor, stops cursor.rest = false →
    firstRule? mode.rules cursor = firstRule? eventRules cursor
  same : ∀ pos text, (firstRule? mode.rules ⟨pos, text⟩).isSome =
    (stops text || startsMusicMark text || text.head?.any isBlank)

theorem isSome_firstRule?_event (pos : Nat) (text : List Char) :
    (firstRule? eventRules ⟨pos, text⟩).isSome =
      (startsMusicMark text || text.head?.any isBlank) := by
  cases text with
  | nil => rfl
  | cons c rest =>
    rw [isSome_firstRule?, Bool.eq_iff_iff]
    simp [eventRules, groupRule, gapRules, isSome_run?, isSome_restLetter?, isSome_octaveTokens?,
      isSome_comment?, startsMusicMark, or_assoc, or_comm, or_left_comm]

theorem readsMusic_fragment : ReadsMusic .fragment fun _ => false where
  stays := rfl
  goesOn _ _ := rfl
  same pos text := by simp [Mode.rules, isSome_firstRule?_event]

theorem readsMusic_musicData : ReadsMusic .musicData startsCall where
  stays := rfl
  goesOn cursor none := by simp [Mode.rules, none]
  same pos text := by
    rw [Bool.or_assoc, ← isSome_firstRule?_event pos, Mode.rules]
    cases starts : startsCall text <;> simp [starts]

section

variable {stops : List Char → Bool} {item : MusicItem} (music : ReadsMusic mode stops)
  (goesOn : stops cursor.rest = false)

include music goesOn

theorem yields_note? (read : cursor.note? = some (item, after)) :
    Yields ⟨mode :: outer, cursor⟩ (tokensOfAll item.trees) ⟨mode :: outer, after⟩ := by
  simp only [note?, Option.bind_eq_bind, Option.bind_eq_some_iff] at read
  obtain ⟨⟨pitch, behind⟩, first, read⟩ := read
  cases read
  have begins : step ⟨mode :: outer, cursor⟩ =
      some ([(pitch, .pitch)], ⟨.note :: mode :: outer, behind⟩) := by
    simp [step, music.goesOn _ goesOn, eventRules, first]
  have accidentals : Yields ⟨.note :: mode :: outer, behind⟩ _ _ :=
    .many (Grammar.consuming_next? isAccidental) yields_accidental behind
  have none := many_end (Grammar.consuming_next? isAccidental) behind
  have lasts : Yields ⟨.note :: mode :: outer, (behind.many (next? isAccidental)).2⟩ _ _ :=
    yields_duration? rfl (by simp [Mode.rules, none])
  simpa [MusicItem.trees] using (Yields.of_step begins).trans (accidentals.trans lasts)

theorem yields_rest? (read : cursor.rest? = some (item, after)) :
    Yields ⟨mode :: outer, cursor⟩ (tokensOfAll item.trees) ⟨mode :: outer, after⟩ := by
  simp only [rest?, Option.bind_eq_bind, Option.bind_eq_some_iff] at read
  obtain ⟨⟨mark, behind⟩, first, read⟩ := read
  split at read
  · cases read
  · rename_i alone
    cases read
    have noPitch : cursor.next? isPitch = none := by
      obtain ⟨rest, parts, -⟩ := next?_sign first
      simp [next?, parts, isPitch]
    have letter : cursor.restLetter? = some (mark, behind) := by simp [restLetter?, first, alone]
    have begins : step ⟨mode :: outer, cursor⟩ =
        some ([(mark, .rest)], ⟨.rest :: mode :: outer, behind⟩) := by
      simp [step, music.goesOn _ goesOn, eventRules, noPitch, letter]
    have lasts : Yields ⟨.rest :: mode :: outer, behind⟩ _ _ := yields_duration? rfl rfl
    simpa [MusicItem.trees] using (Yields.of_step begins).trans lasts

theorem yields_octaveSet? (read : cursor.octaveSet? = some (item, after)) :
    Yields ⟨mode :: outer, cursor⟩ (tokensOfAll item.trees) ⟨mode :: outer, after⟩ := by
  simp only [octaveSet?, Option.bind_eq_bind, Option.bind_eq_some_iff] at read
  obtain ⟨⟨mark, behind⟩, first, ⟨number, later⟩, digits, read⟩ := read
  cases read
  obtain ⟨rest, parts, -⟩ := next?_sign first
  have noPitch : cursor.next? isPitch = none := by simp [next?, parts, isPitch]
  have noRest : cursor.restLetter? = none := by simp [restLetter?, next?, parts]
  have tokens : cursor.octaveTokens? = some ([(mark, .octave), (number, .number)], later) := by
    simp [octaveTokens?, first, digits]
  exact .of_step (by
    simp [step, music.goesOn _ goesOn, eventRules, noPitch, noRest, tokens, MusicItem.trees])

theorem yields_mark? (read : cursor.mark? = some (item, after)) :
    Yields ⟨mode :: outer, cursor⟩ (tokensOfAll item.trees) ⟨mode :: outer, after⟩ := by
  obtain ⟨pos, text⟩ := cursor
  apply Yields.of_step
  unfold mark? at read
  split at read
  case h_5 => cases read
  all_goals
    rename_i rest parts
    cases parts
    cases read
    simp [step, music.goesOn _ goesOn, eventRules, restLetter?, octaveTokens?, isPitch,
      MusicItem.trees]

theorem yields_comment? (read : cursor.comment? = some (lexeme, after)) :
    Yields ⟨mode :: outer, cursor⟩ [(lexeme, .comment)] ⟨mode :: outer, after⟩ := by
  obtain ⟨pos, text⟩ := cursor
  apply Yields.of_step
  have begins := begins_of (isSome_comment? _) read
  cases text with
  | nil => cases begins
  | cons c rest =>
    obtain rfl : c = '#' := by simpa using begins
    have visible : (Cursor.mk pos ('#' :: rest)).run? isBlank = none := rfl
    simp [step, music.goesOn _ goesOn, eventRules, groupRule, gapRules, restLetter?,
      octaveTokens?, isPitch, visible, read]

theorem yields_group {changes : Source.Changes} (read : cursor.changes? = some (changes, after)) :
    Yields ⟨mode :: outer, cursor⟩ changes.tree.tokens ⟨mode :: outer, after⟩ := by
  obtain ⟨opening, inside, opens⟩ := opened_of_changes? read
  refine yields_changes? music.stays opens ?_ read
  obtain ⟨rest, parts, same⟩ := next?_sign opens
  obtain ⟨pos, text⟩ := cursor
  cases parts
  cases same
  simp [step, music.goesOn _ goesOn, eventRules, groupRule, restLetter?, octaveTokens?, isPitch]

theorem yields_musicMark? (read : cursor.musicMark? = some (item, after)) :
    Yields ⟨mode :: outer, cursor⟩ (tokensOfAll item.trees) ⟨mode :: outer, after⟩ := by
  simp only [musicMark?, Option.orElse_eq_orElse, Option.orElse_eq_or, Option.or_eq_some_iff,
    Option.map_eq_some_iff, Prod.exists, Prod.mk.injEq] at read
  rcases read with note | ⟨-, rest | ⟨-, octave | ⟨-, mark | ⟨-, ⟨group, rest, changes, rfl, rfl⟩ |
    ⟨-, lexeme, rest, comment, rfl, rfl⟩⟩⟩⟩⟩
  · exact yields_note? music goesOn note
  · exact yields_rest? music goesOn rest
  · exact yields_octaveSet? music goesOn octave
  · exact yields_mark? music goesOn mark
  · simpa [MusicItem.trees] using yields_group music goesOn changes
  · simpa [MusicItem.trees] using yields_comment? music goesOn comment

end

theorem yields_musicItem? {stops : List Char → Bool} (music : ReadsMusic mode stops)
    (cursor : Cursor) (item : MusicItem) (after : Cursor)
    (read : cursor.musicItem? stops = some (item, after)) :
    Yields ⟨mode :: outer, cursor⟩ (tokensOfAll item.trees) ⟨mode :: outer, after⟩ := by
  refine (yields_blanks music.stays cursor).before ?_
  simp only [musicItem?] at read
  split at read
  · cases read
  · rename_i goesOn
    simp only [Option.orElse_eq_orElse, Option.orElse_eq_or, Option.or_eq_some_iff,
      Option.map_eq_some_iff, Prod.exists, Prod.mk.injEq] at read
    rcases read with mark | ⟨-, lexeme, rest, junk, rfl, rfl⟩
    · exact yields_musicMark? music (by simpa using goesOn) mark
    · simpa [MusicItem.trees] using yields_junk music.stays music.same junk

theorem yields_music {stops : List Char → Bool} (music : ReadsMusic mode stops) (cursor : Cursor) :
    Yields ⟨mode :: outer, cursor⟩
      (tokensOfAll ((cursor.music stops).1.flatMap MusicItem.trees))
      ⟨mode :: outer, (cursor.music stops).2⟩ := by
  rw [tokensOfAll_flatMap]
  exact .many (consuming_musicItem? stops) (yields_musicItem? music) cursor

end Lexer

end Partbook.Source
