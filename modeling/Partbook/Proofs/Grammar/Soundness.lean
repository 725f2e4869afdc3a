import Partbook.Proofs.Element.Origins
import Partbook.Proofs.Grammar.Music

/-!
What is read of music is what the grammar says. The readers skip blanks before they look for an
item, so each of the lemmas on repetition is about what is left behind the blanks.
-/
namespace Partbook.Grammar

open Text Source Element Cursor

variable {cursor after : Cursor} {p : Char → Bool} {lexeme : Lexeme}

theorem forget_leaf (lexeme : Lexeme) (kind : TextKind) :
    (lexeme.element kind).forgetOrigins = leaf kind lexeme.chars := rfl

/-! ## Single characters and runs -/

theorem apart_dropWhile (p : Char → Bool) (text : List Char) : Apart p (text.dropWhile p) := by
  intro c first
  have stopped := List.head?_dropWhile_not p text
  rw [Option.mem_def.mp first] at stopped
  simpa using stopped

theorem next?_eq_none : cursor.next? p = none ↔ Apart p cursor.rest := by
  obtain ⟨pos, rest⟩ := cursor
  cases rest with
  | nil => simp [next?, Apart]
  | cons c rest => cases holds : p c <;> simp [next?, Apart, holds]

theorem isSome_next? : (cursor.next? p).isSome ↔ ∃ c ∈ cursor.rest.head?, p c := by
  obtain ⟨pos, rest⟩ := cursor
  cases rest with
  | nil => simp [next?]
  | cons c rest => cases holds : p c <;> simp [next?, holds]

theorem run?_eq_none : cursor.run? p = none ↔ Apart p cursor.rest := by
  obtain ⟨pos, rest⟩ := cursor
  cases rest with
  | nil => simp [run?, Apart]
  | cons c rest => cases holds : p c <;> simp [run?, Apart, holds]

theorem next?_sound (read : cursor.next? p = some (lexeme, after)) :
    ∃ c, lexeme.chars = [c] ∧ p c ∧ cursor.rest = c :: after.rest := by
  obtain ⟨c, rest, parts, holds, same⟩ := next?_eq_some read
  cases same
  exact ⟨c, rfl, holds, parts⟩

theorem run?_sound (read : cursor.run? p = some (lexeme, after)) :
    cursor.rest = lexeme.chars ++ after.rest ∧ lexeme.chars ≠ [] ∧ (∀ c ∈ lexeme.chars, p c) ∧
      Apart p after.rest := by
  unfold run? at read
  split at read
  · cases read
  · rename_i nonempty
    cases read
    exact ⟨List.takeWhile_append_dropWhile.symm, nonempty,
      fun c member => List.mem_takeWhile_imp member, apart_dropWhile p cursor.rest⟩

theorem digits_sound (read : cursor.run? isDecimal = some (lexeme, after)) :
    cursor.rest = lexeme.chars ++ after.rest ∧ Digits lexeme.chars after.rest := by
  obtain ⟨parts, nonempty, decimal, whole⟩ := run?_sound read
  exact ⟨parts, nonempty, decimal, whole⟩

theorem word?_sound (read : cursor.word? = some (lexeme, after)) :
    ∃ c chars, lexeme.chars = c :: chars ∧ cursor.rest = c :: (chars ++ after.rest) ∧
      Word c chars after.rest := by
  unfold word? at read
  split at read
  · rename_i c rest parts
    split at read
    · rename_i letter
      cases read
      refine ⟨c, rest.takeWhile isWordChar, rfl, ?_, letter,
        fun a member => List.mem_takeWhile_imp member, apart_dropWhile isWordChar rest⟩
      rw [parts]
      exact congrArg (c :: ·) List.takeWhile_append_dropWhile.symm
    · cases read
  · cases read

theorem comment?_sound (read : cursor.comment? = some (lexeme, after)) :
    Gap cursor.rest after.rest := by
  unfold comment? at read
  split at read
  · rename_i rest parts
    cases read
    have split : cursor.rest =
        '#' :: (rest.takeWhile (· != '\n') ++ rest.dropWhile (· != '\n')) := by
      rw [parts, List.takeWhile_append_dropWhile]
    have behind : cursor.rest.dropWhile (· != '\n') = rest.dropWhile (· != '\n') := by
      rw [parts]
      rfl
    simp only [behind]
    rw [split]
    refine .comment (fun c member => by simpa using List.mem_takeWhile_imp member) fun c first => ?_
    simpa using apart_dropWhile (· != '\n') rest c first
  · cases read

/-! ## Gaps -/

theorem behind_blanks {P : List Char → Prop} (gap : ∀ {text rest}, Gap text rest → P rest → P text)
    {blanks text : List Char} (blank : ∀ c ∈ blanks, isBlank c) (behind : P text) :
    P (blanks ++ text) := by
  induction blanks with
  | nil => exact behind
  | cons c blanks ih =>
    rw [List.forall_mem_cons] at blank
    exact gap (.blank blank.1) (ih blank.2)

theorem of_skipBlanks {P : List Char → Prop} (gap : ∀ {text rest}, Gap text rest → P rest → P text)
    (cursor : Cursor) (behind : P cursor.skipBlanks.rest) : P cursor.rest := by
  obtain ⟨blanks, parts, blank⟩ := cursor.skipBlanks_parts
  exact parts ▸ behind_blanks gap blank behind

theorem Values.behindBlanks {values : List Element} {later : List Char}
    (behind : Values cursor.skipBlanks.rest values later) : Values cursor.rest values later :=
  of_skipBlanks (P := fun text => Values text values later) .gap cursor behind

theorem Changes.behindBlanks {changes : List Element} {later : List Char}
    (behind : Changes cursor.skipBlanks.rest changes later) :
    Changes cursor.rest changes later :=
  of_skipBlanks (P := fun text => Changes text changes later) .gap cursor behind

theorem Lexed.behindBlanks {tokens : List Token} (behind : Lexed cursor.skipBlanks.rest tokens) :
    Lexed cursor.rest tokens :=
  of_skipBlanks (P := fun text => Lexed text tokens) .gap cursor behind

/-! ## Durations -/

theorem lengthMark?_eq_none : cursor.lengthMark? = none ↔
    Apart isDecimal cursor.rest ∧ ∀ later, cursor.rest = '~' :: later → Apart isDecimal later := by
  unfold lengthMark?
  cases digits : cursor.run? isDecimal with
  | some found =>
    have number : ¬ Apart isDecimal cursor.rest := by simp [← run?_eq_none, digits]
    simp only [number, false_and, iff_false]
    split <;> nofun
  | none =>
    simp only [run?_eq_none.mp digits, true_and, Option.bind_eq_bind]
    cases tilde : cursor.next? (· == '~') with
    | none =>
      simp only [Option.bind_none, true_iff]
      intro later parts
      exact absurd (next?_eq_none.mp tilde '~' (by simp [parts])) (by decide)
    | some found =>
      obtain ⟨c, -, isTilde, parts⟩ := @next?_sound _ found.2 _ _ tilde
      obtain rfl : c = '~' := by simpa using isTilde
      have tied : (found.2.next? isDecimal).isSome ↔ ¬ Apart isDecimal found.2.rest := by
        rw [← next?_eq_none, Option.isSome_iff_ne_none]
      simp [parts, tied]

theorem lengthMark?_sound {mark : LengthMark} (read : cursor.lengthMark? = some (mark, after))
    {marks : List Element} {rest : List Char} (more : Marks after.rest marks rest) :
    Marks cursor.rest (mark.element.forgetOrigins :: marks) rest := by
  unfold lengthMark? at read
  split at read
  · rename_i number behind digits
    obtain ⟨parts, nonempty, decimal, whole⟩ := run?_sound digits
    split at read
    · rename_i dots later run
      cases read
      obtain ⟨dotted, dotty, all, apart⟩ := run?_sound run
      have isDot : ∀ c ∈ dots.chars, c = '.' := fun c member => by simpa using all c member
      have same : (LengthMark.length number (some dots)).element.forgetOrigins =
          noteLength number.chars dots.chars := by
        simp only [noteLength, if_neg dotty]
        rfl
      rw [same, parts, dotted]
      rw [dotted] at whole
      exact .length ⟨nonempty, decimal, whole⟩ isDot apart more
    · rename_i run
      cases read
      rw [parts]
      show Marks (number.chars ++ ([] ++ after.rest)) _ rest
      exact .length ⟨nonempty, decimal, whole⟩ (by simp) (run?_eq_none.mp run) more
  · simp only [Option.bind_eq_bind, Option.bind_eq_some_iff] at read
    obtain ⟨⟨tilde, behind⟩, tied, read⟩ := read
    split at read
    · rename_i number
      cases read
      obtain ⟨c, -, isTilde, parts⟩ := next?_sound tied
      obtain rfl : c = '~' := by simpa using isTilde
      rw [parts]
      refine .tie (fun none => ?_) more
      rw [next?_eq_none.mpr none] at number
      cases number
    · cases read

theorem consuming_lengthMark? : Consuming lengthMark? := fun cursor mark after read =>
  (advances_lengthMark? cursor mark after read).2

theorem marks_sound (cursor : Cursor) :
    Marks cursor.rest ((cursor.many lengthMark?).1.map fun mark => mark.element.forgetOrigins)
      (cursor.many lengthMark?).2.rest := by
  induction cursor using many.induct lengthMark? with
  | case1 cursor fails =>
    rw [many_of_none fails]
    obtain ⟨noLength, noTie⟩ := lengthMark?_eq_none.mp fails
    exact .done noLength noTie
  | case2 cursor mark after read shorter ih =>
    rw [many_of_some consuming_lengthMark? read]
    exact lengthMark?_sound read ih
  | case3 cursor mark after read longer => exact absurd (consuming_lengthMark? _ _ _ read) longer

theorem forget_duration (marks : List LengthMark) (slur : Option Lexeme) :
    (Duration.mk marks slur).element.forgetOrigins =
      .plain .duration (marks.map (fun mark => mark.element.forgetOrigins) ++
        if slur.isSome then [.plain .slur []] else []) := by
  simp only [Duration.element, forgetOrigins_plain, List.map_append, List.map_map]
  cases slur <;> rfl

theorem duration?_sound (cursor : Cursor) :
    Lasts cursor.rest ((durationElements cursor.duration?.1).map forgetOrigins)
      cursor.duration?.2.rest := by
  have said := marks_sound cursor
  unfold duration?
  split
  · rename_i begins
    simp only [duration, durationElements]
    cases slur : (cursor.many lengthMark?).2.next? (· == '~') with
    | some found =>
      obtain ⟨c, -, isTilde, parts⟩ := @next?_sound _ found.2 _ _ slur
      obtain rfl : c = '~' := by simpa using isTilde
      simp only [Option.toList_some, List.map_cons, List.map_nil, forget_duration,
        Option.isSome_some, if_true]
      exact .slurred (parts ▸ said)
    | none =>
      simp only [Option.toList_some, List.map_cons, List.map_nil, forget_duration,
        Option.isSome_none, Bool.false_eq_true, if_false, List.append_nil]
      refine .said (fun nothing => ?_) said
      rw [nothing] at said
      generalize (cursor.many lengthMark?).2 = behind at said slur
      obtain ⟨pos, rest⟩ := cursor
      obtain ⟨pos', rest'⟩ := behind
      cases said with
      | done noLength noTie =>
        have noTilde := next?_eq_none.mp slur
        obtain ⟨c, first, starts⟩ := isSome_next?.mp begins
        simp [noLength c first, noTilde c first] at starts
  · exact .unsaid

/-! ## Attribute changes -/

theorem valueItem?_eq_none {c : Char} {rest : List Char} (fails : cursor.valueItem? = none)
    (visible : cursor.skipBlanks.rest = c :: rest) : c = ',' ∨ c = ')' := by
  have blank : isBlank c = false := by
    have stopped := apart_dropWhile isBlank cursor.rest
    rw [show cursor.rest.dropWhile isBlank = c :: rest from visible] at stopped
    exact stopped c rfl
  simp only [valueItem?, Option.orElse_eq_orElse, Option.orElse_eq_or, Option.or_eq_none_iff,
    Option.map_eq_none_iff] at fails
  obtain ⟨number, word, comment, junk⟩ := fails
  have noDigit : isDecimal c = false := by
    have apart := run?_eq_none.mp number
    rw [visible] at apart
    exact apart c rfl
  have noLetter : isLetter c = false := by
    cases letter : isLetter c with
    | false => rfl
    | true => simp [word?, visible, letter] at word
  have noComment : c ≠ '#' := by
    rintro rfl
    simp [comment?, visible] at comment
  have starts : startsValue (c :: rest) := by
    by_contra other
    refine junk?_ne_none ?_ ?_ junk
    · simp [visible]
    · simpa [visible] using other
  simpa [startsValue, noDigit, noLetter, blank, noComment] using starts

theorem consuming_valueItem? : Consuming valueItem? := fun cursor item after read =>
  (advances_valueItem? cursor item after read).2

theorem values_sound {values : List Element}
    (built : valueElements (cursor.many valueItem?).1 = .ok values) {c : Char} {rest : List Char}
    (visible : (cursor.many valueItem?).2.skipBlanks.rest = c :: rest) :
    Values cursor.skipBlanks.rest (values.map forgetOrigins) (c :: rest) := by
  induction cursor using many.induct valueItem? generalizing values with
  | case1 cursor fails =>
    rw [many_of_none fails] at built visible
    cases built
    rw [visible]
    exact .done (valueItem?_eq_none fails visible)
  | case2 cursor item after read shorter ih =>
    rw [many_of_some consuming_valueItem? read] at built visible
    simp only [valueItem?, Option.orElse_eq_orElse, Option.orElse_eq_or, Option.or_eq_some_iff,
      Option.map_eq_some_iff, Prod.exists, Prod.mk.injEq] at read
    rcases read with ⟨lexeme, rest, digits, rfl, rfl⟩ | ⟨-, ⟨lexeme, rest, word, rfl, rfl⟩ |
      ⟨-, ⟨lexeme, rest, comment, rfl, rfl⟩ | ⟨-, lexeme, rest, junk, rfl, rfl⟩⟩⟩
    · simp only [valueElements, bind_eq_ok, pure_eq_ok] at built
      obtain ⟨later, built, rfl⟩ := built
      obtain ⟨parts, number⟩ := digits_sound digits
      rw [parts]
      exact .number number (ih built visible).behindBlanks
    · simp only [valueElements, bind_eq_ok, pure_eq_ok] at built
      obtain ⟨later, built, rfl⟩ := built
      obtain ⟨first, chars, text, parts, isWord⟩ := word?_sound word
      rw [parts, List.map_cons, forget_leaf, text]
      exact .word isWord (ih built visible).behindBlanks
    · exact .gap (comment?_sound comment) (ih built visible).behindBlanks
    · cases built
  | case3 cursor item after read longer => exact absurd (consuming_valueItem? _ _ _ read) longer

theorem Changes.ne_nil {text later : List Char} {changes : List Element}
    (closed : Changes text changes later) : text ≠ [] := by
  rintro rfl
  cases closed with
  | gap gap more => cases gap
  | change first more => cases first

theorem attributeName?_sound (read : cursor.attributeName? = some (lexeme, after))
    {values : List Element} {rest : List Char} (valued : Values after.rest values rest) :
    Change cursor.rest (.plain .attributeChange (leaf .attributeName lexeme.chars :: values))
      rest := by
  simp only [attributeName?, Option.bind_eq_bind, Option.bind_eq_some_iff] at read
  obtain ⟨⟨word, behind⟩, begins, read⟩ := read
  obtain ⟨c, chars, text, parts, isWord⟩ := word?_sound begins
  split at read
  · rename_i mark later marked
    cases read
    obtain ⟨bang, same, isBang, parts'⟩ := next?_sound marked
    obtain rfl : bang = '!' := by simpa using isBang
    rw [parts'] at isWord
    rw [parts, parts', text, same]
    exact .everywhere isWord valued
  · rename_i unmarked
    cases read
    rw [parts, text]
    exact .here isWord (next?_eq_none.mp unmarked) valued

theorem consuming_changeItem? : Consuming changeItem? := fun cursor item after read =>
  (advances_changeItem? cursor item after read).2

theorem changeItems_sound {changes : List Element}
    (built : changeElements (cursor.many changeItem?).1 = .ok changes)
    (checked : checkChangeItems (cursor.many changeItem?).1 = .ok ()) {rest : List Char}
    (closed : (cursor.many changeItem?).2.skipBlanks.rest = ')' :: rest) :
    Changes cursor.skipBlanks.rest (changes.map forgetOrigins) rest := by
  induction cursor using many.induct changeItem? generalizing changes with
  | case1 cursor fails =>
    rw [many_of_none fails] at built closed
    cases built
    rw [closed]
    exact .close
  | case2 cursor item after read shorter ih =>
    rw [many_of_some consuming_changeItem? read] at built checked closed
    simp only [changeItem?, Option.orElse_eq_orElse, Option.orElse_eq_or, Option.or_eq_some_iff,
      Option.map_eq_some_iff, Prod.exists, Prod.mk.injEq] at read
    rcases read with ⟨lexeme, rest, comma, rfl, rfl⟩ | ⟨-, ⟨name, rest, word, rfl, rfl⟩ |
      ⟨-, ⟨lexeme, rest, comment, rfl, rfl⟩ | ⟨-, lexeme, rest, junk, rfl, rfl⟩⟩⟩
    · obtain ⟨c, -, isComma, parts⟩ := next?_sound comma
      obtain rfl : c = ',' := by simpa using isComma
      rw [parts]
      exact .comma (ih built checked closed).behindBlanks
    · simp only [changeElements, bind_eq_ok, pure_eq_ok] at built
      obtain ⟨values, inside, later, built, rfl⟩ := built
      have more := ih built checked closed
      obtain ⟨c, behind, visible⟩ := List.exists_cons_of_ne_nil more.ne_nil
      have valued := (values_sound inside visible).behindBlanks
      rw [← visible] at valued
      simp only [List.map_cons, forgetOrigins_plain, forget_leaf]
      exact .change (attributeName?_sound word valued) more
    · exact .gap (comment?_sound comment) (ih built checked closed).behindBlanks
    · cases checked
  | case3 cursor item after read longer => exact absurd (consuming_changeItem? _ _ _ read) longer

/-! ## Events -/

theorem changes?_sound {changes : Source.Changes} {element : Element}
    (read : cursor.changes? = some (changes, after)) (built : changes.element = .ok element) :
    Event cursor.rest element.forgetOrigins after.rest := by
  simp only [changes?, Option.bind_eq_bind, Option.bind_eq_some_iff] at read
  obtain ⟨⟨opening, behind⟩, opens, read⟩ := read
  obtain ⟨c, -, isOpening, parts⟩ := next?_sound opens
  obtain rfl : c = '(' := by simpa using isOpening
  split at read
  · rename_i closing later closes
    cases read
    obtain ⟨c, -, isClosing, closed⟩ := next?_sound closes
    obtain rfl : c = ')' := by simpa using isClosing
    simp only [Source.Changes.element, bind_eq_ok, pure_eq_ok] at built
    obtain ⟨children, inside, _, checked, rfl⟩ := built
    rw [parts, forgetOrigins_node]
    exact .changes (changeItems_sound inside checked closed).behindBlanks
  · cases read
    simp only [Source.Changes.element, bind_eq_ok] at built
    obtain ⟨_, -, built⟩ := built
    cases built

theorem consuming_next? (p : Char → Bool) : Consuming (next? p) := fun _ _ _ read =>
  (advances_next? read).2

theorem accidentals_sound (cursor : Cursor) :
    ∃ signs, cursor.rest = signs ++ (cursor.many (next? isAccidental)).2.rest ∧
      (cursor.many (next? isAccidental)).1.map Lexeme.chars = signs.map ([·]) ∧
      ∀ c ∈ signs, isAccidental c := by
  induction cursor using many.induct (next? isAccidental) with
  | case1 cursor fails =>
    rw [many_of_none fails]
    exact ⟨[], rfl, rfl, by simp⟩
  | case2 cursor lexeme after read shorter ih =>
    rw [many_of_some (consuming_next? isAccidental) read]
    obtain ⟨c, text, accidental, parts⟩ := next?_sound read
    obtain ⟨signs, rest, texts, all⟩ := ih
    refine ⟨c :: signs, ?_, ?_, List.forall_mem_cons.mpr ⟨accidental, all⟩⟩
    · rw [parts, rest]
      rfl
    · rw [List.map_cons, List.map_cons, text, texts]
  | case3 cursor lexeme after read longer =>
    exact absurd (consuming_next? isAccidental _ _ _ read) longer

theorem forget_note (pitch : Lexeme) (accidentals : List Lexeme) (duration : Option Duration)
    {c : Char} {signs : List Char} (letter : pitch.chars = [c])
    (same : accidentals.map Lexeme.chars = signs.map ([·])) :
    (noteElement pitch accidentals duration).forgetOrigins =
      note c signs ((durationElements duration).map forgetOrigins) := by
  have leaves : accidentals.map (fun sign => leaf .accidental sign.chars) =
      signs.map fun c => leaf .accidental [c] := by
    have each : (accidentals.map Lexeme.chars).map (leaf .accidental) =
        (signs.map ([·])).map (leaf .accidental) := by rw [same]
    simpa only [List.map_map, Function.comp_def] using each
  simp only [noteElement, note, forgetOrigins_plain, List.map_cons, forgetOrigins_withChildren,
    forget_leaf, letter, List.map_map, Function.comp_def, leaves]

theorem note?_sound {item : MusicItem} (read : cursor.note? = some (item, after)) :
    ∃ tree, item.piece = .ok (.event tree) ∧ Event cursor.rest tree.forgetOrigins after.rest := by
  simp only [note?, Option.bind_eq_bind, Option.bind_eq_some_iff] at read
  obtain ⟨⟨pitch, behind⟩, first, read⟩ := read
  cases read
  obtain ⟨c, letter, isPitch, parts⟩ := next?_sound first
  obtain ⟨signs, rest, texts, all⟩ := accidentals_sound behind
  refine ⟨_, rfl, ?_⟩
  rw [parts, rest, forget_note pitch _ _ letter texts]
  exact .note isPitch all (duration?_sound _)

theorem rest?_sound {item : MusicItem} (read : cursor.rest? = some (item, after)) :
    ∃ tree, item.piece = .ok (.event tree) ∧ Event cursor.rest tree.forgetOrigins after.rest := by
  simp only [rest?, Option.bind_eq_bind, Option.bind_eq_some_iff] at read
  obtain ⟨⟨mark, behind⟩, first, read⟩ := read
  obtain ⟨c, -, isRest, parts⟩ := next?_sound first
  obtain rfl : c = 'r' := by simpa using isRest
  split at read
  · cases read
  · rename_i alone
    cases read
    refine ⟨_, rfl, ?_⟩
    have apart : Apart isLetter behind.rest := by
      rw [← next?_eq_none]
      simpa using alone
    rw [parts, Lexeme.markElement, forgetOrigins_node]
    exact .rest apart (duration?_sound behind)

theorem octaveSet?_sound {item : MusicItem} (read : cursor.octaveSet? = some (item, after)) :
    ∃ tree, item.piece = .ok (.event tree) ∧ Event cursor.rest tree.forgetOrigins after.rest := by
  simp only [octaveSet?, Option.bind_eq_bind, Option.bind_eq_some_iff] at read
  obtain ⟨⟨mark, behind⟩, first, ⟨number, later⟩, digits, read⟩ := read
  cases read
  obtain ⟨c, -, isOctave, parts⟩ := next?_sound first
  obtain rfl : c = 'o' := by simpa using isOctave
  obtain ⟨rest, isNumber⟩ := digits_sound digits
  refine ⟨_, rfl, ?_⟩
  rw [parts, rest, Lexeme.markElement, forgetOrigins_node]
  exact .octaveSet isNumber.nonempty isNumber.decimal

def tokens? : Piece → Option Token
  | .event tree => some (.event tree.forgetOrigins)
  | .separator _ => some .separator
  | .comment | .invalid _ => none

theorem musicMark?_sound {item : MusicItem} {piece : Piece}
    (read : cursor.musicMark? = some (item, after)) (built : item.piece = .ok piece) :
    (∃ tree, piece = .event tree ∧ Event cursor.rest tree.forgetOrigins after.rest) ∨
      (∃ slash, piece = .separator slash ∧ cursor.rest = '/' :: after.rest) ∨
      (piece = .comment ∧ Gap cursor.rest after.rest) := by
  have event (sound : ∃ tree, item.piece = .ok (.event tree) ∧
      Event cursor.rest tree.forgetOrigins after.rest) :
      ∃ tree, piece = .event tree ∧ Event cursor.rest tree.forgetOrigins after.rest := by
    obtain ⟨tree, same, isEvent⟩ := sound
    cases built.symm.trans same
    exact ⟨tree, rfl, isEvent⟩
  simp only [musicMark?, Option.orElse_eq_orElse, Option.orElse_eq_or, Option.or_eq_some_iff,
    Option.map_eq_some_iff, Prod.exists, Prod.mk.injEq] at read
  rcases read with note | ⟨-, rest | ⟨-, octave | ⟨-, mark | ⟨-, ⟨group, rest, changes, rfl, rfl⟩ |
    ⟨-, lexeme, rest, comment, rfl, rfl⟩⟩⟩⟩⟩
  · exact .inl (event (note?_sound note))
  · exact .inl (event (rest?_sound rest))
  · exact .inl (event (octaveSet?_sound octave))
  · unfold mark? at mark
    split at mark
    case h_4 =>
      rename_i rest parts
      cases mark
      cases built
      exact .inr (.inl ⟨_, rfl, parts⟩)
    case h_5 => cases mark
    all_goals
      rename_i rest parts
      cases mark
      cases built
      exact .inl ⟨_, rfl, parts ▸ .sign (by simp [signs])⟩
  · simp only [MusicItem.piece, bind_eq_ok, pure_eq_ok] at built
    obtain ⟨tree, built, rfl⟩ := built
    exact .inl ⟨tree, rfl, changes?_sound changes built⟩
  · cases built
    exact .inr (.inr ⟨rfl, comment?_sound comment⟩)

/-! ## Music -/

theorem lexed_music {all : List Piece} (built : pieces (cursor.music fun _ => false).1 = .ok all)
    (valid : ∀ text, Piece.invalid text ∉ all) : Lexed cursor.rest (all.filterMap tokens?) := by
  unfold music at built
  induction cursor using many.induct (musicItem? fun _ => false) generalizing all with
  | case1 cursor fails =>
    rw [many_of_none fails] at built
    cases built
    have blank := behind_blanks (P := fun text => Lexed text []) .gap (blank_of_musicItem? fails)
      .done
    rwa [List.append_nil] at blank
  | case2 cursor item after read shorter ih =>
    rw [many_of_some (consuming_musicItem? _) read] at built
    simp only [pieces, bind_eq_ok, pure_eq_ok] at built
    obtain ⟨piece, here, later, built, rfl⟩ := built
    simp only [List.mem_cons, not_or] at valid
    have more := ih built fun text => (valid text).2
    apply Lexed.behindBlanks
    rcases musicItem?_cases read with mark | ⟨text, rfl⟩
    · rcases musicMark?_sound mark here with
        ⟨tree, rfl, event⟩ | ⟨slash, rfl, slashed⟩ | ⟨rfl, gap⟩
      · exact .event event more
      · exact slashed ▸ .separator more
      · exact .gap gap more
    · cases here
      exact absurd rfl (valid text).1
  | case3 cursor item after read longer =>
    exact absurd (consuming_musicItem? _ _ _ _ read) longer

theorem event_of_music {stops : List Char → Bool} {all : List Piece}
    (built : pieces (cursor.music stops).1 = .ok all) {tree : Element}
    (member : .event tree ∈ all) : ∃ text rest, Event text tree.forgetOrigins rest := by
  unfold music at built
  induction cursor using many.induct (musicItem? stops) generalizing all with
  | case1 cursor fails =>
    rw [many_of_none fails] at built
    cases built
    cases member
  | case2 cursor item after read shorter ih =>
    rw [many_of_some (consuming_musicItem? _) read] at built
    simp only [pieces, bind_eq_ok, pure_eq_ok] at built
    obtain ⟨piece, here, later, built, rfl⟩ := built
    rcases List.mem_cons.mp member with rfl | within
    · rcases musicItem?_cases read with mark | ⟨text, rfl⟩
      · rcases musicMark?_sound mark here with
          ⟨tree, same, event⟩ | ⟨slash, same, -⟩ | ⟨same, -⟩ <;> cases same
        exact ⟨_, _, event⟩
      · cases here
    · exact ih built within
  | case3 cursor item after read longer =>
    exact absurd (consuming_musicItem? _ _ _ _ read) longer

end Partbook.Grammar
