import Partbook.Proofs.Source.Progress

namespace Partbook.Source

open Text

/-! ## The same piece further down -/

def Lexeme.moved (n : Nat) (lexeme : Lexeme) : Lexeme := ⟨lexeme.pos + n, lexeme.chars⟩

def LengthMark.moved (n : Nat) : LengthMark → LengthMark
  | .length number dots => .length (number.moved n) (dots.map (Lexeme.moved n))
  | .tie tilde => .tie (tilde.moved n)

def Duration.moved (n : Nat) (duration : Duration) : Duration :=
  ⟨duration.marks.map (LengthMark.moved n), duration.slur.map (Lexeme.moved n)⟩

def ValueItem.moved (n : Nat) : ValueItem → ValueItem
  | .number digits => .number (digits.moved n)
  | .word text => .word (text.moved n)
  | .comment text => .comment (text.moved n)
  | .invalid text => .invalid (text.moved n)

def ChangeItem.moved (n : Nat) : ChangeItem → ChangeItem
  | .comma text => .comma (text.moved n)
  | .comment text => .comment (text.moved n)
  | .invalid text => .invalid (text.moved n)
  | .change name values => .change (name.moved n) (values.map (ValueItem.moved n))

def Changes.moved (n : Nat) (changes : Changes) : Changes :=
  ⟨changes.opening.moved n, changes.items.map (ChangeItem.moved n),
    changes.closing.map (Lexeme.moved n)⟩

def MusicItem.moved (n : Nat) : MusicItem → MusicItem
  | .note pitch accidentals duration =>
    .note (pitch.moved n) (accidentals.map (Lexeme.moved n)) (duration.map (Duration.moved n))
  | .rest mark duration => .rest (mark.moved n) (duration.map (Duration.moved n))
  | .octaveSet mark number => .octaveSet (mark.moved n) (number.moved n)
  | .octaveUp mark => .octaveUp (mark.moved n)
  | .octaveDown mark => .octaveDown (mark.moved n)
  | .barline mark => .barline (mark.moved n)
  | .separator slash => .separator (slash.moved n)
  | .changes group => .changes (group.moved n)
  | .comment text => .comment (text.moved n)
  | .invalid text => .invalid (text.moved n)

def EndsLine (more : List Char) : Prop := ∀ c ∈ more.head?, c = '\n'

theorem EndsLine.nil : EndsLine [] := nofun

theorem EndsLine.newline (more : List Char) : EndsLine ('\n' :: more) := by simp [EndsLine]

theorem EndsLine.takeWhile {p : Char → Bool} {more : List Char} (ends : EndsLine more)
    (newline : p '\n' = false) (text : List Char) :
    (text ++ more).takeWhile p = text.takeWhile p := by
  induction text with
  | nil =>
    cases more with
    | nil => rfl
    | cons c more =>
      have : c = '\n' := ends c rfl
      simp [this, newline]
  | cons c text ih => cases holds : p c <;> simp [holds, ih]

theorem EndsLine.dropWhile {p : Char → Bool} {more : List Char} (ends : EndsLine more)
    (newline : p '\n' = false) (text : List Char) :
    (text ++ more).dropWhile p = text.dropWhile p ++ more := by
  induction text with
  | nil =>
    cases more with
    | nil => rfl
    | cons c more =>
      have : c = '\n' := ends c rfl
      simp [this, newline]
  | cons c text ih => cases holds : p c <;> simp [holds, ih]

namespace Cursor

/-- The same place in a longer text, where `n` more characters stand before and `more` follows. -/
def inside (n : Nat) (more : List Char) (cursor : Cursor) : Cursor :=
  ⟨cursor.pos + n, cursor.rest ++ more⟩

variable {n : Nat} {more : List Char} {cursor after : Cursor}

theorem inside_cut (taken rest : List Char) :
    (cursor.inside n more).cut taken (rest ++ more) =
      Prod.map (Lexeme.moved n) (inside n more) (cursor.cut taken rest) := by
  simp [inside, cut, Lexeme.moved, Nat.add_right_comm]

theorem length_inside : (cursor.inside n more).rest.length = cursor.rest.length + more.length := by
  simp [inside]

/-- What is read in the longer text is what is read without it, moved, unless that is not valid.
Where nothing is read without it, nothing is read. -/
structure Follows {α : Type} (n : Nat) (more : List Char) (move : α → α)
    (valid : α × Cursor → Prop) (read read' : Option (α × Cursor)) : Prop where
  some : ∀ found, read = some found → valid found →
    read' = some (Prod.map move (inside n more) found)
  none : read = none → read' = none

namespace Follows

variable {α β : Type} {move : α → α} {first : β → β} {valid : α × Cursor → Prop}
  {early : β × Cursor → Prop} {read read' next next' : Option (α × Cursor)}
  {begun begun' : Option (β × Cursor)}

theorem of_map (same : read' = read.map (Prod.map move (inside n more))) :
    Follows n more move valid read read' where
  some found taken _ := by rw [same, taken, Option.map_some]
  none fails := by rw [same, fails, Option.map_none]

theorem or (here : Follows n more move valid read read')
    (there : Follows n more move valid next next') :
    Follows n more move valid (read <|> next) (read' <|> next') := by
  cases taken : read with
  | none =>
    rw [here.none taken]
    exact there
  | some found =>
    constructor
    · rintro _ ⟨⟩ holds
      rw [here.some found taken holds]
      rfl
    · rintro ⟨⟩

theorem map {build : β × Cursor → α × Cursor} (begins : Follows n more first early begun begun')
    (keeps : ∀ found, valid (build found) → early found ∧
      build (Prod.map first (inside n more) found) =
        Prod.map move (inside n more) (build found)) :
    Follows n more move valid (begun.map build) (begun'.map build) where
  some found taken holds := by
    obtain ⟨start, isStart, rfl⟩ := Option.map_eq_some_iff.mp taken
    obtain ⟨still, same⟩ := keeps start holds
    rw [begins.some start isStart still, Option.map_some, same]
  none fails := by rw [begins.none (Option.map_eq_none_iff.mp fails), Option.map_none]

theorem lexeme {found found' : Option (Lexeme × Cursor)} {build : Lexeme × Cursor → α × Cursor}
    (same : found' = found.map (Prod.map (Lexeme.moved n) (inside n more)))
    (keeps : ∀ found, build (Prod.map (Lexeme.moved n) (inside n more) found) =
      Prod.map move (inside n more) (build found)) :
    Follows n more move valid (found.map build) (found'.map build) :=
  (of_map same).map fun found _ => ⟨trivial, keeps found⟩

end Follows

/-! ## Readers that see a line end as the end -/

theorem next?_inside {p : Char → Bool} (ends : EndsLine more) (newline : p '\n' = false)
    (cursor : Cursor) :
    (cursor.inside n more).next? p =
      (cursor.next? p).map (Prod.map (Lexeme.moved n) (inside n more)) := by
  obtain ⟨pos, rest⟩ := cursor
  cases rest with
  | cons c rest =>
    unfold next?
    cases holds : p c <;> simp [inside, holds, cut, Lexeme.moved, Nat.add_right_comm]
  | nil =>
    cases more with
    | nil => rfl
    | cons c more =>
      have : c = '\n' := ends c rfl
      simp [next?, inside, this, newline]

theorem run_inside {p : Char → Bool} (ends : EndsLine more) (newline : p '\n' = false)
    (cursor : Cursor) :
    (cursor.inside n more).run p =
      Prod.map (Lexeme.moved n) (inside n more) (cursor.run p) := by
  rw [run, run, ← inside_cut]
  simp only [inside]
  rw [ends.takeWhile newline, ends.dropWhile newline]

theorem run?_inside {p : Char → Bool} (ends : EndsLine more) (newline : p '\n' = false)
    (cursor : Cursor) :
    (cursor.inside n more).run? p =
      (cursor.run? p).map (Prod.map (Lexeme.moved n) (inside n more)) := by
  have same : (cursor.inside n more).rest.takeWhile p = cursor.rest.takeWhile p :=
    ends.takeWhile newline cursor.rest
  unfold run?
  rw [same, run_inside ends newline]
  split <;> rfl

theorem head?_inside (ends : EndsLine more) {c : Char} (other : c ≠ '\n') (cursor : Cursor) :
    (cursor.inside n more).rest.head? = some c ↔ cursor.rest.head? = some c := by
  obtain ⟨pos, rest⟩ := cursor
  cases rest with
  | cons first rest => simp [inside]
  | nil =>
    simp only [inside, List.nil_append, List.head?_nil, reduceCtorEq, iff_false]
    intro begins
    exact other (ends c begins)

theorem comment?_eq (cursor : Cursor) :
    cursor.comment? =
      if cursor.rest.head? = some '#' then some (cursor.run (· != '\n')) else none := by
  unfold comment?
  split
  · rename_i rest parts
    simp [parts]
  · rename_i other
    rw [if_neg]
    intro begins
    obtain ⟨rest, parts⟩ := List.head?_eq_some_iff.mp begins
    exact other rest parts

theorem comment?_inside (ends : EndsLine more) (cursor : Cursor) :
    (cursor.inside n more).comment? =
      cursor.comment?.map (Prod.map (Lexeme.moved n) (inside n more)) := by
  rw [comment?_eq, comment?_eq, run_inside ends rfl]
  simp only [head?_inside ends (by decide : '#' ≠ '\n')]
  split <;> rfl

theorem mark?_eq (cursor : Cursor) :
    cursor.mark? =
      ((cursor.next? (· == '>')).map (Prod.map MusicItem.octaveUp id)
      <|> (cursor.next? (· == '<')).map (Prod.map MusicItem.octaveDown id)
      <|> (cursor.next? (· == '|')).map (Prod.map MusicItem.barline id)
      <|> (cursor.next? (· == '/')).map (Prod.map MusicItem.separator id)) := by
  obtain ⟨pos, rest⟩ := cursor
  unfold mark? next?
  cases rest with
  | nil => rfl
  | cons c rest =>
    by_cases up : c = '>'
    · subst up
      rfl
    by_cases down : c = '<'
    · subst down
      rfl
    by_cases bar : c = '|'
    · subst bar
      rfl
    by_cases slash : c = '/'
    · subst slash
      rfl
    simp [up, down, bar, slash]

theorem follows_mark? {valid : MusicItem × Cursor → Prop} (ends : EndsLine more)
    (cursor : Cursor) : Follows n more (MusicItem.moved n) valid cursor.mark?
      (cursor.inside n more).mark? := by
  rw [mark?_eq, mark?_eq]
  apply Follows.or
  · exact .lexeme (next?_inside ends rfl cursor) fun _ => rfl
  apply Follows.or
  · exact .lexeme (next?_inside ends rfl cursor) fun _ => rfl
  apply Follows.or
  · exact .lexeme (next?_inside ends rfl cursor) fun _ => rfl
  · exact .lexeme (next?_inside ends rfl cursor) fun _ => rfl

theorem many_inside {α : Type} {step : Cursor → Option (α × Cursor)} {move : α → α}
    (stable : ∀ cursor, step (cursor.inside n more) =
      (step cursor).map (Prod.map move (inside n more))) (cursor : Cursor) :
    (cursor.inside n more).many step =
      Prod.map (List.map move) (inside n more) (cursor.many step) := by
  induction cursor using many.induct step with
  | case1 cursor fails =>
    rw [many_of_none fails, many_of_none (by rw [stable, fails]; rfl)]
    rfl
  | case2 cursor item after read shorter ih =>
    rw [many, many, stable, read]
    simp only [Option.map_some, Prod.map_apply, length_inside, Nat.add_lt_add_iff_right, shorter,
      if_true, ih]
    rfl
  | case3 cursor item after read longer =>
    rw [many, many, stable, read]
    simp only [Option.map_some, Prod.map_apply, length_inside, Nat.add_lt_add_iff_right, longer,
      if_false]
    rfl

theorem lengthMark?_inside (ends : EndsLine more) (cursor : Cursor) :
    (cursor.inside n more).lengthMark? =
      cursor.lengthMark?.map (Prod.map (LengthMark.moved n) (inside n more)) := by
  unfold lengthMark?
  rw [run?_inside ends isDecimal_newline]
  cases cursor.run? isDecimal with
  | some read =>
    obtain ⟨number, rest⟩ := read
    simp only [Option.map_some, Prod.map_apply]
    rw [run?_inside ends rfl]
    cases rest.run? (· == '.') <;> rfl
  | none =>
    simp only [Option.map_none, Option.bind_eq_bind]
    rw [next?_inside ends rfl]
    cases cursor.next? (· == '~') with
    | none => rfl
    | some read =>
      obtain ⟨tilde, rest⟩ := read
      simp only [Option.map_some, Prod.map_apply, Option.bind_some]
      rw [next?_inside ends rfl, Option.isSome_map]
      split <;> rfl

theorem duration_inside (ends : EndsLine more) (cursor : Cursor) :
    (cursor.inside n more).duration =
      Prod.map (Duration.moved n) (inside n more) cursor.duration := by
  simp only [duration, many_inside (lengthMark?_inside ends), Prod.map_fst, Prod.map_snd]
  rw [next?_inside ends rfl]
  cases (cursor.many lengthMark?).2.next? (· == '~') <;> rfl

theorem duration?_inside (ends : EndsLine more) (cursor : Cursor) :
    (cursor.inside n more).duration? =
      Prod.map (Option.map (Duration.moved n)) (inside n more) cursor.duration? := by
  unfold duration?
  rw [next?_inside ends rfl, Option.isSome_map, duration_inside ends]
  split <;> rfl

theorem note?_inside (ends : EndsLine more) (cursor : Cursor) :
    (cursor.inside n more).note? =
      cursor.note?.map (Prod.map (MusicItem.moved n) (inside n more)) := by
  simp only [note?, Option.bind_eq_bind]
  rw [next?_inside ends rfl]
  cases cursor.next? isPitch with
  | none => rfl
  | some read =>
    obtain ⟨pitch, rest⟩ := read
    simp only [Option.map_some, Prod.map_apply, Option.bind_some,
      many_inside (next?_inside ends (rfl : isAccidental '\n' = false)),
      Prod.map_fst, Prod.map_snd, duration?_inside ends]
    rfl

theorem rest?_inside (ends : EndsLine more) (cursor : Cursor) :
    (cursor.inside n more).rest? =
      cursor.rest?.map (Prod.map (MusicItem.moved n) (inside n more)) := by
  simp only [rest?, Option.bind_eq_bind]
  rw [next?_inside ends rfl]
  cases cursor.next? (· == 'r') with
  | none => rfl
  | some read =>
    obtain ⟨letter, rest⟩ := read
    simp only [Option.map_some, Prod.map_apply, Option.bind_some, duration?_inside ends,
      next?_inside ends (rfl : isLetter '\n' = false), Option.isSome_map]
    split <;> rfl

theorem octaveSet?_inside (ends : EndsLine more) (cursor : Cursor) :
    (cursor.inside n more).octaveSet? =
      cursor.octaveSet?.map (Prod.map (MusicItem.moved n) (inside n more)) := by
  simp only [octaveSet?, Option.bind_eq_bind]
  rw [next?_inside ends rfl]
  cases cursor.next? (· == 'o') with
  | none => rfl
  | some read =>
    obtain ⟨letter, rest⟩ := read
    simp only [Option.map_some, Prod.map_apply, Option.bind_some]
    rw [run?_inside ends isDecimal_newline]
    cases rest.run? isDecimal <;> rfl

theorem word?_inside (ends : EndsLine more) (cursor : Cursor) :
    (cursor.inside n more).word? =
      cursor.word?.map (Prod.map (Lexeme.moved n) (inside n more)) := by
  obtain ⟨pos, rest⟩ := cursor
  cases rest with
  | cons c rest =>
    cases letter : isLetter c with
    | false => simp [word?, inside, letter]
    | true =>
      simp only [word?, inside, List.cons_append, letter, if_true,
        ends.takeWhile isWordChar_newline,
        ends.dropWhile isWordChar_newline]
      exact congrArg some (@inside_cut n more ⟨pos, c :: rest⟩ _ _)
  | nil =>
    cases more with
    | nil => rfl
    | cons c more =>
      have newline : isLetter c = false := by
        rw [ends c rfl]
        rfl
      simp [word?, inside, newline]

theorem attributeName?_inside (ends : EndsLine more) (cursor : Cursor) :
    (cursor.inside n more).attributeName? =
      cursor.attributeName?.map (Prod.map (Lexeme.moved n) (inside n more)) := by
  simp only [attributeName?, Option.bind_eq_bind]
  rw [word?_inside ends]
  cases cursor.word? with
  | none => rfl
  | some read =>
    obtain ⟨word, rest⟩ := read
    simp only [Option.map_some, Prod.map_apply, Option.bind_some]
    rw [next?_inside ends rfl]
    cases rest.next? (· == '!') <;> rfl

/-! ## Readers that skip blanks

These see a line end as a blank, and would go on behind it. They are stable as long as something
else is left, which is so inside parentheses until the closing one.
-/

def Within (cursor : Cursor) : Prop := ∃ c ∈ cursor.rest, isBlank c = false

theorem Passes.within {valid : Prop} (passes : Passes valid cursor after) (within : Within after) :
    Within cursor := by
  obtain ⟨c, member, visible⟩ := within
  exact ⟨c, passes.suffix.subset member, visible⟩

theorem within_iff : Within cursor ↔ cursor.skipBlanks.rest ≠ [] := by
  simp only [Within, skipBlanks, run, cut, ne_eq, List.dropWhile_eq_nil_iff, not_forall]
  simp

theorem within_of_next? {p : Char → Bool} {lexeme : Lexeme}
    (read : cursor.skipBlanks.next? p = some (lexeme, after)) : Within cursor := by
  rw [within_iff]
  intro none
  simp [next?, none] at read

theorem skipBlanks_inside (within : Within cursor) :
    (cursor.inside n more).skipBlanks = cursor.skipBlanks.inside n more := by
  have visible := within_iff.mp within
  obtain ⟨pos, rest⟩ := cursor
  simp only [skipBlanks, run, cut] at visible
  have longer : (rest.takeWhile isBlank).length ≠ rest.length := by
    intro whole
    have all := (List.takeWhile_prefix isBlank).eq_of_length whole
    refine visible (List.dropWhile_eq_nil_iff.mpr fun c member => ?_)
    exact List.mem_takeWhile_imp (all ▸ member)
  have nonempty : (rest.dropWhile isBlank).isEmpty = false := by simpa using visible
  simp only [skipBlanks, run, cut, inside, List.takeWhile_append, List.dropWhile_append,
    longer, if_false, nonempty, Bool.false_eq_true]
  rw [Nat.add_right_comm]

theorem follows_junk? {starts : List Char → Bool}
    (byHead : ∀ c rest rest', starts (c :: rest) = starts (c :: rest'))
    (nonempty : cursor.rest ≠ []) :
    Follows n more (Lexeme.moved n) (fun _ => False) (cursor.junk? starts)
      ((cursor.inside n more).junk? starts) := by
  refine ⟨fun _ _ => False.elim, fun fails => ?_⟩
  obtain ⟨pos, rest⟩ := cursor
  cases rest with
  | nil => exact absurd rfl nonempty
  | cons c rest =>
    cases begins : starts (c :: rest) with
    | false => simp [junk?, splitAt, begins] at fails
    | true =>
      have still : starts (c :: (rest ++ more)) = true := (byHead c _ _).trans begins
      simp [junk?, inside, splitAt, still]

theorem many_inside_of_valid {α : Type} {step : Cursor → Option (α × Cursor)} {move : α → α}
    {valid : α → Prop}
    (passes : ∀ cursor item after, step cursor = some (item, after) →
      Passes (valid item) cursor after)
    (follows : ∀ cursor, Within cursor → Follows n more move
      (fun found => valid found.1 ∧ Within found.2) (step cursor) (step (cursor.inside n more)))
    (cursor : Cursor) (all : ∀ item ∈ (cursor.many step).1, valid item)
    (within : Within (cursor.many step).2) :
    (cursor.inside n more).many step =
      Prod.map (List.map move) (inside n more) (cursor.many step) := by
  induction cursor using many.induct step with
  | case1 cursor ends =>
    rw [many_of_none ends] at within ⊢
    rw [many_of_none ((follows cursor within).none ends)]
    rfl
  | case2 cursor item after read shorter ih =>
    have unrolled : cursor.many step = (item :: (after.many step).1, (after.many step).2) := by
      rw [many, read]
      simp only [shorter, if_true]
    rw [unrolled] at all within ⊢
    rw [List.forall_mem_cons] at all
    have here := (passes_many passes after).within within
    have first := (follows cursor ((passes cursor item after read).within here)).some _ read
      ⟨all.1, here⟩
    rw [many, first]
    simp only [Prod.map_apply, length_inside, Nat.add_lt_add_iff_right, shorter, if_true,
      ih all.2 within]
    rfl
  | case3 cursor item after read longer =>
    have unrolled : cursor.many step = ([item], after) := by
      rw [many, read]
      simp only [longer, if_false]
    rw [unrolled] at all within ⊢
    rw [List.forall_mem_singleton] at all
    have first := (follows cursor ((passes cursor item after read).within within)).some _ read
      ⟨all, within⟩
    rw [many, first]
    simp only [Prod.map_apply, length_inside, Nat.add_lt_add_iff_right, longer, if_false]
    rfl

theorem follows_valueItem? (ends : EndsLine more) (cursor : Cursor) (within : Within cursor) :
    Follows n more (ValueItem.moved n) (fun found => found.1.IsValid ∧ Within found.2)
      cursor.valueItem? (cursor.inside n more).valueItem? := by
  simp only [valueItem?, skipBlanks_inside within]
  apply Follows.or
  · exact .lexeme (run?_inside ends isDecimal_newline _) fun _ => rfl
  apply Follows.or
  · exact .lexeme (word?_inside ends _) fun _ => rfl
  apply Follows.or
  · exact .lexeme (comment?_inside ends _) fun _ => rfl
  · exact (follows_junk? (fun _ _ _ => rfl) (within_iff.mp within)).map
      fun _ valid => ⟨valid.1, rfl⟩

theorem values_inside (ends : EndsLine more) (cursor : Cursor)
    (all : ∀ value ∈ (cursor.many valueItem?).1, value.IsValid)
    (within : Within (cursor.many valueItem?).2) :
    (cursor.inside n more).many valueItem? =
      Prod.map (List.map (ValueItem.moved n)) (inside n more) (cursor.many valueItem?) :=
  many_inside_of_valid (fun cursor item after read =>
    (advances_valueItem? cursor item after read).passes) (follows_valueItem? ends) cursor all within

theorem follows_changeItem? (ends : EndsLine more) (cursor : Cursor) (within : Within cursor) :
    Follows n more (ChangeItem.moved n) (fun found => found.1.IsValid ∧ Within found.2)
      cursor.changeItem? (cursor.inside n more).changeItem? := by
  simp only [changeItem?, skipBlanks_inside within]
  apply Follows.or
  · exact .lexeme (next?_inside ends rfl _) fun _ => rfl
  apply Follows.or
  · apply (Follows.of_map (attributeName?_inside ends _)).map
    intro found valid
    refine ⟨trivial, ?_⟩
    simp only [Prod.map_fst, Prod.map_snd, values_inside ends found.2 valid.1 valid.2]
    rfl
  apply Follows.or
  · exact .lexeme (comment?_inside ends _) fun _ => rfl
  · exact (follows_junk? (fun _ _ _ => rfl) (within_iff.mp within)).map
      fun _ valid => ⟨valid.1, rfl⟩

theorem follows_changes? (ends : EndsLine more) (cursor : Cursor) :
    Follows n more (Changes.moved n) (fun found => found.1.IsValid) cursor.changes?
      (cursor.inside n more).changes? := by
  simp only [changes?, Option.bind_eq_bind]
  rw [next?_inside ends rfl]
  cases cursor.next? (· == '(') with
  | none =>
    constructor
    · rintro _ ⟨⟩
    · intro _
      rfl
  | some read =>
    obtain ⟨opening, rest⟩ := read
    simp only [Option.map_some, Prod.map_apply, Option.bind_some]
    cases closes : (rest.many changeItem?).2.skipBlanks.next? (· == ')') with
    | none =>
      simp only
      constructor
      · rintro _ ⟨⟩ valid
        exact absurd rfl valid.closed
      · rintro ⟨⟩
    | some closed =>
      simp only
      constructor
      · rintro _ ⟨⟩ valid
        have within := within_of_next? closes
        rw [many_inside_of_valid (fun cursor item after read =>
          (advances_changeItem? cursor item after read).passes) (follows_changeItem? ends) rest
          valid.items within]
        simp only [Prod.map_fst, Prod.map_snd]
        rw [skipBlanks_inside within, next?_inside ends rfl, closes]
        rfl
      · rintro ⟨⟩

theorem follows_musicMark? (ends : EndsLine more) (cursor : Cursor) :
    Follows n more (MusicItem.moved n) (fun found => found.1.IsValid) cursor.musicMark?
      (cursor.inside n more).musicMark? := by
  apply Follows.or
  · exact .of_map (note?_inside ends cursor)
  apply Follows.or
  · exact .of_map (rest?_inside ends cursor)
  apply Follows.or
  · exact .of_map (octaveSet?_inside ends cursor)
  apply Follows.or
  · exact follows_mark? ends cursor
  apply Follows.or
  · exact (follows_changes? ends cursor).map fun _ valid => ⟨valid, rfl⟩
  · exact .lexeme (comment?_inside ends cursor) fun _ => rfl

end Cursor

end Partbook.Source
