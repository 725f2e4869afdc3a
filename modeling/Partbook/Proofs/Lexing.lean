import Partbook.Proofs.Source.LexedMusic

/-!
The loop reads every text to its end, and the tokens that it gives are those of the tree, in their
order. So no text is lost: what stands between the tokens is blank.
-/
namespace Partbook.Source

open Text Cursor TokenTree

namespace Lexer

variable {cursor after : Cursor} {mode : Mode} {outer : List Mode}

/-! ## Calls -/

theorem yields_name? {name : Lexeme} (read : cursor.name? = some (name, after)) :
    Yields ⟨.instrumentCall :: outer, cursor⟩ [(name, .instrumentName)]
      ⟨.instrumentCall :: outer, after⟩ :=
  .of_step (by simp [step, Mode.rules, read])

theorem noName_of_next? {sign : Char} {mark : Lexeme} (other : isLetter sign = false)
    (read : cursor.next? (· == sign) = some (mark, after)) : cursor.name? = none := by
  obtain ⟨rest, parts, -⟩ := next?_sign read
  obtain ⟨pos, text⟩ := cursor
  cases parts
  exact name?_eq_none other pos rest

theorem yields_otherName? (cursor : Cursor) (other : Lexeme × Lexeme) (after : Cursor)
    (read : cursor.otherName? = some (other, after)) :
    Yields ⟨.instrumentCall :: outer, cursor⟩
      [(other.1, .separator), (other.2, .instrumentName)] ⟨.instrumentCall :: outer, after⟩ := by
  simp only [otherName?, Option.bind_eq_bind, Option.bind_eq_some_iff] at read
  obtain ⟨⟨slash, behind⟩, first, ⟨name, later⟩, named, read⟩ := read
  cases read
  have begins : step ⟨.instrumentCall :: outer, cursor⟩ =
      some ([(slash, .separator)], ⟨.instrumentCall :: outer, behind⟩) := by
    simp [step, Mode.rules, noName_of_next? rfl first, first]
  exact (Yields.of_step begins).trans (yields_name? named)

theorem yields_quotation? {quotation : Quotation}
    (read : cursor.quotation? = some (quotation, after)) :
    Yields ⟨.instrumentCall :: outer, cursor⟩ (tokensOfAll quotation.trees)
      ⟨.instrumentCall :: outer, after⟩ := by
  apply Yields.of_step
  simp only [quotation?, Option.bind_eq_bind, Option.bind_eq_some_iff] at read
  obtain ⟨⟨⟨opening, text, closing⟩, behind⟩, quoted, read⟩ := read
  have first := quoted
  simp only [quoted?, Option.bind_eq_bind, Option.bind_eq_some_iff] at first
  obtain ⟨⟨mark, inside⟩, first, -⟩ := first
  have noName := noName_of_next? rfl first
  have noSlash : cursor.next? (· == '/') = none := by
    obtain ⟨rest, parts, -⟩ := next?_sign first
    simp [next?, parts]
  split at read
  · rename_i named
    cases read
    simp [step, Mode.rules, noName, noSlash, nicknameTokens?, quoted, named, Quotation.trees]
  · rename_i named
    cases read
    simp [step, Mode.rules, noName, noSlash, nicknameTokens?, wholeQuotation?, quoted, named,
      Quotation.trees]

theorem yields_colon {colon : Lexeme} (read : cursor.next? (· == ':') = some (colon, after)) :
    Yields ⟨.instrumentCall :: outer, cursor⟩ [(colon, .colon)] ⟨.musicData :: outer, after⟩ := by
  have noName := noName_of_next? rfl read
  obtain ⟨rest, parts, -⟩ := next?_sign read
  have noSlash : cursor.next? (· == '/') = none := by simp [next?, parts]
  have noQuote : cursor.next? (· == '"') = none := by simp [next?, parts]
  exact .of_step (by
    simp [step, Mode.rules, noName, noSlash, nicknameTokens?, wholeQuotation?, quoted?, noQuote,
      read])

theorem yields_call? {call : Call} (read : cursor.call? = some (call, after)) :
    Yields ⟨.instrumentCall :: outer, cursor⟩ call.tree.tokens ⟨.musicData :: outer, after⟩ := by
  simp only [call?, Option.bind_eq_bind, Option.bind_eq_some_iff] at read
  obtain ⟨⟨name, behind⟩, named, ⟨colon, later⟩, closes, read⟩ := read
  cases read
  have others : Yields ⟨.instrumentCall :: outer, behind⟩ _ _ :=
    .many consuming_otherName? yields_otherName? behind
  have start : Yields ⟨.instrumentCall :: outer, cursor⟩ _ _ := (yields_name? named).trans others
  split at closes
  · rename_i quotation rest quoted
    simp only [spacedQuotation?, Option.bind_eq_bind, Option.bind_eq_some_iff] at quoted
    obtain ⟨⟨blanks, inside⟩, blank, quoted⟩ := quoted
    have quotes : Yields ⟨.instrumentCall :: outer, (behind.many otherName?).2⟩ _ ⟨_, rest⟩ :=
      (Yields.of_step (step_blanks rfl blank)).before (yields_quotation? quoted)
    have ends : Yields ⟨.instrumentCall :: outer, rest⟩ _ _ :=
      (yields_blanks rfl rest).before (yields_colon closes)
    simpa [Call.tree, quoted] using start.trans (quotes.trans ends)
  · rename_i unquoted
    have ends : Yields ⟨.instrumentCall :: outer, (behind.many otherName?).2⟩ _ _ :=
      (yields_blanks rfl _).before (yields_colon closes)
    simpa [Call.tree, unquoted] using start.trans ends

/-! ## Parts -/

def Ready (cursor : Cursor) : Prop :=
  cursor.skipBlanks.rest = [] ∨ startsCall cursor.skipBlanks.rest

theorem ready_music (cursor : Cursor) : Ready (cursor.music startsCall).2 := by
  have fails := many_end (consuming_musicItem? startsCall) cursor
  cases starts : startsCall (cursor.music startsCall).2.skipBlanks.rest with
  | true => exact .inr starts
  | false => exact .inl (not_not.mp (mt within_iff.mpr (not_within_of_musicItem? fails starts)))

theorem ready_of_part? (cursor : Cursor) (part : Part) (after : Cursor)
    (read : cursor.part? = some (part, after)) : Ready after := by
  simp only [part?, Option.bind_eq_bind, Option.bind_eq_some_iff] at read
  obtain ⟨⟨call, behind⟩, called, read⟩ := read
  cases read
  exact ready_music behind

theorem ended_parts (ready : Ready cursor) : (cursor.many part?).2.skipBlanks.rest = [] := by
  induction cursor using many.induct part? with
  | case1 cursor fails =>
    rw [many_of_none fails]
    rcases ready with ended | starts
    · exact ended
    · rw [startsCall_rest, Option.isSome_iff_exists] at starts
      obtain ⟨found, called⟩ := starts
      simp [part?, called] at fails
  | case2 cursor part after read shorter ih =>
    rw [many_of_some consuming_part? read]
    exact ih (ready_of_part? _ _ _ read)
  | case3 cursor part after read longer => exact absurd (consuming_part? _ _ _ read) longer

theorem yields_partMusic (stays : mode.leftBy? = none) (cursor : Cursor) :
    Yields ⟨.musicData :: .instrument :: mode :: outer, cursor⟩
      (tokensOfAll ((cursor.music startsCall).1.flatMap MusicItem.trees))
      ⟨mode :: outer, (cursor.music startsCall).2⟩ := by
  have music : Yields ⟨.musicData :: .instrument :: mode :: outer, cursor⟩ _ _ :=
    yields_music readsMusic_musicData cursor
  refine music.behind ((yields_blanks rfl _).before ?_)
  rcases ready_music cursor with ended | starts
  · exact yields_ended stays ended
  · exact yields_left stays (by simp [step, Mode.rules, starts])

structure Opens (mode : Mode) (withChanges : Bool) : Prop where
  stays : mode.leftBy? = none
  rules : mode.rules = callRule :: ((if withChanges then [groupRule] else []) ++ gapRules)

theorem opens_root : Opens .root true := ⟨rfl, rfl⟩

theorem opens_part : Opens .part false := ⟨rfl, rfl⟩

section

variable {withChanges : Bool} (opens : Opens mode withChanges)

include opens

theorem yields_part? (cursor : Cursor) (part : Part) (after : Cursor)
    (read : cursor.part? = some (part, after)) :
    Yields ⟨mode :: outer, cursor⟩ part.tree.tokens ⟨mode :: outer, after⟩ := by
  simp only [part?, Option.bind_eq_bind, Option.bind_eq_some_iff] at read
  obtain ⟨⟨call, behind⟩, called, read⟩ := read
  cases read
  have starts : startsCall cursor.skipBlanks.rest := by
    rw [startsCall_rest, called]
    rfl
  have enters : step ⟨mode :: outer, cursor.skipBlanks⟩ =
      some ([], ⟨.instrumentCall :: .instrument :: mode :: outer, cursor.skipBlanks⟩) := by
    simp [step, opens.rules, callRule, starts]
  have whole : Yields ⟨.instrumentCall :: .instrument :: mode :: outer, cursor.skipBlanks⟩ _ _ :=
    (yields_call? called).trans (yields_partMusic opens.stays behind)
  refine (yields_blanks opens.stays cursor).before ((Yields.of_step enters).before ?_)
  simpa [Part.tree] using whole

theorem isSome_firstRule?_prelude (pos : Nat) (text : List Char) :
    (firstRule? mode.rules ⟨pos, text⟩).isSome = (startsCall text ||
      text.head?.any fun c => isBlank c || c == '#' || withChanges && c == '(') := by
  rw [isSome_firstRule?, opens.rules]
  cases text with
  | nil => cases withChanges <;> rfl
  | cons c rest =>
    rw [Bool.eq_iff_iff]
    cases withChanges <;>
      simp [callRule, groupRule, gapRules, isSome_run?, isSome_comment?, or_comm, or_left_comm]

theorem yields_preludeItem? (cursor : Cursor) (item : PreludeItem) (after : Cursor)
    (read : cursor.preludeItem? withChanges = some (item, after)) :
    Yields ⟨mode :: outer, cursor⟩ item.tree.tokens ⟨mode :: outer, after⟩ := by
  refine (yields_blanks opens.stays cursor).before ?_
  have visible := cursor.run?_skipBlanks
  simp only [preludeItem?] at read
  split at read
  · cases read
  · rename_i goesOn
    simp only [Option.orElse_eq_orElse, Option.orElse_eq_or, Option.or_eq_some_iff,
      Option.map_eq_some_iff, Prod.exists, Prod.mk.injEq] at read
    rcases read with changes | ⟨-, ⟨lexeme, rest, comment, rfl, rfl⟩ |
      ⟨-, lexeme, rest, junk, rfl, rfl⟩⟩
    · split at changes
      · rename_i allowed
        simp only [Option.map_eq_some_iff, Prod.exists, Prod.mk.injEq] at changes
        obtain ⟨group, rest, changes, rfl, rfl⟩ := changes
        obtain ⟨opening, inside, bracket⟩ := opened_of_changes? changes
        have enters : step ⟨mode :: outer, cursor.skipBlanks⟩ =
            some ([(opening, .bracketStart)], ⟨.attributeChanges :: mode :: outer, inside⟩) := by
          simp [step, opens.rules, callRule, groupRule, goesOn, allowed, bracket]
        exact yields_changes? opens.stays bracket enters changes
      · cases changes
    · have noBracket : cursor.skipBlanks.next? (· == '(') = none :=
        noSign_of_begins '(' (begins_of (isSome_comment? _) comment) rfl
      have found : step ⟨mode :: outer, cursor.skipBlanks⟩ =
          some ([(lexeme, .comment)], ⟨mode :: outer, rest⟩) := by
        cases withChanges <;>
          simp [step, opens.rules, callRule, groupRule, gapRules, goesOn, noBracket, visible,
            comment]
      exact .of_step found
    · simpa [PreludeItem.tree] using yields_junk opens.stays (isSome_firstRule?_prelude opens) junk

theorem ready_prelude (cursor : Cursor) : Ready (cursor.many (preludeItem? withChanges)).2 := by
  have fails := many_end (consuming_preludeItem? withChanges) cursor
  generalize (cursor.many (preludeItem? withChanges)).2 = behind at fails ⊢
  cases starts : startsCall behind.skipBlanks.rest with
  | true => exact .inr starts
  | false =>
    have visible := behind.run?_skipBlanks
    simp only [preludeItem?, starts, Bool.false_eq_true, if_false, Option.orElse_eq_orElse,
      Option.orElse_eq_or, Option.or_eq_none_iff, Option.map_eq_none_iff] at fails
    obtain ⟨changes, comment, junk⟩ := fails
    have idle : firstRule? mode.rules behind.skipBlanks = none := by
      rw [opens.rules]
      cases withChanges with
      | true =>
        have noBracket := not_opened_of_changes? (Option.map_eq_none_iff.mp changes)
        simp [callRule, groupRule, gapRules, starts, noBracket, visible, comment]
      | false => simp [callRule, gapRules, starts, visible, comment]
    exact .inl (ended_of_idle (isSome_firstRule?_prelude opens) idle junk)

theorem lexes_document (text : String) :
    Lexes ⟨[mode], .ofText text⟩ ((Document.ofText withChanges text).tree mode).tokens := by
  have prelude : Yields ⟨[mode], .ofText text⟩ _ _ :=
    .many (consuming_preludeItem? withChanges) (yields_preludeItem? opens) (.ofText text)
  have parts : Yields ⟨[mode], ((Cursor.ofText text).many (preludeItem? withChanges)).2⟩ _ _ :=
    .many consuming_part? (yields_part? opens) _
  -- what the readers of parts leave is blank, or else a call would begin there
  have ended := ended_parts (ready_prelude opens (.ofText text))
  have last : Lexes ⟨[mode], _⟩ [] := yields_blanks opens.stays _ [] (.of_end ended)
  have whole := prelude.trans parts [] last
  simpa [Document.ofText, Document.tree] using whole

end

/-! ## Whole texts -/

theorem lexes_music (text : String) : Lexes ⟨[.fragment], .ofText text⟩
    (tokensOfAll ((musicOfText text).flatMap MusicItem.trees)) := by
  have music : Yields ⟨[.fragment], .ofText text⟩ _ _ :=
    yields_music readsMusic_fragment (.ofText text)
  have fails := many_end (consuming_musicItem? fun _ => false) (.ofText text)
  have ended := not_not.mp (mt within_iff.mpr (not_within_of_musicItem? fails rfl))
  have last := music.behind (yields_blanks rfl _) [] (.of_end ended)
  rwa [List.append_nil] at last

theorem lexes_ofText (rule : StartRule) (text : String) :
    Lexes (start rule text) (TokenTree.ofText rule text).tokens := by
  cases rule with
  | score => exact lexes_document opens_root text
  | part => exact lexes_document opens_part text
  | musicData =>
    rw [TokenTree.ofText, tokens_context]
    exact lexes_music text

/-- Whatever the text, and whatever it is read as, the loop ends, with the tokens of the tree, and
is never twice in the same modes at one place. No character is lost but blanks. -/
theorem lossless_ofText (rule : StartRule) (text : String) :
    Lexes (start rule text) (TokenTree.ofText rule text).tokens ∧
    (∀ first second, Relation.ReflTransGen Next (start rule text) first →
      Relation.TransGen Next first second →
        ¬ (first.modes = second.modes ∧ first.cursor.pos = second.cursor.pos)) ∧
    Lossless text.toList (TokenTree.ofText rule text).tokens := by
  have lexes := lexes_ofText rule text
  have on : On text.toList (start rule text).cursor := ⟨rfl, Nat.zero_le _⟩
  exact ⟨lexes, fun first second reaches later => lexes.not_twice on reaches later,
    lexes.lossless rfl⟩

end Lexer

end Partbook.Source
