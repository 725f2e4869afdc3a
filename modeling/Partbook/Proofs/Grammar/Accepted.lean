import Partbook.Proofs.Element.Equality
import Partbook.Proofs.Grammar.Chords
import Partbook.Proofs.Grammar.Completeness

namespace Partbook

open Source

namespace Grammar

open Element Cursor

theorem assemble_tokens {all : List Piece} (valid : ∀ text, Piece.invalid text ∉ all)
    (before : List Element) (opened : Option Lexeme) :
    (assemble before opened all).toOption.map (List.map forgetOrigins) =
      (assemble (before.map forgetOrigins) (opened.map fun _ => ⟨0, []⟩)
        ((all.filterMap tokens?).map Token.piece)).toOption := by
  induction all generalizing before opened with
  | nil =>
    cases opened with
    | none => simp [assemble, Except.toOption]
    | some slash => rfl
  | cons piece all ih =>
    simp only [List.mem_cons, not_or] at valid
    have rest := ih fun text => (valid text).2
    cases piece with
    | comment => exact rest before opened
    | invalid text => exact absurd rfl (valid text).1
    | separator slash =>
      have first : (Piece.separator slash :: all).filterMap tokens? =
          .separator :: all.filterMap tokens? := rfl
      rw [first, List.map_cons, Token.piece]
      cases opened with
      | some pending => cases before <;> rfl
      | none =>
        cases before with
        | nil => rfl
        | cons last before =>
          simp only [assemble, List.map_cons, Option.map_none, sounds_forgetOrigins,
            kind_forgetOrigins]
          split
          · exact rest (last :: before) (some slash)
          · rfl
    | event element =>
      have first : (Piece.event element :: all).filterMap tokens? =
          .event element.forgetOrigins :: all.filterMap tokens? := rfl
      rw [first, List.map_cons, Token.piece]
      cases opened with
      | none => exact rest (element :: before) none
      | some slash =>
        cases before with
        | nil => rfl
        | cons last before =>
          simp only [assemble, List.map_cons, Option.map_some, sounds_forgetOrigins]
          split
          · have joined := rest (chord last element :: before) none
            rw [List.map_cons, ← chord_forgetOrigins] at joined
            exact joined
          · rfl

theorem Event.single {text rest : List Char} {tree : Element} (event : Event text tree rest) :
    tree.kind ≠ .plain .chord := by
  cases event with
  | sign sign =>
    simp only [signs, List.mem_cons, Prod.mk.injEq, List.not_mem_nil, or_false] at sign
    rcases sign with ⟨-, rfl⟩ | ⟨-, rfl⟩ | ⟨-, rfl⟩ <;> exact fun same => by cases same
  | note pitch signs lasts | rest alone lasts | octaveSet nonempty decimal | changes closed =>
    exact fun same => by cases same

theorem Lexed.event_of_mem {text : List Char} {tokens : List Token} (lexed : Lexed text tokens)
    {tree : Element} (member : .event tree ∈ tokens) : ∃ text rest, Event text tree rest := by
  induction lexed with
  | done => cases member
  | gap gap more ih => exact ih member
  | event event more ih =>
    rcases List.mem_cons.mp member with same | within
    · cases same
      exact ⟨_, _, event⟩
    · exact ih within
  | separator more ih =>
    rcases List.mem_cons.mp member with same | within
    · cases same
    · exact ih within

theorem phrased_iff_assemble {all : List Piece} (valid : ∀ text, Piece.invalid text ∉ all)
    (each : ∀ tree, .event tree ∈ all.filterMap tokens? → ∃ text rest, Event text tree rest)
    {events : List Element} : Phrased (all.filterMap tokens?) events ↔
      ∃ read, assemble [] none all = .ok read ∧ read.map forgetOrigins = events := by
  have single (tree : Element) (member : .event tree ∈ all.filterMap tokens?) :
      tree.kind ≠ .plain .chord := by
    obtain ⟨_, _, event⟩ := each tree member
    exact event.single
  have same := assemble_tokens valid [] none
  rw [List.map_nil, Option.map_none] at same
  rw [← assembled_iff_phrased single, ← assemble_ok_iff, ← toOption_eq_some, ← same,
    Option.map_eq_some_iff]
  simp only [toOption_eq_some]

theorem music_of_plays {cursor : Cursor} {events : List Element}
    (plays : Plays (cursor.music fun _ => false).1 events) :
    Music (String.ofList cursor.rest) (events.map forgetOrigins) := by
  obtain ⟨all, built, assembled⟩ := plays_iff.mp plays
  have valid := assembled.not_invalid
  have lexed := lexed_music built valid
  have each (tree : Element) := @Lexed.event_of_mem _ _ lexed tree
  refine ⟨_, ?_, (phrased_iff_assemble valid each).mpr ⟨events, assembled.assemble, rfl⟩⟩
  rwa [String.toList_ofList]

theorem music_iff {text : String} {events : List Element} : Music text events ↔
    ∃ read, build .musicData text = .ok (.plain .musicData read) ∧
      read.map forgetOrigins = events := by
  constructor
  · rintro ⟨tokens, lexed, phrased⟩
    obtain ⟨all, built, rfl, valid⟩ := music_complete lexed 0
    have each (tree : Element) := @Lexed.event_of_mem _ _ lexed tree
    obtain ⟨read, assembled, same⟩ := (phrased_iff_assemble valid each).mp phrased
    exact ⟨read, plays_iff.mpr ⟨all, built, assemble_ok_iff.mp assembled⟩, same⟩
  · rintro ⟨read, built, rfl⟩
    have music := @music_of_plays (Cursor.ofText text) _ built
    rwa [Cursor.ofText, String.ofList_toList] at music

theorem Music.exists_readEvent {text : String} {tree : Element} (music : Music text [tree]) :
    tree.isSpelled ∧ ∀ keep, ∃ event, readEvent keep text = .ok (some event) ∧
      event.forgetOrigins = tree := by
  obtain ⟨built, whole, same⟩ := music_iff.mp music
  obtain ⟨found, rfl, forgotten⟩ := List.map_eq_singleton_iff.mp same
  constructor
  · have all := isSpelled_children (isSpelled_musicElement (numeric_musicOfText _) whole)
    rw [← forgotten]
    exact isSpelled_forgetOrigins (all found (List.mem_singleton_self found))
  · intro keep
    obtain ⟨⟨label, origin, children⟩, read, alike⟩ := exists_readAs whole keep
    have one : children.map forgetOrigins = [found.forgetOrigins] := by
      rw [forgetOrigins_node, forgetOrigins_plain] at alike
      injection alike
    obtain ⟨event, rfl, same⟩ := List.map_eq_singleton_iff.mp one
    exact ⟨event, by rw [readEvent, read]; rfl, same.trans forgotten⟩

/-- A text is read as music if and only if it is music of the grammar, and then as its tree. -/
theorem readAs_musicData_iff (text : String) (keep : Bool) (music : Element) :
    (∃ read, readAs .musicData keep text = .ok read ∧ read.forgetOrigins = music) ↔
      ∃ events, Music text events ∧ music = .plain .musicData events := by
  simp only [music_iff]
  constructor
  · rintro ⟨element, read, rfl⟩
    obtain ⟨built, whole, -⟩ := readAs_ok_iff.mp read
    have shape : musicElement (musicOfText text) = .ok built := whole
    simp only [musicElement, bind_eq_ok, pure_eq_ok] at shape
    obtain ⟨_, -, events, -, rfl⟩ := shape
    refine ⟨_, ⟨events, whole, rfl⟩, ?_⟩
    rw [forgetOrigins_readAs read whole, forgetOrigins_plain]
  · rintro ⟨_, ⟨events, whole, rfl⟩, rfl⟩
    obtain ⟨read, isRead, same⟩ := exists_readAs whole keep
    exact ⟨read, isRead, by rw [same, forgetOrigins_plain]⟩

end Grammar

end Partbook
