import Partbook.Proofs.Source.CallLine
import Partbook.Proofs.Source.Placement
import Mathlib.Data.List.Forall2

namespace Partbook.Source

open Text

namespace Cursor

variable {n : Nat} {more : List Char} {cursor other : Cursor} {stops : List Char → Bool}

/-! ## Accepted music -/

/-- All that is read from here on, as music alone, is valid. -/
def Playable (cursor : Cursor) : Prop := ∀ item ∈ (cursor.music fun _ => false).1, item.IsValid

theorem musicMark?_ne_none (starts : startsMusicMark cursor.rest) : cursor.musicMark? ≠ none := by
  intro none
  obtain ⟨pos, rest⟩ := cursor
  cases rest with
  | nil => cases starts
  | cons c rest =>
    simp only [musicMark?, Option.orElse_eq_orElse, Option.orElse_eq_or, Option.or_eq_none_iff,
      Option.map_eq_none_iff] at none
    obtain ⟨note, letter, octave, mark, changes, comment⟩ := none
    simp only [startsMusicMark, Bool.or_eq_true, Bool.and_eq_true, Bool.not_eq_true',
      beq_iff_eq] at starts
    rcases starts with (((((((pitch | ⟨rfl, alone⟩) | ⟨rfl, number⟩) | rfl) | rfl) | rfl) | rfl) |
      rfl) | rfl
    · simp [note?, next?, pitch] at note
    · cases rest with
      | nil => simp [rest?, next?, cut] at letter
      | cons c rest =>
        have other : isLetter c = false := by simpa using alone
        simp [rest?, next?, cut, other] at letter
    · cases rest with
      | nil => simp at number
      | cons c rest =>
        have digit : isDecimal c := by simpa using number
        simp [octaveSet?, next?, cut, run?, digit] at octave
    · cases mark
    · cases mark
    · cases mark
    · cases mark
    · simp only [changes?, next?, cut, beq_self_eq_true, if_true, Option.bind_eq_bind,
        Option.bind_some] at changes
      split at changes <;> cases changes
    · cases comment

theorem junk?_ne_none {starts : List Char → Bool} (nonempty : cursor.rest ≠ [])
    (other : starts cursor.rest = false) : cursor.junk? starts ≠ none := by
  obtain ⟨pos, rest⟩ := cursor
  cases rest with
  | nil => exact absurd rfl nonempty
  | cons c rest => simp [junk?, splitAt, other]

theorem not_within_of_musicItem? (ends : cursor.musicItem? stops = none)
    (goesOn : stops cursor.skipBlanks.rest = false) : ¬ Within cursor := by
  intro within
  have visible := within_iff.mp within
  simp only [musicItem?, goesOn, Bool.false_eq_true, if_false, Option.orElse_eq_orElse,
    Option.orElse_eq_or, Option.or_eq_none_iff, Option.map_eq_none_iff] at ends
  cases starts : startsMusicMark cursor.skipBlanks.rest with
  | true => exact musicMark?_ne_none starts ends.1
  | false =>
    refine junk?_ne_none visible ?_ ends.2
    have blank : cursor.skipBlanks.rest.head?.any isBlank = false := by
      have visible := cursor.visible_skipBlanks
      cases first : cursor.skipBlanks.rest with
      | nil => rfl
      | cons c rest => exact visible c (by rw [first]; rfl)
    simp [starts, blank, goesOn]

theorem blank_of_musicItem? (ends : cursor.musicItem? (fun _ => false) = none) :
    ∀ c ∈ cursor.rest, isBlank c := by
  intro c member
  by_contra visible
  exact not_within_of_musicItem? ends rfl ⟨c, member, by simpa using visible⟩

theorem many_end {α : Type} {step : Cursor → Option (α × Cursor)} (consuming : Consuming step)
    (cursor : Cursor) : step (cursor.many step).2 = none := by
  induction cursor using many.induct step with
  | case1 cursor fails => rwa [many_of_none fails]
  | case2 cursor item after read shorter ih => rwa [many_of_some consuming read]
  | case3 cursor item after read longer => exact absurd (consuming _ _ _ read) longer

theorem musicItem?_cases {item : MusicItem} {after : Cursor}
    (read : cursor.musicItem? stops = some (item, after)) :
    cursor.skipBlanks.musicMark? = some (item, after) ∨ ∃ text, item = .invalid text := by
  simp only [musicItem?] at read
  split at read
  · cases read
  · simp only [Option.orElse_eq_orElse, Option.orElse_eq_or, Option.or_eq_some_iff,
      Option.map_eq_some_iff, Prod.exists, Prod.mk.injEq] at read
    rcases read with mark | ⟨-, lexeme, rest, junk, rfl, rfl⟩
    · exact .inl mark
    · exact .inr ⟨lexeme, rfl⟩

theorem musicItem?_unstopped {item : MusicItem} {after : Cursor}
    (read : cursor.musicItem? stops = some (item, after)) (valid : item.IsValid) :
    cursor.musicItem? (fun _ => false) = some (item, after) := by
  rcases musicItem?_cases read with mark | ⟨text, rfl⟩
  · simp only [musicItem?, mark]
    rfl
  · cases valid

theorem musicItem?_end (ends : ¬ Within cursor) : cursor.musicItem? stops = none := by
  have none : cursor.skipBlanks.rest = [] := not_not.mp (mt within_iff.mpr ends)
  generalize skipped : cursor.skipBlanks = start at none
  obtain ⟨pos, rest⟩ := start
  subst none
  simp only [musicItem?, skipped]
  split <;> rfl

theorem music_unstopped (valid : ∀ item ∈ (cursor.music stops).1, item.IsValid)
    (ends : ¬ Within (cursor.music stops).2) :
    cursor.music (fun _ => false) = cursor.music stops := by
  unfold music at valid ends ⊢
  induction cursor using many.induct (musicItem? stops) with
  | case1 cursor none =>
    rw [many_of_none none] at ends ⊢
    exact many_of_none (musicItem?_end ends)
  | case2 cursor item after read shorter ih =>
    rw [many_of_some (consuming_musicItem? _) read] at valid ends ⊢
    rw [List.forall_mem_cons] at valid
    rw [many_of_some (consuming_musicItem? _) (musicItem?_unstopped read valid.1),
      ih valid.2 ends]
  | case3 cursor item after read longer => exact absurd (consuming_musicItem? _ _ _ _ read) longer

theorem tame_of_playable (playable : Playable cursor) : Tame cursor.rest := by
  obtain ⟨taken, rest, -, tame⟩ := passes_music (fun _ => false) cursor
  have blank : ∀ c ∈ (cursor.music fun _ => false).2.rest, isBlank c :=
    blank_of_musicItem? (many_end (consuming_musicItem? fun _ => false) cursor)
  rw [rest]
  refine (tame playable).append (.of_all fun c member => ⟨?_, ?_⟩)
  · rintro rfl
    exact absurd (blank ':' member) (by decide)
  · rintro rfl
    exact absurd (blank '"' member) (by decide)

theorem tame_skipBlanks (tame : Tame cursor.rest) : Tame cursor.skipBlanks.rest := by
  obtain ⟨blanks, parts, blank⟩ := cursor.skipBlanks_parts
  rw [parts] at tame
  exact tame.behind fun member => absurd (blank '#' member) (by decide)

/-! ## One line within a text -/

theorem musicItem?_inside (ends : EndsLine more) {item : MusicItem} {after : Cursor}
    (read : cursor.musicItem? (fun _ => false) = some (item, after)) (valid : item.IsValid)
    (goesOn : stops (cursor.skipBlanks.rest ++ more) = false) :
    (cursor.inside n more).musicItem? stops = some (item.moved n, after.inside n more) := by
  rcases musicItem?_cases read with mark | ⟨text, rfl⟩
  · have within : Within cursor := by
      rw [within_iff]
      exact List.ne_nil_of_length_pos (Nat.zero_lt_of_lt (advances_musicMark? mark).2)
    simp only [musicItem?, skipBlanks_inside within]
    rw [if_neg (by simpa [inside] using goesOn), (follows_musicMark? ends _).some _ mark valid]
    rfl
  · cases valid

theorem many_congr {α : Type} {step : Cursor → Option (α × Cursor)} (consuming : Consuming step)
    (read : step cursor = step other) (same : cursor.skipBlanks = other.skipBlanks) :
    (cursor.many step).1 = (other.many step).1 ∧
      (cursor.many step).2.skipBlanks = (other.many step).2.skipBlanks := by
  cases found : step other with
  | none =>
    rw [many_of_none (read.trans found), many_of_none found]
    exact ⟨rfl, same⟩
  | some item =>
    obtain ⟨item, after⟩ := item
    rw [many_of_some consuming (read.trans found), many_of_some consuming found]
    exact ⟨rfl, rfl⟩

theorem music_congr (same : cursor.skipBlanks = other.skipBlanks) :
    (cursor.music stops).1 = (other.music stops).1 ∧
      (cursor.music stops).2.skipBlanks = (other.music stops).2.skipBlanks :=
  many_congr (consuming_musicItem? stops) (by simp only [musicItem?, same]) same

theorem skipBlanks_append {blanks rest : List Char} (blank : ∀ c ∈ blanks, isBlank c) (pos : Nat) :
    (⟨pos, blanks ++ rest⟩ : Cursor).skipBlanks =
      (⟨pos + blanks.length, rest⟩ : Cursor).skipBlanks := by
  simp [skipBlanks, run, cut, List.takeWhile_append_of_pos blank,
    List.dropWhile_append_of_pos blank, Nat.add_assoc]

theorem music_inside (ends : EndsLine more) (playable : Playable cursor)
    (goesOn : ∀ text, Tame text → stops (text ++ more) = false) :
    ∃ pos, ((cursor.inside n more).music stops).1 =
        (cursor.music fun _ => false).1.map (MusicItem.moved n) ++
          ((⟨pos, more⟩ : Cursor).music stops).1 ∧
      ((cursor.inside n more).music stops).2.skipBlanks =
        ((⟨pos, more⟩ : Cursor).music stops).2.skipBlanks := by
  unfold Playable at playable
  unfold music at playable ⊢
  induction cursor using many.induct (musicItem? fun _ => false) with
  | case1 cursor none =>
    rw [many_of_none none]
    exact ⟨_, music_congr (skipBlanks_append (blank_of_musicItem? none) _)⟩
  | case2 cursor item after read shorter ih =>
    have tame := tame_skipBlanks (tame_of_playable playable)
    rw [many_of_some (consuming_musicItem? _) read] at playable ⊢
    rw [List.forall_mem_cons] at playable
    obtain ⟨pos, items, later⟩ := ih playable.2
    have first := musicItem?_inside (n := n) ends read playable.1 (goesOn _ tame)
    rw [many_of_some (consuming_musicItem? stops) first, items]
    exact ⟨pos, rfl, later⟩
  | case3 cursor item after read longer => exact absurd (consuming_musicItem? _ _ _ _ read) longer

end Cursor

/-! ## The music behind a call -/

def lineChars (lines : List String) : List Char := lines.flatMap fun line => '\n' :: line.toList

/-- A call line and the lines of music that follow it. -/
abbrev Passage := CallLine × List String

def passageChars (passages : List Passage) : List Char :=
  passages.flatMap fun (call, lines) => '\n' :: (call.chars ++ lineChars lines)

/-- The items of all the lines in order, each line read alone and moved to where it stands. -/
inductive MovedLines : List String → List MusicItem → Prop
  | nil : MovedLines [] []
  | cons {lines : List String} {items : List MusicItem} (line : String) (n : Nat)
      (later : MovedLines lines items) :
      MovedLines (line :: lines) ((musicOfText line).map (MusicItem.moved n) ++ items)

theorem EndsLine.lines {more : List Char} (ends : EndsLine more) (lines : List String) :
    EndsLine (lineChars lines ++ more) := by
  cases lines with
  | nil => exact ends
  | cons line lines => exact .newline _

theorem Soft.lines {more : List Char} (soft : Soft more) {lines : List String}
    (playable : ∀ line ∈ lines, (Cursor.ofText line).Playable) :
    Soft (lineChars lines ++ more) := by
  induction lines with
  | nil => exact soft
  | cons line lines ih =>
    rw [List.forall_mem_cons] at playable
    have tame : Tame line.toList := Cursor.tame_of_playable playable.1
    have next := tame.soft (ih playable.2)
    rw [lineChars, List.flatMap_cons, List.append_assoc, List.cons_append, Soft,
      List.dropWhile_cons_of_pos (by decide)]
    exact next

theorem EndsLine.apart {more : List Char} (ends : EndsLine more) :
    ∀ c ∈ more.head?, isCallChar c = false := by
  intro c first
  rw [ends c first]
  exact isCallChar_of_isBlank (by decide)

namespace Cursor

theorem music_lines {lines : List String} {more : List Char}
    (playable : ∀ line ∈ lines, (ofText line).Playable) (ends : EndsLine more) (soft : Soft more)
    (stop : ∀ pos, (⟨pos, more⟩ : Cursor).musicItem? startsCall = none) (pos : Nat) :
    MovedLines lines ((⟨pos, lineChars lines ++ more⟩ : Cursor).music startsCall).1 ∧
      ((⟨pos, lineChars lines ++ more⟩ : Cursor).music startsCall).2.skipBlanks.rest =
        more.dropWhile isBlank := by
  induction lines generalizing pos with
  | nil =>
    rw [lineChars, List.flatMap_nil, List.nil_append, music, many_of_none (stop pos)]
    exact ⟨.nil, rfl⟩
  | cons line lines ih =>
    rw [List.forall_mem_cons] at playable
    have newline : (⟨pos, lineChars (line :: lines) ++ more⟩ : Cursor).skipBlanks =
        ((ofText line).inside (pos + 1) (lineChars lines ++ more)).skipBlanks := by
      have blank : ∀ c ∈ ['\n'], isBlank c := List.forall_mem_singleton.mpr (by decide)
      have split : lineChars (line :: lines) ++ more =
          ['\n'] ++ (line.toList ++ (lineChars lines ++ more)) := by simp [lineChars]
      rw [split, skipBlanks_append blank, inside, ofText, Nat.zero_add]
      rfl
    have goesOn (text : List Char) (tame : Tame text) :
        startsCall (text ++ (lineChars lines ++ more)) = false :=
      tame.startsCall (soft.lines playable.2) (ends.lines lines).apart
    obtain ⟨pos', items, rest⟩ := music_inside (n := pos + 1) (ends.lines lines) playable.1 goesOn
    obtain ⟨later, remaining⟩ := ih playable.2 pos'
    obtain ⟨same, same'⟩ := @music_congr _ _ startsCall newline
    rw [same, same', items, rest]
    exact ⟨.cons line _ later, remaining⟩

end Cursor

theorem Cursor.part?_end {cursor : Cursor} (ends : cursor.skipBlanks.rest = []) :
    cursor.part? = none := by
  generalize skipped : cursor.skipBlanks = start at ends
  obtain ⟨pos, rest⟩ := start
  subst ends
  simp [Cursor.part?, skipped, Cursor.call?, Cursor.name?]

/-! ## Whole texts -/

structure Matches (passage : Passage) (part : Part) : Prop where
  names : part.call.names.map Lexeme.text = passage.1.name :: passage.1.others
  nickname : part.call.nickname?.map Lexeme.text = passage.1.nickname.map (·.2)
  valid : ∀ text, part.call.quotation ≠ some (.invalid text)
  music : MovedLines passage.2 part.music

/-- A text of the passages. A call begins a line. What follows it is its lines of music, where any
blank may stand for the first line end, and the text of the other passages. -/
inductive LaidOut : List Passage → List Char → Prop
  | nil : LaidOut [] []
  | cons (call : CallLine) {lines : List String} {behind more : List Char}
      {passages : List Passage}
      (same : ∀ pos, (⟨pos, behind⟩ : Cursor).skipBlanks =
        (⟨pos, lineChars lines ++ more⟩ : Cursor).skipBlanks)
      (later : LaidOut passages more) :
      LaidOut ((call, lines) :: passages) ('\n' :: (call.chars ++ behind))

theorem laidOut_passages (passages : List Passage) : LaidOut passages (passageChars passages) := by
  induction passages with
  | nil => exact .nil
  | cons passage passages ih =>
    obtain ⟨call, lines⟩ := passage
    rw [passageChars, List.flatMap_cons, List.cons_append, List.append_assoc]
    exact .cons call (fun _ => rfl) ih

namespace LaidOut

variable {passages : List Passage} {text : List Char} {cursor : Cursor}

theorem endsLine (laid : LaidOut passages text) : EndsLine text := by
  cases laid with
  | nil => exact .nil
  | cons call same later => exact .newline _

theorem dropWhile_call (call : CallLine) (behind : List Char) :
    ('\n' :: (call.chars ++ behind)).dropWhile isBlank = call.chars ++ behind := by
  rw [List.dropWhile_cons_of_pos (by decide), call.dropWhile_chars]

theorem soft (laid : LaidOut passages text) : Soft text := by
  cases laid with
  | nil => nofun
  | cons call same later =>
    rw [Soft, dropWhile_call, ← call.dropWhile_chars]
    exact call.soft_chars _

theorem musicItem? (laid : LaidOut passages text) (pos : Nat) :
    (⟨pos, text⟩ : Cursor).musicItem? startsCall = none := by
  cases laid with
  | nil => rfl
  | @cons call _ behind _ _ same later =>
    have starts : startsCall
        (⟨pos, '\n' :: (call.chars ++ behind)⟩ : Cursor).skipBlanks.rest := by
      simp only [Cursor.skipBlanks, Cursor.run, Cursor.cut, dropWhile_call]
      exact call.startsCall_chars _
    simp only [Cursor.musicItem?, starts, if_true]

theorem parts (laid : LaidOut passages text)
    (playable : ∀ passage ∈ passages, ∀ line ∈ passage.2, (Cursor.ofText line).Playable)
    (here : cursor.skipBlanks.rest = text.dropWhile isBlank) :
    List.Forall₂ Matches passages (cursor.many Cursor.part?).1 := by
  induction laid generalizing cursor with
  | nil =>
    rw [Cursor.many_of_none (Cursor.part?_end here)]
    exact .nil
  | @cons callLine lines behind more passages same later ih =>
    rw [List.forall_mem_cons] at playable
    rw [dropWhile_call] at here
    obtain ⟨call, ⟨pos, rest⟩, read, rfl, names, nickname, valid⟩ :=
      callLine.call?_chars cursor.skipBlanks.pos behind
    obtain ⟨music, remaining⟩ := Cursor.music_lines playable.1 later.endsLine later.soft
      later.musicItem? pos
    obtain ⟨items, after⟩ := @Cursor.music_congr _ _ startsCall (same pos)
    have called : cursor.skipBlanks.call? = some (call, ⟨pos, rest⟩) := by
      rw [← read, ← here]
    have part : cursor.part? = some (⟨call, ((⟨pos, rest⟩ : Cursor).music startsCall).1⟩,
        ((⟨pos, rest⟩ : Cursor).music startsCall).2) := by
      simp [Cursor.part?, called]
    rw [Cursor.many_of_some Cursor.consuming_part? part]
    exact .cons ⟨names, nickname, valid, items ▸ music⟩ (ih playable.2 (after ▸ remaining))

theorem preludeItem? (laid : LaidOut passages text) (withChanges : Bool)
    (here : cursor.skipBlanks.rest = text.dropWhile isBlank) :
    cursor.preludeItem? withChanges = none := by
  generalize skipped : cursor.skipBlanks = start at here
  obtain ⟨pos, rest⟩ := start
  cases laid with
  | nil =>
    simp only [List.dropWhile_nil] at here
    subst here
    cases withChanges <;> simp only [Cursor.preludeItem?, skipped] <;> rfl
  | cons call same later =>
    rw [dropWhile_call] at here
    subst here
    simp only [Cursor.preludeItem?, skipped, call.startsCall_chars, if_true]

end LaidOut

theorem document_of_passages {passages : List Passage} {chars : List Char} {text : String}
    (laid : LaidOut passages chars) (withChanges : Bool)
    (playable : ∀ passage ∈ passages, ∀ line ∈ passage.2, (Cursor.ofText line).Playable)
    (here : text.toList.dropWhile isBlank = chars.dropWhile isBlank) :
    (Document.ofText withChanges text).prelude = [] ∧
      List.Forall₂ Matches passages (Document.ofText withChanges text).parts := by
  have none : (Cursor.ofText text).preludeItem? withChanges = none :=
    laid.preludeItem? withChanges here
  simp only [Document.ofText, Cursor.many_of_none none, true_and]
  exact laid.parts playable here

def linesOf (passages : List Passage) : List String :=
  passages.flatMap fun (call, lines) => call.text :: lines

theorem lineChars_linesOf (passages : List Passage) :
    lineChars (linesOf passages) = passageChars passages := by
  induction passages with
  | nil => rfl
  | cons passage passages ih =>
    obtain ⟨call, lines⟩ := passage
    rw [linesOf, List.flatMap_cons, lineChars, List.flatMap_append]
    rw [linesOf, lineChars] at ih
    rw [ih]
    simp [passageChars, lineChars, CallLine.text]

theorem toList_intercalate_newline (line : String) (lines : List String) :
    ("\n".intercalate (line :: lines)).toList = line.toList ++ lineChars lines := by
  induction lines generalizing line with
  | nil => simp [lineChars]
  | cons next lines ih =>
    rw [String.intercalate_cons_cons, String.toList_append, ih]
    simp [lineChars]

theorem dropWhile_linesOf (passages : List Passage) :
    ("\n".intercalate (linesOf passages)).toList.dropWhile isBlank =
      (passageChars passages).dropWhile isBlank := by
  rw [← lineChars_linesOf]
  cases linesOf passages with
  | nil => rfl
  | cons line lines =>
    have first : lineChars (line :: lines) = '\n' :: (line.toList ++ lineChars lines) := rfl
    rw [toList_intercalate_newline, first, List.dropWhile_cons_of_pos (by decide)]

end Partbook.Source
