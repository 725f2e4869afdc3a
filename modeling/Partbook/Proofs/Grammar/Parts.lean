import Partbook.Proofs.Composition
import Partbook.Proofs.Grammar.Accepted
import Partbook.Proofs.Source.Calls
import Mathlib.Logic.Relation

/-!
Texts of one part: gaps, a call line, and music up to the end. Joined with line ends they are read
part by part. The gaps before a later call are then comments in the music of the part before it.
-/
namespace Partbook.Grammar

open Text Source Element Cursor

/-! ## Gaps -/

abbrev Gaps : List Char → List Char → Prop := Relation.ReflTransGen Gap

variable {text rest more : List Char}

theorem Gap.append (gap : Gap text rest) (ends : EndsLine more) :
    Gap (text ++ more) (rest ++ more) := by
  cases gap with
  | blank blank => exact .blank blank
  | @comment body rest inside stops =>
    rw [List.cons_append, List.append_assoc]
    refine .comment inside fun c first => ?_
    cases rest with
    | nil => exact ends c first
    | cons d rest => exact stops c first

theorem Gaps.append (gaps : Gaps text rest) (ends : EndsLine more) :
    Gaps (text ++ more) (rest ++ more) :=
  gaps.lift (· ++ more) fun _ _ gap => gap.append ends

theorem Gap.soft (gap : Gap text rest) (soft : Soft rest) : Soft text := by
  cases gap with
  | blank blank =>
    rw [Soft, List.dropWhile_cons_of_pos blank]
    exact soft
  | comment inside stops =>
    rintro c ⟨⟩
    decide

theorem Gaps.soft (gaps : Gaps text rest) (soft : Soft rest) : Soft text := by
  induction gaps using Relation.ReflTransGen.head_induction_on with
  | refl => exact soft
  | head gap later ih => exact gap.soft ih

theorem gaps_skipBlanks (cursor : Cursor) : Gaps cursor.rest cursor.skipBlanks.rest :=
  of_skipBlanks (P := fun text => Gaps text cursor.skipBlanks.rest) .head cursor .refl

/-! ## Reading over gaps -/

section

variable {α : Type} {step : Cursor → Option (α × Cursor)}

theorem many_gaps (consuming : Consuming step) {comment : Lexeme → α}
    (blind : ∀ {cursor other : Cursor}, cursor.skipBlanks = other.skipBlanks →
      step cursor = step other)
    (comments : ∀ {cursor lexeme after}, cursor.comment? = some (lexeme, after) →
      step cursor = some (comment lexeme, after))
    (gaps : Gaps text rest) (stops : ∀ pos, step ⟨pos, rest⟩ = none) (pos : Nat) :
    (∀ item ∈ ((⟨pos, text⟩ : Cursor).many step).1, ∃ lexeme, item = comment lexeme) ∧
      ((⟨pos, text⟩ : Cursor).many step).2.skipBlanks.rest = rest.dropWhile isBlank := by
  induction gaps using Relation.ReflTransGen.head_induction_on generalizing pos with
  | refl =>
    rw [many_of_none (stops pos)]
    exact ⟨by simp, rfl⟩
  | @head text middle gap later ih =>
    cases gap with
    | blank blank =>
      have skipped := skipBlanks_blank blank middle pos
      obtain ⟨items, after⟩ := many_congr consuming (blind skipped) skipped
      rw [items, after]
      exact ih (pos + 1)
    | comment inside ends =>
      obtain ⟨lexeme, ⟨pos', rest⟩, read, rfl⟩ := comment?_complete inside ends pos
      obtain ⟨items, after⟩ := ih pos'
      rw [many_of_some consuming (comments read), List.forall_mem_cons]
      exact ⟨⟨⟨lexeme, rfl⟩, items⟩, after⟩

end

variable {cursor after : Cursor} {lexeme : Lexeme}

theorem begins_of_comment? (read : cursor.comment? = some (lexeme, after)) :
    ∃ pos rest, cursor = ⟨pos, '#' :: rest⟩ := by
  obtain ⟨pos, rest⟩ := cursor
  unfold comment? at read
  split at read
  · rename_i behind parts
    exact ⟨pos, behind, congrArg _ parts⟩
  · cases read

theorem musicItem?_of_comment? (read : cursor.comment? = some (lexeme, after)) :
    cursor.musicItem? startsCall = some (.comment lexeme, after) := by
  obtain ⟨pos, body, rfl⟩ := begins_of_comment? read
  have noNote : (⟨pos, '#' :: body⟩ : Cursor).note? = none := rfl
  simp only [musicItem?, skipBlanks_visible (rfl : isBlank '#' = false),
    not_startsCall_of_head (rfl : isLetter '#' = false), musicMark?, noNote, read]
  rfl

theorem preludeItem?_of_comment? (withChanges : Bool)
    (read : cursor.comment? = some (lexeme, after)) :
    cursor.preludeItem? withChanges = some (.comment lexeme, after) := by
  obtain ⟨pos, body, rfl⟩ := begins_of_comment? read
  have noChanges : (⟨pos, '#' :: body⟩ : Cursor).changes? = none := rfl
  simp only [preludeItem?, skipBlanks_visible (rfl : isBlank '#' = false),
    not_startsCall_of_head (rfl : isLetter '#' = false), noChanges, read]
  cases withChanges <;> rfl

theorem plays_comments {items : List MusicItem}
    (comments : ∀ item ∈ items, ∃ lexeme, item = .comment lexeme) : Plays items [] := by
  induction items with
  | nil => rfl
  | cons item items ih =>
    rw [List.forall_mem_cons] at comments
    obtain ⟨⟨lexeme, rfl⟩, later⟩ := comments
    obtain ⟨all, read, assembled⟩ := plays_iff.mp (ih later)
    exact plays_iff.mpr ⟨.comment :: all, by rw [pieces, read]; rfl, .comment assembled⟩

/-! ## Parts behind each other -/

abbrev PartLine := CallLine × String

structure PartText (text : String) (part : PartLine) : Prop where
  gaps : Gaps text.toList (part.1.chars ++ part.2.toList)
  accepted : Accepted part.2

/-- The parts that a text begins with, each behind the music of the one before it, a line end and
gaps. -/
inductive Calls : List PartLine → List Char → Prop
  | nil : Calls [] []
  | cons (call : CallLine) {music : String} {parts : List PartLine} {more rest : List Char}
      (accepted : Accepted music) (ends : EndsLine more) (gaps : Gaps more rest)
      (later : Calls parts rest) :
      Calls ((call, music) :: parts) (call.chars ++ (music.toList ++ more))

namespace Calls

variable {parts : List PartLine}

theorem soft (calls : Calls parts text) : Soft text := by
  cases calls with
  | nil => nofun
  | cons call accepted ends gaps later => exact call.soft_chars _

theorem dropWhile (calls : Calls parts text) : text.dropWhile isBlank = text := by
  cases calls with
  | nil => rfl
  | cons call accepted ends gaps later => exact call.dropWhile_chars _

theorem skipBlanks (calls : Calls parts text) (pos : Nat) :
    (⟨pos, text⟩ : Cursor).skipBlanks.rest = text := calls.dropWhile

theorem musicItem? (calls : Calls parts text) (pos : Nat) :
    (⟨pos, text⟩ : Cursor).musicItem? startsCall = none := by
  have here := calls.skipBlanks pos
  cases calls with
  | nil => rfl
  | cons call accepted ends gaps later =>
    simp only [Cursor.musicItem?, here, call.startsCall_chars, if_true]

theorem preludeItem? (calls : Calls parts text) (withChanges : Bool) (pos : Nat) :
    (⟨pos, text⟩ : Cursor).preludeItem? withChanges = none := by
  have here := calls.skipBlanks pos
  cases calls with
  | nil => cases withChanges <;> rfl
  | cons call accepted ends gaps later =>
    simp only [Cursor.preludeItem?, here, call.startsCall_chars, if_true]

theorem music (calls : Calls parts rest) (gaps : Gaps more rest) (ends : EndsLine more)
    {music : String} (accepted : Accepted music) (pos : Nat) :
    (∃ events, Plays ((⟨pos, music.toList ++ more⟩ : Cursor).music startsCall).1 events ∧
      events.map forgetOrigins = (eventsIn false music).map forgetOrigins) ∧
    ((⟨pos, music.toList ++ more⟩ : Cursor).music startsCall).2.skipBlanks.rest = rest := by
  -- no call can begin before the gaps have been read over
  have goesOn (text : List Char) (tame : Tame text) : startsCall (text ++ more) = false :=
    tame.startsCall (gaps.soft calls.soft) ends.apart
  obtain ⟨pos', items, behind⟩ :=
    music_inside (n := pos) ends (playable_of_accepted accepted) goesOn
  have here : (ofText music).inside pos more = ⟨pos, music.toList ++ more⟩ := by
    rw [Cursor.inside, ofText, Nat.zero_add]
  have blind {cursor other : Cursor} (same : cursor.skipBlanks = other.skipBlanks) :
      cursor.musicItem? startsCall = other.musicItem? startsCall := by
    simp only [Cursor.musicItem?, same]
  obtain ⟨comments, after⟩ := many_gaps (consuming_musicItem? startsCall) blind
    musicItem?_of_comment? gaps calls.musicItem? pos'
  rw [here] at items behind
  refine ⟨?_, by rw [behind, Cursor.music, after, calls.dropWhile]⟩
  obtain ⟨alone, heard⟩ := heard_of_accepted accepted
  obtain ⟨events, plays, same⟩ := heard.plays.moved pos
  have all := plays.append (plays_comments comments)
  rw [List.append_nil] at all
  exact ⟨events, items ▸ all, same.trans (eventsIn_of_heard heard false).symm⟩

end Calls

def PartLine.instrument (line : PartLine) : Element := instrumentOf false (line.1, [line.2])

theorem Calls.elements {parts : List PartLine} (calls : Calls parts text) {cursor : Cursor}
    (here : cursor.skipBlanks.rest = text) :
    ∃ instruments, partElements (cursor.many Cursor.part?).1 = .ok instruments ∧
      instruments.map forgetOrigins = parts.map fun line => line.instrument.forgetOrigins := by
  induction calls generalizing cursor with
  | nil =>
    rw [many_of_none (part?_end here)]
    exact ⟨[], rfl, rfl⟩
  | @cons line music parts more rest accepted ends gaps later ih =>
    -- reading the music stops at the next call, and there the parts that follow begin
    obtain ⟨call, ⟨pos, behind⟩, read, rfl, names, nickname, valid⟩ :=
      line.call?_chars cursor.skipBlanks.pos (music.toList ++ more)
    obtain ⟨⟨events, plays, same⟩, after⟩ := later.music gaps ends accepted pos
    have called : cursor.skipBlanks.call? = some (call, ⟨pos, music.toList ++ more⟩) := by
      rw [← read, ← here]
    have part : cursor.part? =
        some (⟨call, ((⟨pos, music.toList ++ more⟩ : Cursor).music startsCall).1⟩,
          ((⟨pos, music.toList ++ more⟩ : Cursor).music startsCall).2) := by
      simp [Cursor.part?, called]
    obtain ⟨origin, built⟩ := @element_of_plays ⟨call, _⟩ valid _ plays
    obtain ⟨instruments, others, alike⟩ := ih after
    rw [many_of_some consuming_part? part]
    refine ⟨_ :: instruments, by rw [partElements, built, others]; rfl, ?_⟩
    rw [List.map_cons, List.map_cons, alike]
    congr 1
    simp only [PartLine.instrument, instrumentOf, forgetOrigins_plain, List.map_cons, List.map_nil,
      forget_spelledOut names nickname, forget_callElement, List.flatMap_singleton, same]

theorem globalChanges_comments {items : List PreludeItem}
    (comments : ∀ item ∈ items, ∃ lexeme, item = .comment lexeme) :
    globalChanges items = .ok [] ∧ checkPrelude items = .ok () := by
  induction items with
  | nil => exact ⟨rfl, rfl⟩
  | cons item items ih =>
    rw [List.forall_mem_cons] at comments
    obtain ⟨⟨lexeme, rfl⟩, later⟩ := comments
    exact ih later

theorem document_of_calls {parts : List PartLine} {text : String} (gaps : Gaps text.toList rest)
    (calls : Calls parts rest) (withChanges : Bool) :
    (∀ item ∈ (Document.ofText withChanges text).prelude, ∃ lexeme, item = .comment lexeme) ∧
      ∃ instruments, partElements (Document.ofText withChanges text).parts = .ok instruments ∧
        instruments.map forgetOrigins = parts.map fun line => line.instrument.forgetOrigins := by
  have blind {cursor other : Cursor} (same : cursor.skipBlanks = other.skipBlanks) :
      cursor.preludeItem? withChanges = other.preludeItem? withChanges := by
    simp only [Cursor.preludeItem?, same]
  obtain ⟨comments, after⟩ := many_gaps (consuming_preludeItem? withChanges) blind
    (preludeItem?_of_comment? withChanges) gaps (calls.preludeItem? withChanges) 0
  exact ⟨comments, calls.elements (after.trans calls.dropWhile)⟩

/-! ## What is read as a part -/

theorem gaps_of_prelude (valid : ∀ item ∈ (cursor.many (preludeItem? false)).1,
    ∀ text, item ≠ .invalid text) :
    Gaps cursor.rest (cursor.many (preludeItem? false)).2.skipBlanks.rest := by
  induction cursor using many.induct (preludeItem? false) with
  | case1 cursor none =>
    rw [many_of_none none]
    exact gaps_skipBlanks cursor
  | case2 cursor item after read shorter ih =>
    rw [many_of_some (consuming_preludeItem? false) read] at valid ⊢
    rw [List.forall_mem_cons] at valid
    rcases preludeItem?_cases read with ⟨group, -, allowed, -⟩ | ⟨lexeme, -, comment⟩ |
      ⟨lexeme, starts, rfl, -⟩
    · cases allowed
    · exact (gaps_skipBlanks cursor).trans (.head (comment?_sound comment) (ih valid.2))
    · exact absurd rfl (valid.1 lexeme)
  | case3 cursor item after read longer => exact absurd (consuming_preludeItem? _ _ _ _ read) longer

theorem valid_of_checkPrelude {items : List PreludeItem} (checked : checkPrelude items = .ok ()) :
    ∀ item ∈ items, ∀ text, item ≠ .invalid text := by
  induction items with
  | nil => simp
  | cons item items ih =>
    cases item with
    | invalid text => cases checked
    | changes group | comment text =>
      exact List.forall_mem_cons.mpr ⟨nofun, ih checked⟩

theorem single_part {parts : List Part} {element : Element}
    (built : partElements parts = .ok [element]) :
    ∃ part, parts = [part] ∧ part.element = .ok element := by
  cases parts with
  | nil => cases built
  | cons part parts =>
    simp only [partElements, bind_eq_ok, pure_eq_ok] at built
    obtain ⟨first, here, later, others, same⟩ := built
    cases same
    cases parts with
    | nil => exact ⟨part, rfl, here⟩
    | cons next parts =>
      simp only [partElements, bind_eq_ok, pure_eq_ok] at others
      obtain ⟨_, -, _, -, none⟩ := others
      cases none

theorem accepted_of_last_part {part : Part} {element : Element}
    (all : (cursor.many Cursor.part?).1 = [part]) (built : part.element = .ok element) :
    ∃ line : PartLine, cursor.skipBlanks.rest = line.1.chars ++ line.2.toList ∧
      Accepted line.2 := by
  cases found : cursor.part? with
  | none =>
    rw [many_of_none found] at all
    cases all
  | some first =>
    obtain ⟨first, after⟩ := first
    rw [many_of_some consuming_part? found] at all
    obtain ⟨rfl, none⟩ := List.cons.inj all
    obtain ⟨behind, called, music, rfl⟩ := part?_eq_some found
    obtain ⟨line, text, -, -⟩ := call?_exact called (Part.valid_of_element built)
    obtain ⟨origin, element, heard, rfl⟩ := Part.element_ok built
    have shape := heard
    simp only [musicElement, bind_eq_ok, pure_eq_ok] at shape
    obtain ⟨_, -, events, -, rfl⟩ := shape
    rw [music] at heard
    -- no further call begins behind the music
    have noPart : (behind.music startsCall).2.part? = Option.none := by
      cases next : (behind.music startsCall).2.part? with
      | none => rfl
      | some found =>
        rw [many_of_some consuming_part? next] at none
        cases none
    have noCall : startsCall (behind.music startsCall).2.skipBlanks.rest = false := by
      apply not_startsCall_of_call?
      cases next : (behind.music startsCall).2.skipBlanks.call? with
      | none => rfl
      | some found => simp [part?, next] at noPart
    have ends := not_within_of_musicItem? (many_end (consuming_musicItem? startsCall) behind) noCall
    have plays : Plays (behind.music fun _ => false).1 events := by
      rw [music_unstopped (isValid_of_musicElement heard) ends]
      exact heard
    obtain ⟨read, whole, -⟩ := music_iff.mp (music_of_plays plays)
    refine ⟨(line, String.ofList behind.rest), ?_, _, read_ok_iff.mpr whole⟩
    rw [text, String.toList_ofList]

theorem exists_partText {text : String} {score : Element} (read : read .part text = .ok score) :
    ∃ line, PartText text line := by
  have built : (Document.ofText false text).partElement = .ok score := read_ok_iff.mp read
  obtain ⟨element, parts, checked, -⟩ := Document.partElement_ok_iff.mp built
  obtain ⟨part, all, here⟩ := single_part parts
  obtain ⟨line, rest, accepted⟩ := accepted_of_last_part all here
  refine ⟨line, ?_, accepted⟩
  rw [← rest]
  exact gaps_of_prelude (valid_of_checkPrelude checked)

/-! ## Joined texts -/

variable {texts : List String} {lines : List PartLine}

theorem PartText.calls {text : String} {line : PartLine} (first : PartText text line)
    {more rest : List Char} (ends : EndsLine more) (gaps : Gaps more rest)
    (later : Calls lines rest) :
    ∃ rest, Gaps (text.toList ++ more) rest ∧ Calls (line :: lines) rest := by
  refine ⟨_, ?_, .cons line.1 first.accepted ends gaps later⟩
  rw [← List.append_assoc]
  exact first.gaps.append ends

theorem exists_calls {text : String} {line : PartLine} (first : PartText text line)
    (others : List.Forall₂ PartText texts lines) :
    ∃ rest, Gaps (text.toList ++ lineChars texts) rest ∧ Calls (line :: lines) rest := by
  induction others generalizing text line with
  | nil => exact first.calls .nil .refl .nil
  | cons next others ih =>
    obtain ⟨rest, gaps, calls⟩ := ih next
    exact first.calls (.newline _) (.head (.blank (by decide)) gaps) calls

theorem exists_calls_joined (each : List.Forall₂ PartText texts lines) :
    ∃ rest, Gaps ("\n".intercalate texts).toList rest ∧ Calls lines rest := by
  cases each with
  | nil => exact ⟨[], .refl, .nil⟩
  | cons first others =>
    rw [toList_intercalate_newline]
    exact exists_calls first others

theorem read_joined (each : List.Forall₂ PartText texts lines) :
    ∃ instruments, read .score ("\n".intercalate texts) = .ok (.plain .score instruments) ∧
      instruments.map forgetOrigins = lines.map fun line => line.instrument.forgetOrigins := by
  obtain ⟨rest, gaps, calls⟩ := exists_calls_joined each
  obtain ⟨comments, instruments, parts, same⟩ := document_of_calls gaps calls true
  obtain ⟨noChanges, checked⟩ := globalChanges_comments comments
  refine ⟨instruments, read_ok_iff.mpr ?_, same⟩
  rw [build, Document.scoreElement, noChanges, parts, checked]
  rfl

theorem PartText.read {text : String} {line : PartLine} (partText : PartText text line) :
    ∃ instrument, read .part text = .ok (.plain .score [instrument]) ∧
      instrument.forgetOrigins = line.instrument.forgetOrigins := by
  obtain ⟨rest, gaps, calls⟩ := exists_calls_joined (.cons partText .nil)
  obtain ⟨comments, instruments, parts, same⟩ := document_of_calls gaps calls false
  obtain ⟨-, checked⟩ := globalChanges_comments comments
  obtain ⟨instrument, rfl, same⟩ := List.map_eq_singleton_iff.mp same
  have single : "\n".intercalate [text] = text := by simp
  rw [single] at parts checked
  have built := Document.partElement_ok_iff.mpr ⟨instrument, parts, checked, rfl⟩
  exact ⟨instrument, read_ok_iff.mpr built, (List.cons.inj same).1⟩

abbrev ReadAsParts : List String → List Element → Prop :=
  List.Forall₂ fun text instrument => read .part text = .ok (.plain .score [instrument])

theorem kind_of_read_part {text : String} {instrument : Element}
    (read : read .part text = .ok (.plain .score [instrument])) :
    instrument.kind = .plain .instrument := by
  have built : (Document.ofText false text).partElement = .ok (.plain .score [instrument]) :=
    read_ok_iff.mp read
  obtain ⟨element, parts, -, same⟩ := Document.partElement_ok_iff.mp built
  cases same
  obtain ⟨part, -, here⟩ := exists_part_of_mem parts instrument List.mem_cons_self
  obtain ⟨origin, music, -, rfl⟩ := Part.element_ok here
  rfl

theorem exists_partTexts (accepted : ∀ text ∈ texts, ∃ score, read .part text = .ok score) :
    ∃ lines instruments, List.Forall₂ PartText texts lines ∧ ReadAsParts texts instruments ∧
      instruments.map forgetOrigins = lines.map fun line => line.instrument.forgetOrigins := by
  induction texts with
  | nil => exact ⟨[], [], .nil, .nil, rfl⟩
  | cons text texts ih =>
    rw [List.forall_mem_cons] at accepted
    obtain ⟨⟨score, readFirst⟩, later⟩ := accepted
    obtain ⟨line, first⟩ := exists_partText readFirst
    obtain ⟨instrument, readFirst, same⟩ := first.read
    obtain ⟨lines, instruments, others, readOthers, alike⟩ := ih later
    exact ⟨line :: lines, instrument :: instruments, .cons first others,
      .cons readFirst readOthers, by rw [List.map_cons, List.map_cons, same, alike]⟩

/-- Texts that are read as one part each are read, joined with line ends, as the score of their
parts. -/
theorem read_joined_parts (accepted : ∀ text ∈ texts, ∃ score, read .part text = .ok score) :
    ∃ instruments joint, ReadAsParts texts instruments ∧
      read .score ("\n".intercalate texts) = .ok (.plain .score joint) ∧
      joint.map forgetOrigins = instruments.map forgetOrigins := by
  obtain ⟨lines, instruments, partTexts, readEach, alike⟩ := exists_partTexts accepted
  obtain ⟨joint, readAll, same⟩ := read_joined partTexts
  exact ⟨instruments, joint, readEach, readAll, same.trans alike.symm⟩

end Partbook.Grammar
