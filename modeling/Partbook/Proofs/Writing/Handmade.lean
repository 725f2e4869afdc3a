import Partbook.Element.Checked
import Partbook.Proofs.Form.Projection
import Partbook.Proofs.Writing.Music

/-!
Notes made by hand. What the constructors accept as the digits of a number are all characters that
stand for a digit, superscripts among them; what is read and what has a value are decimal digits
only. Notes with decimal digits are notes of the language, and no others are.
-/
namespace Partbook

open Text Source Element Grammar

/-! ## Digits -/

namespace Text

theorem isBlank_of_isDigit {c : Char} (digit : isDigit c) : isBlank c = false := by
  have apart : ∀ range ∈ otherDigitRanges, ∀ blanks ∈ blankRanges,
      range.2 < blanks.1 ∨ blanks.2 < range.1 := by
    decide +kernel
  simp only [isDigit, Bool.or_eq_true] at digit
  rcases digit with decimal | other
  · exact isBlank_of_isDecimal decimal
  · apply Bool.eq_false_iff.mpr
    intro blank
    obtain ⟨blanks, isBlanks, inBlanks⟩ := List.any_eq_true.mp blank
    obtain ⟨range, isRange, inRange⟩ := List.any_eq_true.mp other
    simp only [Bool.and_eq_true, decide_eq_true_eq] at inBlanks inRange
    rcases apart range isRange blanks isBlanks with less | less <;> omega

theorem isDecimal_of_int? {text : String} (digits : ∀ c ∈ text.toList, isDigit c)
    (value : (int? text).isSome) : ∀ c ∈ text.toList, isDecimal c := by
  have whole : trim isMargin text.toList = text.toList :=
    trim_eq_self fun c member => by simp [isMargin, isBlank_of_isDigit (digits c member)]
  have other (sign : Char) (no : isDigit sign = false) : ∀ c ∈ text.toList, c ≠ sign := by
    rintro c member rfl
    rw [digits c member] at no
    cases no
  have unsigned : ∀ c ∈ text.toList.head?, c ≠ '-' ∧ c ≠ '+' := fun c first =>
    ⟨other '-' (by decide) c (List.mem_of_mem_head? first),
      other '+' (by decide) c (List.mem_of_mem_head? first)⟩
  have plain := other '_' (by decide)
  rw [int?, whole, intOfChars?_unsigned unsigned, Option.isSome_map] at value
  obtain ⟨n, found⟩ := Option.isSome_iff_exists.mp value
  generalize text.toList = chars at plain found ⊢
  obtain ⟨groups⟩ := natOfChars?_eq_some_iff.mp found
  rename_i first others
  cases others with
  | nil => simpa using (groups first List.mem_cons_self).decimal
  | cons group others => exact absurd rfl (plain '_' (by simp))

end Text

/-! ## Heads -/

theorem Element.checked_ok_iff {kind : TextKind} {head : Datum} {children : List Element}
    {element : Element} : checked kind head children = .ok element ↔
      kind.accepts head ∧ .node (.text kind head) {} children = element := by
  cases accepted : kind.accepts head <;> simp [checked, accepted]

theorem Datum.isTextWith_iff {p : String → Bool} {datum : Datum} :
    datum.isTextWith p ↔ ∃ s, datum = .text s ∧ p s := by
  cases datum <;> simp [isTextWith]

theorem exists_char {known : List String} {p : Char → Bool}
    (each : ∀ text ∈ known, ∃ c, p c ∧ text = String.ofList [c]) {head : Datum}
    (accepted : head.isTextWith (known.contains ·)) :
    ∃ c, p c ∧ head = .text (String.ofList [c]) := by
  obtain ⟨s, rfl, found⟩ := Datum.isTextWith_iff.mp accepted
  obtain ⟨c, holds, rfl⟩ := each s (by simpa using found)
  exact ⟨c, holds, rfl⟩

theorem exists_pitch {head : Datum} (accepted : TextKind.pitch.accepts head) :
    ∃ c, isPitch c ∧ head = .text (String.ofList [c]) := by
  refine exists_char ?_ accepted
  simp only [List.forall_mem_cons, List.not_mem_nil, false_implies, implies_true, and_true]
  exact ⟨⟨'a', by decide, rfl⟩, ⟨'b', by decide, rfl⟩, ⟨'c', by decide, rfl⟩, ⟨'d', by decide, rfl⟩,
    ⟨'e', by decide, rfl⟩, ⟨'f', by decide, rfl⟩, ⟨'g', by decide, rfl⟩⟩

theorem exists_accidental {head : Datum} (accepted : TextKind.accidental.accepts head) :
    ∃ c, isAccidental c ∧ head = .text (String.ofList [c]) := by
  refine exists_char ?_ accepted
  simp only [List.forall_mem_cons, List.not_mem_nil, false_implies, implies_true, and_true]
  exact ⟨⟨'+', by decide, rfl⟩, ⟨'-', by decide, rfl⟩, ⟨'_', by decide, rfl⟩⟩

theorem exists_chars {p : Char → Bool} {head : Datum}
    (accepted : head.isTextWith fun text => text != "" && text.toList.all p) :
    ∃ chars, chars ≠ [] ∧ (∀ c ∈ chars, p c) ∧ head = .text (String.ofList chars) := by
  obtain ⟨s, rfl, all⟩ := Datum.isTextWith_iff.mp accepted
  simp only [Bool.and_eq_true, bne_iff_ne, List.all_eq_true] at all
  exact ⟨s.toList, by simpa using all.1, all.2, by rw [String.ofList_toList]⟩

/-! ## Making notes -/

def checkedAll (kind : TextKind) : List Datum → Except MakeError (List Element)
  | [] => .ok []
  | head :: heads => do return (← checked kind head []) :: (← checkedAll kind heads)

structure LengthHeads where
  number : Datum
  dots : Option Datum

def LengthHeads.make (heads : LengthHeads) : Except MakeError Element := do
  let number ← checked .number heads.number []
  let dots ← checkedAll .dots heads.dots.toList
  return .plain .noteLength (number :: dots)

def tiedLengths : List LengthHeads → Except MakeError (List Element)
  | [] => .ok []
  | heads :: lengths => do
    let length ← heads.make
    return .plain .tie [] :: length :: (← tiedLengths lengths)

structure DurationHeads where
  first : LengthHeads
  further : List LengthHeads
  slurred : Bool

def DurationHeads.lengths (heads : DurationHeads) : List LengthHeads := heads.first :: heads.further

def DurationHeads.make (heads : DurationHeads) : Except MakeError Element := do
  let first ← heads.first.make
  let further ← tiedLengths heads.further
  let slur := if heads.slurred then [Element.plain .slur []] else []
  return .plain .duration (first :: further ++ slur)

structure NoteHeads where
  pitch : Datum
  accidentals : List Datum
  duration : Option DurationHeads

namespace NoteHeads

def durations (heads : NoteHeads) : Except MakeError (List Element) :=
  match heads.duration with
  | none => .ok []
  | some duration => return [← duration.make]

def make (heads : NoteHeads) : Except MakeError Element := do
  let accidentals ← checkedAll .accidental heads.accidentals
  let pitch ← checked .pitch heads.pitch accidentals
  return .plain .note (pitch :: (← heads.durations))

def lengths (heads : NoteHeads) : List LengthHeads :=
  heads.duration.toList.flatMap DurationHeads.lengths

end NoteHeads

/-! ## Note lengths -/

namespace LengthHeads

def Decimal (heads : LengthHeads) : Prop :=
  heads.number.isTextWith fun text => text.toList.all isDecimal

structure Spells (heads : LengthHeads) (digits dots : List Char) : Prop where
  nonempty : digits ≠ []
  digit : ∀ c ∈ digits, isDigit c
  dotted : ∀ c ∈ dots, c = '.'
  number : heads.number = .text (String.ofList digits)

theorem spells_of_make {heads : LengthHeads} {length : Element} (made : heads.make = .ok length) :
    ∃ digits dots, heads.Spells digits dots ∧ length = noteLength digits dots := by
  simp only [make, bind_eq_ok, pure_eq_ok, checked_ok_iff] at made
  obtain ⟨_, ⟨accepted, rfl⟩, rest, behind, rfl⟩ := made
  obtain ⟨digits, nonempty, all, number⟩ := exists_chars accepted
  rw [number]
  cases given : heads.dots with
  | none =>
    rw [given] at behind
    cases behind
    exact ⟨digits, [], ⟨nonempty, all, by simp, number⟩, rfl⟩
  | some head =>
    rw [given] at behind
    simp only [Option.toList, checkedAll, bind_eq_ok, pure_eq_ok, checked_ok_iff] at behind
    obtain ⟨_, ⟨accepted, rfl⟩, _, ⟨⟩, rfl⟩ := behind
    obtain ⟨dots, several, dotted, rfl⟩ := exists_chars accepted
    refine ⟨digits, dots, ⟨nonempty, all, by simpa using dotted, number⟩, ?_⟩
    simp only [noteLength, if_neg several]
    rfl

variable {heads : LengthHeads} {digits dots : List Char}

theorem Spells.decimal_iff (spells : heads.Spells digits dots) :
    heads.Decimal ↔ ∀ c ∈ digits, isDecimal c := by
  simp [Decimal, spells.number, Datum.isTextWith]

theorem Spells.decimal_of_form (spells : heads.Spells digits dots) {form : Form}
    (has : Form.ofElement (noteLength digits dots) = .ok form) : heads.Decimal := by
  simp only [noteLength, Element.plain, Form.ofElement, Form.ofElements, bind_eq_ok] at has
  obtain ⟨_, ⟨number, value, _⟩, _⟩ := has
  simp only [leaf, Element.text, Form.ofElement, Form.numberOf] at value
  have numeral : (int? (String.ofList digits)).isSome := by
    cases found : int? (String.ofList digits) with
    | none =>
      rw [found] at value
      cases value
    | some n => rfl
  have decimal := isDecimal_of_int? (by simpa using spells.digit) numeral
  exact spells.decimal_iff.mpr (by simpa using decimal)

theorem Spells.marks (spells : heads.Spells digits dots) (decimal : heads.Decimal)
    {rest later : List Char} {marks : List Element} (noDigit : Apart isDecimal rest)
    (noDot : Apart (· == '.') rest) (more : Marks rest marks later) :
    Marks ((noteLength digits dots).written ++ rest) (noteLength digits dots :: marks) later := by
  rw [written_noteLength, List.append_assoc]
  refine .length ⟨spells.nonempty, spells.decimal_iff.mp decimal, ?_⟩ spells.dotted noDot more
  cases dots with
  | nil => exact noDigit
  | cons c dots =>
    obtain rfl := spells.dotted c List.mem_cons_self
    rintro _ ⟨⟩
    rfl

theorem Spells.starts (spells : heads.Spells digits dots) (decimal : heads.Decimal)
    (rest : List Char) : ¬ Apart isDecimal ((noteLength digits dots).written ++ rest) := by
  obtain ⟨c, more, rfl⟩ := List.exists_cons_of_ne_nil spells.nonempty
  rw [written_noteLength]
  intro apart
  have digit := spells.decimal_iff.mp decimal c List.mem_cons_self
  rw [apart c rfl] at digit
  cases digit

end LengthHeads

/-! ## Durations -/

theorem Form.ofElements_left {elements more : List Element} {forms : List Form}
    (has : ofElements (elements ++ more) = .ok forms) :
    ∃ forms, ofElements elements = .ok forms := by
  induction elements generalizing forms with
  | nil => exact ⟨[], rfl⟩
  | cons element elements ih =>
    simp only [List.cons_append, ofElements, bind_eq_ok] at has
    obtain ⟨form, here, _, later, _⟩ := has
    obtain ⟨rest, others⟩ := ih later
    exact ⟨form :: rest, by rw [ofElements, here, others]; rfl⟩

theorem decimal_of_tied {lengths : List LengthHeads} {elements : List Element} {forms : List Form}
    (made : tiedLengths lengths = .ok elements) (has : Form.ofElements elements = .ok forms) :
    ∀ heads ∈ lengths, heads.Decimal := by
  induction lengths generalizing elements forms with
  | nil => simp
  | cons heads lengths ih =>
    simp only [tiedLengths, bind_eq_ok, pure_eq_ok] at made
    obtain ⟨length, first, others, made, rfl⟩ := made
    obtain ⟨digits, dots, spells, rfl⟩ := LengthHeads.spells_of_make first
    simp only [Form.ofElements, bind_eq_ok] at has
    obtain ⟨_, _, _, ⟨form, here, _, later, _⟩, _⟩ := has
    exact List.forall_mem_cons.mpr ⟨spells.decimal_of_form here, ih made later⟩

/-- Tied lengths begin with no digit and no dot, so another length can stand before them. -/
theorem marks_of_tied {lengths : List LengthHeads} {elements : List Element}
    (made : tiedLengths lengths = .ok elements) (decimal : ∀ heads ∈ lengths, heads.Decimal)
    {more : List Char} (ended : Ended more) :
    Marks (elements.flatMap written ++ more) elements more ∧
      Apart isDecimal (elements.flatMap written ++ more) ∧
      Apart (· == '.') (elements.flatMap written ++ more) := by
  induction lengths generalizing elements with
  | nil =>
    cases made
    exact ⟨.done ended.noLength ended.noTie, ended.noLength, ended.noDot⟩
  | cons heads lengths ih =>
    simp only [tiedLengths, bind_eq_ok, pure_eq_ok] at made
    obtain ⟨length, first, others, made, rfl⟩ := made
    obtain ⟨digits, dots, spells, rfl⟩ := LengthHeads.spells_of_make first
    rw [List.forall_mem_cons] at decimal
    obtain ⟨later, noDigit, noDot⟩ := ih made decimal.2
    rw [List.flatMap_cons, List.flatMap_cons, written_tilde (.inl rfl), List.append_assoc,
      List.append_assoc]
    refine ⟨.tie (spells.starts decimal.1 _) (spells.marks decimal.1 noDigit noDot later), ?_, ?_⟩
    · rintro _ ⟨⟩
      rfl
    · rintro _ ⟨⟩
      rfl

namespace DurationHeads

variable {heads : DurationHeads} {duration : Element}

theorem decimal_of_form (made : heads.make = .ok duration) {form : Form}
    (has : Form.ofElement duration = .ok form) : ∀ length ∈ heads.lengths, length.Decimal := by
  simp only [make, bind_eq_ok, pure_eq_ok] at made
  obtain ⟨first, madeFirst, further, madeFurther, rfl⟩ := made
  obtain ⟨digits, dots, spells, rfl⟩ := LengthHeads.spells_of_make madeFirst
  simp only [Element.plain, Form.ofElement, Form.ofElements, List.cons_append, bind_eq_ok] at has
  obtain ⟨_, ⟨form, here, _, later, _⟩, _⟩ := has
  obtain ⟨forms, others⟩ := Form.ofElements_left later
  exact List.forall_mem_cons.mpr ⟨spells.decimal_of_form here, decimal_of_tied madeFurther others⟩

theorem lasts_of_make (made : heads.make = .ok duration)
    (decimal : ∀ length ∈ heads.lengths, length.Decimal) {more : List Char} (clear : Clear more) :
    Lasts (duration.written ++ more) [duration] more := by
  simp only [make, bind_eq_ok, pure_eq_ok] at made
  obtain ⟨first, madeFirst, further, madeFurther, rfl⟩ := made
  obtain ⟨digits, dots, spells, rfl⟩ := LengthHeads.spells_of_make madeFirst
  rw [lengths, List.forall_mem_cons] at decimal
  -- the lengths end before the slur or, if there is none, before what follows the note
  have marks {rest : List Char} (ended : Ended rest) :
      Marks ((noteLength digits dots :: further).flatMap written ++ rest)
        (noteLength digits dots :: further) rest := by
    obtain ⟨later, noDigit, noDot⟩ := marks_of_tied madeFurther decimal.2 ended
    rw [List.flatMap_cons, List.append_assoc]
    exact spells.marks decimal.1 noDigit noDot later
  rw [written_duration]
  cases heads.slurred with
  | false =>
    rw [if_neg (by decide), List.append_nil]
    exact .said (by simp) (marks clear.ended)
  | true =>
    rw [if_pos rfl, List.flatMap_append, List.flatMap_singleton, written_tilde (.inr rfl),
      List.append_assoc]
    exact .slurred (marks clear.ended_tilde)

end DurationHeads

/-! ## Notes -/

theorem exists_accidentals {heads : List Datum} {elements : List Element}
    (made : checkedAll .accidental heads = .ok elements) :
    ∃ signs : List Char, (∀ c ∈ signs, isAccidental c) ∧
      elements = signs.map fun c => leaf .accidental [c] := by
  induction heads generalizing elements with
  | nil =>
    cases made
    exact ⟨[], by simp, rfl⟩
  | cons head heads ih =>
    simp only [checkedAll, bind_eq_ok, pure_eq_ok, checked_ok_iff] at made
    obtain ⟨_, ⟨accepted, rfl⟩, others, made, rfl⟩ := made
    obtain ⟨c, sign, rfl⟩ := exists_accidental accepted
    obtain ⟨signs, later, rfl⟩ := ih made
    exact ⟨c :: signs, List.forall_mem_cons.mpr ⟨sign, later⟩, rfl⟩

theorem Grammar.IsEvent.write_readEvent {tree : Element} (isEvent : IsEvent tree) :
    tree.isSpelled ∧ ∃ text, tree.write = .ok text ∧
      ∀ keep, ∃ read, readEvent keep text = .ok (some read) ∧ read.same tree := by
  obtain ⟨_, _, event⟩ := isEvent
  have again : Event (tree.written ++ []) tree [] := event.again nofun
  rw [List.append_nil] at again
  have music : Music (String.ofList tree.written) [tree] :=
    ⟨[.event tree], by rw [String.toList_ofList]; exact .event again .done, .event .done⟩
  obtain ⟨spelled, reads⟩ := music.exists_readEvent
  refine ⟨spelled, _, write_of_isSpelled spelled, fun keep => ?_⟩
  obtain ⟨read, isRead, same⟩ := reads keep
  refine ⟨read, isRead, same_of_forgetOrigins ?_⟩
  rw [← same, forgetOrigins_idem]

namespace NoteHeads

variable {heads : NoteHeads} {note : Element}

theorem decimal_of_form (made : heads.make = .ok note) {form : Form}
    (has : Form.ofElement note = .ok form) : ∀ length ∈ heads.lengths, length.Decimal := by
  simp only [make, bind_eq_ok, pure_eq_ok] at made
  obtain ⟨accidentals, -, pitch, -, durations, made, rfl⟩ := made
  cases given : heads.duration with
  | none => simp [lengths, given]
  | some duration =>
    simp only [NoteHeads.durations, given, bind_eq_ok, pure_eq_ok] at made
    obtain ⟨lasting, made, rfl⟩ := made
    simp only [Element.plain, Form.ofElement, Form.ofElements, bind_eq_ok] at has
    obtain ⟨_, ⟨_, -, _, ⟨_, here, -⟩, -⟩, -⟩ := has
    simpa [lengths, given] using DurationHeads.decimal_of_form made here

theorem isEvent_of_make (made : heads.make = .ok note)
    (decimal : ∀ length ∈ heads.lengths, length.Decimal) : IsEvent note := by
  simp only [make, bind_eq_ok, pure_eq_ok, checked_ok_iff] at made
  obtain ⟨_, madeAccidentals, _, ⟨accepted, rfl⟩, durations, made, rfl⟩ := made
  obtain ⟨accidentals, signs, rfl⟩ := exists_accidentals madeAccidentals
  obtain ⟨c, pitch, isC⟩ := exists_pitch accepted
  rw [isC]
  have lasts : ∃ text, Lasts text durations [] := by
    cases given : heads.duration with
    | none =>
      simp only [NoteHeads.durations, given] at made
      cases made
      exact ⟨_, .unsaid⟩
    | some duration =>
      simp only [NoteHeads.durations, given, bind_eq_ok, pure_eq_ok] at made
      obtain ⟨lasting, made, rfl⟩ := made
      exact ⟨_, DurationHeads.lasts_of_make made (by simpa [lengths, given] using decimal) nofun⟩
  obtain ⟨text, lasts⟩ := lasts
  exact ⟨_, _, .note pitch signs lasts⟩

/-- A note made by hand is a note of the language, so it has a form and can be written and read
again, if and only if its numbers are spelled in decimal digits. -/
theorem in_language_iff (made : heads.make = .ok note) :
    ((∃ form, Form.ofElement note = .ok form) ∧ ∃ text, note.write = .ok text ∧
      ∀ keep, ∃ read, readEvent keep text = .ok (some read) ∧ read.same note) ↔
        ∀ length ∈ heads.lengths, length.Decimal := by
  constructor
  · rintro ⟨⟨form, has⟩, -⟩
    exact decimal_of_form made has
  · intro decimal
    obtain ⟨spelled, text, writes, reads⟩ := (isEvent_of_make made decimal).write_readEvent
    exact ⟨Form.ofElement_of_isSpelled spelled, text, writes, reads⟩

def slurred : NoteHeads where
  pitch := .text "c"
  accidentals := [.text "-", .text "+"]
  duration := some
    { first := { number := .text "04", dots := some (.text "..") }
      further := [{ number := .text "٣", dots := none }]
      slurred := true }

theorem slurred_in_language : ∃ note, slurred.make = .ok note ∧
    (∃ form, Form.ofElement note = .ok form) ∧ note.write = .ok "c-+04..~٣~" ∧
      ∃ read, readEvent true "c-+04..~٣~" = .ok (some read) ∧ read.same note := by
  have writes : (slurred.make.toOption.bind fun note => note.write.toOption) =
      some "c-+04..~٣~" := by
    decide +kernel
  obtain ⟨note, made, written⟩ := Option.bind_eq_some_iff.mp writes
  rw [toOption_eq_some] at made written
  have decimal : ∀ length ∈ slurred.lengths, length.Decimal := by
    rintro length member
    simp only [lengths, slurred, Option.toList, List.flatMap_singleton, DurationHeads.lengths,
      List.mem_cons, List.not_mem_nil, or_false] at member
    rcases member with rfl | rfl <;> unfold LengthHeads.Decimal <;> decide +kernel
  obtain ⟨form, text, writes, reads⟩ := (in_language_iff made).mpr decimal
  cases written.symm.trans writes
  exact ⟨note, made, form, written, reads true⟩

def superscript : NoteHeads where
  pitch := .text "c"
  accidentals := []
  duration := some
    { first := { number := .text "²", dots := none }, further := [], slurred := false }

theorem superscript_not_in_language : ∃ note, superscript.make = .ok note ∧
    Form.ofElement note = .error (.badNumeral "²") ∧ note.write = .ok "c²" ∧
      ∃ error, readEvent false "c²" = .error error := by
  have failures : (superscript.make.toOption.bind fun note =>
      match Form.ofElement note with
      | .ok _ => none
      | .error error => note.write.toOption.map (error, ·)) =
        some (.badNumeral "²", "c²") := by
    decide +kernel
  have refused : (readEvent false "c²").toBool = false := by decide +kernel
  obtain ⟨note, made, fails⟩ := Option.bind_eq_some_iff.mp failures
  cases form : Form.ofElement note with
  | ok form =>
    rw [form] at fails
    cases fails
  | error error =>
    rw [form] at fails
    obtain ⟨text, written, same⟩ := Option.map_eq_some_iff.mp fails
    cases same
    rw [toOption_eq_some] at made written
    refine ⟨note, made, form, written, ?_⟩
    cases read : readEvent false "c²" with
    | ok event =>
      rw [read] at refused
      cases refused
    | error error => exact ⟨error, rfl⟩

end NoteHeads

end Partbook
