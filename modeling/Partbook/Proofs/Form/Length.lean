import Mathlib.Algebra.BigOperators.Group.Finset.Basic
import Mathlib.Tactic.Ring
import Partbook.Form.Length
import Partbook.Proofs.Element.Inner
import Partbook.Proofs.Form.Restored
import Partbook.Proofs.Scripted
import Partbook.Proofs.Writing.Music

/-!
The length of a note in beats. All ways to it agree: by the form of the note length or of the whole
duration, by its notation, and by number. As for the notation, more is taken for one than ought to
be.
-/
namespace Partbook

open Text Source Element Grammar

/-! ## Numbers of beats -/

/-- Each dot adds half of what was added before it. -/
theorem beatsOf_eq_sum (number dots : Nat) :
    beatsOf number dots = ∑ i ∈ Finset.range (dots + 1), 4 / (number : Rat) / 2 ^ i := by
  induction dots with
  | zero =>
    rw [beatsOf, Finset.sum_range_one]
    ring
  | succ dots ih =>
    rw [Finset.sum_range_succ, ← ih, beatsOf, beatsOf]
    ring

theorem checkedBeats_natCast (number dots : Nat) : checkedBeats number dots =
    if number = 0 then .error (.notPositive "0") else .ok (beatsOf number dots) := by
  cases number with
  | zero => rfl
  | succ number =>
    rw [checkedBeats, if_neg (by omega), if_neg (by omega), if_neg (by omega)]
    rfl

theorem checkedBeats_ok_iff {number : Int} {dots : Nat} {beats : Rat} :
    checkedBeats number dots = .ok beats ↔
      ∃ n : Nat, 0 < n ∧ number = n ∧ beats = beatsOf n dots := by
  constructor
  · intro checked
    rw [checkedBeats] at checked
    split at checked
    · cases checked
    · rename_i positive
      rw [if_neg (by omega)] at checked
      cases checked
      exact ⟨number.toNat, by omega, by omega, rfl⟩
  · rintro ⟨n, positive, rfl, rfl⟩
    rw [checkedBeats_natCast, if_neg positive.ne']

theorem noteLength_natCast (number dots : Nat) :
    Form.noteLength [.atom (.int number), .atom (.int dots)] = checkedBeats number dots := by
  cases number with
  | zero => rfl
  | succ number =>
    have positive : ¬((number + 1 : Nat) : Int) ≤ 0 := by omega
    simp only [Form.noteLength, Form.noteLength.measure, Form.int?, Datum.int?, if_neg positive]

/-! ## Notation -/

def isGap (c : Char) : Bool := c == ' ' || c == '\t'

def isEdge (c : Char) : Bool := c == ' ' || c == '\t' || c == '.'

/-- The text, without the spaces and tabs around it, is a number in decimal digits and then dots. -/
def Notates (text : List Char) (number dots : Nat) : Prop :=
  ∃ digits, IsGroup digits ∧ trim isGap text = digits ++ List.replicate dots '.' ∧
    valueOf digits = number

/-- What is taken for the notation of a number: groups of digits, perhaps behind a plus sign, any
blanks around them, and around these any spaces, tabs and dots. -/
inductive Taken : List Char → Nat → Prop
  | intro {front before sign digits after back : List Char} {number : Nat}
      (edges : (∀ c ∈ front, isEdge c) ∧ ∀ c ∈ back, isEdge c)
      (margins : (∀ c ∈ before, isMargin c) ∧ ∀ c ∈ after, isMargin c)
      (signed : sign = [] ∨ sign = ['+']) (grouped : Grouped digits number) :
      Taken (front ++ (before ++ (sign ++ digits ++ after) ++ back)) number

theorem isEdge_of_isDecimal {c : Char} (digit : isDecimal c) : isEdge c = false := by
  have other (sign : Char) (no : isDecimal sign = false) : c ≠ sign := by
    rintro rfl
    rw [digit] at no
    cases no
  simp [isEdge, other ' ' (by decide), other '\t' (by decide), other '.' (by decide)]

theorem count_dot {digits : List Char} (group : IsGroup digits) : digits.count '.' = 0 :=
  List.count_eq_zero.mpr fun member => absurd (group.decimal '.' member) (by decide)

theorem isEdge_of_isGap {c : Char} (gap : isGap c) : isEdge c := by
  rw [isEdge]
  exact Bool.or_eq_true_iff.mpr (.inl gap)

theorem firm_number {sign digits : List Char} {number : Nat} (signed : sign = [] ∨ sign = ['+'])
    (grouped : Grouped digits number) {p : Char → Bool} (noPlus : p '+' = false)
    (noDigit : ∀ c, isDecimal c → p c = false) : Firm p (sign ++ digits) := by
  have firm := grouped.firm noDigit
  rcases signed with rfl | rfl
  · exact firm
  · obtain ⟨front, c, ends, other⟩ := firm.last
    exact ⟨⟨'+', digits, rfl, noPlus⟩, ⟨'+' :: front, c, by rw [ends]; rfl, other⟩⟩

theorem int?_eq_some_iff {text : List Char} {number : Nat} (positive : 0 < number) :
    int? (String.ofList (trim isEdge text)) = some (number : Int) ↔ Taken text number := by
  rw [int?, String.toList_ofList, intOfChars?_pos_iff positive]
  constructor
  · rintro ⟨sign, digits, signed, core, grouped⟩
    obtain ⟨front, back, edge, edge', outer⟩ := exists_trim isEdge text
    obtain ⟨before, after, margin, margin', inner⟩ := exists_trim isMargin (trim isEdge text)
    rw [outer, inner, core]
    exact .intro ⟨edge, edge'⟩ ⟨margin, margin'⟩ signed grouped
  · rintro ⟨edges, margins, signed, grouped⟩
    rename_i front before sign digits after back
    have outer : trim isEdge (front ++ (before ++ (sign ++ digits ++ after) ++ back)) =
        before.dropWhile isEdge ++ (sign ++ digits ++ after.rdropWhile isEdge) := by
      have core := trim_append
        (firm_number signed grouped (by decide) fun _ => isEdge_of_isDecimal)
        (front ++ before) (after ++ back)
      rw [List.dropWhile_append_of_pos edges.1, List.rdropWhile, List.reverse_append,
        List.dropWhile_append_of_pos (by simpa using edges.2)] at core
      rw [← List.rdropWhile] at core
      rw [← core]
      simp
    rw [outer]
    refine ⟨sign, digits, signed, trim_around
      (firm_number signed grouped (by decide) fun _ => isMargin_of_isDecimal)
      (fun c member => ?_) (fun c member => ?_), grouped⟩
    · exact margins.1 c ((List.dropWhile_suffix isEdge).subset member)
    · exact margins.2 c ((List.rdropWhile_prefix isEdge _).subset member)

theorem Taken.unique {text : List Char} {number number' : Nat} (taken : Taken text number)
    (positive : 0 < number) (taken' : Taken text number') (positive' : 0 < number') :
    number = number' := by
  have read := (int?_eq_some_iff positive).mpr taken
  rw [(int?_eq_some_iff positive').mpr taken', Option.some_inj] at read
  exact (Int.ofNat_inj.mp read).symm

theorem beatsOfText_of_int? {text : String} {number : Int}
    (read : int? (String.ofList (trim isEdge text.toList)) = some number) :
    beatsOfText text = checkedBeats number (text.toList.count '.') := by
  have edge : (fun c : Char => c == ' ' || c == '\t' || c == '.') = isEdge := rfl
  simp only [beatsOfText, edge, read]

theorem beatsOfText_of_none {text : String}
    (none : int? (String.ofList (trim isEdge text.toList)) = none) :
    beatsOfText text = .error (.badNumeral (String.ofList (trim isEdge text.toList))) := by
  have edge : (fun c : Char => c == ' ' || c == '\t' || c == '.') = isEdge := rfl
  simp only [beatsOfText, edge, none]

theorem beatsOfText_ok_iff {text : String} {beats : Rat} : beatsOfText text = .ok beats ↔
    ∃ number, 0 < number ∧ Taken text.toList number ∧
      beats = beatsOf number (text.toList.count '.') := by
  constructor
  · intro found
    cases read : int? (String.ofList (trim isEdge text.toList)) with
    | none =>
      rw [beatsOfText_of_none read] at found
      cases found
    | some n =>
      rw [beatsOfText_of_int? read, checkedBeats_ok_iff] at found
      obtain ⟨number, positive, rfl, rfl⟩ := found
      exact ⟨number, positive, (int?_eq_some_iff positive).mp read, rfl⟩
  · rintro ⟨number, positive, taken, rfl⟩
    rw [beatsOfText_of_int? ((int?_eq_some_iff positive).mpr taken)]
    exact checkedBeats_ok_iff.mpr ⟨number, positive, rfl, rfl⟩

theorem beatsOfText_error {text : String} {error : LengthError}
    (failed : beatsOfText text = .error error) :
    (∃ number, error = .notPositive number) ∨ ∃ text, error = .badNumeral text := by
  cases read : int? (String.ofList (trim isEdge text.toList)) with
  | none =>
    rw [beatsOfText_of_none read] at failed
    cases failed
    exact .inr ⟨_, rfl⟩
  | some n =>
    have noneLess : ¬(text.toList.count '.' : Int) < 0 := by omega
    rw [beatsOfText_of_int? read, checkedBeats, if_neg noneLess] at failed
    split at failed
    · cases failed
      exact .inl ⟨_, rfl⟩
    · cases failed

theorem Notates.taken {text : List Char} {number dots : Nat} (notates : Notates text number dots) :
    Taken text number ∧ text.count '.' = dots := by
  obtain ⟨digits, group, core, rfl⟩ := notates
  obtain ⟨front, back, gap, gap', whole⟩ := exists_trim isGap text
  have noDot {gaps : List Char} (all : ∀ c ∈ gaps, isGap c) : gaps.count '.' = 0 :=
    List.count_eq_zero.mpr fun member => absurd (all '.' member) (by decide)
  rw [whole, core]
  constructor
  · have taken : Taken (front ++ ([] ++ ([] ++ digits ++ []) ++
        (List.replicate dots '.' ++ back))) (valueOf digits) := by
      refine .intro ⟨fun c member => isEdge_of_isGap (gap c member), fun c member => ?_⟩
        ⟨nofun, nofun⟩ (.inl rfl) (.single group)
      rcases List.mem_append.mp member with dot | member
      · rw [List.eq_of_mem_replicate dot]
        rfl
      · exact isEdge_of_isGap (gap' c member)
    simpa using taken
  · rw [List.count_append, List.count_append, List.count_append, noDot gap, noDot gap',
      count_dot group, List.count_replicate_self]
    omega

/-- The beats of a text are those of the note length that it notates if whatever is taken for a
note length is notated by the text. -/
theorem beatsOfText_eq_noteLength_iff (text : String) :
    (∀ beats, beatsOfText text = .ok beats ↔ ∃ number, 0 < number ∧ Taken text.toList number ∧
      Form.noteLength [.atom (.int number), .atom (.int (text.toList.count '.'))] = .ok beats) ∧
    ((∀ beats, beatsOfText text = .ok beats ↔
        ∃ number dots : Nat, 0 < number ∧ Notates text.toList number dots ∧
          Form.noteLength [.atom (.int number), .atom (.int dots)] = .ok beats) ↔
      ∀ number, 0 < number → Taken text.toList number →
        ∃ dots, Notates text.toList number dots) ∧
    ∀ error, beatsOfText text = .error error →
      (∃ number, error = .notPositive number) ∨ ∃ text, error = .badNumeral text := by
  have length {number : Nat} (positive : 0 < number) (dots : Nat) (beats : Rat) :
      Form.noteLength [.atom (.int number), .atom (.int dots)] = .ok beats ↔
        beats = beatsOf number dots := by
    rw [noteLength_natCast, checkedBeats_natCast, if_neg positive.ne', Except.ok.injEq, eq_comm]
  have taken (beats : Rat) : beatsOfText text = .ok beats ↔
      ∃ number, 0 < number ∧ Taken text.toList number ∧
        Form.noteLength [.atom (.int number), .atom (.int (text.toList.count '.'))] =
          .ok beats := by
    rw [beatsOfText_ok_iff]
    constructor
    · rintro ⟨number, positive, taken, same⟩
      exact ⟨number, positive, taken, (length positive _ _).mpr same⟩
    · rintro ⟨number, positive, taken, same⟩
      exact ⟨number, positive, taken, (length positive _ _).mp same⟩
  refine ⟨taken, ⟨fun exact number positive found => ?_, fun notated beats => ?_⟩,
    fun _ => beatsOfText_error⟩
  · have some := (taken _).mpr ⟨number, positive, found, (length positive _ _).mpr rfl⟩
    obtain ⟨number', dots, positive', notates, -⟩ := (exact _).mp some
    rw [found.unique positive notates.taken.1 positive']
    exact ⟨dots, notates⟩
  · rw [taken]
    constructor
    · rintro ⟨number, positive, found, same⟩
      obtain ⟨dots, notates⟩ := notated number positive found
      rw [notates.taken.2] at same
      exact ⟨number, dots, positive, notates, same⟩
    · rintro ⟨number, dots, positive, notates, same⟩
      refine ⟨number, positive, notates.taken.1, ?_⟩
      rw [notates.taken.2]
      exact same

theorem beatsOfText_blanks_around : Notates " 8..\t".toList 8 2 ∧
    beatsOfText " 8..\t" = .ok (7 / 8) := by
  have notates : Notates " 8..\t".toList 8 2 :=
    ⟨['8'], ⟨List.cons_ne_nil _ _, List.all_eq_true.mp rfl⟩, by decide, by decide⟩
  have exact := (beatsOfText_eq_noteLength_iff " 8..\t").2.1.mpr fun number positive taken => by
    rw [taken.unique positive notates.taken.1 (by decide)]
    exact ⟨2, notates⟩
  have value : beatsOf 8 2 = 7 / 8 := by norm_num [beatsOf]
  refine ⟨notates, (exact _).mpr ⟨8, 2, by decide, notates, ?_⟩⟩
  rw [noteLength_natCast, checkedBeats_natCast, if_neg (by decide), value]

/-- A dot before the number is counted like one behind it. -/
theorem beatsOfText_dot_before : beatsOfText ".4" = .ok (3 / 2) ∧
    ¬ ∃ number dots, 0 < number ∧ Notates ".4".toList number dots := by
  have read : int? (String.ofList (trim isEdge ".4".toList)) = some 4 := by decide
  have value : beatsOf 4 1 = 3 / 2 := by norm_num [beatsOf]
  constructor
  · rw [beatsOfText_of_int? read]
    exact congrArg _ value
  · rintro ⟨number, dots, -, digits, group, core, -⟩
    have text : trim isGap ".4".toList = ['.', '4'] := by decide
    obtain ⟨c, rest, rfl⟩ := List.exists_cons_of_ne_nil group.nonempty
    rw [text, List.cons_append] at core
    obtain ⟨rfl, -⟩ := List.cons.inj core
    exact absurd (group.decimal '.' List.mem_cons_self) (by decide)

/-! ## Forms -/

namespace Form

theorem tag_noteLength : (Kind.plain .noteLength).tag = "note-length" := by decide

theorem tag_duration : (Kind.plain .duration).tag = "duration" := by decide

theorem beats_noteLength (args : List Form) :
    beats (apply (symbol "note-length") args) = noteLength args := by
  simp [beats]

theorem beats_duration (args : List Form) :
    beats (apply (symbol "duration") args) = durationLength args := by
  simp [beats]

theorem exists_int_of_numberOf {head : Datum} {form : Form} (value : numberOf head = .ok form) :
    ∃ n, form = atom (.int n) := by
  cases head <;> simp only [numberOf] at value <;> split at value <;> cases value <;>
    exact ⟨_, rfl⟩

theorem kind_of_ofElement {element : Element} {args : List Form}
    (form : ofElement element = .ok (apply (symbol "note-length") args)) :
    element.kind = .plain .noteLength := by
  obtain ⟨label, origin, children⟩ := element
  have general (result : ofElement (.node label origin children) = (do
      let args ← ofElements children
      return apply (symbol label.kind.tag) (headArgs label ++ args))) :
      label.kind = .plain .noteLength := by
    simp only [result, bind_eq_ok, pure_eq_ok, Form.apply.injEq, Form.symbol.injEq] at form
    obtain ⟨forms, -, tag, -⟩ := form
    exact Kind.tag_inj (tag.trans tag_noteLength.symm)
  cases label with
  | plain kind =>
    cases kind with
    | node | tie | slur =>
      rw [ofElement] at form
      cases form
    | _ => exact general rfl
  | text kind head =>
    cases kind with
    | number =>
      rw [ofElement] at form
      obtain ⟨n, same⟩ := exists_int_of_numberOf form
      cases same
    | dots =>
      rw [ofElement, countOf] at form
      split at form <;> cases form
    | track =>
      rw [ofElement, Except.ok.injEq, Form.apply.injEq, Form.symbol.injEq] at form
      exact absurd form.1 (by decide)
    | _ => exact general rfl

theorem durationLength_unsupported {components : List Element} {forms : List Form}
    (all : ofElements components = .ok forms)
    (other : ∀ length, length.kind = .plain .noteLength → components ≠ [length]) :
    durationLength forms = .error (.unsupported forms) := by
  unfold durationLength
  split
  · rename_i args
    cases components with
    | nil => cases all
    | cons length more =>
      rw [ofElements] at all
      simp only [bind_eq_ok, pure_eq_ok, List.cons.injEq] at all
      obtain ⟨_, form, _, later, rfl, rfl⟩ := all
      cases more with
      | nil => exact absurd rfl (other length (kind_of_ofElement form))
      | cons second more =>
        rw [ofElements] at later
        simp only [bind_eq_ok, pure_eq_ok, reduceCtorEq, and_false, exists_false] at later
  · rfl
end Form

/-! ## All ways to a length -/

def Element.beats? (element : Element) : Option (Except LengthError Rat) :=
  (Form.ofElement element).toOption.map Form.beats

/-- The beats of a note length by its form, by that of the duration, by what is written of it, by
the notation of its numbers, and by the numbers themselves. -/
def beatsAllWays (duration length : Element) (number dots : Nat) :
    List (Option (Except LengthError Rat)) :=
  [length.beats?, duration.beats?, length.write.toOption.map beatsOfText,
   some (beatsOfText (lengthText (toString number) dots)),
   some (Form.noteLength [.atom (.int number), .atom (.int dots)])]

theorem Element.beats?_forgetOrigins (element : Element) :
    element.forgetOrigins.beats? = element.beats? := by
  rw [beats?, Form.ofElement_forgetOrigins, beats?]

variable {digits : List Char}

theorem beatsOfText_digits (group : IsGroup digits) (dots : Nat) :
    beatsOfText (String.ofList (digits ++ List.replicate dots '.')) =
    checkedBeats (valueOf digits) dots := by
  have core : trim isEdge (digits ++ List.replicate dots '.') = digits := by
    have firm := (Grouped.single group).firm fun c => isEdge_of_isDecimal
    refine @trim_around isEdge [] digits _ firm nofun fun c dot => ?_
    rw [List.eq_of_mem_replicate dot]
    rfl
  have read : int? (String.ofList (trim isEdge
      (String.ofList (digits ++ List.replicate dots '.')).toList)) =
        some (valueOf digits : Int) := by
    rw [String.toList_ofList, core, int?_of_isDecimal group]
  rw [beatsOfText_of_int? read, String.toList_ofList, List.count_append,
    count_dot group, List.count_replicate_self, Nat.zero_add]

theorem noteLength_form (group : IsGroup digits) (dots : Nat) :
    Form.ofElement (noteLength digits (List.replicate dots '.')) =
    .ok (.apply (.symbol "note-length")
      (.atom (.int (valueOf digits)) :: if dots = 0 then [] else [.atom (.int dots)])) := by
  have number : Form.ofElement (leaf .number digits) = .ok (.atom (.int (valueOf digits))) := by
    simp only [leaf, Element.text, Form.ofElement, Form.numberOf, int?_of_isDecimal group]
  rw [Form.ofElement_noteLength number, Form.tag_noteLength]
  simp

theorem noteLength_args (number dots : Nat) : Form.noteLength
    (.atom (.int number) :: if dots = 0 then [] else [.atom (.int dots)]) =
      checkedBeats number dots := by
  rw [← noteLength_natCast]
  split
  · rename_i none
    rw [none]
    rfl
  · rfl

theorem beats?_noteLength (group : IsGroup digits) (dots : Nat) :
    (noteLength digits (List.replicate dots '.')).beats? =
    some (checkedBeats (valueOf digits) dots) := by
  rw [Element.beats?, noteLength_form group]
  simp only [Except.toOption, Option.map_some, Form.beats_noteLength, noteLength_args]

theorem beats?_duration (group : IsGroup digits) (dots : Nat) :
    (Element.plain .duration [noteLength digits (List.replicate dots '.')]).beats? =
      some (checkedBeats (valueOf digits) dots) := by
  have one : Form.ofElements [noteLength digits (List.replicate dots '.')] =
      .ok [.apply (.symbol "note-length")
        (.atom (.int (valueOf digits)) :: if dots = 0 then [] else [.atom (.int dots)])] := by
    rw [Form.ofElements, noteLength_form group]
    rfl
  rw [Element.beats?, Form.ofElement_plain (by decide) one, Form.tag_duration]
  simp only [Except.toOption, Option.map_some, Form.beats_duration, Form.durationLength,
    noteLength_args]

theorem beats?_unsupported {duration : Element} (spelled : duration.isSpelled)
    (kind : duration.kind = .plain .duration)
    (other : ∀ length, length.kind = .plain .noteLength → duration.children ≠ [length]) :
    ∃ components, Form.ofElement duration = .ok (.apply (.symbol "duration") components) ∧
      duration.beats? = some (.error (.unsupported components)) := by
  obtain ⟨label, origin, children⟩ := duration
  obtain rfl : label = .plain .duration := by
    cases label with
    | plain plainKind => exact congrArg _ (Kind.plain.inj kind)
    | text textKind head => cases kind
  obtain ⟨components, all⟩ := Form.ofElements_of_allSpelled
    (allSpelled_iff.mpr (isSpelled_children spelled))
  have form : Form.ofElement (.node (.plain .duration) origin children) =
      .ok (.apply (.symbol "duration") components) := by
    rw [← Form.tag_duration, ← Form.ofElement_forgetOrigins]
    rw [← Form.ofElements_forgetOrigins] at all
    exact Form.ofElement_plain (by decide) all
  refine ⟨components, form, ?_⟩
  rw [Element.beats?, form]
  simp only [Except.toOption, Option.map_some, Form.beats_duration,
    Form.durationLength_unsupported all other]

/-! ## What is read -/

theorem music_noteLength (group : IsGroup digits) (dots : Nat) :
    Music (String.ofList ('c' :: (digits ++ List.replicate dots '.')))
      [note 'c' [] [.plain .duration [noteLength digits (List.replicate dots '.')]]] := by
  have number : Digits digits (List.replicate dots '.' ++ []) := by
    refine ⟨group.nonempty, group.decimal, fun c first => ?_⟩
    rw [List.append_nil] at first
    rw [List.eq_of_mem_replicate (List.mem_of_mem_head? first)]
    decide
  have marks := Marks.length number (fun c => List.eq_of_mem_replicate) nofun
    (.done nofun (fun later same => by cases same))
  have event : Event ('c' :: ([] ++ (digits ++ (List.replicate dots '.' ++ [])))) _ [] :=
    .note (by decide) nofun (.said (List.cons_ne_nil _ _) marks)
  rw [List.append_nil] at event
  refine ⟨_, ?_, .event .done⟩
  rw [String.toList_ofList]
  exact .event event .done

theorem exists_readEvent_noteLength (group : IsGroup digits) (dots : Nat) (keep : Bool) :
    ∃ note pitch duration length,
      readEvent keep (String.ofList ('c' :: (digits ++ List.replicate dots '.'))) =
        .ok (some note) ∧
      note.kind = .plain .note ∧ note.children = [pitch, duration] ∧
      duration.children = [length] ∧
      duration.forgetOrigins = .plain .duration [noteLength digits (List.replicate dots '.')] ∧
      length.forgetOrigins = noteLength digits (List.replicate dots '.') := by
  obtain ⟨note, read, isNote⟩ := (music_noteLength group dots).exists_readEvent.2 keep
  have kind : note.kind = .plain .note := by
    rw [← kind_forgetOrigins, isNote]
    rfl
  have children := children_forgetOrigins note
  rw [isNote] at children
  obtain ⟨pitch, _, same, -, others⟩ := List.map_eq_cons_iff.mp children.symm
  obtain ⟨duration, rfl, isDuration⟩ := List.map_eq_singleton_iff.mp others
  have below := children_forgetOrigins duration
  rw [isDuration] at below
  obtain ⟨length, single, isLength⟩ := List.map_eq_singleton_iff.mp below.symm
  exact ⟨note, pitch, duration, length, read, kind, same, single, isDuration, isLength⟩

theorem beats_of_mem_beatsAllWays (group : IsGroup digits) (dots : Nat) {duration length : Element}
    (isDuration : duration.forgetOrigins =
      .plain .duration [noteLength digits (List.replicate dots '.')])
    (isLength : length.forgetOrigins = noteLength digits (List.replicate dots '.')) :
    ∀ beats ∈ beatsAllWays duration length (valueOf digits) dots,
      beats = some (checkedBeats (valueOf digits) dots) := by
  have spelled := (music_noteLength group dots).exists_readEvent.1
  have lasting := isSpelled_children spelled _ (List.mem_cons_of_mem _ List.mem_cons_self)
  have byForm : length.beats? = some (checkedBeats (valueOf digits) dots) := by
    rw [← beats?_forgetOrigins, isLength, beats?_noteLength group]
  have byDuration : duration.beats? = some (checkedBeats (valueOf digits) dots) := by
    rw [← beats?_forgetOrigins, isDuration, beats?_duration group]
  have byWriting : length.write.toOption.map beatsOfText =
      some (checkedBeats (valueOf digits) dots) := by
    rw [← write_forgetOrigins, isLength,
      write_of_isSpelled (isSpelled_children lasting _ List.mem_cons_self), written_noteLength]
    exact congrArg some (beatsOfText_digits group dots)
  have byNotation : beatsOfText (lengthText (toString (valueOf digits)) dots) =
      checkedBeats (valueOf digits) dots := by
    obtain ⟨shown, value⟩ := isGroup_toDigits (valueOf digits)
    rw [lengthText, Int.toNat_natCast, Nat.toString_eq_ofList_toDigits, ← String.ofList_append,
      beatsOfText_digits shown, value]
  simp only [beatsAllWays, List.forall_mem_cons]
  exact ⟨byForm, byDuration, byWriting, congrArg some byNotation,
    congrArg some (noteLength_natCast _ _), nofun⟩

/-- The beats of a note length that is read are the sum of what the number and each dot add, in all
ways; there are none for the number zero. Other durations have no beats. -/
theorem beats_of_duration :
    (∀ (digits : List Char) (dots : Nat) (keep : Bool), IsGroup digits →
      ∃ (number : Nat) (note pitch duration length : Element),
        int? (String.ofList digits) = some (number : Int) ∧
        readEvent keep (String.ofList ('c' :: (digits ++ List.replicate dots '.'))) =
          .ok (some note) ∧
        note.kind = .plain .note ∧ note.children = [pitch, duration] ∧
        duration.kind = .plain .duration ∧ duration.children = [length] ∧
        length.kind = .plain .noteLength ∧
        ∀ beats ∈ beatsAllWays duration length number dots, beats = some
          (if number = 0 then .error (.notPositive "0")
          else .ok (∑ i ∈ Finset.range (dots + 1), 4 / (number : Rat) / 2 ^ i))) ∧
    ∀ (rule : StartRule) (keep : Bool) (text : String) (element : Element),
      readAs rule keep text = .ok element → ∀ duration ∈ element :: element.descendants,
        duration.kind = .plain .duration →
        (∀ length, length.kind = .plain .noteLength → duration.children ≠ [length]) →
          ∃ components, Form.ofElement duration = .ok (.apply (.symbol "duration") components) ∧
            duration.beats? = some (.error (.unsupported components)) := by
  constructor
  · intro digits dots keep group
    obtain ⟨note, pitch, duration, length, read, kind, children, single, isDuration, isLength⟩ :=
      exists_readEvent_noteLength group dots keep
    refine ⟨valueOf digits, note, pitch, duration, length, int?_of_isDecimal group, read, kind,
      children, ?_, single, ?_, ?_⟩
    · rw [← kind_forgetOrigins, isDuration]
      rfl
    · rw [← kind_forgetOrigins, isLength]
      rfl
    · rw [← beatsOf_eq_sum, ← checkedBeats_natCast]
      exact beats_of_mem_beatsAllWays group dots isDuration isLength
  · intro rule keep text element read duration member kind other
    have spelled := isSpelled_of_readAs read
    have spelledDuration : duration.isSpelled := by
      rcases List.mem_cons.mp member with rfl | below
      · exact spelled
      · exact isSpelled_descendants spelled duration below
    exact beats?_unsupported spelledDuration kind other

theorem beats_of_duration_scripts : IsGroup ['٠', '٤'] ∧
    (∃ note pitch duration length, readEvent true "c٠٤.." = .ok (some note) ∧
      note.children = [pitch, duration] ∧ duration.children = [length] ∧
        ∀ beats ∈ beatsAllWays duration length 4 2, beats = some (.ok (7 / 4))) ∧
    ∃ music duration, readAs .musicData false "c4~8" = .ok music ∧
      duration ∈ music.descendants ∧ duration.kind = .plain .duration ∧
        ∃ components, duration.beats? = some (.error (.unsupported components)) := by
  have group : IsGroup ['٠', '٤'] :=
    ⟨List.cons_ne_nil _ _, List.all_eq_true.mp rfl⟩
  refine ⟨group, ?_, ?_⟩
  · obtain ⟨number, note, pitch, duration, length, value, read, -, children, -, single, -, all⟩ :=
      beats_of_duration.1 ['٠', '٤'] 2 true group
    have four : int? (String.ofList ['٠', '٤']) = some ((4 : Nat) : Int) := by decide
    obtain rfl : number = 4 := Int.ofNat_inj.mp (Option.some.inj (value.symm.trans four))
    refine ⟨note, pitch, duration, length, read, children, single, fun beats member => ?_⟩
    rw [all beats member, if_neg (by decide), ← beatsOf_eq_sum]
    have sum : beatsOf 4 2 = 7 / 4 := by norm_num [beatsOf]
    rw [sum]
  · have reads : ((readAs .musicData false "c4~8").toOption.bind fun music =>
        (music.descendants.find? (·.kind = .plain .duration)).map fun duration =>
          duration.children.length) = some 3 := by
      decide +kernel
    obtain ⟨music, read, found⟩ := Option.bind_eq_some_iff.mp reads
    obtain ⟨duration, isFound, three⟩ := Option.map_eq_some_iff.mp found
    rw [toOption_eq_some] at read
    have member := List.mem_of_find?_eq_some isFound
    have kind : duration.kind = .plain .duration := by
      simpa using List.find?_some isFound
    obtain ⟨components, -, none⟩ := beats_of_duration.2 .musicData false "c4~8" music read duration
      (List.mem_cons_of_mem _ member) kind fun length _ one => by simp [one] at three
    exact ⟨music, duration, read, member, kind, components, none⟩

end Partbook
