import Partbook.Element.Written
import Partbook.Proofs.Element.Assembly
import Partbook.Proofs.Element.Notated
import Partbook.Proofs.Results
import Partbook.Proofs.Source.Numerals

namespace Partbook

open Source Text

def Label.isSpelled : Label → Bool
  | .plain kind => kind != .node
  | .text .number (.text s) => !s.toList.isEmpty && s.toList.all isDecimal
  | .text _ (.text _) => true
  | .text _ _ => false

def Label.headChars (label : Label) : List Char :=
  match label.headText with
  | .ok head => head.toList
  | .error _ => []

namespace Element

mutual

def isSpelled : Element → Bool
  | node label _ children => label.isSpelled && allSpelled children

def allSpelled : List Element → Bool
  | [] => true
  | element :: elements => element.isSpelled && allSpelled elements

end

theorem allSpelled_iff {elements : List Element} :
    allSpelled elements ↔ ∀ element ∈ elements, element.isSpelled := by
  induction elements with
  | nil => simp [allSpelled]
  | cons element elements ih => simp [allSpelled, ih]

theorem isSpelled_iff {label : Label} {origin : Origin} {children : List Element} :
    (node label origin children).isSpelled ↔
      label.isSpelled ∧ ∀ child ∈ children, child.isSpelled := by
  rw [isSpelled, Bool.and_eq_true, allSpelled_iff]

theorem isSpelled_plain {kind : PlainKind} {children : List Element}
    (notated : (Label.plain kind).isSpelled) (spelled : ∀ child ∈ children, child.isSpelled) :
    (plain kind children).isSpelled :=
  isSpelled_iff.mpr ⟨notated, spelled⟩

theorem isSpelled_children {element : Element} (spelled : element.isSpelled) :
    ∀ child ∈ element.children, child.isSpelled := by
  obtain ⟨label, origin, children⟩ := element
  exact (isSpelled_iff.mp spelled).2

theorem isSpelled_withChildren {element : Element} {children : List Element}
    (spelled : element.isSpelled) (below : ∀ child ∈ children, child.isSpelled) :
    (element.withChildren children).isSpelled := by
  obtain ⟨label, origin, before⟩ := element
  exact isSpelled_iff.mpr ⟨(isSpelled_iff.mp spelled).1, below⟩

theorem ne_node_of_isSpelled {label : Label} (spelled : label.isSpelled) :
    label.kind ≠ .plain .node := by
  cases label with
  | plain kind => simpa [Label.isSpelled, Label.kind] using spelled
  | text kind head => simp [Label.kind]

mutual

theorem isNotated_of_isSpelled : ∀ {element : Element}, element.isSpelled → element.isNotated
  | node label origin children, spelled => by
    simp only [isSpelled, Bool.and_eq_true] at spelled
    simp only [isNotated, Bool.and_eq_true, bne_iff_ne]
    exact ⟨ne_node_of_isSpelled spelled.1, allNotated_of_allSpelled spelled.2⟩

theorem allNotated_of_allSpelled : ∀ {elements : List Element}, allSpelled elements →
    allNotated elements
  | [], _ => rfl
  | element :: elements, spelled => by
    simp only [allSpelled, Bool.and_eq_true] at spelled
    simp only [allNotated, Bool.and_eq_true]
    exact ⟨isNotated_of_isSpelled spelled.1, allNotated_of_allSpelled spelled.2⟩

end

mutual

def written : Element → List Char
  | node label _ children =>
    label.headChars ++ (writtenAll label true children ++ label.tailText.toList)

def writtenAll (label : Label) (first : Bool) : List Element → List Char
  | [] => []
  | element :: elements =>
    (if first then [] else (label.gap element).toList) ++
      (element.written ++ writtenAll label false elements)

end

theorem headText_of_isSpelled {label : Label} (spelled : label.isSpelled) :
    label.headText = .ok (String.ofList label.headChars) := by
  have text : ∃ text, label.headText = .ok text := by
    cases label with
    | plain kind => cases kind <;> exact ⟨_, rfl⟩
    | text kind head =>
      cases head with
      | text s => cases kind <;> exact ⟨_, rfl⟩
      | _ => cases kind <;> cases spelled
  obtain ⟨text, above⟩ := text
  rw [Label.headChars, above, String.ofList_toList]

mutual

theorem write_of_isSpelled : ∀ {element : Element}, element.isSpelled →
    element.write = .ok (String.ofList element.written)
  | node label origin children, spelled => by
    simp only [isSpelled, Bool.and_eq_true] at spelled
    rw [write, if_neg (ne_node_of_isSpelled spelled.1), headText_of_isSpelled spelled.1,
      writeAll_of_allSpelled spelled.2 label true, written, String.ofList_append,
      String.ofList_append, String.ofList_toList, ← String.append_assoc]
    rfl

theorem writeAll_of_allSpelled : ∀ {elements : List Element}, allSpelled elements →
    ∀ (label : Label) (first : Bool),
      writeAll label first elements = .ok (String.ofList (writtenAll label first elements))
  | [], _, _, _ => rfl
  | element :: elements, spelled, label, first => by
    simp only [allSpelled, Bool.and_eq_true] at spelled
    rw [writeAll, write_of_isSpelled spelled.1, writeAll_of_allSpelled spelled.2 label false,
      writtenAll, String.ofList_append, String.ofList_append, ← String.append_assoc]
    cases first
    · simp only [Bool.false_eq_true, if_false, String.ofList_toList]
      rfl
    · rfl

end

theorem isFixed_of_isSpelled {element : Element} (spelled : element.isSpelled) {head : Datum}
    (found : element.head? = some head) : head.isFixed := by
  obtain ⟨label, origin, children⟩ := element
  have spelledLabel := (isSpelled_iff.mp spelled).1
  cases label with
  | plain kind => cases found
  | text kind datum =>
    cases found
    cases head with
    | text s => rfl
    | _ => cases kind <;> cases spelledLabel

end Element

namespace Source

open Element

theorem Lexeme.isSpelled_element {kind : TextKind} (lexeme : Lexeme) (other : kind ≠ .number) :
    (lexeme.element kind).isSpelled := by
  cases kind <;> first | rfl | exact absurd rfl other

theorem Lexeme.IsNumeral.isSpelled_element {lexeme : Lexeme} (numeral : lexeme.IsNumeral) :
    (lexeme.element .number).isSpelled := by
  have digits : lexeme.chars.all isDecimal := List.all_eq_true.mpr numeral.2
  have nonempty : lexeme.chars.isEmpty = false := by simpa using numeral.1
  simp [Lexeme.element, isSpelled, allSpelled, Label.isSpelled, Lexeme.text, digits, nonempty]

theorem LengthMark.Numeric.isSpelled_element {mark : LengthMark} (numeric : mark.Numeric) :
    mark.element.isSpelled := by
  cases mark with
  | length number dots =>
    apply isSpelled_plain rfl
    rw [List.forall_mem_cons]
    refine ⟨Lexeme.IsNumeral.isSpelled_element numeric, fun child member => ?_⟩
    obtain ⟨lexeme, -, rfl⟩ := List.mem_map.mp member
    rfl
  | tie tilde => rfl

theorem isSpelled_durationElements {duration : Option Duration}
    (numeric : ∀ length ∈ duration, length.Numeric) :
    ∀ child ∈ durationElements duration, child.isSpelled := by
  intro child member
  obtain ⟨length, given, rfl⟩ := List.mem_map.mp member
  apply isSpelled_plain rfl
  rw [List.forall_mem_append]
  constructor
  · intro mark member
    obtain ⟨mark, within, rfl⟩ := List.mem_map.mp member
    exact (numeric length (by simpa using given) mark within).isSpelled_element
  · intro slur member
    obtain ⟨slur, -, rfl⟩ := List.mem_map.mp member
    rfl

theorem isSpelled_noteElement (pitch : Lexeme) (accidentals : List Lexeme)
    {duration : Option Duration} (numeric : ∀ length ∈ duration, length.Numeric) :
    (noteElement pitch accidentals duration).isSpelled := by
  apply isSpelled_plain rfl
  rw [List.forall_mem_cons]
  refine ⟨isSpelled_withChildren (pitch.isSpelled_element (by decide)) ?_,
    isSpelled_durationElements numeric⟩
  intro accidental member
  obtain ⟨lexeme, -, rfl⟩ := List.mem_map.mp member
  rfl

theorem isSpelled_valueElements {items : List ValueItem} {elements : List Element}
    (numeric : ∀ item ∈ items, item.Numeric) (built : valueElements items = .ok elements) :
    ∀ element ∈ elements, element.isSpelled := by
  induction items generalizing elements with
  | nil =>
    cases built
    simp
  | cons item items ih =>
    rw [List.forall_mem_cons] at numeric
    cases item with
    | number digits =>
      simp only [valueElements, bind_eq_ok, pure_eq_ok] at built
      obtain ⟨later, built, rfl⟩ := built
      exact List.forall_mem_cons.mpr
        ⟨Lexeme.IsNumeral.isSpelled_element numeric.1, ih numeric.2 built⟩
    | word text =>
      simp only [valueElements, bind_eq_ok, pure_eq_ok] at built
      obtain ⟨later, built, rfl⟩ := built
      exact List.forall_mem_cons.mpr ⟨text.isSpelled_element (by decide), ih numeric.2 built⟩
    | comment text => exact ih numeric.2 built
    | invalid text => cases built

theorem isSpelled_changeElements {items : List ChangeItem} {elements : List Element}
    (numeric : ∀ item ∈ items, item.Numeric) (built : changeElements items = .ok elements) :
    ∀ element ∈ elements, element.isSpelled := by
  induction items generalizing elements with
  | nil =>
    cases built
    simp
  | cons item items ih =>
    rw [List.forall_mem_cons] at numeric
    cases item with
    | change name values =>
      simp only [changeElements, bind_eq_ok, pure_eq_ok] at built
      obtain ⟨spelledValues, values, later, built, rfl⟩ := built
      refine List.forall_mem_cons.mpr ⟨isSpelled_plain rfl ?_, ih numeric.2 built⟩
      exact List.forall_mem_cons.mpr
        ⟨name.isSpelled_element (by decide), isSpelled_valueElements numeric.1 values⟩
    | comma text | comment text | invalid text => exact ih numeric.2 built

theorem Changes.Numeric.isSpelled_element {changes : Changes} {element : Element}
    (numeric : changes.Numeric) (built : changes.element = .ok element) : element.isSpelled := by
  simp only [Changes.element, bind_eq_ok] at built
  obtain ⟨children, below, built⟩ := built
  split at built
  · cases built
  · simp only [bind_eq_ok, pure_eq_ok] at built
    obtain ⟨_, -, rfl⟩ := built
    exact isSpelled_iff.mpr ⟨rfl, isSpelled_changeElements numeric below⟩

def Piece.Spelled : Piece → Prop
  | .event element => element.isSpelled
  | _ => True

theorem MusicItem.Numeric.spelled_piece {item : MusicItem} {piece : Piece}
    (numeric : item.Numeric) (built : item.piece = .ok piece) : piece.Spelled := by
  cases item with
  | note pitch accidentals duration =>
    cases built
    exact isSpelled_noteElement pitch accidentals numeric
  | rest mark duration =>
    cases built
    exact isSpelled_iff.mpr ⟨rfl, isSpelled_durationElements numeric⟩
  | octaveSet mark number =>
    cases built
    exact isSpelled_iff.mpr ⟨rfl, by
      simpa using Lexeme.IsNumeral.isSpelled_element numeric⟩
  | changes group =>
    simp only [MusicItem.piece, bind_eq_ok, pure_eq_ok] at built
    obtain ⟨element, built, rfl⟩ := built
    exact Changes.Numeric.isSpelled_element numeric built
  | octaveUp mark | octaveDown mark | barline mark =>
    cases built
    rfl
  | separator slash | comment text | invalid text =>
    cases built
    trivial

theorem spelled_pieces {items : List MusicItem} {built : List Piece}
    (numeric : ∀ item ∈ items, item.Numeric) (all : pieces items = .ok built) :
    ∀ piece ∈ built, piece.Spelled := by
  induction items generalizing built with
  | nil =>
    cases all
    simp
  | cons item items ih =>
    rw [List.forall_mem_cons] at numeric
    simp only [pieces, bind_eq_ok, pure_eq_ok] at all
    obtain ⟨piece, here, later, all, rfl⟩ := all
    exact List.forall_mem_cons.mpr ⟨numeric.1.spelled_piece here, ih numeric.2 all⟩

theorem isSpelled_chord {last element : Element} (spelled : last.isSpelled)
    (next : element.isSpelled) : (chord last element).isSpelled := by
  unfold chord
  split
  · apply isSpelled_withChildren spelled
    exact List.forall_mem_append.mpr ⟨isSpelled_children spelled, by simpa using next⟩
  · exact isSpelled_plain rfl (by simpa using ⟨spelled, next⟩)

theorem Assembled.isSpelled {all : List Piece} {before events : List Element}
    {opened : Option Lexeme} (assembled : Assembled before opened all events)
    (earlier : ∀ element ∈ before, element.isSpelled) (spelled : ∀ piece ∈ all, piece.Spelled) :
    ∀ element ∈ events, element.isSpelled := by
  induction assembled with
  | done before => simpa using earlier
  | comment later ih => exact ih earlier (List.forall_mem_cons.mp spelled).2
  | separator joins later ih => exact ih earlier (List.forall_mem_cons.mp spelled).2
  | event later ih =>
    rw [List.forall_mem_cons] at spelled
    exact ih (List.forall_mem_cons.mpr ⟨spelled.1, earlier⟩) spelled.2
  | joined sounding later ih =>
    rw [List.forall_mem_cons] at earlier spelled
    have joined := isSpelled_chord earlier.1 spelled.1
    exact ih (List.forall_mem_cons.mpr ⟨joined, earlier.2⟩) spelled.2

theorem isSpelled_musicElement {items : List MusicItem} {element : Element}
    (numeric : ∀ item ∈ items, item.Numeric) (built : musicElement items = .ok element) :
    element.isSpelled := by
  simp only [musicElement, bind_eq_ok, pure_eq_ok] at built
  obtain ⟨all, each, events, assembled, rfl⟩ := built
  exact isSpelled_plain rfl
    ((assembled_of_assemble assembled).isSpelled (by simp) (spelled_pieces numeric each))

end Source

end Partbook
