import Partbook.Proofs.Element.Assembly
import Partbook.Proofs.Results

namespace Partbook.Source

def ValueItem.IsValid : ValueItem → Prop
  | .invalid _ => False
  | _ => True

def ChangeItem.IsValid : ChangeItem → Prop
  | .invalid _ => False
  | .change _ values => ∀ value ∈ values, value.IsValid
  | _ => True

structure Changes.IsValid (changes : Changes) : Prop where
  closed : changes.closing ≠ none
  items : ∀ item ∈ changes.items, item.IsValid

def MusicItem.IsValid : MusicItem → Prop
  | .invalid _ => False
  | .changes group => group.IsValid
  | _ => True

theorem isValid_of_valueElements {items : List ValueItem} {elements : List Element}
    (built : valueElements items = .ok elements) : ∀ item ∈ items, item.IsValid := by
  induction items generalizing elements with
  | nil => simp
  | cons item items ih =>
    cases item with
    | number text | word text =>
      simp only [valueElements, bind_eq_ok, pure_eq_ok] at built
      obtain ⟨later, built, -⟩ := built
      exact List.forall_mem_cons.mpr ⟨trivial, ih built⟩
    | comment text => exact List.forall_mem_cons.mpr ⟨trivial, ih built⟩
    | invalid text => cases built

theorem isValid_of_changeElements {items : List ChangeItem} {elements : List Element}
    (checked : checkChangeItems items = .ok ()) (built : changeElements items = .ok elements) :
    ∀ item ∈ items, item.IsValid := by
  induction items generalizing elements with
  | nil => simp
  | cons item items ih =>
    cases item with
    | change name values =>
      simp only [changeElements, bind_eq_ok, pure_eq_ok] at built
      obtain ⟨_, here, _, built, -⟩ := built
      exact List.forall_mem_cons.mpr ⟨isValid_of_valueElements here, ih checked built⟩
    | comma text | comment text => exact List.forall_mem_cons.mpr ⟨trivial, ih checked built⟩
    | invalid text => cases checked

theorem Changes.isValid_of_element {changes : Changes} {element : Element}
    (built : changes.element = .ok element) : changes.IsValid := by
  simp only [Changes.element, bind_eq_ok] at built
  obtain ⟨children, below, built⟩ := built
  split at built
  · cases built
  · rename_i closing closed
    simp only [bind_eq_ok] at built
    obtain ⟨_, checked, -⟩ := built
    exact ⟨by simp [closed], isValid_of_changeElements checked below⟩

theorem MusicItem.isValid_of_piece {item : MusicItem} {piece : Piece}
    (built : item.piece = .ok piece) (valid : ∀ text, piece ≠ .invalid text) : item.IsValid := by
  cases item with
  | changes group =>
    simp only [MusicItem.piece, bind_eq_ok] at built
    obtain ⟨element, built, -⟩ := built
    exact Changes.isValid_of_element built
  | invalid text =>
    cases built
    exact absurd rfl (valid text)
  | _ => trivial

theorem isValid_of_pieces {items : List MusicItem} {all : List Piece}
    (built : pieces items = .ok all) (valid : ∀ text, Piece.invalid text ∉ all) :
    ∀ item ∈ items, item.IsValid := by
  induction items generalizing all with
  | nil => simp
  | cons item items ih =>
    simp only [pieces, bind_eq_ok, pure_eq_ok] at built
    obtain ⟨piece, here, later, built, rfl⟩ := built
    simp only [List.mem_cons, not_or] at valid
    exact List.forall_mem_cons.mpr ⟨item.isValid_of_piece here fun text same =>
      (valid text).1 same.symm, ih built fun text => (valid text).2⟩

theorem isValid_of_musicElement {items : List MusicItem} {element : Element}
    (built : musicElement items = .ok element) : ∀ item ∈ items, item.IsValid := by
  simp only [musicElement, bind_eq_ok] at built
  obtain ⟨all, each, events, assembled, -⟩ := built
  exact isValid_of_pieces each (assembled_of_assemble assembled).not_invalid

end Partbook.Source
