import Partbook.Element.Outline

namespace Partbook.Element

mutual

theorem start?_of_notated : ∀ {element : Element}, element.isNotated →
    ∃ start, element.start? = .ok start
  | node label origin children, notated => by
    simp only [isNotated, Bool.and_eq_true, bne_iff_ne] at notated
    obtain ⟨first, found⟩ := firstStart?_of_notated notated.2
    rw [start?, if_neg notated.1]
    cases origin.head with
    | some span => exact ⟨_, rfl⟩
    | none => exact ⟨first, found⟩

theorem firstStart?_of_notated : ∀ {elements : List Element}, allNotated elements →
    ∃ start, firstStart? elements = .ok start
  | [], _ => ⟨none, rfl⟩
  | element :: elements, notated => by
    simp only [allNotated, Bool.and_eq_true] at notated
    obtain ⟨first, found⟩ := start?_of_notated notated.1
    obtain ⟨later, foundLater⟩ := firstStart?_of_notated notated.2
    rw [firstStart?, found]
    cases first with
    | some start => exact ⟨some start, rfl⟩
    | none => exact ⟨later, foundLater⟩

end

mutual

theorem stop?_of_notated : ∀ {element : Element}, element.isNotated →
    ∃ stop, element.stop? = .ok stop
  | node label origin children, notated => by
    simp only [isNotated, Bool.and_eq_true, bne_iff_ne] at notated
    obtain ⟨last, found⟩ := lastStop?_of_notated notated.2
    rw [stop?, if_neg notated.1, found]
    cases origin.tail with
    | some span => exact ⟨_, rfl⟩
    | none => cases last <;> exact ⟨_, rfl⟩

theorem lastStop?_of_notated : ∀ {elements : List Element}, allNotated elements →
    ∃ stop, lastStop? elements = .ok stop
  | [], _ => ⟨none, rfl⟩
  | element :: elements, notated => by
    simp only [allNotated, Bool.and_eq_true] at notated
    obtain ⟨first, found⟩ := stop?_of_notated notated.1
    obtain ⟨later, foundLater⟩ := lastStop?_of_notated notated.2
    rw [lastStop?, foundLater]
    cases later with
    | some stop => exact ⟨some stop, rfl⟩
    | none => exact ⟨first, found⟩

end

theorem describe_of_notated {element : Element} (notated : element.isNotated) :
    ∃ shown, element.describe = .ok shown := by
  obtain ⟨start, starts⟩ := start?_of_notated notated
  obtain ⟨stop, stops⟩ := stop?_of_notated notated
  simp only [describe, extent?, starts, stops, bind, Except.bind, pure, Except.pure]
  cases start <;> split <;> exact ⟨_, rfl⟩

theorem allNotated_iff {elements : List Element} :
    allNotated elements ↔ ∀ element ∈ elements, element.isNotated := by
  induction elements with
  | nil => simp [allNotated]
  | cons element elements ih => simp [allNotated, ih]

theorem isNotated_iff {element : Element} :
    element.isNotated ↔ element.kind ≠ .plain .node ∧ allNotated element.children := by
  obtain ⟨label, origin, children⟩ := element
  simp [isNotated, kind, Element.children, Element.label, Label.kind]

end Partbook.Element
