import Partbook.Proofs.Element.Origins
import Partbook.Proofs.Source.CallLine
import Partbook.Proofs.Text.Numeral

namespace Partbook

open Source Text

namespace Form

mutual

theorem ofElement_forgetOrigins : ∀ element : Element,
    ofElement element.forgetOrigins = ofElement element
  | .node label origin children => by
    have below := ofElements_forgetOrigins children
    have length : (Element.forgetOriginsOfAll children).length = children.length := by
      rw [Element.forgetOriginsOfAll_eq_map, List.length_map]
    rw [Element.forgetOrigins]
    cases label with
    | plain kind => cases kind <;> simp only [ofElement, below, length]
    | text kind head => cases kind <;> simp only [ofElement, below]

theorem ofElements_forgetOrigins : ∀ elements : List Element,
    ofElements (Element.forgetOriginsOfAll elements) = ofElements elements
  | [] => rfl
  | element :: elements => by
    rw [Element.forgetOriginsOfAll, ofElements, ofElements, ofElement_forgetOrigins element,
      ofElements_forgetOrigins elements]

end

mutual

theorem ofElement_of_isSpelled : ∀ {element : Element}, element.isSpelled →
    ∃ form, ofElement element = .ok form
  | .node label origin children, spelled => by
    simp only [Element.isSpelled, Bool.and_eq_true] at spelled
    obtain ⟨args, below⟩ := ofElements_of_allSpelled spelled.2
    cases label with
    | plain kind =>
      cases kind with
      | node => cases spelled.1
      | _ =>
        simp only [ofElement, below]
        exact ⟨_, rfl⟩
    | text kind head =>
      cases head with
      | text s =>
        cases kind with
        | number =>
          have numeral : s.toList ≠ [] ∧ ∀ c ∈ s.toList, isDecimal c := by
            simpa [Label.isSpelled] using spelled.1
          obtain ⟨n, value⟩ := Option.isSome_iff_exists.mp (int?_isSome numeral.1 numeral.2)
          simp only [ofElement, numberOf, value]
          exact ⟨_, rfl⟩
        | _ =>
          simp only [ofElement, below]
          exact ⟨_, rfl⟩
      | _ => cases kind <;> cases spelled.1

theorem ofElements_of_allSpelled : ∀ {elements : List Element}, Element.allSpelled elements →
    ∃ forms, ofElements elements = .ok forms
  | [], _ => ⟨[], rfl⟩
  | element :: elements, spelled => by
    simp only [Element.allSpelled, Bool.and_eq_true] at spelled
    obtain ⟨form, here⟩ := ofElement_of_isSpelled spelled.1
    obtain ⟨forms, later⟩ := ofElements_of_allSpelled spelled.2
    rw [ofElements, here, later]
    exact ⟨_, rfl⟩

end

def formsOf (elements : List Element) : List Form := (ofElements elements).toOption.getD []

theorem ofElements_of_isSpelled {elements : List Element}
    (spelled : ∀ element ∈ elements, element.isSpelled) :
    ofElements elements = .ok (formsOf elements) := by
  obtain ⟨forms, all⟩ := ofElements_of_allSpelled (Element.allSpelled_iff.mpr spelled)
  rw [formsOf, all]
  rfl

theorem formsOf_forgetOrigins {elements elements' : List Element}
    (same : elements.map Element.forgetOrigins = elements'.map Element.forgetOrigins) :
    formsOf elements = formsOf elements' := by
  rw [formsOf, ← ofElements_forgetOrigins, Element.forgetOriginsOfAll_eq_map, same,
    ← Element.forgetOriginsOfAll_eq_map, ofElements_forgetOrigins, formsOf]

theorem formsOf_append {elements more : List Element}
    (spelled : ∀ element ∈ elements, element.isSpelled)
    (later : ∀ element ∈ more, element.isSpelled) :
    formsOf (elements ++ more) = formsOf elements ++ formsOf more := by
  induction elements with
  | nil => rfl
  | cons element elements ih =>
    rw [List.forall_mem_cons] at spelled
    obtain ⟨form, first⟩ := ofElement_of_isSpelled spelled.1
    have rest := ofElements_of_isSpelled (List.forall_mem_append.mpr ⟨spelled.2, later⟩)
    have here := ofElements_of_isSpelled spelled.2
    rw [List.cons_append, formsOf, formsOf, ofElements, ofElements, first, rest, here, ih spelled.2]
    rfl

end Form

end Partbook
