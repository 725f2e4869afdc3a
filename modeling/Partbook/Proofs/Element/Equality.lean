import Partbook.Proofs.Element.Origins

namespace Partbook

open Source

namespace Datum

mutual

theorem same_self : ∀ datum : Datum, datum.same datum
  | text _ | nothing | int _ | truth _ => by simp [same, int?]
  | numbered name number => by simp [same, items?, same_self name, same_self number]
  | tuple items => by simp [same, items?, sameAll_self items]
  | list items => by simp [same, sameAll_self items]
  | node shown below => by simp [same, sameAll_self below]

theorem sameAll_self : ∀ items : List Datum, sameAll items items
  | [] => rfl
  | item :: items => by simp [sameAll, same_self item, sameAll_self items]

end

end Datum

theorem Datum.eq_of_same_text {s : String} {datum : Datum} (same : (Datum.text s).same datum) :
    datum = .text s := by
  cases datum <;> simp_all [Datum.same]

theorem Label.eq_of_same {label other : Label} (spelled : label.isSpelled)
    (same : label.same other) : label = other := by
  cases label with
  | plain kind => cases other <;> simp_all [Label.same]
  | text kind head =>
    cases other with
    | plain kind' => cases same
    | text kind' head' =>
      simp only [Label.same, Bool.and_eq_true, beq_iff_eq] at same
      obtain ⟨rfl, same⟩ := same
      cases head with
      | text s => rw [Datum.eq_of_same_text same]
      | _ => cases kind <;> cases spelled

namespace Element

mutual

theorem forgetOrigins_idem : ∀ element : Element,
    element.forgetOrigins.forgetOrigins = element.forgetOrigins
  | node label origin children => by
    rw [forgetOrigins, forgetOrigins, forgetOriginsOfAll_idem children]

theorem forgetOriginsOfAll_idem : ∀ elements : List Element,
    forgetOriginsOfAll (forgetOriginsOfAll elements) = forgetOriginsOfAll elements
  | [] => rfl
  | element :: elements => by
    rw [forgetOriginsOfAll, forgetOriginsOfAll, forgetOrigins_idem element,
      forgetOriginsOfAll_idem elements]

end

mutual

theorem same_forgetOrigins : ∀ element other : Element,
    element.forgetOrigins.same other.forgetOrigins = element.same other
  | node label origin children, node label' origin' children' => by
    simp only [forgetOrigins, same, sameAll_forgetOrigins children children']

theorem sameAll_forgetOrigins : ∀ elements others : List Element,
    sameAll (forgetOriginsOfAll elements) (forgetOriginsOfAll others) = sameAll elements others
  | [], [] | [], _ :: _ | _ :: _, [] => rfl
  | element :: elements, other :: others => by
    simp only [forgetOriginsOfAll, sameAll, same_forgetOrigins element other,
      sameAll_forgetOrigins elements others]

end

theorem same_label (label : Label) : label.same label := by
  cases label with
  | plain kind => simp [Label.same]
  | text kind head => simp [Label.same, Datum.same_self]

mutual

theorem same_self : ∀ element : Element, element.same element
  | node label origin children => by
    simp only [same, Bool.and_eq_true]
    exact ⟨same_label label, sameAll_self children⟩

theorem sameAll_self : ∀ elements : List Element, sameAll elements elements
  | [] => rfl
  | element :: elements => by
    simp only [sameAll, Bool.and_eq_true]
    exact ⟨same_self element, sameAll_self elements⟩

end

theorem same_of_forgetOrigins {element other : Element}
    (alike : element.forgetOrigins = other.forgetOrigins) : element.same other := by
  rw [← same_forgetOrigins, alike]
  exact same_self _

mutual

theorem forgetOrigins_of_same : ∀ {element other : Element}, element.isSpelled →
    element.same other → element.forgetOrigins = other.forgetOrigins
  | node label origin children, node label' origin' children', spelled, same => by
    simp only [isSpelled, Bool.and_eq_true] at spelled
    simp only [Element.same, Bool.and_eq_true] at same
    rw [forgetOrigins, forgetOrigins, Label.eq_of_same spelled.1 same.1,
      forgetOriginsOfAll_of_same spelled.2 same.2]

theorem forgetOriginsOfAll_of_same : ∀ {elements others : List Element}, allSpelled elements →
    sameAll elements others → forgetOriginsOfAll elements = forgetOriginsOfAll others
  | [], [], _, _ => rfl
  | [], _ :: _, _, same | _ :: _, [], _, same => by cases same
  | element :: elements, other :: others, spelled, same => by
    simp only [allSpelled, Bool.and_eq_true] at spelled
    simp only [sameAll, Bool.and_eq_true] at same
    rw [forgetOriginsOfAll, forgetOriginsOfAll, forgetOrigins_of_same spelled.1 same.1,
      forgetOriginsOfAll_of_same spelled.2 same.2]

end

mutual

theorem write_forgetOrigins : ∀ element : Element, element.forgetOrigins.write = element.write
  | node label origin children => by
    simp only [forgetOrigins, write, writeAll_forgetOrigins label true children]

theorem writeAll_forgetOrigins (label : Label) (first : Bool) : ∀ elements : List Element,
    writeAll label first (forgetOriginsOfAll elements) = writeAll label first elements
  | [] => rfl
  | element :: elements => by
    have gap : label.gap element.forgetOrigins = label.gap element := by
      simp only [Label.gap, kind_forgetOrigins]
    simp only [forgetOriginsOfAll, writeAll, write_forgetOrigins element,
      writeAll_forgetOrigins label false elements, gap]

end

mutual

theorem isSpelled_forgetOrigins : ∀ {element : Element}, element.isSpelled →
    element.forgetOrigins.isSpelled
  | node label origin children, spelled => by
    simp only [isSpelled, Bool.and_eq_true] at spelled
    simp only [forgetOrigins, isSpelled, Bool.and_eq_true]
    exact ⟨spelled.1, allSpelled_forgetOrigins spelled.2⟩

theorem allSpelled_forgetOrigins : ∀ {elements : List Element}, allSpelled elements →
    allSpelled (forgetOriginsOfAll elements)
  | [], _ => rfl
  | element :: elements, spelled => by
    simp only [allSpelled, Bool.and_eq_true] at spelled
    simp only [forgetOriginsOfAll, allSpelled, Bool.and_eq_true]
    exact ⟨isSpelled_forgetOrigins spelled.1, allSpelled_forgetOrigins spelled.2⟩

end

theorem read_ok_iff {rule : StartRule} {text : String} {element : Element} :
    read rule text = .ok element ↔ build rule text = .ok element := by
  unfold read
  cases build rule text <;> simp

theorem readAs_ok_iff {rule : StartRule} {keep : Bool} {text : String} {element : Element} :
    readAs rule keep text = .ok element ↔ ∃ built, build rule text = .ok built ∧
      element = if keep then built else built.forgetOrigins := by
  simp only [readAs, bind_eq_ok, pure_eq_ok, read_ok_iff]
  exact ⟨fun ⟨built, read, same⟩ => ⟨built, read, same.symm⟩,
    fun ⟨built, read, same⟩ => ⟨built, read, same.symm⟩⟩

theorem forgetOrigins_readAs {rule : StartRule} {keep : Bool} {text : String}
    {element built : Element} (read : readAs rule keep text = .ok element)
    (whole : build rule text = .ok built) : element.forgetOrigins = built.forgetOrigins := by
  obtain ⟨built', whole', rfl⟩ := readAs_ok_iff.mp read
  cases whole.symm.trans whole'
  cases keep
  · exact forgetOrigins_idem built
  · rfl

theorem exists_readAs {rule : StartRule} {text : String} {built : Element}
    (whole : build rule text = .ok built) (keep : Bool) :
    ∃ read, readAs rule keep text = .ok read ∧ read.forgetOrigins = built.forgetOrigins := by
  have read : readAs rule keep text = .ok (if keep then built else built.forgetOrigins) :=
    readAs_ok_iff.mpr ⟨built, whole, rfl⟩
  exact ⟨_, read, forgetOrigins_readAs read whole⟩

end Element

end Partbook
