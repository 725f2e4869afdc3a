import Partbook.Interpretation
import Partbook.Proofs.Element.Equality
import Partbook.Proofs.Roster.Calls
import Partbook.Proofs.Source.CallLine

namespace Partbook

open Source Element

namespace Source

def Call.spelledOut (call : Call) (origin : Lexeme → Origin) : Element :=
  .node (.plain .instrumentCall) { tail := some call.colon.span }
    (call.names.map (·.element .name) ++ call.nickname?.toList.map fun name =>
      .node (.text .nickname (.text name.text)) (origin name) [])

theorem Call.element_ok {call : Call} {element : Element} (built : call.element = .ok element) :
    ∃ origin, element = call.spelledOut origin := by
  obtain ⟨name, others, quotation, colon⟩ := call
  simp only [Call.element, bind_eq_ok, pure_eq_ok] at built
  obtain ⟨nickname, quoted, rfl⟩ := built
  match quotation with
  | none =>
    cases quoted
    exact ⟨fun _ => {}, by simp [spelledOut, names, nickname?]⟩
  | some (.nickname opening text closing) =>
    cases quoted
    exact ⟨fun _ => { head := some ⟨opening.span.start, closing.span.stop⟩ },
      by simp [spelledOut, names, nickname?]⟩
  | some (.invalid text) => cases quoted

theorem Call.valid_of_element {call : Call} {element : Element}
    (built : call.element = .ok element) : ∀ text, call.quotation ≠ some (.invalid text) := by
  intro text quoted
  rw [Call.element, quoted] at built
  cases built

theorem Call.exists_element {call : Call}
    (valid : ∀ text, call.quotation ≠ some (.invalid text)) :
    ∃ origin, call.element = .ok (call.spelledOut origin) := by
  obtain ⟨element, built⟩ : ∃ element, call.element = .ok element := by
    cases quotation : call.quotation with
    | none => exact ⟨_, by rw [Call.element, quotation]; rfl⟩
    | some quoted =>
      cases quoted with
      | nickname opening name closing => exact ⟨_, by rw [Call.element, quotation]; rfl⟩
      | invalid text => exact absurd quotation (valid text)
  obtain ⟨origin, rfl⟩ := Call.element_ok built
  exact ⟨origin, built⟩

theorem Call.isSpelled_spelledOut (call : Call) (origin : Lexeme → Origin) :
    (call.spelledOut origin).isSpelled := by
  refine isSpelled_iff.mpr ⟨rfl, List.forall_mem_append.mpr ⟨?_, ?_⟩⟩
  · intro child member
    obtain ⟨name, -, rfl⟩ := List.mem_map.mp member
    rfl
  · intro child member
    obtain ⟨name, -, rfl⟩ := List.mem_map.mp member
    rfl

theorem Part.element_ok {part : Part} {element : Element} (built : part.element = .ok element) :
    ∃ origin music, musicElement part.music = .ok music ∧
      element = .plain .instrument [part.call.spelledOut origin, music] := by
  simp only [Part.element, bind_eq_ok, pure_eq_ok] at built
  obtain ⟨call, built, music, read, rfl⟩ := built
  obtain ⟨origin, rfl⟩ := Call.element_ok built
  exact ⟨origin, music, read, rfl⟩

theorem Part.valid_of_element {part : Part} {element : Element}
    (built : part.element = .ok element) : ∀ text, part.call.quotation ≠ some (.invalid text) := by
  simp only [Part.element, bind_eq_ok] at built
  obtain ⟨call, built, -⟩ := built
  exact Call.valid_of_element built

end Source

namespace Element

theorem heads_spelledOut (call : Call) (origin : Lexeme → Origin) :
    Roster.headsOf (call.spelledOut origin) .name = call.names.map (fun name => .text name.text) ∧
      Roster.headsOf (call.spelledOut origin) .nickname =
        call.nickname?.toList.map fun name => .text name.text := by
  have name (lexeme : Lexeme) : (lexeme.element .name).label = .text .name (.text lexeme.text) :=
    rfl
  have nickname (lexeme : Lexeme) :
      (node (.text .nickname (.text lexeme.text)) (origin lexeme) []).label =
        .text .nickname (.text lexeme.text) := rfl
  simp only [Roster.headsOf, childrenOf, Call.spelledOut, children, List.filter_append,
    List.filterMap_append]
  constructor
  · rw [heads_map name (by decide), heads_map nickname (by decide)]
    simp
  · rw [heads_map name (by decide), heads_map nickname (by decide)]
    simp

theorem calledNames_spelledOut (call : Call) (origin : Lexeme → Origin) (music : List Element) :
    (plain .instrument (call.spelledOut origin :: music)).calledNames =
      call.names.map fun name => .text name.text :=
  (heads_spelledOut call origin).1

theorem calledNicknames_spelledOut (call : Call) (origin : Lexeme → Origin)
    (music : List Element) :
    (plain .instrument (call.spelledOut origin :: music)).calledNicknames =
      call.nickname?.toList.map fun name => .text name.text :=
  (heads_spelledOut call origin).2

theorem wellCalled_spelledOut {call : Call} {music : List Element}
    (spelled : ∀ element ∈ music, element.isSpelled) (origin : Lexeme → Origin) :
    (plain .instrument (call.spelledOut origin :: music)).WellCalled := by
  refine wellCalled_of_isSpelled ?_ rfl rfl ?_ ?_
  · exact isSpelled_plain rfl
      (List.forall_mem_cons.mpr ⟨call.isSpelled_spelledOut origin, spelled⟩)
  · simp [calledNames_spelledOut, Call.names]
  · rw [calledNicknames_spelledOut]
    cases call.nickname? <;> simp

theorem wellCalledScore_iff {score : Element} : score.WellCalledScore ↔
    ∀ child ∈ score.children,
      child.isNotated ∧ (child.isA (.plain .instrument) → child.WellCalled) := by
  constructor
  · intro called child member
    exact ⟨allNotated_iff.mp called.notated child member, fun instrument =>
      called.called child (List.mem_filter.mpr ⟨member, instrument⟩)⟩
  · intro each
    refine ⟨allNotated_iff.mpr fun child member => (each child member).1, ?_⟩
    intro instrument member
    obtain ⟨within, isInstrument⟩ := List.mem_filter.mp member
    exact (each instrument within).2 isInstrument

end Element

namespace Source

theorem exists_part_of_mem {parts : List Part} {elements : List Element}
    (built : partElements parts = .ok elements) :
    ∀ element ∈ elements, ∃ part ∈ parts, part.element = .ok element := by
  induction parts generalizing elements with
  | nil =>
    cases built
    simp
  | cons part parts ih =>
    simp only [partElements, bind_eq_ok, pure_eq_ok] at built
    obtain ⟨first, here, later, built, rfl⟩ := built
    refine List.forall_mem_cons.mpr ⟨⟨part, List.mem_cons_self, here⟩, fun element member => ?_⟩
    obtain ⟨other, within, made⟩ := ih built element member
    exact ⟨other, List.mem_cons_of_mem _ within, made⟩

theorem wellCalled_of_partElements {parts : List Part} {elements : List Element}
    (numeric : ∀ part ∈ parts, ∀ item ∈ part.music, item.Numeric)
    (built : partElements parts = .ok elements) : ∀ element ∈ elements, element.WellCalled := by
  intro element member
  obtain ⟨part, within, here⟩ := exists_part_of_mem built element member
  obtain ⟨origin, music, read, rfl⟩ := Part.element_ok here
  refine wellCalled_spelledOut ?_ origin
  simpa using isSpelled_musicElement (numeric part within) read

theorem isSpelled_globalChanges {items : List PreludeItem} {elements : List Element}
    (numeric : ∀ item ∈ items, item.Numeric) (built : globalChanges items = .ok elements) :
    ∀ element ∈ elements, element.isSpelled := by
  induction items generalizing elements with
  | nil =>
    cases built
    simp
  | cons item items ih =>
    rw [List.forall_mem_cons] at numeric
    cases item with
    | changes group =>
      simp only [globalChanges, bind_eq_ok, pure_eq_ok] at built
      obtain ⟨element, here, later, built, rfl⟩ := built
      have spelled := Changes.Numeric.isSpelled_element numeric.1 here
      exact List.forall_mem_append.mpr ⟨isSpelled_children spelled, ih numeric.2 built⟩
    | comment text | invalid text => exact ih numeric.2 built

theorem isSpelled_of_partElements {parts : List Part} {elements : List Element}
    (numeric : ∀ part ∈ parts, ∀ item ∈ part.music, item.Numeric)
    (built : partElements parts = .ok elements) : ∀ element ∈ elements, element.isSpelled := by
  intro element member
  obtain ⟨part, within, here⟩ := exists_part_of_mem built element member
  obtain ⟨origin, music, read, rfl⟩ := Part.element_ok here
  have spelled := isSpelled_musicElement (numeric part within) read
  exact isSpelled_plain rfl (by simpa using ⟨part.call.isSpelled_spelledOut origin, spelled⟩)

theorem Document.partElement_ok_iff {document : Document} {score : Element} :
    document.partElement = .ok score ↔ ∃ instrument,
      partElements document.parts = .ok [instrument] ∧ checkPrelude document.prelude = .ok () ∧
        score = .plain .score [instrument] := by
  simp only [partElement, bind_eq_ok]
  constructor
  · rintro ⟨instruments, parts, ⟨⟩, checked, built⟩
    split at built
    · rename_i single
      obtain ⟨instrument, rfl⟩ := List.length_eq_one_iff.mp single
      cases built
      exact ⟨instrument, parts, checked, rfl⟩
    · cases built
  · rintro ⟨instrument, parts, checked, rfl⟩
    exact ⟨_, parts, (), checked, rfl⟩

theorem isSpelled_of_build {rule : StartRule} {text : String} {element : Element}
    (built : build rule text = .ok element) : element.isSpelled := by
  cases rule with
  | score =>
    have numeric := Document.numeric_ofText true text
    simp only [build, Document.scoreElement, bind_eq_ok, pure_eq_ok] at built
    obtain ⟨changes, globals, parts, instruments, _, -, rfl⟩ := built
    have spelled := isSpelled_globalChanges numeric.1 globals
    refine isSpelled_plain rfl (List.forall_mem_append.mpr
      ⟨?_, isSpelled_of_partElements numeric.2 instruments⟩)
    split
    · simp
    · exact List.forall_mem_singleton.mpr (isSpelled_plain rfl spelled)
  | part =>
    have numeric := Document.numeric_ofText false text
    obtain ⟨instrument, instruments, -, rfl⟩ := Document.partElement_ok_iff.mp built
    exact isSpelled_plain rfl (isSpelled_of_partElements numeric.2 instruments)
  | musicData => exact isSpelled_musicElement (numeric_musicOfText text) built

theorem wellCalledScore_of_scoreElement {text : String} {score : Element}
    (built : (Document.ofText true text).scoreElement = .ok score) : score.WellCalledScore := by
  have numeric := Document.numeric_ofText true text
  simp only [Document.scoreElement, bind_eq_ok, pure_eq_ok] at built
  obtain ⟨changes, globals, parts, instruments, _, -, rfl⟩ := built
  have called := wellCalled_of_partElements numeric.2 instruments
  have spelled := isSpelled_globalChanges numeric.1 globals
  rw [wellCalledScore_iff]
  refine List.forall_mem_append.mpr ⟨?_, fun part member =>
    ⟨(called part member).notated, fun _ => called part member⟩⟩
  split
  · simp
  · rw [List.forall_mem_singleton]
    exact ⟨isNotated_of_isSpelled (isSpelled_plain rfl spelled), nofun⟩

theorem wellCalledScore_of_partElement {text : String} {score : Element}
    (built : (Document.ofText false text).partElement = .ok score) : score.WellCalledScore := by
  have numeric := Document.numeric_ofText false text
  obtain ⟨instrument, instruments, -, rfl⟩ := Document.partElement_ok_iff.mp built
  exact wellCalledScore (wellCalled_of_partElements numeric.2 instruments)

end Source

namespace Element

theorem kind_of_read {rule : StartRule} (other : rule ≠ .musicData) {text : String}
    {element : Element} (read : Element.read rule text = .ok element) :
    element.kind = .plain .score := by
  have built := read_ok_iff.mp read
  cases rule with
  | musicData => exact absurd rfl other
  | score =>
    simp only [build, Document.scoreElement, bind_eq_ok, pure_eq_ok] at built
    obtain ⟨_, -, _, -, _, -, rfl⟩ := built
    rfl
  | part =>
    obtain ⟨_, -, -, rfl⟩ := Document.partElement_ok_iff.mp built
    rfl

theorem wellCalledScore_of_read {rule : StartRule} {text : String} {score : Element}
    (read : Element.read rule text = .ok score) (kind : score.kind = .plain .score) :
    score.WellCalledScore := by
  have built := read_ok_iff.mp read
  cases rule with
  | score => exact wellCalledScore_of_scoreElement built
  | part => exact wellCalledScore_of_partElement built
  | musicData =>
    simp only [build, musicElement, bind_eq_ok, pure_eq_ok] at built
    obtain ⟨_, _, _, _, rfl⟩ := built
    cases kind

theorem allNotated_leadWith {event : Element} {children : List Element}
    (notated : event.isNotated) (all : allNotated children) :
    allNotated (leadWith event children) := by
  induction children with
  | nil =>
    have inside : (plain .musicData [event]).isNotated :=
      isNotated_iff.mpr ⟨nofun, by simpa [plain, Element.children, allNotated] using notated⟩
    simpa [leadWith, allNotated] using inside
  | cons child children ih =>
    simp only [allNotated, Bool.and_eq_true] at all
    unfold leadWith
    split
    · obtain ⟨label, origin, below⟩ := child
      simp only [isNotated, Bool.and_eq_true] at all
      simpa [allNotated, withChildren, isNotated, Element.children, Element.label, notated]
        using all
    · simpa [allNotated] using ⟨all.1, ih all.2⟩

theorem leadWith_call {call : Element} (kind : call.kind = .plain .instrumentCall) (event : Element)
    (music : List Element) : leadWith event (call :: music) = call :: leadWith event music := by
  have noMusic : call.isA (.plain .musicData) = false := by
    rw [isA, kind]
    rfl
  rw [leadWith, noMusic]
  rfl

theorem WellCalled.leadWith {instrument event : Element} (called : instrument.WellCalled)
    (notated : event.isNotated) :
    (instrument.withChildren (leadWith event instrument.children)).WellCalled := by
  obtain ⟨⟨label, origin, children⟩, whole⟩ : { element : Element // element = instrument } :=
    ⟨instrument, rfl⟩
  subst whole
  obtain ⟨call, music, text, begins, kind, written⟩ := called.called
  cases begins
  have lead := leadWith_call kind event music
  have before := called.notated
  simp only [isNotated, allNotated, Bool.and_eq_true] at before
  refine ⟨?_, ⟨call, Element.leadWith event music, text, lead, kind, written⟩, ?_, ?_, ?_⟩
  · simp only [withChildren, isNotated, Element.children, Element.label, lead, allNotated,
      Bool.and_eq_true]
    exact ⟨before.1, before.2.1, allNotated_leadWith notated before.2.2⟩
  · simpa [calledNames, withChildren, Element.children, lead] using called.named
  · simpa [calledNicknames, withChildren, Element.children, lead] using called.nicknamed
  · simpa [calledNames, calledNicknames, withChildren, Element.children, lead] using called.fixed

theorem wellCalled_leadFirst? {event : Element} (notated : event.isNotated)
    {elements moved : List Element} (found : leadFirst? event elements = some moved)
    (each : ∀ element ∈ elements,
      element.isNotated ∧ (element.isA (.plain .instrument) → element.WellCalled)) :
    ∀ element ∈ moved,
      element.isNotated ∧ (element.isA (.plain .instrument) → element.WellCalled) := by
  induction elements generalizing moved with
  | nil => cases found
  | cons element elements ih =>
    rw [List.forall_mem_cons] at each
    unfold leadFirst? at found
    split at found
    · rename_i isInstrument
      cases found
      have called := (each.1.2 isInstrument).leadWith notated
      exact List.forall_mem_cons.mpr ⟨⟨called.notated, fun _ => called⟩, each.2⟩
    · obtain ⟨later, rest, rfl⟩ := Option.map_eq_some_iff.mp found
      exact List.forall_mem_cons.mpr ⟨each.1, ih rest each.2⟩

theorem wellCalled_moveGlobals {elements : List Element}
    (each : ∀ element ∈ elements,
      element.isNotated ∧ (element.isA (.plain .instrument) → element.WellCalled)) :
    ∀ element ∈ moveGlobals elements,
      element.isNotated ∧ (element.isA (.plain .instrument) → element.WellCalled) := by
  cases elements with
  | nil => exact each
  | cons first rest =>
    simp only [moveGlobals]
    split
    · have notated : (plain .attributeChanges first.children).isNotated :=
        isNotated_iff.mpr ⟨(by decide : Kind.plain .attributeChanges ≠ .plain .node),
          (isNotated_iff.mp (each first (by simp)).1).2⟩
      cases found : leadFirst? (plain .attributeChanges first.children) rest with
      | none => exact each
      | some moved =>
        exact wellCalled_leadFirst? notated found fun element member =>
          each element (by simp [member])
    · exact each

theorem WellCalledScore.hoist {score hoisted : Element} (called : score.WellCalledScore)
    (moved : score.hoist = .ok hoisted) : hoisted.WellCalledScore := by
  unfold Element.hoist at moved
  split at moved
  · cases moved
    rw [wellCalledScore_iff] at called ⊢
    exact wellCalled_moveGlobals called
  · cases moved

end Element

/-- The instruments of a text, with its global attributes moved. -/
def Interpretation.instrumentsOf (rule : StartRule) (text : String) : List Element :=
  match Element.read rule text with
  | .ok score => score.hoistGlobals.childrenOf (.plain .instrument)
  | .error _ => []

theorem Interpretation.ofScore_ok {roster : Roster} {score : Element} {result : Interpretation}
    (interpreted : ofScore roster score = .ok result) :
    score.hoist = .ok score.hoistGlobals ∧
      roster.resolveAll (score.hoistGlobals.childrenOf (.plain .instrument)) =
        .ok (result.roster, result.score.children) := by
  simp only [ofScore, bind_eq_ok, mapError_eq_ok, pure_eq_ok] at interpreted
  obtain ⟨hoisted, moved, ⟨after, resolved⟩, resolution, _, -, _, -, rfl⟩ := interpreted
  have same : hoisted = score.hoistGlobals := by
    unfold Element.hoist at moved
    split at moved <;> cases moved
    rfl
  subst hoisted
  simp only [Roster.resolveScore, bind_eq_ok, pure_eq_ok] at resolution
  obtain ⟨_, -, ⟨_, instruments⟩, all, same⟩ := resolution
  cases same
  exact ⟨moved, all⟩

theorem Interpretation.ofText_ok {roster : Roster} {rule : StartRule} {text : String}
    {result : Interpretation} (interpreted : ofText roster rule text = .ok result) :
    (∀ instrument ∈ instrumentsOf rule text, instrument.WellCalled) ∧
      roster.resolveAll (instrumentsOf rule text) = .ok (result.roster, result.score.children) := by
  simp only [ofText, bind_eq_ok, mapError_eq_ok] at interpreted
  obtain ⟨score, read, interpreted⟩ := interpreted
  split at interpreted
  · rename_i kind
    obtain ⟨moved, all⟩ := ofScore_ok interpreted
    have called := (Element.wellCalledScore_of_read read kind).hoist moved
    rw [instrumentsOf, read]
    exact ⟨called.called, all⟩
  · cases interpreted

end Partbook
