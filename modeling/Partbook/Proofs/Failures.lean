import Partbook.Proofs.Element.OfTokens
import Partbook.Proofs.Resolution
import Partbook.Proofs.Roster.Numbering
import Partbook.Proofs.Scripted

/-!
Where interpreting can fail. A text is refused when it is read, or not at all: whatever was read has
proper calls, and a roster that comes from texts can answer them all. Everyone who is called is
there among the parts in the end.
-/
namespace Partbook

open Source Element

namespace Element

/-! ## Global attributes -/

variable {event : Element} {elements moved : List Element}

theorem isSpelled_leadWith (spelled : event.isSpelled)
    (each : ∀ element ∈ elements, element.isSpelled) :
    ∀ element ∈ leadWith event elements, element.isSpelled := by
  induction elements with
  | nil => exact List.forall_mem_singleton.mpr (isSpelled_plain rfl (by simpa using spelled))
  | cons first elements ih =>
    rw [List.forall_mem_cons] at each
    rw [leadWith]
    split
    · have children : ∀ child ∈ event :: first.children, child.isSpelled :=
        List.forall_mem_cons.mpr ⟨spelled, isSpelled_children each.1⟩
      exact List.forall_mem_cons.mpr ⟨isSpelled_withChildren each.1 children, each.2⟩
    · exact List.forall_mem_cons.mpr ⟨each.1, ih each.2⟩

theorem isSpelled_leadFirst? (spelled : event.isSpelled)
    (each : ∀ element ∈ elements, element.isSpelled)
    (found : leadFirst? event elements = some moved) :
    ∀ element ∈ moved, element.isSpelled := by
  induction elements generalizing moved with
  | nil => cases found
  | cons first elements ih =>
    rw [List.forall_mem_cons] at each
    rw [leadFirst?] at found
    split at found
    · cases found
      have children := isSpelled_leadWith spelled (isSpelled_children each.1)
      exact List.forall_mem_cons.mpr ⟨isSpelled_withChildren each.1 children, each.2⟩
    · obtain ⟨later, rest, rfl⟩ := Option.map_eq_some_iff.mp found
      exact List.forall_mem_cons.mpr ⟨each.1, ih each.2 rest⟩

theorem isSpelled_moveGlobals (each : ∀ element ∈ elements, element.isSpelled) :
    ∀ element ∈ moveGlobals elements, element.isSpelled := by
  cases elements with
  | nil => exact each
  | cons first rest =>
    rw [moveGlobals]
    split
    · have spelled : (plain .attributeChanges first.children).isSpelled :=
        isSpelled_plain rfl (isSpelled_children (each first List.mem_cons_self))
      cases found : leadFirst? (plain .attributeChanges first.children) rest with
      | none => exact each
      | some moved =>
        exact isSpelled_leadFirst? spelled (List.forall_mem_cons.mp each).2 found
    · exact each

theorem isSpelled_hoistGlobals {score : Element} (spelled : score.isSpelled) :
    score.hoistGlobals.isSpelled :=
  isSpelled_plain rfl (isSpelled_moveGlobals (isSpelled_children spelled))

theorem hoist_of_isSpelled {score : Element} (spelled : score.isSpelled) :
    score.hoist = .ok score.hoistGlobals := by
  rw [hoist, if_pos (isNotated_iff.mp (isNotated_of_isSpelled spelled)).2]

theorem isA_withChildren (element : Element) (children : List Element) (kind : Kind) :
    (element.withChildren children).isA kind = element.isA kind := rfl

theorem length_leadFirst? (found : leadFirst? event elements = some moved) :
    (moved.filter (·.isA (.plain .instrument))).length =
      (elements.filter (·.isA (.plain .instrument))).length := by
  induction elements generalizing moved with
  | nil => cases found
  | cons first elements ih =>
    rw [leadFirst?] at found
    split at found
    · rename_i isInstrument
      cases found
      simp [isA_withChildren, isInstrument]
    · rename_i other
      obtain ⟨later, rest, rfl⟩ := Option.map_eq_some_iff.mp found
      simpa [other] using ih rest

theorem length_moveGlobals (elements : List Element) :
    ((moveGlobals elements).filter (·.isA (.plain .instrument))).length =
      (elements.filter (·.isA (.plain .instrument))).length := by
  cases elements with
  | nil => rfl
  | cons first rest =>
    rw [moveGlobals]
    split
    · rename_i globals
      have other : ¬ first.isA (.plain .instrument) := fun isInstrument => by
        rw [isA, kind_of_isA_instrument isInstrument] at globals
        cases globals
      cases found : leadFirst? (plain .attributeChanges first.children) rest with
      | none => rfl
      | some moved =>
        simpa [other] using length_leadFirst? found
    · rfl

end Element

namespace Source

theorem length_of_partElements {parts : List Part} {elements : List Element}
    (built : partElements parts = .ok elements) :
    (elements.filter (·.isA (.plain .instrument))).length = parts.length := by
  induction parts generalizing elements with
  | nil =>
    cases built
    rfl
  | cons part parts ih =>
    simp only [partElements, bind_eq_ok, pure_eq_ok] at built
    obtain ⟨first, here, later, rest, rfl⟩ := built
    obtain ⟨origin, music, -, rfl⟩ := Part.element_ok here
    have isInstrument : (plain .instrument [part.call.spelledOut origin, music]).isA
        (.plain .instrument) := rfl
    simpa [isInstrument] using ih rest

theorem length_of_build {rule : StartRule} (other : rule ≠ .musicData) {text : String}
    {score : Element} (built : build rule text = .ok score) :
    (score.childrenOf (.plain .instrument)).length =
      (Document.ofText (rule = .score) text).parts.length := by
  cases rule with
  | musicData => exact absurd rfl other
  | score =>
    simp only [build, Document.scoreElement, bind_eq_ok, pure_eq_ok] at built
    obtain ⟨changes, -, instruments, parts, _, -, rfl⟩ := built
    refine Eq.trans ?_ (length_of_partElements parts)
    cases changes <;> rfl
  | part =>
    obtain ⟨instrument, parts, -, rfl⟩ := Document.partElement_ok_iff.mp built
    exact length_of_partElements parts

end Source

namespace Interpretation

variable {rule : StartRule} {text : String} {score : Element}

/-! ## What is read is interpreted -/

theorem hoist_of_read (read : Element.read rule text = .ok score) :
    score.hoist = .ok score.hoistGlobals :=
  hoist_of_isSpelled (isSpelled_of_build (read_ok_iff.mp read))

theorem wellCalled_hoistGlobals (other : rule ≠ .musicData)
    (read : Element.read rule text = .ok score) : score.hoistGlobals.WellCalledScore :=
  (wellCalledScore_of_read read (kind_of_read other read)).hoist (hoist_of_read read)

theorem scripted_instrumentsOf (other : rule ≠ .musicData)
    (read : Element.read rule text = .ok score) :
    ∀ instrument ∈ instrumentsOf rule text, instrument.Scripted := by
  intro instrument member
  have spelled := isSpelled_moveGlobals
    (isSpelled_children (isSpelled_of_build (read_ok_iff.mp read)))
  rw [instrumentsOf, read] at member
  obtain ⟨within, isInstrument⟩ := List.mem_filter.mp member
  exact ⟨kind_of_isA_instrument isInstrument,
    (wellCalled_hoistGlobals other read).called instrument member, spelled instrument within⟩

theorem length_instrumentsOf (other : rule ≠ .musicData)
    (read : Element.read rule text = .ok score) :
    (instrumentsOf rule text).length = (Document.ofText (rule = .score) text).parts.length := by
  rw [instrumentsOf, read, ← length_of_build other (read_ok_iff.mp read)]
  exact length_moveGlobals score.children

theorem ofScore_read {roster : Roster} (known : roster.Within fun name => ∃ text, name = .text text)
    (other : rule ≠ .musicData) (read : Element.read rule text = .ok score) :
    ofScore roster score = .ok (ofResolved (roster.afterCalls (instrumentsOf rule text))
      (roster.cast (instrumentsOf rule text))) := by
  have same : score.hoistGlobals.childrenOf (.plain .instrument) = instrumentsOf rule text := by
    rw [instrumentsOf, read]
  have interpreted := ofScore_hoisted known (hoist_of_read read)
    (wellCalled_hoistGlobals other read) (same.symm ▸ scripted_instrumentsOf other read)
  rwa [same] at interpreted

theorem ofText_read {roster : Roster} (known : roster.Within fun name => ∃ text, name = .text text)
    (other : rule ≠ .musicData) (read : Element.read rule text = .ok score) :
    ofText roster rule text = .ok (ofResolved (roster.afterCalls (instrumentsOf rule text))
      (roster.cast (instrumentsOf rule text))) := by
  rw [ofText, read]
  simp only [mapError_ok, bind, Except.bind, if_pos (kind_of_read other read),
    ofScore_read known other read]

/-- Everyone who is called has a part. -/
theorem mem_parts_ofResolved {after : Roster} {instruments : List Element} {inst : Instance}
    (called : inst ∈ Roster.playersOf instruments) :
    ∃ form, (inst.datum, form) ∈ (ofResolved after instruments).parts := by
  have member : inst.datum ∈
      (gather (formed (instruments.flatMap Parts.turnsIn))).map (·.1) := by
    rw [players_gather, List.mem_eraseDups, players_formed, Parts.players_turnsIn]
    exact List.mem_map_of_mem (f := Instance.datum) called
  obtain ⟨⟨_, events⟩, turn, rfl⟩ := List.mem_map.mp member
  exact ⟨_, List.mem_map_of_mem (f := Form.ofTurn) turn⟩

end Interpretation

namespace Roster

theorem begins_cast {roster : Roster} {calls : List Element} {history : List Instance}
    (numbered : Numbered roster calls history) {instruments : List Element}
    (called : ∀ instrument ∈ instruments, instrument.WellCalled) :
    ∀ instrument ∈ roster.cast instruments, ∃ inst others music,
      instrument = .plain .instrument (tracks (inst :: others) :: music) := by
  induction instruments generalizing roster calls history with
  | nil => simp [cast]
  | cons instrument instruments ih =>
    rw [List.forall_mem_cons] at called
    refine List.forall_mem_cons.mpr ⟨?_, ih (numbered.step called.1) called.2⟩
    obtain ⟨inst, others, answered⟩ := List.exists_cons_of_ne_nil
      (numbered.call_ne_nil called.1.named instrument.calledNickname)
    exact ⟨inst, others, instrument.children.tail, by rw [withPlayers, callFor, answered]⟩

end Roster

/-! ## States that come from texts -/

namespace Resolution

/-- The states that can be carried on: that of the beginning, and what a text has left. -/
inductive Reached : Resolution → Prop
  | start : Reached {}
  | after {state after : Resolution} {rule : StartRule} {text : String} {result : Interpretation}
    (reached : Reached state) (interpreted : state.ofText rule text = .ok (after, result)) :
    Reached after

theorem ofText_ok {state after : Resolution} {rule : StartRule} {text : String}
    {result : Interpretation} (interpreted : state.ofText rule text = .ok (after, result)) :
    Interpretation.ofText state.roster rule text = .ok result ∧ after.roster = result.roster := by
  rw [ofText_eq, map_eq_ok] at interpreted
  obtain ⟨found, whole, same⟩ := interpreted
  cases same
  exact ⟨whole, rfl⟩

theorem roster_after {state after : Resolution} {rule : StartRule} {text : String}
    {result : Interpretation} (interpreted : state.ofText rule text = .ok (after, result)) :
    (∀ instrument ∈ Interpretation.instrumentsOf rule text, instrument.Scripted) ∧
      after.roster = state.roster.afterCalls (Interpretation.instrumentsOf rule text) := by
  obtain ⟨whole, roster⟩ := ofText_ok interpreted
  obtain ⟨called, resolved⟩ := Interpretation.ofText_ok whole
  rw [Roster.resolveAll_called called] at resolved
  simp only [Except.ok.injEq, Prod.mk.injEq] at resolved
  refine ⟨?_, roster.trans resolved.1.symm⟩
  simp only [Interpretation.ofText, bind_eq_ok, mapError_eq_ok] at whole
  obtain ⟨score, read, whole⟩ := whole
  have other : rule ≠ .musicData := by
    rintro rfl
    have built := read_ok_iff.mp read
    simp only [build, musicElement, bind_eq_ok, pure_eq_ok] at built
    obtain ⟨_, -, _, -, rfl⟩ := built
    cases whole
  exact Interpretation.scripted_instrumentsOf other read

theorem Reached.sound {state : Resolution} (reached : Reached state) :
    state.roster.Within (fun name => ∃ text, name = .text text) ∧
      ∃ calls history, Roster.Numbered state.roster calls history := by
  induction reached with
  | start => exact ⟨.start _, [], [], .start⟩
  | after before interpreted ih =>
    obtain ⟨known, calls, history, numbered⟩ := ih
    obtain ⟨scripted, roster⟩ := roster_after interpreted
    rw [roster]
    exact ⟨(known.calls fun instrument member => (scripted instrument member).texts).1, _, _,
      numbered.run fun instrument member => (scripted instrument member).called⟩

variable {state : Resolution} {rule : StartRule} {text : String}

/-- From a state that comes from texts, interpreting a text fails with the error of reading it, or
not at all. Nothing is missing on the way from the tokens of the text to its elements. Every call of
the text becomes an instrument with somebody to play it, and all of these have a part. -/
theorem ofText_fails_unread (reached : Reached state) (other : rule ≠ .musicData) :
    (∃ fault, (TokenTree.ofText rule text).element = .error (.fault fault) ∧
      state.ofText rule text = .error (.unread (fault.toError.locate text))) ∨
    ∃ score after result instruments, (TokenTree.ofText rule text).element = .ok score ∧
      Element.read rule text = .ok score ∧ state.ofText rule text = .ok (after, result) ∧
      result.score = .plain .score instruments ∧
      instruments.length = (Document.ofText (rule = .score) text).parts.length ∧
      ∀ instrument ∈ instruments, ∃ inst others music,
        instrument = .plain .instrument (Roster.tracks (inst :: others) :: music) ∧
        ∀ player ∈ inst :: others, ∃ form, (player.datum, form) ∈ result.parts := by
  cases built : build rule text with
  | error fault =>
    left
    refine ⟨fault, by rw [element_ofText, built, mapError_error], ?_⟩
    rw [ofText, Element.read, built]
    rfl
  | ok score =>
    right
    have read := read_ok_iff.mpr built
    obtain ⟨known, calls, history, numbered⟩ := reached.sound
    have called : ∀ instrument ∈ Interpretation.instrumentsOf rule text, instrument.WellCalled :=
      fun instrument member =>
        (Interpretation.scripted_instrumentsOf other read instrument member).called
    have interpreted := Interpretation.ofText_read known other read
    refine ⟨score, _, _, state.roster.cast (Interpretation.instrumentsOf rule text),
      by rw [element_ofText, built, mapError_ok], read,
      by rw [ofText_eq, interpreted]; rfl, rfl, ?_, fun instrument member => ?_⟩
    · rw [Roster.length_cast, Interpretation.length_instrumentsOf other read]
    · obtain ⟨inst, others, music, begins⟩ := Roster.begins_cast numbered called instrument member
      refine ⟨inst, others, music, begins, fun player within => ?_⟩
      apply Interpretation.mem_parts_ofResolved
      refine List.mem_flatMap.mpr ⟨instrument, member, ?_⟩
      rw [begins, players_of_begins rfl]
      exact within

def meAndYou : String × String := ("piano \"me\": c", "(volume 50) me/violin: d~ # both")

theorem meAndYou_succeeds : ∃ state after result instruments, Reached state ∧
    state.ofText .score meAndYou.2 = .ok (after, result) ∧
    result.score = .plain .score instruments ∧
    instruments.length = (Document.ofText true meAndYou.2).parts.length ∧
    ∀ instrument ∈ instruments, ∃ inst others music,
      instrument = .plain .instrument (Roster.tracks (inst :: others) :: music) ∧
      ∀ player ∈ inst :: others, ∃ form, (player.datum, form) ∈ result.parts := by
  have succeed : [meAndYou.1, meAndYou.2].all fun text => (build .score text).toBool := by
    decide +kernel
  have readable : ∀ text ∈ [meAndYou.1, meAndYou.2], ∀ fault,
      (TokenTree.ofText .score text).element ≠ .error (.fault fault) := by
    intro text member fault failed
    have here := List.all_eq_true.mp succeed text member
    rw [element_ofText] at failed
    cases built : build .score text with
    | ok score => simp [built, mapError_ok] at failed
    | error fault => simp [built, Except.toBool] at here
  rcases ofText_fails_unread .start (by decide : StartRule.score ≠ .musicData) with
    ⟨fault, failed, -⟩ | ⟨_, state, _, _, -, -, first, -⟩
  · exact absurd failed (readable meAndYou.1 (by simp) fault)
  · have reached : Reached state := .after .start first
    rcases ofText_fails_unread reached (by decide : StartRule.score ≠ .musicData) with
      ⟨fault, failed, -⟩ | ⟨_, after, result, instruments, -, -, second, whole⟩
    · exact absurd failed (readable meAndYou.2 (by simp) fault)
    · exact ⟨state, after, result, instruments, reached, second, whole⟩

end Resolution

end Partbook
