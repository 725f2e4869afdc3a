import Partbook.Proofs.Leading
import Partbook.Proofs.Writing.Scores

/-!
Moving global attributes as a change of the text. What is written of a score with its changes moved
is read as that score, has nothing left to move, and is interpreted as the text before it was.
-/
namespace Partbook

open Text Source Element Grammar

namespace Element

variable {event : Element}

/-! ## Origins -/

theorem map_leadWith (event : Element) (elements : List Element) :
    (leadWith event elements).map forgetOrigins =
      leadWith event.forgetOrigins (elements.map forgetOrigins) := by
  induction elements with
  | nil =>
    show [(plain .musicData [event]).forgetOrigins] = _
    rw [forgetOrigins_plain]
    rfl
  | cons element elements ih =>
    rw [leadWith, List.map_cons, leadWith, isA_forgetOrigins]
    split
    · rw [List.map_cons, forgetOrigins_withChildren, List.map_cons, children_forgetOrigins]
    · rw [List.map_cons, ih]

theorem forgetOrigins_led (instrument event : Element) :
    (instrument.led event).forgetOrigins = instrument.forgetOrigins.led event.forgetOrigins := by
  rw [led, led, forgetOrigins_withChildren, map_leadWith, children_forgetOrigins]

theorem map_leadFirst? (event : Element) (elements : List Element) :
    (leadFirst? event elements).map (List.map forgetOrigins) =
      leadFirst? event.forgetOrigins (elements.map forgetOrigins) := by
  induction elements with
  | nil => rfl
  | cons element elements ih =>
    rw [leadFirst?, List.map_cons, leadFirst?, isA_forgetOrigins]
    split
    · exact congrArg some (congrArg (· :: _) (forgetOrigins_led element event))
    · rw [← ih, Option.map_map, Option.map_map]
      rfl

theorem map_moveGlobals (elements : List Element) :
    (moveGlobals elements).map forgetOrigins = moveGlobals (elements.map forgetOrigins) := by
  cases elements with
  | nil => rfl
  | cons first rest =>
    rw [moveGlobals, List.map_cons, moveGlobals, isA_forgetOrigins]
    split
    · have moved := map_leadFirst? (plain .attributeChanges first.children) rest
      rw [forgetOrigins_plain] at moved
      rw [children_forgetOrigins, ← moved]
      cases leadFirst? (plain .attributeChanges first.children) rest <;> rfl
    · rfl

theorem forgetOrigins_hoistGlobals (score : Element) :
    score.hoistGlobals.forgetOrigins = score.forgetOrigins.hoistGlobals := by
  rw [hoistGlobals, hoistGlobals, forgetOrigins_plain, map_moveGlobals, children_forgetOrigins]

/-! ## Moving once -/

theorem hoistGlobals_of_instruments {instruments : List Element}
    (kind : ∀ instrument ∈ instruments, instrument.kind = .plain .instrument) :
    (plain .score instruments).hoistGlobals = plain .score instruments :=
  congrArg (plain .score) (moveGlobals_of_instruments kind)

theorem hoistGlobals_of_still {changes instruments : List Element}
    (kind : ∀ instrument ∈ instruments, instrument.kind = .plain .instrument)
    (still : changes = [] ∨ instruments = []) :
    (opened changes instruments).hoistGlobals = opened changes instruments := by
  rcases still with rfl | rfl
  · exact hoistGlobals_of_instruments kind
  · cases changes <;> rfl

theorem hoistGlobals_idem {changes instruments : List Element}
    (kind : ∀ instrument ∈ instruments, instrument.kind = .plain .instrument) :
    (opened changes instruments).hoistGlobals.hoistGlobals =
      (opened changes instruments).hoistGlobals := by
  by_cases still : changes = [] ∨ instruments = []
  · rw [hoistGlobals_of_still kind still, hoistGlobals_of_still kind still]
  · rw [not_or] at still
    obtain ⟨first, others, rfl⟩ := List.exists_cons_of_ne_nil still.2
    rw [List.forall_mem_cons] at kind
    rw [hoistGlobals_opened kind.1 still.1]
    exact hoistGlobals_of_instruments (List.forall_mem_cons.mpr kind)

end Element

/-! ## Changes in music -/

namespace Grammar

variable {changes events : List Element}

theorem Music.lead (each : ∀ change ∈ changes, IsChange change)
    (music : Music (String.ofList (eventsWritten events)) events) :
    Music (String.ofList (eventsWritten (plain .attributeChanges changes :: events)))
      (plain .attributeChanges changes :: events) := by
  obtain ⟨tokens, lexed, phrased⟩ := music
  rw [String.toList_ofList] at lexed
  have first (more : List Char) : Event ((plain .attributeChanges changes).written ++ more)
      (plain .attributeChanges changes) more := by
    rw [written_changes, List.cons_append, List.append_assoc]
    exact .changes (changes_again each more)
  refine ⟨.event (plain .attributeChanges changes) :: tokens, ?_, .event phrased⟩
  rw [String.toList_ofList, eventsWritten, writtenAll_cons]
  exact .event (first _) lexed.behind_blank

end Grammar

theorem Rewritten.led {changes : List Element} {instrument : Element}
    (each : ∀ change ∈ changes.map forgetOrigins, IsChange change)
    (rewritten : Rewritten instrument) :
    Rewritten (instrument.led (plain .attributeChanges changes)) := by
  obtain ⟨line, events, tidy, music, same⟩ := rewritten
  refine ⟨line, _, tidy, music.lead each, ?_⟩
  rw [forgetOrigins_led, forgetOrigins_plain, same]
  rfl

theorem hoisted_again {text : String} {score : Element} (built : build .score text = .ok score) :
    ∃ again, build .score (String.ofList score.hoistGlobals.forgetOrigins.written) = .ok again ∧
      again.forgetOrigins = score.hoistGlobals.forgetOrigins := by
  have whole := built
  simp only [build, Document.scoreElement, bind_eq_ok, pure_eq_ok] at built
  obtain ⟨changes, globals, instruments, parts, _, -, rfl⟩ := built
  have rewritten := rewritten_of_parts (read_parts true text) parts
  have each := isChange_of_globals (read_changes true text) globals
  have kind := kind_of_partElements parts
  have shape : plain .score ((if changes.isEmpty then [] else [plain .globalAttributes changes]) ++
      instruments) = opened changes instruments := rfl
  rw [shape] at whole ⊢
  by_cases still : changes = [] ∨ instruments = []
  · rw [hoistGlobals_of_still kind still]
    exact score_again whole
  · rw [not_or] at still
    obtain ⟨first, others, rfl⟩ := List.exists_cons_of_ne_nil still.2
    rw [List.forall_mem_cons] at kind rewritten
    rw [hoistGlobals_opened kind.1 still.1]
    obtain ⟨passages, restored⟩ := exists_restoredAll
      (List.forall_mem_cons.mpr ⟨rewritten.1.led each, rewritten.2⟩)
    obtain ⟨noPrelude, again, read, -, same⟩ := instruments_again restored true
    exact ⟨_, build_score_of_parts noPrelude read, same⟩

/-! ## Interpreting -/

namespace Interpretation

theorem ofText_congr {roster : Roster}
    (known : roster.Within fun name => ∃ text, name = .text text) {text other : String}
    {score again : Element} (read : Element.read .score text = .ok score)
    (readAgain : Element.read .score other = .ok again)
    (same : again.hoistGlobals.forgetOrigins = score.hoistGlobals.forgetOrigins) :
    ∃ result result', ofText roster .score text = .ok result ∧
      ofText roster .score other = .ok result' ∧ result'.roster = result.roster ∧
      result'.parts = result.parts := by
  have instruments : (instrumentsOf .score other).map forgetOrigins =
      (instrumentsOf .score text).map forgetOrigins := by
    rw [instrumentsOf, instrumentsOf, read, readAgain, ← childrenOf_forgetOrigins,
      ← childrenOf_forgetOrigins, same]
  obtain ⟨sameRoster, tracks⟩ := cast_congr instruments roster
  refine ⟨_, _, ofText_read known (by simp) read, ofText_read known (by simp) readAgain,
    sameRoster, ?_⟩
  rw [ofResolved, ofResolved, formed_turns_congr tracks]

end Interpretation

namespace Resolution

/-- The score of a text with its global attributes moved into the music has nothing more to move. It
can be written, and what is written is read as the same score. From any state that comes from texts,
what is written leaves the same roster as the text, and has the same parts. -/
theorem hoist_preserves {keep : Bool} {text : String} {score : Element}
    (read : readAs .score keep text = .ok score) (keepAgain : Bool) :
    ∃ hoisted written again, score.hoist = .ok hoisted ∧ hoisted.write = .ok written ∧
      readAs .score keepAgain written = .ok again ∧ again.same hoisted ∧
      hoisted.hoist = .ok hoisted ∧
      ∀ state, Reached state → ∃ after result after' result',
        state.ofText .score text = .ok (after, result) ∧
        state.ofText .score written = .ok (after', result') ∧
        after'.roster = after.roster ∧ result'.parts = result.parts := by
  obtain ⟨built, whole, -⟩ := readAs_ok_iff.mp read
  obtain ⟨changes, instruments, rfl, kind⟩ := exists_opened read
  have spelled := isSpelled_of_readAs read
  have alike : (opened changes instruments).hoistGlobals.forgetOrigins =
      built.hoistGlobals.forgetOrigins := by
    rw [forgetOrigins_hoistGlobals, forgetOrigins_readAs read whole, forgetOrigins_hoistGlobals]
  obtain ⟨rebuilt, wholeAgain, alikeAgain⟩ := hoisted_again whole
  obtain ⟨again, readAgain, same⟩ := exists_readAs wholeAgain keepAgain
  have written : (opened changes instruments).hoistGlobals.write =
      .ok (String.ofList built.hoistGlobals.forgetOrigins.written) := by
    rw [← write_forgetOrigins, alike]
    exact write_of_isSpelled (isSpelled_forgetOrigins
      (isSpelled_hoistGlobals (isSpelled_of_build whole)))
  refine ⟨_, _, again, hoist_of_isSpelled spelled, written, readAgain,
    same_of_forgetOrigins (by rw [same, alikeAgain, alike]), ?_, fun state reached => ?_⟩
  · rw [hoist_of_isSpelled (isSpelled_hoistGlobals spelled), hoistGlobals_idem kind]
  · have moved : rebuilt.hoistGlobals.forgetOrigins = built.hoistGlobals.forgetOrigins := by
      rw [forgetOrigins_hoistGlobals, alikeAgain, ← alike, ← forgetOrigins_hoistGlobals,
        hoistGlobals_idem kind]
    obtain ⟨result, result', here, there, roster, parts⟩ := Interpretation.ofText_congr
      reached.sound.1 (read_ok_iff.mpr whole) (read_ok_iff.mpr wholeAgain) moved
    exact ⟨_, result, _, result', by rw [ofText_eq, here]; rfl, by rw [ofText_eq, there]; rfl,
      roster, parts⟩

theorem hoist_preserves_duo : ∃ score hoisted written again,
    readAs .score true "(tempo 90)\n( vol! 5,key g) violin/cello \"duo\"  :\nviola: c # end" =
        .ok score ∧
      score.hoist = .ok hoisted ∧ hoisted.write = .ok written ∧
      written = "violin/cello \"duo\": (tempo 90, vol! 5, key g)\nviola: c" ∧
      readAs .score false written = .ok again ∧ again.same hoisted ∧
      hoisted.hoist = .ok hoisted ∧
      ∃ after result after' result',
        Resolution.ofText {} .score
          "(tempo 90)\n( vol! 5,key g) violin/cello \"duo\"  :\nviola: c # end" =
            .ok (after, result) ∧
        Resolution.ofText {} .score written = .ok (after', result') ∧
        after'.roster = after.roster ∧ result'.parts = result.parts := by
  have shown : ((readAs .score true
      "(tempo 90)\n( vol! 5,key g) violin/cello \"duo\"  :\nviola: c # end").toOption.bind
        fun score => score.hoist.toOption.bind fun hoisted => hoisted.write.toOption) =
      some "violin/cello \"duo\": (tempo 90, vol! 5, key g)\nviola: c" := by
    decide +kernel
  obtain ⟨score, read, shown⟩ := Option.bind_eq_some_iff.mp shown
  obtain ⟨moved, hoists, wrote⟩ := Option.bind_eq_some_iff.mp shown
  rw [toOption_eq_some] at read hoists wrote
  obtain ⟨hoisted, written, again, hoist, writes, readAgain, same, once, each⟩ :=
    hoist_preserves read false
  cases hoists.symm.trans hoist
  cases wrote.symm.trans writes
  exact ⟨score, moved, _, again, read, hoist, writes, rfl, readAgain, same, once, each {} .start⟩

end Resolution

end Partbook
