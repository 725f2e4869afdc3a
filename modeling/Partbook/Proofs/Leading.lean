import Partbook.Proofs.Failures

/-!
Global attributes at work. All changes before the first call become one event, which leads the music
of the first instrument. Whoever plays that instrument has this event before all others, and nothing
else is different.
-/
namespace Partbook

open Source Element

namespace Element

/-! ## Leading an instrument -/

def led (instrument event : Element) : Element :=
  instrument.withChildren (leadWith event instrument.children)

variable {event instrument : Element}

theorem eventsOf_led (instrument event : Element) :
    Parts.eventsOf (instrument.led event) = event :: Parts.eventsOf instrument := by
  have below (elements : List Element) :
      ((leadWith event elements).filter (·.isA (.plain .musicData))).flatMap children =
        event :: (elements.filter (·.isA (.plain .musicData))).flatMap children := by
    induction elements with
    | nil => rfl
    | cons element elements ih =>
      rw [leadWith]
      split
      · rename_i music
        rw [List.filter_cons, isA_withChildren, if_pos music, List.filter_cons, if_pos music]
        rfl
      · rename_i other
        simpa [other] using ih
  exact below instrument.children

theorem WellCalled.children_led (called : instrument.WellCalled) (event : Element) :
    ∃ call music, instrument.children = call :: music ∧
      (instrument.led event).children = call :: Element.leadWith event music := by
  obtain ⟨call, music, text, begins, kind, -⟩ := called.called
  have children : (instrument.led event).children =
      Element.leadWith event instrument.children := rfl
  exact ⟨call, music, begins, by rw [children, begins, leadWith_call kind]⟩

theorem WellCalled.callFor_led (called : instrument.WellCalled) (event : Element)
    (roster : Roster) : roster.callFor (instrument.led event) = roster.callFor instrument := by
  obtain ⟨call, music, begins, led⟩ := called.children_led event
  simp only [Roster.callFor, calledNickname, calledNicknames, calledNames, begins, led,
    List.head?_cons, Option.elim_some]

theorem WellCalled.cast_led (called : instrument.WellCalled) (event : Element) (roster : Roster)
    (others : List Element) :
    roster.afterCalls (instrument.led event :: others) =
        roster.afterCalls (instrument :: others) ∧
      roster.cast (instrument.led event :: others) =
        (instrument.led event).withPlayers (roster.callFor instrument).2 ::
          (roster.callFor instrument).1.cast others := by
  have call := called.callFor_led event roster
  constructor
  · rw [Roster.afterCalls, Roster.afterCalls, List.foldl_cons, List.foldl_cons, call]
  · rw [Roster.cast, call]

theorem Scripted.led (scripted : instrument.Scripted) (spelled : event.isSpelled) :
    (instrument.led event).Scripted where
  kind := scripted.kind
  called := scripted.called.leadWith (isNotated_of_isSpelled spelled)
  spelled := isSpelled_withChildren scripted.spelled
    (isSpelled_leadWith spelled (isSpelled_children scripted.spelled))

/-! ## Scores that begin with changes -/

def opened (changes instruments : List Element) : Element :=
  plain .score ((if changes.isEmpty then [] else [plain .globalAttributes changes]) ++ instruments)

variable {changes instruments : List Element}

theorem forgetOrigins_opened (changes instruments : List Element) :
    (opened changes instruments).forgetOrigins =
      opened (changes.map forgetOrigins) (instruments.map forgetOrigins) := by
  cases changes with
  | nil => exact forgetOrigins_plain _ _
  | cons change changes =>
    show (plain .score (plain .globalAttributes (change :: changes) :: instruments)).forgetOrigins =
      plain .score (plain .globalAttributes ((change :: changes).map forgetOrigins) ::
        instruments.map forgetOrigins)
    rw [forgetOrigins_plain, List.map_cons, forgetOrigins_plain]

theorem kind_of_partElements {parts : List Part} (built : partElements parts = .ok instruments) :
    ∀ instrument ∈ instruments, instrument.kind = .plain .instrument := by
  intro instrument member
  obtain ⟨part, -, here⟩ := exists_part_of_mem built instrument member
  obtain ⟨origin, music, -, rfl⟩ := Part.element_ok here
  rfl

theorem exists_opened {keep : Bool} {text : String} {score : Element}
    (read : readAs .score keep text = .ok score) :
    ∃ changes instruments, score = opened changes instruments ∧
      ∀ instrument ∈ instruments, instrument.kind = .plain .instrument := by
  obtain ⟨built, whole, rfl⟩ := readAs_ok_iff.mp read
  simp only [build, Document.scoreElement, bind_eq_ok, pure_eq_ok] at whole
  obtain ⟨changes, -, instruments, parts, _, -, rfl⟩ := whole
  have kind := kind_of_partElements parts
  cases keep
  · refine ⟨_, _, forgetOrigins_opened changes instruments, ?_⟩
    rw [List.forall_mem_map]
    exact fun instrument member => (kind_forgetOrigins instrument).trans (kind instrument member)
  · exact ⟨changes, instruments, rfl, kind⟩

theorem instruments_opened
    (kind : ∀ instrument ∈ instruments, instrument.kind = .plain .instrument) :
    (opened changes instruments).childrenOf (.plain .instrument) = instruments := by
  have all := filter_of_instruments kind
  cases changes with
  | nil => exact all
  | cons change changes =>
    have other : ¬ (plain .globalAttributes (change :: changes)).isA (.plain .instrument) := nofun
    show (plain .globalAttributes (change :: changes) :: instruments).filter _ = _
    rw [List.filter_cons, if_neg other, all]

theorem globals_opened {globals : Element}
    (kind : ∀ instrument ∈ instruments, instrument.kind = .plain .instrument)
    (given : globals ∈ (opened changes instruments).childrenOf (.plain .globalAttributes)) :
    changes ≠ [] ∧ globals = plain .globalAttributes changes := by
  obtain ⟨within, isGlobals⟩ := List.mem_filter.mp given
  rcases List.mem_append.mp within with opening | instrument
  · cases changes with
    | nil => simp at opening
    | cons change changes => exact ⟨by simp, List.mem_singleton.mp opening⟩
  · rw [isA, kind globals instrument] at isGlobals
    cases isGlobals

theorem hoistGlobals_opened {first : Element} (isInstrument : first.kind = .plain .instrument)
    (nonempty : changes ≠ []) (others : List Element) :
    (opened changes (first :: others)).hoistGlobals =
      plain .score (first.led (plain .attributeChanges changes) :: others) := by
  have here : first.isA (.plain .instrument) = true := by
    rw [isA, isInstrument]
    rfl
  have children : (opened changes (first :: others)).children =
      plain .globalAttributes changes :: first :: others := by
    rw [opened, if_neg (by simpa using nonempty)]
    rfl
  have move : moveGlobals (plain .globalAttributes changes :: first :: others) =
      (leadFirst? (plain .attributeChanges changes) (first :: others)).getD
        (plain .globalAttributes changes :: first :: others) := rfl
  rw [hoistGlobals, children, move, leadFirst?, if_pos here]
  rfl

end Element

/-! ## Who plays what -/

namespace Form

def ofPart (inst : Instance) (events : List Form) : Form :=
  .apply (.symbol "part") (.atom inst.name :: .atom (.int inst.number) :: events)

/-- The part of an instance in one score, and in another in which the group plays the event before
anything else. -/
def PartLed (group : List Instance) (event : Form) (part other : Datum × Form) : Prop :=
  ∃ inst events events', part = (inst.datum, ofPart inst events) ∧
    other = (inst.datum, ofPart inst events') ∧
    (inst ∉ group → events' = events) ∧
    (group.Nodup → inst ∈ group → events' = event :: events)

end Form

theorem played_led {group : List Instance} {inst : Instance} (event : Form) (events : List Form)
    (later : List (Datum × List Form)) :
    let before := playedBy inst.datum (turnsOf group events ++ later)
    let after := playedBy inst.datum (turnsOf group (event :: events) ++ later)
    (inst ∉ group → after = before) ∧ (group.Nodup → inst ∈ group → after = event :: before) := by
  simp only [playedBy_append, playedBy_turnsOf]
  constructor
  · intro absent
    rw [List.count_eq_zero_of_not_mem absent, List.replicate_zero, List.replicate_zero]
  · intro distinct member
    rw [List.count_eq_one_of_mem distinct member]
    simp

namespace Interpretation

theorem parts_ofResolved (after : Roster) (instruments : List Element) :
    (ofResolved after instruments).parts =
      (Roster.playersOf instruments).eraseDups.map fun inst => (inst.datum,
        Form.ofPart inst (playedBy inst.datum (formed (instruments.flatMap Parts.turnsIn)))) := by
  have injective : ∀ inst other : Instance, inst.datum = other.datum → inst = other :=
    fun _ _ => Instance.datum_injective
  rw [ofResolved, gather, players_formed, Parts.players_turnsIn, eraseDups_map injective,
    List.map_map, List.map_map]
  rfl

theorem playersOf_cast_led {roster : Roster} {event first : Element} (called : first.WellCalled)
    (others : List Element) : Roster.playersOf (roster.cast (first.led event :: others)) =
      Roster.playersOf (roster.cast (first :: others)) := by
  rw [Roster.playersOf_cast_cons, Roster.playersOf_cast_cons, called.callFor_led]

theorem mem_parts_led {roster : Roster} {event first : Element} (called : first.WellCalled)
    (others : List Element) (after after' : Roster) {inst : Instance}
    (member : inst ∈ (roster.callFor first).2) :
    (∃ form, (inst.datum, form) ∈ (ofResolved after (roster.cast (first :: others))).parts) ∧
      ∃ form, (inst.datum, form) ∈
        (ofResolved after' (roster.cast (first.led event :: others))).parts := by
  have player : inst ∈ Roster.playersOf (roster.cast (first :: others)) := by
    rw [Roster.playersOf_cast_cons]
    exact List.mem_append_left _ member
  exact ⟨mem_parts_ofResolved player,
    mem_parts_ofResolved ((playersOf_cast_led called others).symm ▸ player)⟩

theorem parts_led {roster : Roster} {event first : Element} {form : Form}
    (projected : Form.ofElement event = .ok form) (spelled : event.isSpelled)
    (scripted : first.Scripted) (others : List Element) (after after' : Roster) :
    List.Forall₂ (Form.PartLed (roster.callFor first).2 form)
      (ofResolved after (roster.cast (first :: others))).parts
      (ofResolved after' (roster.cast (first.led event :: others))).parts := by
  let group := (roster.callFor first).2
  let later := formed (((roster.callFor first).1.cast others).flatMap Parts.turnsIn)
  have events := scripted.events
  have led := scripted.led spelled
  obtain ⟨-, castLed⟩ := scripted.called.cast_led event roster others
  have head : Form.formsOf [event] = [form] := by
    rw [Form.formsOf, Form.ofElements, projected]
    rfl
  -- the turns of the two scores differ in the first group only
  have turns : formed ((roster.cast (first :: others)).flatMap Parts.turnsIn) =
      turnsOf group (Form.formsOf (Parts.eventsOf first)) ++ later := by
    rw [Roster.cast, formed_flatMap, List.flatMap_cons, formed_turnsIn, Element.players_withPlayers,
      eventsOf_withPlayers scripted.called, ← formed_flatMap]
  have turnsLed : formed ((roster.cast (first.led event :: others)).flatMap Parts.turnsIn) =
      turnsOf group (form :: Form.formsOf (Parts.eventsOf first)) ++ later := by
    have forms := Form.formsOf_append (List.forall_mem_singleton.mpr spelled) events
    rw [head] at forms
    rw [castLed, formed_flatMap, List.flatMap_cons, formed_turnsIn, Element.players_withPlayers,
      eventsOf_withPlayers led.called, ← formed_flatMap, Element.eventsOf_led]
    exact congrArg (turnsOf group · ++ later) forms
  rw [parts_ofResolved, parts_ofResolved, playersOf_cast_led scripted.called, turns, turnsLed,
    List.forall₂_map_left_iff, List.forall₂_map_right_iff, List.forall₂_same]
  intro inst _
  exact ⟨inst, _, _, rfl, rfl, played_led form _ later⟩

end Interpretation

namespace Resolution

/-- A score with global attributes, and the score of its instruments alone, from any state that
comes from texts. Both leave the same roster and have the same tracks. The changes are one more
event, before all others, in the parts of those who play the first instrument, all of whom have
parts, and no other part knows of them. -/
theorem globals_lead_first {keep : Bool} {text : String} {score globals : Element}
    {state : Resolution} (reached : state.Reached) (read : readAs .score keep text = .ok score)
    (given : globals ∈ score.childrenOf (.plain .globalAttributes))
    (called : score.childrenOf (.plain .instrument) ≠ []) :
    ∃ changes led ledResult bare bareResult group music ledMusic others,
      Form.ofElements globals.children = .ok changes ∧
      state.ofScore score = .ok (led, ledResult) ∧
      state.ofScore (.plain .score (score.childrenOf (.plain .instrument))) =
        .ok (bare, bareResult) ∧
      led.roster = bare.roster ∧
      ledResult.score =
        .plain .score (.plain .instrument (Roster.tracks group :: ledMusic) :: others) ∧
      bareResult.score =
        .plain .score (.plain .instrument (Roster.tracks group :: music) :: others) ∧
      List.Forall₂ (Form.PartLed group (.apply (.symbol "attribute-changes") changes))
        bareResult.parts ledResult.parts ∧
      group ≠ [] ∧ ∀ inst ∈ group, (∃ form, (inst.datum, form) ∈ bareResult.parts) ∧
        ∃ form, (inst.datum, form) ∈ ledResult.parts := by
  obtain ⟨changes, instruments, rfl, kind⟩ := exists_opened read
  obtain ⟨nonempty, rfl⟩ := globals_opened kind given
  have scripted := scripted_of_readAs read rfl
  rw [instruments_opened kind] at called scripted ⊢
  obtain ⟨first, others, rfl⟩ := List.exists_cons_of_ne_nil called
  obtain ⟨known, calls, history, numbered⟩ := reached.sound
  have whole := isSpelled_of_readAs read
  have each : ∀ change ∈ changes, change.isSpelled :=
    isSpelled_children (isSpelled_children whole _ (List.mem_filter.mp given).1)
  have change : (plain .attributeChanges changes).isSpelled := isSpelled_plain rfl each
  have forms := Form.ofElements_of_isSpelled each
  have projected : Form.ofElement (plain .attributeChanges changes) =
      .ok (.apply (.symbol "attribute-changes") (Form.formsOf changes)) := by
    simp only [plain, Form.ofElement, forms]
    rfl
  have firstScripted := scripted first List.mem_cons_self
  have moved := hoist_of_isSpelled whole
  rw [hoistGlobals_opened firstScripted.kind nonempty] at moved
  have led := Interpretation.ofScore_moved known moved
    (List.forall_mem_cons.mpr ⟨firstScripted.led change, (List.forall_mem_cons.mp scripted).2⟩)
  have bare := Interpretation.ofScore_scripted known scripted
  obtain ⟨sameRoster, tracks⟩ :=
    firstScripted.called.cast_led (plain .attributeChanges changes) state.roster others
  have somebody : (state.roster.callFor first).2 ≠ [] :=
    numbered.call_ne_nil firstScripted.called.named first.calledNickname
  exact ⟨_, _, _, _, _, _, _, _, _, forms, by rw [ofScore_eq, led]; rfl,
    by rw [ofScore_eq, bare]; rfl, sameRoster, congrArg (plain .score) tracks, rfl,
    Interpretation.parts_led projected change firstScripted others _ _, somebody,
    fun _ member => Interpretation.mem_parts_led firstScripted.called others _ _ member⟩

def tempoAndVolume : String := "(tempo 90)\n(vol! 5, key g) piano/cello:\nviolin/piano: c"

theorem globals_lead_tempoAndVolume : ∃ score globals changes led ledResult bare bareResult group
    music ledMusic others, readAs .score false tempoAndVolume = .ok score ∧
      score.childrenOf (.plain .globalAttributes) = [globals] ∧
      Form.ofElements globals.children = .ok changes ∧ changes.length = 3 ∧
      Resolution.ofScore {} score = .ok (led, ledResult) ∧
      Resolution.ofScore {} (.plain .score (score.childrenOf (.plain .instrument))) =
        .ok (bare, bareResult) ∧
      led.roster = bare.roster ∧
      ledResult.score =
        .plain .score (.plain .instrument (Roster.tracks group :: ledMusic) :: others) ∧
      bareResult.score =
        .plain .score (.plain .instrument (Roster.tracks group :: music) :: others) ∧
      List.Forall₂ (Form.PartLed group (.apply (.symbol "attribute-changes") changes))
        bareResult.parts ledResult.parts ∧
      group ≠ [] ∧ ∀ inst ∈ group, (∃ form, (inst.datum, form) ∈ bareResult.parts) ∧
        ∃ form, (inst.datum, form) ∈ ledResult.parts := by
  have counted : ((readAs .score false tempoAndVolume).toOption.map fun score =>
      ((score.childrenOf (.plain .globalAttributes)).map fun globals =>
          (Form.ofElements globals.children).toOption.map List.length,
        (score.childrenOf (.plain .instrument)).length)) = some ([some 3], 2) := by
    decide +kernel
  obtain ⟨score, found, counts⟩ := Option.map_eq_some_iff.mp counted
  have read := toOption_eq_some.mp found
  simp only [Prod.mk.injEq] at counts
  obtain ⟨globals, only, three⟩ := List.map_eq_singleton_iff.mp counts.1
  have called : score.childrenOf (.plain .instrument) ≠ [] := by
    intro none
    simp [none] at counts
  have given : globals ∈ score.childrenOf (.plain .globalAttributes) := by simp [only]
  obtain ⟨changes, led, ledResult, bare, bareResult, group, music, ledMusic, others, forms, rest⟩ :=
    globals_lead_first .start read given called
  refine ⟨score, globals, changes, led, ledResult, bare, bareResult, group, music, ledMusic, others,
    read, only, forms, ?_, rest⟩
  rw [forms] at three
  exact Option.some.inj three

end Resolution

end Partbook
