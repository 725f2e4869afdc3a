import Partbook.Proofs.Interpretation
import Partbook.Proofs.Roster.Scores

namespace Partbook

open Source

namespace Element

/-- An instrument as texts give it: it begins with a proper call, and all of it is spelled out. -/
structure Scripted (instrument : Element) : Prop where
  kind : instrument.kind = .plain .instrument
  called : instrument.WellCalled
  spelled : instrument.isSpelled

theorem kind_of_isA_instrument {element : Element}
    (isInstrument : element.isA (.plain .instrument)) : element.kind = .plain .instrument := by
  rw [isA] at isInstrument
  cases kind : element.kind with
  | plain other =>
    cases other <;> first | rfl | simp [kind, Kind.isA, Kind.ancestry] at isInstrument
  | text other => cases other <;> simp [kind, Kind.isA, Kind.ancestry] at isInstrument

theorem head_of_isSpelled {element : Element} (spelled : element.isSpelled) {head : Datum}
    (found : element.head? = some head) : ∃ text, head = .text text := by
  obtain ⟨label, origin, children⟩ := element
  have spelledLabel := (isSpelled_iff.mp spelled).1
  cases label with
  | plain kind => cases found
  | text kind datum =>
    cases found
    cases head with
    | text s => exact ⟨s, rfl⟩
    | _ => cases kind <;> cases spelledLabel

@[simp] theorem isA_forgetOrigins (element : Element) (kind : Kind) :
    element.forgetOrigins.isA kind = element.isA kind := by
  rw [isA, isA, kind_forgetOrigins]

@[simp] theorem head?_forgetOrigins (element : Element) :
    element.forgetOrigins.head? = element.head? := by
  obtain ⟨label, origin, children⟩ := element
  rw [forgetOrigins_node]
  rfl

theorem headsOf_forgetOrigins (element : Element) (kind : TextKind) :
    Roster.headsOf element.forgetOrigins kind = Roster.headsOf element kind := by
  simp only [Roster.headsOf, childrenOf, children_forgetOrigins, List.filter_map,
    List.filterMap_map, Function.comp_def, isA_forgetOrigins, head?_forgetOrigins]

theorem calledNames_forgetOrigins (instrument : Element) :
    instrument.forgetOrigins.calledNames = instrument.calledNames := by
  rw [calledNames, calledNames, children_forgetOrigins]
  cases instrument.children with
  | nil => rfl
  | cons call music => exact headsOf_forgetOrigins call .name

theorem calledNicknames_forgetOrigins (instrument : Element) :
    instrument.forgetOrigins.calledNicknames = instrument.calledNicknames := by
  rw [calledNicknames, calledNicknames, children_forgetOrigins]
  cases instrument.children with
  | nil => rfl
  | cons call music => exact headsOf_forgetOrigins call .nickname

theorem childrenOf_forgetOrigins (element : Element) (kind : Kind) :
    element.forgetOrigins.childrenOf kind = (element.childrenOf kind).map forgetOrigins := by
  simp only [childrenOf, children_forgetOrigins, List.filter_map, Function.comp_def,
    isA_forgetOrigins]

theorem players_forgetOrigins (instrument : Element) :
    instrument.forgetOrigins.players = instrument.players := by
  have same (track : Element) :
      Session.instance? track.forgetOrigins = Session.instance? track := by
    rw [Session.instance?, Session.instance?, Roster.instanceOf, Roster.instanceOf,
      head?_forgetOrigins]
  rw [players, players, children_forgetOrigins]
  cases instrument.children with
  | nil => rfl
  | cons first rest =>
    simp only [List.map_cons, List.head?_cons, Option.elim_some, children_forgetOrigins,
      List.filterMap_map, Function.comp_def, same]

namespace Scripted

variable {instrument : Element}

theorem texts (scripted : instrument.Scripted) :
    ∀ name ∈ instrument.calledNames, ∃ text, name = .text text := by
  intro name member
  obtain ⟨call, music, text, begins, -⟩ := scripted.called.called
  rw [calledNames, begins] at member
  obtain ⟨child, within, found⟩ := List.mem_filterMap.mp member
  have callSpelled := isSpelled_children scripted.spelled call (by simp [begins])
  exact head_of_isSpelled (isSpelled_children callSpelled child (List.mem_filter.mp within).1) found

theorem events (scripted : instrument.Scripted) :
    ∀ event ∈ Parts.eventsOf instrument, event.isSpelled := by
  intro event member
  obtain ⟨music, within, member⟩ := List.mem_flatMap.mp member
  exact isSpelled_children
    (isSpelled_children scripted.spelled music (List.mem_filter.mp within).1) event member

theorem forgetOrigins (scripted : instrument.Scripted) : instrument.forgetOrigins.Scripted := by
  have spelled := isSpelled_forgetOrigins scripted.spelled
  obtain ⟨call, music, text, begins, kind, -⟩ := scripted.called.called
  have children : instrument.forgetOrigins.children =
      call.forgetOrigins :: music.map Element.forgetOrigins := by
    rw [children_forgetOrigins, begins, List.map_cons]
  refine ⟨(kind_forgetOrigins _).trans scripted.kind,
    wellCalled_of_isSpelled spelled children ((kind_forgetOrigins call).trans kind) ?_ ?_, spelled⟩
  · rw [calledNames_forgetOrigins]
    exact scripted.called.named
  · rw [calledNicknames_forgetOrigins]
    exact scripted.called.nicknamed

end Scripted

/-! ## Scores that were read -/

theorem isSpelled_of_readAs {rule : StartRule} {keep : Bool} {text : String} {element : Element}
    (read : readAs rule keep text = .ok element) : element.isSpelled := by
  obtain ⟨built, whole, rfl⟩ := readAs_ok_iff.mp read
  have spelled := isSpelled_of_build whole
  cases keep
  · exact isSpelled_forgetOrigins spelled
  · exact spelled

theorem kind_of_readAs_score {keep : Bool} {text : String} {score : Element}
    (read : readAs .score keep text = .ok score) : score.kind = .plain .score := by
  obtain ⟨built, whole, rfl⟩ := readAs_ok_iff.mp read
  have kind := kind_of_read (by simp) (read_ok_iff.mpr whole)
  cases keep <;> simpa using kind

theorem scripted_of_readAs {rule : StartRule} {keep : Bool} {text : String} {score : Element}
    (read : readAs rule keep text = .ok score) (kind : score.kind = .plain .score) :
    ∀ instrument ∈ score.childrenOf (.plain .instrument), instrument.Scripted := by
  obtain ⟨built, whole, rfl⟩ := readAs_ok_iff.mp read
  have builtKind : built.kind = .plain .score := by
    cases keep
    · simpa using kind
    · exact kind
  have called := (wellCalledScore_of_read (read_ok_iff.mpr whole) builtKind).called
  have spelled := isSpelled_of_build whole
  have scripted : ∀ instrument ∈ built.childrenOf (.plain .instrument), instrument.Scripted := by
    intro instrument member
    obtain ⟨within, isInstrument⟩ := List.mem_filter.mp member
    exact ⟨kind_of_isA_instrument isInstrument, called instrument member,
      isSpelled_children spelled instrument within⟩
  cases keep
  · intro instrument member
    rw [if_neg (by simp), childrenOf_forgetOrigins] at member
    obtain ⟨original, within, rfl⟩ := List.mem_map.mp member
    exact (scripted original within).forgetOrigins
  · exact scripted

theorem scripted_of_read {rule : StartRule} {text : String} {instruments : List Element}
    (read : read rule text = .ok (.plain .score instruments))
    (kind : ∀ instrument ∈ instruments, instrument.kind = .plain .instrument) :
    ∀ instrument ∈ instruments, instrument.Scripted := by
  have whole : readAs rule true text = .ok (.plain .score instruments) := by
    rw [readAs, read]
    rfl
  intro instrument member
  refine scripted_of_readAs whole rfl instrument (List.mem_filter.mpr ⟨member, ?_⟩)
  rw [isA, kind instrument member]
  rfl

theorem wellCalledScore_of_readAs {rule : StartRule} {keep : Bool} {text : String} {score : Element}
    (read : readAs rule keep text = .ok score) (kind : score.kind = .plain .score) :
    score.WellCalledScore where
  notated := (isNotated_iff.mp (isNotated_of_isSpelled (isSpelled_of_readAs read))).2
  called instrument member := (scripted_of_readAs read kind instrument member).called

end Element

namespace Roster

/-! ## Whom a roster knows -/

/-- Everyone whom a name or a nickname stands for has a name of some sort. -/
structure Within (sort : Datum → Prop) (roster : Roster) : Prop where
  table : ∀ inst ∈ roster.table.instances, sort inst.name
  nicknames : ∀ inst ∈ roster.nicknames.instances, sort inst.name

namespace Within

variable {sort : Datum → Prop} {roster : Roster}

theorem start (sort : Datum → Prop) : Within sort {} := ⟨by simp [Bindings.instances], by
  simp [Bindings.instances]⟩

theorem assign (within : Within sort roster) (nickname : Option Datum) {name : Datum}
    (named : sort name) : ∀ inst ∈ roster.assign nickname name, sort inst.name := by
  intro inst member
  rcases mem_assign member with ⟨group, found | found, member⟩ | ⟨same, -⟩
  · exact within.table inst (Bindings.mem_instances_of_meaning? found member)
  · exact within.nicknames inst (Bindings.mem_instances_of_meaning? found member)
  · rw [same]
    exact named

theorem answer (within : Within sort roster) (nickname : Option Datum) {names : List Datum}
    (named : ∀ name ∈ names, sort name) :
    ∀ inst ∈ (roster.call names nickname).2, sort inst.name := by
  intro inst member
  rw [snd_call, List.mem_flatMap] at member
  obtain ⟨name, called, member⟩ := member
  exact within.assign nickname (named name called) inst member

theorem call (within : Within sort roster) (nickname : Option Datum) {names : List Datum}
    (named : ∀ name ∈ names, sort name) : Within sort (roster.call names nickname).1 where
  table inst member := by
    rcases mem_table_call member with answered | old
    · exact within.answer nickname named inst answered
    · exact within.table inst old
  nicknames inst member := by
    cases nickname with
    | none => exact within.nicknames inst member
    | some nickname =>
      rcases Bindings.mem_instances_bind member with answered | old
      · exact within.answer (some nickname) named inst answered
      · exact within.nicknames inst old

theorem calls (within : Within sort roster) {instruments : List Element}
    (named : ∀ instrument ∈ instruments, ∀ name ∈ instrument.calledNames, sort name) :
    Within sort (roster.afterCalls instruments) ∧
      ∀ inst ∈ playersOf (roster.cast instruments), sort inst.name := by
  induction instruments generalizing roster with
  | nil => exact ⟨within, by simp [cast, playersOf]⟩
  | cons instrument instruments ih =>
    rw [List.forall_mem_cons] at named
    obtain ⟨after, later⟩ := ih (within.call instrument.calledNickname named.1) named.2
    refine ⟨after, ?_⟩
    rw [playersOf_cast_cons]
    exact List.forall_mem_append.mpr ⟨within.answer _ named.1, later⟩

end Within

end Roster

/-! ## Interpreting -/

theorem eventsOf_withPlayers {instrument : Element} (called : instrument.WellCalled)
    (group : List Instance) :
    Parts.eventsOf (instrument.withPlayers group) = Parts.eventsOf instrument := by
  obtain ⟨call, music, text, begins, kind, written⟩ := called.called
  have noMusic : call.isA (.plain .musicData) = false := by
    rw [Element.isA, kind]
    rfl
  have noTracks : (Roster.tracks group).isA (.plain .musicData) = false := rfl
  simp only [Parts.eventsOf, Element.childrenOf, Element.withPlayers, begins, List.tail_cons]
  rw [List.filter_cons_of_neg (by simp [noMusic])]
  exact congrArg (List.flatMap Element.children) (List.filter_cons_of_neg (by simp [noTracks]))

/-! ## Origins -/

section

variable {instrument other : Element} {instruments others : List Element}

theorem eventsOf_congr (same : instrument.forgetOrigins = other.forgetOrigins) :
    (Parts.eventsOf instrument).map Element.forgetOrigins =
      (Parts.eventsOf other).map Element.forgetOrigins := by
  have forget (instrument : Element) : (Parts.eventsOf instrument).map Element.forgetOrigins =
      Parts.eventsOf instrument.forgetOrigins := by
    simp only [Parts.eventsOf, Element.childrenOf_forgetOrigins, List.map_flatMap,
      List.flatMap_map, Element.children_forgetOrigins]
  rw [forget, forget, same]

theorem callFor_forgetOrigins (roster : Roster) (instrument : Element) :
    roster.callFor instrument.forgetOrigins = roster.callFor instrument := by
  rw [Roster.callFor, Roster.callFor, Element.calledNickname, Element.calledNickname,
    Element.calledNames_forgetOrigins, Element.calledNicknames_forgetOrigins]

theorem withPlayers_congr (same : instrument.forgetOrigins = other.forgetOrigins)
    (group : List Instance) :
    (instrument.withPlayers group).forgetOrigins = (other.withPlayers group).forgetOrigins := by
  have children := congrArg Element.children same
  rw [Element.children_forgetOrigins, Element.children_forgetOrigins] at children
  rw [Element.withPlayers, Element.withPlayers, Element.forgetOrigins_plain,
    Element.forgetOrigins_plain, List.map_cons, List.map_cons, List.map_tail, List.map_tail,
    children]

theorem cast_congr
    (same : instruments.map Element.forgetOrigins = others.map Element.forgetOrigins)
    (roster : Roster) :
    roster.afterCalls instruments = roster.afterCalls others ∧
      (roster.cast instruments).map Element.forgetOrigins =
        (roster.cast others).map Element.forgetOrigins := by
  induction instruments generalizing others roster with
  | nil =>
    obtain rfl : others = [] := by simpa using same.symm
    exact ⟨rfl, rfl⟩
  | cons instrument instruments ih =>
    obtain ⟨other, rest, rfl, first, later⟩ := List.map_eq_cons_iff.mp same.symm
    have call : roster.callFor instrument = roster.callFor other := by
      rw [← callFor_forgetOrigins, ← first, callFor_forgetOrigins]
    obtain ⟨after, tracks⟩ := ih later.symm (roster.callFor instrument).1
    rw [call] at after tracks
    constructor
    · rw [Roster.afterCalls, Roster.afterCalls, List.foldl_cons, List.foldl_cons, call]
      exact after
    · rw [Roster.cast, Roster.cast, List.map_cons, List.map_cons, call, tracks,
        withPlayers_congr first.symm]

theorem formed_turnsIn_congr (same : instrument.forgetOrigins = other.forgetOrigins) :
    formed (Parts.turnsIn instrument) = formed (Parts.turnsIn other) := by
  have players : instrument.players = other.players := by
    rw [← Element.players_forgetOrigins, same, Element.players_forgetOrigins]
  rw [formed_turnsIn, formed_turnsIn, players, Form.formsOf_forgetOrigins (eventsOf_congr same)]

theorem formed_turns_congr
    (same : instruments.map Element.forgetOrigins = others.map Element.forgetOrigins) :
    formed (instruments.flatMap Parts.turnsIn) = formed (others.flatMap Parts.turnsIn) := by
  have forget (instruments : List Element) : formed (instruments.flatMap Parts.turnsIn) =
      (instruments.map Element.forgetOrigins).flatMap fun instrument =>
        formed (Parts.turnsIn instrument) := by
    rw [formed_flatMap, List.flatMap_map]
    exact List.flatMap_congr fun instrument _ =>
      formed_turnsIn_congr (Element.forgetOrigins_idem instrument).symm
  rw [forget, forget, same]

end

theorem eventsOf_cast {instruments : List Element}
    (called : ∀ instrument ∈ instruments, instrument.WellCalled) (roster : Roster) :
    (roster.cast instruments).map Parts.eventsOf = instruments.map Parts.eventsOf := by
  induction instruments generalizing roster with
  | nil => rfl
  | cons instrument instruments ih =>
    rw [List.forall_mem_cons] at called
    rw [Roster.cast, List.map_cons, List.map_cons, eventsOf_withPlayers called.1, ih called.2]

namespace Interpretation

theorem ofScore_hoisted {roster : Roster}
    (known : roster.Within fun name => ∃ text, name = .text text) {score hoisted : Element}
    (moved : score.hoist = .ok hoisted) (whole : hoisted.WellCalledScore)
    (scripted : ∀ instrument ∈ hoisted.childrenOf (.plain .instrument), instrument.Scripted) :
    ofScore roster score =
      .ok (ofResolved (roster.afterCalls (hoisted.childrenOf (.plain .instrument)))
        (roster.cast (hoisted.childrenOf (.plain .instrument)))) := by
  have resolved := Roster.resolveScore_called whole roster
  apply ofScore_resolved moved resolved (Roster.childrenOf_cast _ _)
    (Roster.tracked_cast whole.called roster)
  · exact (known.calls fun instrument member => (scripted instrument member).texts).2
  · intro instrument member
    have events := List.mem_map_of_mem (f := Parts.eventsOf) member
    rw [eventsOf_cast whole.called] at events
    obtain ⟨original, given, same⟩ := List.mem_map.mp events
    rw [← same]
    exact (scripted original given).events

theorem ofScore_moved {roster : Roster}
    (known : roster.Within fun name => ∃ text, name = .text text) {score : Element}
    {instruments : List Element} (moved : score.hoist = .ok (.plain .score instruments))
    (scripted : ∀ instrument ∈ instruments, instrument.Scripted) :
    ofScore roster score =
      .ok (ofResolved (roster.afterCalls instruments) (roster.cast instruments)) := by
  have all : (Element.plain .score instruments).childrenOf (.plain .instrument) = instruments :=
    Element.filter_of_instruments fun instrument member => (scripted instrument member).kind
  have interpreted := ofScore_hoisted known moved
    (Element.wellCalledScore fun instrument member => (scripted instrument member).called)
    (all.symm ▸ scripted)
  rwa [all] at interpreted

theorem ofScore_scripted {roster : Roster}
    (known : roster.Within fun name => ∃ text, name = .text text)
    {instruments : List Element} (scripted : ∀ instrument ∈ instruments, instrument.Scripted) :
    ofScore roster (.plain .score instruments) =
      .ok (ofResolved (roster.afterCalls instruments) (roster.cast instruments)) :=
  ofScore_moved known
    (hoist_of_instruments (fun instrument member => (scripted instrument member).called.notated)
      fun instrument member => (scripted instrument member).kind) scripted

end Interpretation

end Partbook
