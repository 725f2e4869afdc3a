import Partbook.Interpretation
import Partbook.Proofs.Form.Projection
import Partbook.Proofs.Parts

namespace Partbook

open Form

def SpelledTurns (turns : List (Datum × List Element)) : Prop :=
  ∀ entry ∈ turns, ∀ event ∈ entry.2, event.isSpelled

def formed (turns : List (Datum × List Element)) : List (Datum × List Form) :=
  turns.map fun (player, events) => (player, formsOf events)

theorem players_formed (turns : List (Datum × List Element)) :
    (formed turns).map (·.1) = turns.map (·.1) := by
  simp [formed, Function.comp_def]

theorem formed_turnsIn (instrument : Element) :
    formed (Parts.turnsIn instrument) =
      turnsOf instrument.players (Form.formsOf (Parts.eventsOf instrument)) := by
  simp [formed, Parts.turnsIn, turnsOf]

theorem formed_flatMap (instruments : List Element) :
    formed (instruments.flatMap Parts.turnsIn) =
      instruments.flatMap fun instrument => formed (Parts.turnsIn instrument) := by
  rw [formed, List.map_flatMap]
  rfl

theorem playedBy_formed {turns : List (Datum × List Element)} (spelled : SpelledTurns turns)
    (player : Datum) : playedBy player (formed turns) = formsOf (playedBy player turns) := by
  induction turns with
  | nil => rfl
  | cons entry turns ih =>
    obtain ⟨who, events⟩ := entry
    have rest : SpelledTurns turns := fun entry member =>
      spelled entry (List.mem_cons_of_mem _ member)
    have later : ∀ event ∈ playedBy player turns, event.isSpelled := by
      intro event member
      obtain ⟨entry, within, member⟩ := mem_playedBy member
      exact rest entry within event member
    rw [formed] at ih
    rw [formed, List.map_cons, playedBy_cons, playedBy_cons, ih rest]
    by_cases same : who = player
    · rw [if_pos same, if_pos same, formsOf_append (spelled _ List.mem_cons_self) later]
    · rw [if_neg same, if_neg same]
      rfl

theorem formed_gather {turns : List (Datum × List Element)} (spelled : SpelledTurns turns) :
    formed (gather turns) = gather (formed turns) := by
  rw [gather, gather, players_formed, formed, List.map_map]
  refine List.map_congr_left fun player _ => ?_
  rw [playedBy_formed spelled, Function.comp_apply]

theorem SpelledTurns.gather {turns : List (Datum × List Element)} (spelled : SpelledTurns turns) :
    SpelledTurns (gather turns) := by
  intro entry member event within
  obtain ⟨player, -, rfl⟩ := List.mem_map.mp member
  obtain ⟨turn, given, within⟩ := mem_playedBy within
  exact spelled turn given event within

theorem NamedTurns.formed {turns : List (Datum × List Element)} (named : NamedTurns turns) :
    NamedTurns (formed turns) := by
  rw [NamedTurns, players_formed]
  exact named

namespace Form

/-- The events in the form of a part: its arguments after name and number. -/
def events : Form → List Form
  | .apply _ args => args.drop 2
  | _ => []

def eventsOfAll (parts : List (Datum × Form)) : List (Datum × List Form) :=
  parts.map fun (player, form) => (player, form.events)

def ofTurn : Datum × List Form → Datum × Form
  | (player, events) =>
    (player, .apply (symbol "part") ((player.items?.getD []).map atom ++ events))

theorem ofParts_named {parts : Parts} (named : NamedTurns parts) (spelled : SpelledTurns parts) :
    ofParts parts = .ok ((formed parts).map ofTurn) := by
  induction parts with
  | nil => rfl
  | cons entry parts ih =>
    obtain ⟨player, events⟩ := entry
    obtain ⟨⟨inst, -, rfl⟩, laterNamed⟩ := List.forall_mem_cons.mp named
    have here := ofElements_of_isSpelled (spelled _ List.mem_cons_self)
    have later := ih laterNamed fun entry member => spelled entry (List.mem_cons_of_mem _ member)
    simp only [Instance.datum, ofParts, part, here, later, bind, Except.bind, pure, Except.pure]
    rfl

theorem eventsOfAll_ofTurn {turns : List (Datum × List Form)} (named : NamedTurns turns) :
    eventsOfAll (turns.map ofTurn) = turns := by
  rw [eventsOfAll, List.map_map]
  refine (List.map_congr_left fun turn member => ?_).trans (List.map_id _)
  obtain ⟨player, events⟩ := turn
  obtain ⟨inst, -, rfl⟩ := named player (List.mem_map_of_mem member)
  rfl

end Form

theorem Element.filter_of_instruments {elements : List Element}
    (instruments : ∀ element ∈ elements, element.kind = .plain .instrument) :
    elements.filter (·.isA (.plain .instrument)) = elements := by
  apply List.filter_eq_self.mpr
  intro element member
  rw [isA, instruments element member]
  rfl

theorem Element.moveGlobals_of_instruments {elements : List Element}
    (instruments : ∀ element ∈ elements, element.kind = .plain .instrument) :
    moveGlobals elements = elements := by
  cases elements with
  | nil => rfl
  | cons first rest =>
    have noGlobals : first.isA (.plain .globalAttributes) = false := by
      rw [isA, instruments first List.mem_cons_self]
      rfl
    simp [moveGlobals, noGlobals]

namespace Interpretation

theorem hoist_of_instruments {elements : List Element}
    (notated : ∀ element ∈ elements, element.isNotated)
    (instruments : ∀ element ∈ elements, element.kind = .plain .instrument) :
    (Element.plain .score elements).hoist = .ok (.plain .score elements) := by
  have all : Element.allNotated (Element.plain .score elements).children :=
    Element.allNotated_iff.mpr notated
  have still := Element.moveGlobals_of_instruments instruments
  have children : (Element.plain .score elements).children = elements := rfl
  rw [Element.hoist, if_pos all, Element.hoistGlobals, children, still]

/-- The interpretation of a score whose instruments have got tracks: the players, in the order in
which they come first, with the forms of all that the instruments give them to play. -/
def ofResolved (after : Roster) (instruments : List Element) : Interpretation where
  score := .plain .score instruments
  roster := after
  parts := (gather (formed (instruments.flatMap Parts.turnsIn))).map ofTurn

theorem namedTurns_turnsIn {instruments : List Element}
    (named : ∀ inst ∈ Roster.playersOf instruments, inst.Named) :
    NamedTurns (instruments.flatMap Parts.turnsIn) := by
  induction instruments with
  | nil => simp [NamedTurns]
  | cons instrument instruments ih =>
    rw [Roster.playersOf, List.flatMap_cons, List.forall_mem_append] at named
    rw [List.flatMap_cons]
    exact (namedTurns_turnsOf named.1 _).append (ih named.2)

theorem spelledTurns_turnsIn {instruments : List Element}
    (spelled : ∀ instrument ∈ instruments, ∀ event ∈ Parts.eventsOf instrument, event.isSpelled) :
    SpelledTurns (instruments.flatMap Parts.turnsIn) := by
  intro entry member event within
  obtain ⟨instrument, given, member⟩ := List.mem_flatMap.mp member
  obtain ⟨inst, -, rfl⟩ := List.mem_map.mp member
  exact spelled instrument given event within

theorem ofScore_resolved {roster after : Roster} {score hoisted : Element}
    {instruments : List Element} (moved : score.hoist = .ok hoisted)
    (resolved : roster.resolveScore hoisted = .ok (after, .plain .score instruments))
    (all : (Element.plain .score instruments).childrenOf (.plain .instrument) = instruments)
    (tracked : ∀ instrument ∈ instruments, instrument.Tracked)
    (named : ∀ inst ∈ Roster.playersOf instruments, inst.Named)
    (spelled : ∀ instrument ∈ instruments, ∀ event ∈ Parts.eventsOf instrument, event.isSpelled) :
    ofScore roster score = .ok (ofResolved after instruments) := by
  have collected := @Parts.ofScore_tracked (.plain .score instruments) (all.symm ▸ tracked)
    (all.symm ▸ named)
  rw [all] at collected
  have turnsNamed := namedTurns_turnsIn named
  have turnsSpelled := spelledTurns_turnsIn spelled
  have projected := ofParts_named turnsNamed.gather turnsSpelled.gather
  rw [formed_gather turnsSpelled] at projected
  simp only [ofScore, moved, resolved, collected, projected, mapError_ok, bind, Except.bind,
    pure, Except.pure, ofResolved]

/-- Interpreting what has tracks in the end succeeds, and gives each player the events of all the
instruments that the player is in. -/
theorem ofScore_of_resolved {roster after : Roster} {score : Element} {instruments : List Element}
    (still : score.hoist = .ok score)
    (resolved : roster.resolveScore score = .ok (after, .plain .score instruments))
    (all : (Element.plain .score instruments).childrenOf (.plain .instrument) = instruments)
    (tracked : ∀ instrument ∈ instruments, instrument.Tracked)
    (named : ∀ inst ∈ Roster.playersOf instruments, inst.Named)
    (spelled : ∀ instrument ∈ instruments, ∀ event ∈ Parts.eventsOf instrument, event.isSpelled) :
    ∃ result, ofScore roster score = .ok result ∧ result.roster = after ∧
      result.score = .plain .score instruments ∧
      SameParts (eventsOfAll result.parts) (formed (instruments.flatMap Parts.turnsIn)) := by
  refine ⟨_, ofScore_resolved still resolved all tracked named spelled, rfl, rfl, ?_⟩
  rw [ofResolved, eventsOfAll_ofTurn (namedTurns_turnsIn named).formed.gather]
  exact same_gather _

end Interpretation

end Partbook
