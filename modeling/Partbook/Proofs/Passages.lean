import Partbook.Proofs.Element.Passages
import Partbook.Proofs.Scripted

namespace Partbook

open Source Element

def Roster.afterPassages (roster : Roster) (passages : List Passage) : Roster :=
  roster.afterCalls (passages.map fun passage => passage.1.calling)

/-- Who plays what when each passage is read as a whole. -/
def inOneGo (roster : Roster) : List Passage → List (Datum × List Form)
  | [] => []
  | (call, lines) :: passages =>
    turnsOf (roster.callFor call.calling).2 (lines.flatMap heardIn)
      ++ inOneGo (roster.callFor call.calling).1 passages

theorem afterPassages_append (roster : Roster) (before after : List Passage) :
    roster.afterPassages (before ++ after) =
      (roster.afterPassages before).afterPassages after := by
  rw [Roster.afterPassages, List.map_append, Roster.afterCalls_append]
  rfl

theorem named_of_texts {instruments : List Element}
    (texts : ∀ instrument ∈ instruments, ∀ name ∈ instrument.calledNames,
      ∃ text, name = .text text) :
    ∀ inst ∈ Roster.playersOf (Roster.cast {} instruments), inst.Named :=
  ((Roster.Within.start _).calls texts).2

theorem texts_calling (call : CallLine) :
    ∀ name ∈ call.calling.calledNames, ∃ text, name = .text text := by
  intro name member
  rw [CallLine.calling, calledNames_calling] at member
  obtain ⟨text, -, rfl⟩ := List.mem_map.mp member
  exact ⟨text, rfl⟩

theorem wellCalled_callLine (call : CallLine) : call.calling.WellCalled :=
  wellCalled_calling (by simp) _

def calledAfter (passages : List Passage) (call : CallLine) : Roster × List Instance :=
  (Roster.afterPassages {} passages).callFor call.calling

structure Called (roster : Roster) (group : List Instance) : Prop where
  replays : roster.Replays group
  named : ∀ inst ∈ group, inst.Named
  nonempty : group ≠ []

theorem called_after (passages : List Passage) (call : CallLine) :
    Called (calledAfter passages call).1 (calledAfter passages call).2 := by
  have callings : ∀ instrument ∈ (passages.map fun passage => passage.1.calling) ++ [call.calling],
      instrument.WellCalled ∧ ∀ name ∈ instrument.calledNames, ∃ text, name = .text text := by
    intro instrument member
    rcases List.mem_append.mp member with before | last
    · obtain ⟨passage, -, rfl⟩ := List.mem_map.mp before
      exact ⟨wellCalled_callLine _, texts_calling _⟩
    · rw [List.mem_singleton.mp last]
      exact ⟨wellCalled_callLine _, texts_calling _⟩
  have called := fun instrument member => (callings instrument member).1
  have replays := (Roster.replays_of_calls called).1
  have named := named_of_texts fun instrument member => (callings instrument member).2
  have numbered := Roster.Numbered.start.run fun instrument member =>
    called instrument (List.mem_append_left _ member)
  rw [Roster.cast_append, Roster.playersOf_append, Roster.playersOf_cast_cons,
    List.forall_mem_append, List.forall_mem_append] at named
  rw [Roster.cast_append, Roster.playersOf_append, Roster.playersOf_cast_cons,
    Roster.afterCalls_append] at replays
  have positive := (List.forall_mem_append.mp replays.positive).2
  have fixed := (List.forall_mem_append.mp replays.fixed).2
  exact ⟨⟨replays.distinct, replays.known, (List.forall_mem_append.mp positive).1,
    (List.forall_mem_append.mp fixed).1⟩, named.2.1,
    numbered.call_ne_nil (wellCalled_callLine call).named _⟩

theorem scored_of_mem {passages : List Passage} {instruments : List Element}
    (scored : List.Forall₂ Scored passages instruments) :
    ∀ instrument ∈ instruments, ∃ passage, Scored passage instrument := by
  induction scored with
  | nil => simp
  | cons first rest ih => exact List.forall_mem_cons.mpr ⟨⟨_, first⟩, ih⟩

theorem Element.Scored.callFor_eq {passage : Passage} {instrument : Element}
    (scored : Scored passage instrument) (roster : Roster) :
    roster.callFor instrument = roster.callFor passage.1.calling := by
  rw [Roster.callFor, Roster.callFor, scored.names, scored.nickname]

theorem cast_scored {passages : List Passage} {instruments : List Element}
    (scored : List.Forall₂ Scored passages instruments) (roster : Roster) :
    roster.afterCalls instruments = roster.afterPassages passages ∧
      formed ((roster.cast instruments).flatMap Parts.turnsIn) = inOneGo roster passages ∧
      ∀ instrument ∈ roster.cast instruments, ∀ event ∈ Parts.eventsOf instrument,
        event.isSpelled := by
  induction scored generalizing roster with
  | nil => exact ⟨rfl, rfl, by simp [Roster.cast]⟩
  | @cons passage instrument passages instruments first rest ih =>
    obtain ⟨call, lines⟩ := passage
    have same := first.callFor_eq roster
    obtain ⟨after, turns, spelled⟩ := ih (roster.callFor instrument).1
    refine ⟨?_, ?_, ?_⟩
    · rw [same] at after
      rw [Roster.afterCalls, List.foldl_cons, same]
      exact after
    · have here : formed (Parts.turnsIn (instrument.withPlayers (roster.callFor instrument).2)) =
          turnsOf (roster.callFor call.calling).2 (lines.flatMap heardIn) := by
        rw [formed_turnsIn, players_withPlayers, eventsOf_withPlayers first.called, first.forms,
          same]
      rw [formed] at turns here
      rw [Roster.cast, List.flatMap_cons, formed, List.map_append, turns, here, inOneGo, same]
    · rw [Roster.cast, List.forall_mem_cons, eventsOf_withPlayers first.called]
      exact ⟨first.spelled, spelled⟩

theorem ofScore_scored {roster : Roster} {passages : List Passage} {instruments : List Element}
    (scored : List.Forall₂ Scored passages instruments)
    (named : ∀ inst ∈ Roster.playersOf (roster.cast instruments), inst.Named) :
    ∃ result, Interpretation.ofScore roster (.plain .score instruments) = .ok result ∧
      result.roster = roster.afterPassages passages ∧
      result.score = .plain .score (roster.cast instruments) ∧
      SameParts (Form.eventsOfAll result.parts) (inOneGo roster passages) := by
  have called : ∀ instrument ∈ instruments, instrument.WellCalled := fun instrument member =>
    (scored_of_mem scored instrument member).elim fun _ scored => scored.called
  have kind : ∀ instrument ∈ instruments, instrument.kind = .plain .instrument :=
    fun instrument member => (scored_of_mem scored instrument member).elim fun _ scored =>
      scored.kind
  have all : (plain .score instruments).childrenOf (.plain .instrument) = instruments :=
    filter_of_instruments kind
  have still := Interpretation.hoist_of_instruments
    (fun instrument member => (called instrument member).notated) kind
  have resolved := Roster.resolveScore_called (wellCalledScore called) roster
  rw [all] at resolved
  obtain ⟨after, turns, spelled⟩ := cast_scored scored roster
  obtain ⟨result, interpreted, rosterAfter, score, parts⟩ :=
    Interpretation.ofScore_of_resolved still resolved (Roster.childrenOf_cast _ _)
      (Roster.tracked_cast called roster) named spelled
  exact ⟨result, interpreted, rosterAfter.trans after, score, turns ▸ parts⟩

theorem ofText_passages {passages : List Passage}
    (accepted : ∀ passage ∈ passages, ∀ line ∈ passage.2, Accepted line) :
    ∃ whole, Interpretation.ofText {} .score ("\n".intercalate (linesOf passages)) = .ok whole ∧
      whole.roster = Roster.afterPassages {} passages ∧
      SameParts (Form.eventsOfAll whole.parts) (inOneGo {} passages) := by
  obtain ⟨instruments, read, scored⟩ := read_score accepted
  have named := named_of_texts fun instrument member =>
    (scored_of_mem scored instrument member).elim fun passage scored =>
      scored.names ▸ texts_calling passage.1
  obtain ⟨whole, interpreted, after, -, parts⟩ := ofScore_scored scored named
  refine ⟨whole, ?_, after, parts⟩
  rw [Interpretation.ofText, read]
  exact interpreted

end Partbook
