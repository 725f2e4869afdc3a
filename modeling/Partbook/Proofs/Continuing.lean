import Partbook.Proofs.Grammar.Parts
import Partbook.Proofs.Resolution
import Partbook.Proofs.Scripted

/-!
Going on with the state that is left. Texts of one part each, interpreted one after another, come to
what all of them come to in one text: the same roster, the same score, and the same parts once they
are gathered.
-/
namespace Partbook

open Source Element Grammar

namespace Interpretation

/-- The forms of the parts of all the runs, gathered: for everyone, in order of first appearance,
the events of all their parts. -/
def gathered (steps : List Interpretation) : List (Datum × Form) :=
  (gather (Form.eventsOfAll (steps.flatMap (·.parts)))).map Form.ofTurn

theorem gathered_ofResolved {steps : List Interpretation} {instruments : List Element}
    (named : ∀ inst ∈ Roster.playersOf instruments, inst.Named)
    (parts : steps.flatMap (·.parts) =
      instruments.flatMap fun instrument => (gather (formed (Parts.turnsIn instrument))).map
        Form.ofTurn) (after : Roster) :
    gathered steps = (ofResolved after instruments).parts := by
  have turnsNamed := (namedTurns_turnsIn named).formed
  rw [formed_flatMap] at turnsNamed
  have allNamed : NamedTurns (instruments.flatMap fun instrument =>
      gather (formed (Parts.turnsIn instrument))) := by
    intro player member
    refine turnsNamed player ?_
    simpa only [List.map_flatMap, players_gather, List.mem_flatMap, List.mem_eraseDups] using member
  rw [gathered, parts, ← List.map_flatMap, Form.eventsOfAll_ofTurn allNamed, gather_flatMap_gather,
    ← formed_flatMap]
  rfl

end Interpretation

namespace Resolution

variable {state : Resolution} {texts : List String} {instruments : List Element}

theorem ofText_scripted (known : state.roster.Within fun name => ∃ text, name = .text text)
    {rule : StartRule} {text : String} (read : read rule text = .ok (.plain .score instruments))
    (kind : ∀ instrument ∈ instruments, instrument.kind = .plain .instrument) :
    state.ofText rule text =
      .ok (⟨state.roster.afterCalls instruments, state.roster.cast instruments⟩,
        .ofResolved (state.roster.afterCalls instruments) (state.roster.cast instruments)) := by
  have interpreted := Interpretation.ofScore_scripted known (scripted_of_read read kind)
  have isScore : (plain .score instruments).kind = .plain .score := rfl
  rw [ofText_eq, Interpretation.ofText, read]
  simp only [mapError_ok, bind, Except.bind, if_pos isScore, interpreted]
  rfl

theorem scripted_of_read_part {text : String} {instrument : Element}
    (read : read .part text = .ok (.plain .score [instrument])) : instrument.Scripted :=
  scripted_of_read read (by simpa using kind_of_read_part read) instrument List.mem_cons_self

theorem scripted_of_parts (readEach : ReadAsParts texts instruments) :
    ∀ instrument ∈ instruments, instrument.Scripted := by
  induction readEach with
  | nil => simp
  | cons first others ih => exact List.forall_mem_cons.mpr ⟨scripted_of_read_part first, ih⟩

theorem exists_inSteps (readEach : ReadAsParts texts instruments)
    (known : state.roster.Within fun name => ∃ text, name = .text text) :
    ∃ after steps, state.inSteps texts = .ok (after, steps) ∧
      after.roster = state.roster.afterCalls instruments ∧
      steps.map (·.score) = (state.roster.cast instruments).map (fun instrument =>
        .plain .score [instrument]) ∧
      steps.flatMap (·.parts) = (state.roster.cast instruments).flatMap fun instrument =>
        (gather (formed (Parts.turnsIn instrument))).map Form.ofTurn := by
  induction readEach generalizing state with
  | nil => exact ⟨state, [], rfl, rfl, rfl, rfl⟩
  | @cons text instrument texts instruments first others ih =>
    have scripted := scripted_of_read_part first
    have here := ofText_scripted known first (by simpa using scripted.kind)
    -- what the first text has resolved stays behind, and its roster goes on
    have next := known.call instrument.calledNickname scripted.texts
    obtain ⟨after, steps, later, roster, scores, parts⟩ :=
      @ih ⟨state.roster.afterCalls [instrument], state.roster.cast [instrument]⟩ next
    refine ⟨after, _ :: steps, by rw [inSteps, here]; simp only [bind, Except.bind, later]; rfl,
      roster, ?_, ?_⟩
    · rw [List.map_cons, scores]
      rfl
    · have split : state.roster.cast (instrument :: instruments) =
          instrument.withPlayers (state.roster.callFor instrument).2 ::
            (state.roster.callFor instrument).1.cast instruments := rfl
      rw [List.flatMap_cons, parts, split, List.flatMap_cons]
      congr 1
      simp only [Interpretation.ofResolved, Roster.cast, List.flatMap_singleton]

/-- Texts of one part each, interpreted one after another and all at once, from any state whose
instances have texts for names. Nothing but the roster of a state has a say in what follows it. -/
theorem inSteps_joined (known : state.roster.Within fun name => ∃ text, name = .text text)
    (accepted : ∀ text ∈ texts, ∃ score, read .part text = .ok score) :
    (∃ after steps carried whole, state.inSteps texts = .ok (after, steps) ∧
      state.ofText .score ("\n".intercalate texts) = .ok (carried, whole) ∧
      carried.roster = after.roster ∧
      whole.score.same (.plain .score (steps.flatMap (·.score.children))) ∧
      whole.parts = Interpretation.gathered steps) ∧
    ∀ (one other : Resolution) (rule : StartRule) (text : String), one.roster = other.roster →
      one.ofText rule text = other.ofText rule text := by
  refine ⟨?_, fun one other rule text same => by rw [ofText_eq, ofText_eq, same]⟩
  obtain ⟨instruments, joint, readEach, readAll, alike⟩ := read_joined_parts accepted
  obtain ⟨after, steps, stepwise, roster, scores, parts⟩ := exists_inSteps readEach known
  have scripted := scripted_of_parts readEach
  have kind : ∀ instrument ∈ joint, instrument.kind = .plain .instrument := by
    intro instrument member
    have forgotten := List.mem_map_of_mem (f := forgetOrigins) member
    rw [alike] at forgotten
    obtain ⟨original, given, same⟩ := List.mem_map.mp forgotten
    rw [← kind_forgetOrigins, ← same, kind_forgetOrigins]
    exact (scripted original given).kind
  -- the instruments of the joint text are those of the texts, read elsewhere
  obtain ⟨sameRoster, sameScore⟩ := cast_congr alike state.roster
  refine ⟨after, steps, _, _, stepwise, ofText_scripted known readAll kind, ?_, ?_, ?_⟩
  · exact sameRoster.trans roster.symm
  · have children : steps.flatMap (·.score.children) = state.roster.cast instruments := by
      have each := congrArg (List.flatMap children) scores
      rw [List.flatMap_map, List.flatMap_map] at each
      exact each.trans (List.flatMap_singleton' _)
    rw [children]
    refine same_of_forgetOrigins ?_
    rw [Interpretation.ofResolved, forgetOrigins_plain, forgetOrigins_plain, sameScore]
  · have named := (known.calls fun instrument member => (scripted instrument member).texts).2
    rw [Interpretation.gathered_ofResolved named parts after.roster, Interpretation.ofResolved,
      Interpretation.ofResolved, formed_turns_congr sameScore]

def onePiano : Resolution where
  roster := { table := [(.text "piano", [⟨.text "piano", 1⟩])] }

def anotherPiano : List String := ["# another\npiano \"other\": c", "other/violin:d e"]

theorem anotherPiano_joined :
    (∀ text ∈ anotherPiano, ∃ score, read .part text = .ok score) ∧
      ∃ after steps carried whole, onePiano.inSteps anotherPiano = .ok (after, steps) ∧
        onePiano.ofText .score ("\n".intercalate anotherPiano) = .ok (carried, whole) ∧
        carried.roster = after.roster ∧
        whole.score.same (.plain .score (steps.flatMap (·.score.children))) ∧
        whole.parts = Interpretation.gathered steps := by
  have built : anotherPiano.all fun text => (build .part text).toBool := by decide +kernel
  have accepted : ∀ text ∈ anotherPiano, ∃ score, read .part text = .ok score := by
    intro text member
    have here := List.all_eq_true.mp built text member
    cases read : build .part text with
    | ok score => exact ⟨score, read_ok_iff.mpr read⟩
    | error fault => simp [read, Except.toBool] at here
  have known : onePiano.roster.Within fun name => ∃ text, name = .text text := by
    constructor <;> simp [onePiano, Bindings.instances]
  exact ⟨accepted, (inSteps_joined known accepted).1⟩

end Resolution

end Partbook
