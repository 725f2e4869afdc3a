import Partbook.Proofs.Passages

namespace Partbook

open Source Element

namespace Session

def interpretAll (session : Session) : List String →
    Except InterpretError (Session × List (List (Datum × Form)))
  | [] => .ok (session, [])
  | text :: texts => do
    let (session, answer) ← session.interpret text
    let (session, answers) ← session.interpretAll texts
    return (session, answer :: answers)

theorem interpretAll_concat {session after : Session} {texts : List String}
    {answers : List (List (Datum × Form))}
    (interpreted : session.interpretAll texts = .ok (after, answers)) (text : String) :
    session.interpretAll (texts ++ [text]) =
      (after.interpret text).map fun (last, answer) => (last, answers ++ [answer]) := by
  induction texts generalizing session answers with
  | nil =>
    cases interpreted
    rw [List.nil_append, interpretAll]
    cases after.interpret text <;> rfl
  | cons first texts ih =>
    simp only [interpretAll, bind_eq_ok, pure_eq_ok] at interpreted
    obtain ⟨⟨middle, answer⟩, here, ⟨last, later⟩, rest, same⟩ := interpreted
    cases same
    rw [List.cons_append, interpretAll, here]
    simp only [bind, Except.bind, ih rest]
    cases last.interpret text <;> rfl

theorem interpretAll_of_append {session after : Session} {texts more : List String}
    {answers : List (List (Datum × Form))}
    (interpreted : session.interpretAll (texts ++ more) = .ok (after, answers)) :
    ∃ middle answered, session.interpretAll texts = .ok (middle, answered) := by
  induction texts generalizing session answers with
  | nil => exact ⟨session, [], rfl⟩
  | cons first texts ih =>
    simp only [List.cons_append, interpretAll, bind_eq_ok, pure_eq_ok] at interpreted
    obtain ⟨⟨next, answer⟩, here, ⟨last, later⟩, rest, same⟩ := interpreted
    cases same
    obtain ⟨middle, answered, earlier⟩ := ih rest
    exact ⟨middle, answer :: answered, by simp only [interpretAll, here, earlier, bind, Except.bind,
      pure, Except.pure]⟩

def IsDefault (session : Session) : Prop := session.contexts = ({} : Session).contexts

variable {session : Session}

theorem interpret_ok {text context : String} {element score : Element} {result : Interpretation}
    (read : session.read text = .ok (context, element))
    (scored : session.scoreOf element = .ok score)
    (interpreted : Interpretation.ofScore session.roster score = .ok result) :
    session.interpret text = .ok ({ session with
      context := some context
      roster := result.roster
      current := (lastCalled result.score).getD session.current
      history := session.history ++ [text] }, result.parts) := by
  simp only [interpret, read, scored, interpreted, bind, Except.bind, pure, Except.pure]

theorem read_music (default : session.IsDefault) {line : String} {events : List Element}
    (heard : Heard line events) :
    session.read line = .ok ("music_data", .plain .musicData events) := by
  rw [Session.read, default, readFirst]
  simp only [StartRule.ofName?, heard.read]

theorem read_call (default : session.IsDefault) (call : CallLine) : ∃ instrument,
    session.read call.text = .ok ("part", .plain .score [instrument]) ∧
      Scored (call, []) instrument := by
  obtain ⟨instrument, read, scored⟩ := read_part call
  refine ⟨instrument, ?_, scored⟩
  rw [Session.read, default, readFirst]
  cases music : Element.read .musicData call.text with
  | ok element => exact absurd ⟨element, music⟩ (not_accepted_callLine call)
  | error fault => simp only [StartRule.ofName?, music, readFirst, read]

theorem lastCalled_withPlayers (instrument : Element) (group : List Instance) :
    lastCalled (.plain .score [instrument.withPlayers group]) = some group := by
  have players := players_withPlayers instrument group
  rw [Element.players] at players
  have last : lastCalled (.plain .score [instrument.withPlayers group]) =
      some ((instrument.withPlayers group).players) := rfl
  rw [last, Element.players, players]

theorem interpret_call (default : session.IsDefault) (call : CallLine)
    (named : ∀ inst ∈ (session.roster.callFor call.calling).2, inst.Named) :
    ∃ after answer, session.interpret call.text = .ok (after, answer) ∧ after.IsDefault ∧
      after.roster = (session.roster.callFor call.calling).1 ∧
      after.current = (session.roster.callFor call.calling).2 ∧
      SameParts (Form.eventsOfAll answer) (turnsOf (session.roster.callFor call.calling).2 []) := by
  obtain ⟨instrument, read, scored⟩ := read_call default call
  have same := scored.callFor_eq session.roster
  have players : Roster.playersOf (session.roster.cast [instrument]) =
      (session.roster.callFor call.calling).2 := by
    simp [Roster.cast, Roster.playersOf, same]
  obtain ⟨result, interpreted, roster, score, parts⟩ :=
    ofScore_scored (.cons scored .nil) (players ▸ named)
  have current : lastCalled result.score = some (session.roster.callFor call.calling).2 := by
    rw [score, Roster.cast, Roster.cast, lastCalled_withPlayers, same]
  have isScore : session.scoreOf (.plain .score [instrument]) = .ok (.plain .score [instrument]) :=
    rfl
  refine ⟨_, _, interpret_ok read isScore interpreted, default, roster, ?_, ?_⟩
  · simp only [current, Option.getD_some]
  · simpa [inOneGo] using parts

def lineScore (group : List Instance) (events : List Element) : Element :=
  .plain .instrument [Roster.tracks group, .plain .musicData events]

theorem tracked_lineScore (group : List Instance) {events : List Element}
    (spelled : ∀ event ∈ events, event.isSpelled) : (lineScore group events).Tracked where
  notated := by
    have music : (plain .musicData events).isNotated :=
      isNotated_of_isSpelled (isSpelled_plain rfl spelled)
    refine isNotated_iff.mpr ⟨nofun, allNotated_iff.mpr ?_⟩
    exact List.forall_mem_cons.mpr ⟨isNotated_tracks group, by simpa using music⟩
  begins := ⟨group, _, rfl⟩

theorem eventsOf_lineScore (group : List Instance) (events : List Element) :
    Parts.eventsOf (lineScore group events) = events := by
  have noMusic : (Roster.tracks group).isA (.plain .musicData) = false := rfl
  have isMusic : (plain .musicData events).isA (.plain .musicData) = true := rfl
  simp only [Parts.eventsOf, lineScore, childrenOf, plain, children] at isMusic ⊢
  simp [noMusic, isMusic, children]

theorem scoreOf_music (called : session.current ≠ []) (events : List Element) :
    session.scoreOf (.plain .musicData events) =
      .ok (.plain .score [lineScore session.current events]) := by
  have nonempty : session.current.isEmpty = false := by simpa using called
  have isMusic : (plain .musicData events).kind = .plain .musicData := rfl
  rw [scoreOf, if_pos isMusic, nonempty]
  rfl

theorem scoreOf_nobody (nobody : session.current = []) (events : List Element) :
    session.scoreOf (.plain .musicData events) = .error .noCurrent := by
  rw [scoreOf, nobody]
  rfl

theorem hoist_lineScore (group : List Instance) {events : List Element}
    (spelled : ∀ event ∈ events, event.isSpelled) :
    (plain .score [lineScore group events]).hoist = .ok (.plain .score [lineScore group events]) :=
  Interpretation.hoist_of_instruments
    (by simpa using (tracked_lineScore group spelled).notated) (by simp; rfl)

theorem resolve_lineScore (roster : Roster) (group : List Instance) {events : List Element}
    (spelled : ∀ event ∈ events, event.isSpelled) :
    roster.resolveScore (.plain .score [lineScore group events]) =
      (roster.readmitAll group).map fun after =>
        (after, .plain .score [lineScore group events]) := by
  have tracked := tracked_lineScore group spelled
  have players : Roster.playersOf [lineScore group events] = group := by
    rw [Roster.playersOf, List.flatMap_singleton]
    exact players_of_begins rfl
  rw [Roster.resolveScore_tracked (by simpa using tracked) rfl, players]

/-- A line of music fails exactly if the roster does not take back those who are to play it. -/
theorem interpret_line (default : session.IsDefault) {line : String} (accepted : Accepted line)
    (called : session.current ≠ []) (named : ∀ inst ∈ session.current, inst.Named) :
    (∀ error, session.roster.readmitAll session.current = .error error →
      session.interpret line = .error (.unresolved error)) ∧
    ∀ roster, session.roster.readmitAll session.current = .ok roster →
      ∃ after answer, session.interpret line = .ok (after, answer) ∧ after.IsDefault ∧
        after.roster = roster ∧ after.current = session.current ∧
        SameParts (Form.eventsOfAll answer) (turnsOf session.current (heardIn line)) := by
  obtain ⟨events, heard⟩ := heard_of_accepted accepted
  have read := read_music default heard
  have score := scoreOf_music called events
  have still := hoist_lineScore session.current heard.spelled
  have resolved := resolve_lineScore session.roster session.current heard.spelled
  have players : (lineScore session.current events).players = session.current :=
    players_of_begins rfl
  constructor
  · intro error refused
    rw [refused] at resolved
    simp only [interpret, read, score, Interpretation.ofScore, still, resolved, Except.map,
      mapError_ok, mapError_error, bind, Except.bind]
  · intro roster taken
    rw [taken] at resolved
    obtain ⟨result, interpreted, after, whole, parts⟩ :=
      Interpretation.ofScore_of_resolved still resolved rfl
        (by simpa using tracked_lineScore session.current heard.spelled)
        (by simpa [Roster.playersOf, players] using named)
        (by simpa [eventsOf_lineScore] using heard.spelled)
    have current : lastCalled result.score = some session.current := by
      rw [whole]
      exact congrArg some players
    refine ⟨_, _, interpret_ok read score interpreted, default, after, ?_, ?_⟩
    · simp only [current, Option.getD_some]
    · simpa [formed_turnsIn, players, eventsOf_lineScore, heard.forms] using parts

end Session

end Partbook
