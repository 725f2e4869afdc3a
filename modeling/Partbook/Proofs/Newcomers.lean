import Partbook.Proofs.Session
import Partbook.Proofs.Roster.Familiar

/-!
Who is new in a session. Texts of any kind are interpreted one after another, and those that fail
are skipped. A call with a nickname gives a free name the number next to the highest that the table
shows. Nobody has played under that number if the highest one that has played still stands in the
table. Music takes names from newer instances, so it may have dropped out.
-/
namespace Partbook

open Source Element Roster

namespace Session

variable {session : Session} {played : List Instance}

def outcome (session : Session) (text : String) :
    Except InterpretError (String × Interpretation) := do
  let (context, element) ← session.read text
  let score ← session.scoreOf element
  let result ← Interpretation.ofScore session.roster score
  return (context, result)

def instrumentsOf (session : Session) (text : String) : List Element :=
  match session.read text with
  | .error _ => []
  | .ok (_, element) =>
    match session.scoreOf element with
    | .ok score => score.hoistGlobals.childrenOf (.plain .instrument)
    | .error _ => []

theorem interpret_eq (session : Session) (text : String) :
    session.interpret text = (session.outcome text).map fun (context, result) =>
      ({ session with
        context := some context
        roster := result.roster
        current := (lastCalled result.score).getD session.current
        history := session.history ++ [text] }, result.parts) := by
  rw [interpret, outcome]
  cases session.read text with
  | error cause => rfl
  | ok found =>
    simp only [bind, Except.bind]
    cases session.scoreOf found.2 with
    | error cause => rfl
    | ok score =>
      simp only
      cases Interpretation.ofScore session.roster score <;> rfl

/-- The session after a text, and all who have played by then. A text that fails changes nothing. -/
def attempt (past : Session × List Instance) (text : String) : Session × List Instance :=
  match past.1.interpret text, past.1.outcome text with
  | .ok (after, _), .ok (_, result) => (after, past.2 ++ playersOf result.score.children)
  | _, _ => past

def attemptAll (texts : List String) : Session × List Instance := texts.foldl attempt ({}, [])

theorem attemptAll_concat (texts : List String) (text : String) :
    attemptAll (texts ++ [text]) = attempt (attemptAll texts) text := by
  simp [attemptAll]

theorem attempt_ok {text context : String} {result : Interpretation}
    (taken : session.outcome text = .ok (context, result)) :
    attempt (session, played) text = ({ session with
      context := some context
      roster := result.roster
      current := (lastCalled result.score).getD session.current
      history := session.history ++ [text] }, played ++ playersOf result.score.children) := by
  simp only [attempt, interpret_eq, taken, Except.map]

theorem attempt_error {text : String} {cause : InterpretError}
    (failed : session.outcome text = .error cause) :
    attempt (session, played) text = (session, played) := by
  simp only [attempt, interpret_eq, failed, Except.map]

/-! ## The two ways of a text -/

/-- A text that the current group plays, or a score in which every instrument is called. -/
inductive Taken (session : Session) (text : String) (result : Interpretation) : Prop where
  | music (accepted : Accepted text)
      (instruments : ∀ instrument ∈ session.instrumentsOf text, instrument.calledNickname = none)
      (roster : session.roster.readmitAll session.current = .ok result.roster)
      (players : playersOf result.score.children = session.current)
  | calls (called : ∀ instrument ∈ session.instrumentsOf text, instrument.WellCalled)
      (resolved : session.roster.resolveAll (session.instrumentsOf text) =
        .ok (result.roster, result.score.children))

theorem exists_rule_of_read {text context : String} {element : Element}
    (read : session.read text = .ok (context, element)) :
    ∃ rule, Element.read rule text = .ok element := by
  rw [Session.read] at read
  generalize session.contexts = contexts at read
  induction contexts with
  | nil => cases read
  | cons name contexts ih =>
    rw [readFirst] at read
    split at read
    · cases read
    · rename_i rule _
      split at read
      · rename_i found
        cases read
        exact ⟨rule, found⟩
      · exact ih read

theorem read_cases {text context : String} {element : Element}
    (read : session.read text = .ok (context, element)) :
    (∃ events, Heard text events ∧ element = .plain .musicData events) ∨
      (element.kind = .plain .score ∧ element.WellCalledScore) := by
  obtain ⟨rule, read⟩ := exists_rule_of_read read
  by_cases music : rule = .musicData
  · subst music
    obtain ⟨events, heard⟩ := heard_of_accepted ⟨_, read⟩
    cases heard.read.symm.trans read
    exact .inl ⟨events, heard, rfl⟩
  · have kind := kind_of_read music read
    exact .inr ⟨kind, wellCalledScore_of_read read kind⟩

theorem headsOf_tracks {kind : TextKind} (other : (Kind.text .track).isA (.text kind) = false)
    (group : List Instance) : headsOf (tracks group) kind = [] := by
  have none : (tracks group).childrenOf (.text kind) = [] := by
    refine List.filter_eq_nil_iff.mpr fun track member => ?_
    obtain ⟨inst, -, rfl⟩ := List.mem_map.mp member
    exact ne_true_of_eq_false other
  rw [headsOf, none]
  rfl

theorem calledNames_lineScore (group : List Instance) (events : List Element) :
    (lineScore group events).calledNames = [] :=
  headsOf_tracks rfl group

theorem calledNickname_lineScore (group : List Instance) (events : List Element) :
    (lineScore group events).calledNickname = none :=
  congrArg List.head? (headsOf_tracks rfl group)

theorem taken_of_outcome {text context : String} {result : Interpretation}
    (taken : session.outcome text = .ok (context, result)) :
    Taken session text result := by
  simp only [outcome, bind_eq_ok, pure_eq_ok] at taken
  obtain ⟨⟨_, element⟩, read, score, scored, _, interpreted, same⟩ := taken
  cases same
  have instruments : session.instrumentsOf text =
      score.hoistGlobals.childrenOf (.plain .instrument) := by
    simp only [instrumentsOf, read, scored]
  obtain ⟨moved, resolved⟩ := Interpretation.ofScore_ok interpreted
  rw [← instruments] at resolved
  rcases read_cases read with ⟨events, heard, rfl⟩ | ⟨kind, called⟩
  · by_cases nobody : session.current = []
    · cases (scoreOf_nobody nobody events).symm.trans scored
    · cases (scoreOf_music nobody events).symm.trans scored
      have tracked := tracked_lineScore session.current heard.spelled
      have only : (plain .score [lineScore session.current events]).hoistGlobals.childrenOf
          (.plain .instrument) = [lineScore session.current events] := rfl
      have players : playersOf [lineScore session.current events] = session.current := by
        rw [playersOf, List.flatMap_singleton]
        exact players_of_begins rfl
      rw [only] at instruments
      rw [instruments, resolveAll_tracked (by simpa using tracked), players, map_eq_ok] at resolved
      obtain ⟨roster, admitted, same⟩ := resolved
      obtain ⟨rfl, children⟩ := Prod.mk.inj same
      refine .music ⟨_, heard.read⟩ ?_ admitted (children ▸ players)
      rw [instruments, List.forall_mem_singleton]
      exact calledNickname_lineScore _ _
  · have same : session.scoreOf element = .ok element := by
      rw [scoreOf, kind]
      rfl
    cases same.symm.trans scored
    exact .calls (instruments ▸ (called.hoist moved).called) resolved

/-! ## Who has played -/

structure Acquainted (session : Session) (played : List Instance) : Prop where
  default : session.IsDefault
  familiar : session.roster.Familiar played
  current : ∀ inst ∈ session.current, inst ∈ played

theorem mem_playersOf_of_lastCalled {score : Element} {group : List Instance}
    (last : lastCalled score = some group) : ∀ inst ∈ group, inst ∈ playersOf score.children := by
  rw [lastCalled, Option.map_eq_some_iff] at last
  obtain ⟨instrument, isLast, rfl⟩ := last
  have member := (List.mem_filter.mp (List.mem_of_getLast? isLast)).1
  intro inst within
  refine List.mem_flatMap.mpr ⟨instrument, member, ?_⟩
  rw [Element.players]
  cases head : instrument.children.head? <;> simp_all

theorem mem_current_after {score : Element} {current : List Instance} {inst : Instance}
    (member : inst ∈ (lastCalled score).getD current) :
    inst ∈ playersOf score.children ∨ inst ∈ current := by
  cases last : lastCalled score with
  | none => exact .inr (by simpa [last] using member)
  | some group => exact .inl (mem_playersOf_of_lastCalled last inst (by simpa [last] using member))

theorem Acquainted.start : Acquainted {} [] := ⟨rfl, .start, by simp⟩

theorem Acquainted.attempt (acquainted : Acquainted session played) (text : String) :
    Acquainted (attempt (session, played) text).1 (attempt (session, played) text).2 := by
  cases taken : session.outcome text with
  | error cause => rwa [attempt_error taken]
  | ok found =>
    obtain ⟨context, result⟩ := found
    rw [attempt_ok taken]
    refine ⟨acquainted.default, ?_, fun inst member => ?_⟩
    · rcases taken_of_outcome taken with
        ⟨-, -, admitted, players⟩ | ⟨called, resolved⟩
      · have fixed := fun inst member =>
          acquainted.familiar.fixed inst (acquainted.current inst member)
        rw [players, ← ((readmitAll_ok_iff fixed).mp admitted).2]
        exact acquainted.familiar.replay acquainted.current
      · rw [resolveAll_called called, Except.ok.injEq, Prod.mk.injEq] at resolved
        rw [← resolved.1, ← resolved.2]
        exact acquainted.familiar.calls called
    · rcases mem_current_after member with answered | old
      · exact List.mem_append_right _ answered
      · exact List.mem_append_left _ (acquainted.current inst old)

theorem acquainted_attemptAll (texts : List String) :
    Acquainted (attemptAll texts).1 (attemptAll texts).2 := by
  induction texts using List.reverseRecOn with
  | nil => exact .start
  | append_singleton texts text ih =>
    rw [attemptAll_concat]
    exact ih.attempt text

/-- Whenever a group played music, each of its instruments stood for the last of its instances in
the group already. -/
def KeepsNames (texts : List String) : Prop :=
  ∀ before line after, texts = before ++ line :: after → Accepted line →
    ∀ answer, (attemptAll before).1.interpret line = .ok answer →
      (attemptAll before).1.roster.Settled (attemptAll before).1.current

theorem KeepsNames.of_concat {texts : List String} {text : String}
    (kept : KeepsNames (texts ++ [text])) : KeepsNames texts := by
  intro before line after split accepted
  exact kept before line (after ++ [text]) (by simp [split]) accepted

theorem numbered_attemptAll {texts : List String} (kept : KeepsNames texts) :
    ∃ calls, Numbered (attemptAll texts).1.roster calls (attemptAll texts).2 := by
  induction texts using List.reverseRecOn with
  | nil => exact ⟨[], .start⟩
  | append_singleton texts text ih =>
    obtain ⟨calls, numbered⟩ := ih kept.of_concat
    have acquainted := acquainted_attemptAll texts
    rw [attemptAll_concat]
    cases taken : (attemptAll texts).1.outcome text with
    | error cause =>
      rw [attempt_error taken]
      exact ⟨calls, numbered⟩
    | ok found =>
      obtain ⟨context, result⟩ := found
      rw [attempt_ok taken]
      rcases taken_of_outcome taken with
        ⟨accepted, -, admitted, players⟩ | ⟨called, resolved⟩
      · have settled := kept texts text [] rfl accepted _ (by rw [interpret_eq, taken]; rfl)
        have fixed := fun inst member =>
          acquainted.familiar.fixed inst (acquainted.current inst member)
        have same := (readmitted_eq_self_iff acquainted.familiar.distinct).mpr settled
        rw [players, ← ((readmitAll_ok_iff fixed).mp admitted).2, same]
        exact ⟨calls, numbered.again acquainted.current⟩
      · rw [resolveAll_called called, Except.ok.injEq, Prod.mk.injEq] at resolved
        rw [← resolved.1, ← resolved.2]
        exact ⟨_, numbered.run called⟩

/-! ## Who is new -/

/-- The instance with the highest number that has played under the name still stands in the table,
if there is any. -/
def HighestStands (roster : Roster) (name : Datum) (played : List Instance) : Prop :=
  highestNumber name played = 0 ∨ ⟨name, highestNumber name played⟩ ∈ roster.table.instances

/-- The instance that a name stands for has not played if and only if the highest one of the name
stands in the table, and always if nobody who played music took a name from a newer instance. -/
structure NewIff (texts : List String) (roster : Roster) (name : Datum) (inst : Instance)
    (played : List Instance) : Prop where
  named : inst.name = name
  stands : inst ∉ played ↔ HighestStands roster name played
  kept : KeepsNames texts → inst ∉ played

theorem nicknamed_call_new_iff (texts : List String) {text context : String}
    {result : Interpretation} (taken : (attemptAll texts).1.outcome text = .ok (context, result))
    {before later : List Element} {instrument : Element}
    (split : (attemptAll texts).1.instrumentsOf text = before ++ instrument :: later)
    {nickname : Datum} (nicknamed : instrument.calledNickname = some nickname) :
    ∃ roster earlier here rest,
      (attemptAll texts).1.roster.resolveAll before = .ok (roster, earlier) ∧
      result.score.children = earlier ++ here :: rest ∧
      here.players = instrument.calledNames.flatMap (roster.assign (some nickname)) ∧
      ∀ name ∈ instrument.calledNames, roster.nicknames.meaning? name = none →
        ∃ inst, roster.assign (some nickname) name = [inst] ∧
          NewIff texts roster name inst ((attemptAll texts).2 ++ playersOf earlier) := by
  have acquainted := acquainted_attemptAll texts
  rcases taken_of_outcome taken with ⟨-, bare, -, -⟩ | ⟨called, resolved⟩
  · have none := bare instrument (by simp [split])
    cases nicknamed.symm.trans none
  · rw [split] at called resolved
    rw [resolveAll_called called, Except.ok.injEq, Prod.mk.injEq, cast_append] at resolved
    have calledBefore := (List.forall_mem_append.mp called).1
    refine ⟨_, _, _, _, resolveAll_called calledBefore _, resolved.2.symm, ?_, ?_⟩
    · rw [players_withPlayers, callFor, snd_call, nicknamed]
    · intro name _ free
      have familiar := acquainted.familiar.calls calledBefore
      refine ⟨⟨name, _⟩, by rw [assign, free], rfl, ?_, fun kept => ?_⟩
      · rw [familiar.next_not_mem_iff, familiar.allocated_eq_highest_iff, HighestStands]
      · obtain ⟨calls, numbered⟩ := numbered_attemptAll kept
        exact (familiar.next_not_mem_iff name).mpr
          ((numbered.run calledBefore).allocated_eq_highest free)

def firstPlays : List String := ["piano \"first\":", "piano \"second\":", "first:", "c"]

/-- The call has the names and the nickname and nothing else, and no name of it is a nickname. -/
def CallsOnly (session : Session) (text : String) (names : List Datum) (nickname : Datum) : Prop :=
  (session.instrumentsOf text).map
      (fun instrument => (instrument.calledNames, instrument.calledNickname)) =
    [(names, some nickname)] ∧ ∀ name ∈ names, session.roster.nicknames.meaning? name = none

instance (session : Session) (text : String) (names : List Datum) (nickname : Datum) :
    Decidable (session.CallsOnly text names nickname) := inferInstanceAs (Decidable (_ ∧ _))

theorem thirdPiano_new : ∃ context result,
    (attemptAll firstPlays).1.outcome "piano \"third\":" = .ok (context, result) ∧
      (attemptAll firstPlays).1.CallsOnly "piano \"third\":" [.text "piano"] (.text "third") ∧
      ∃ here ∈ result.score.children, ∃ inst, here.players = [inst] ∧
        inst ∉ (attemptAll firstPlays).2 := by
  have called : (attemptAll firstPlays).1.CallsOnly "piano \"third\":" [.text "piano"]
      (.text "third") := by decide +kernel
  have read : ((attemptAll firstPlays).1.outcome "piano \"third\":").toOption.isSome := by
    decide +kernel
  have stands : highestNumber (.text "piano") (attemptAll firstPlays).2 = 2 ∧
      ⟨.text "piano", 2⟩ ∈ (attemptAll firstPlays).1.roster.table.instances := by
    decide +kernel
  cases taken : (attemptAll firstPlays).1.outcome "piano \"third\":" with
  | error cause => simp [taken, Except.toOption] at read
  | ok found =>
    obtain ⟨context, result⟩ := found
    obtain ⟨instrument, instruments, same⟩ := List.map_eq_singleton_iff.mp called.1
    obtain ⟨names, nickname⟩ := Prod.mk.inj same
    have split : (attemptAll firstPlays).1.instrumentsOf "piano \"third\":" =
        [] ++ instrument :: [] := instruments
    obtain ⟨roster, earlier, here, rest, before, children, players, arrives⟩ :=
      nicknamed_call_new_iff firstPlays taken split nickname
    cases before
    obtain ⟨inst, assigned, new⟩ := arrives (.text "piano") (by simp [names])
      (called.2 _ (by simp))
    rw [names, List.flatMap_singleton, assigned] at players
    refine ⟨context, result, rfl, called, here, by simp [children], inst, players, ?_⟩
    simpa [playersOf] using new.stands.mpr (.inr (by simpa [playersOf, stands.1] using stands.2))

theorem thirdPiano_not_new :
    (attemptAll (firstPlays ++ ["cello \"second\":"])).1.CallsOnly "piano \"third\":"
        [.text "piano"] (.text "third") ∧
      ((attemptAll (firstPlays ++ ["cello \"second\":"])).1.outcome
        "piano \"third\":").toOption.map (fun found => playersOf found.2.score.children) =
          some [⟨.text "piano", 2⟩] ∧
      ⟨.text "piano", 2⟩ ∈ (attemptAll (firstPlays ++ ["cello \"second\":"])).2 := by
  decide +kernel

end Session

end Partbook
