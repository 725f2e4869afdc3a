import Partbook.Proofs.Roster.Numbering
import Partbook.Proofs.Roster.Scores

namespace Partbook

namespace Roster

def resolveRuns (roster : Roster) : List (List Element) →
    Except ResolveError (Roster × List Element)
  | [] => .ok (roster, [])
  | run :: runs => do
    let (roster, resolved) ← roster.resolveAll run
    let (roster, later) ← roster.resolveRuns runs
    return (roster, resolved ++ later)

theorem resolveRuns_called {runs : List (List Element)}
    (called : ∀ run ∈ runs, ∀ instrument ∈ run, instrument.WellCalled) (roster : Roster) :
    roster.resolveRuns runs = .ok (roster.afterCalls runs.flatten, roster.cast runs.flatten) := by
  induction runs generalizing roster with
  | nil => rfl
  | cons run runs ih =>
    rw [List.forall_mem_cons] at called
    rw [resolveRuns, resolveAll_called called.1, List.flatten_cons, afterCalls_append, cast_append]
    simp only [bind, Except.bind, ih called.2]
    rfl

def interpretRuns (roster : Roster) : List (Source.StartRule × String) →
    Except InterpretError (Roster × List Element)
  | [] => .ok (roster, [])
  | (rule, text) :: texts => do
    let result ← Interpretation.ofText roster rule text
    let (roster, later) ← result.roster.interpretRuns texts
    return (roster, result.score.children ++ later)

def calledIn (texts : List (Source.StartRule × String)) : List Element :=
  texts.flatMap fun (rule, text) => Interpretation.instrumentsOf rule text

theorem interpretRuns_ok {roster final : Roster} {texts : List (Source.StartRule × String)}
    {resolved : List Element} (interpreted : roster.interpretRuns texts = .ok (final, resolved)) :
    (∀ instrument ∈ calledIn texts, instrument.WellCalled) ∧
      final = roster.afterCalls (calledIn texts) ∧ resolved = roster.cast (calledIn texts) := by
  induction texts generalizing roster final resolved with
  | nil =>
    cases interpreted
    exact ⟨by simp [calledIn], rfl, rfl⟩
  | cons text texts ih =>
    obtain ⟨rule, text⟩ := text
    simp only [interpretRuns, bind_eq_ok, pure_eq_ok] at interpreted
    obtain ⟨result, here, ⟨after, later⟩, rest, same⟩ := interpreted
    cases same
    obtain ⟨called, run⟩ := Interpretation.ofText_ok here
    rw [resolveAll_called called] at run
    obtain ⟨calledLater, final, cast⟩ := ih rest
    simp only [Except.ok.injEq, Prod.mk.injEq] at run
    rw [calledIn, List.flatMap_cons]
    refine ⟨List.forall_mem_append.mpr ⟨called, calledLater⟩, ?_, ?_⟩
    · rw [afterCalls_append, run.1]
      exact final
    · rw [cast_append, run.1, run.2]
      exact congrArg _ cast

/-- What one call gives out, with the roster that the calls before it left: `resolved` is the
instrument with its tracks, and `earlier` are all tracks before. -/
structure GivesOut (roster : Roster) (before : List Element) (earlier : List Instance)
    (instrument resolved : Element) : Prop where
  players : resolved.players =
    instrument.calledNames.flatMap (roster.assign instrument.calledNickname)
  nicknamed : ∀ nickname, instrument.calledNickname = some nickname →
    ∀ name ∈ instrument.calledNames, roster.nicknames.meaning? name = none →
      roster.assign instrument.calledNickname name = [⟨name, highestNumber name earlier + 1⟩]
  bare : instrument.calledNickname = none →
    ∀ name ∈ instrument.calledNames, (∀ call ∈ before, ¬ call.Mentions name) →
      roster.assign instrument.calledNickname name = [⟨name, 1⟩] ∧ ⟨name, 1⟩ ∉ earlier
  new : List.Disjoint earlier (roster.allocations instrument)

/-- No number is ever given out again: neither by one call after another, nor in the tracks as a
whole, where the numbers of an instrument first occur in order. -/
structure GivenOnce (calls resolved : List Element) : Prop where
  each : ∀ before instrument after, calls = before ++ instrument :: after →
    ∃ roster earlier here later, resolveAll {} before = .ok (roster, earlier) ∧
      resolved = earlier ++ here :: later ∧
      GivesOut roster before (playersOf earlier) instrument here
  all : resolved.length = calls.length
  ordered : FirstInOrder (playersOf resolved)
  apart : (allocationsOfAll {} calls).Pairwise List.Disjoint

theorem Numbered.givesOut {roster : Roster} {before : List Element} {earlier : List Instance}
    (numbered : Numbered roster before earlier) (instrument : Element) :
    GivesOut roster before earlier instrument
      (instrument.withPlayers (roster.callFor instrument).2) where
  players := by rw [Element.players_withPlayers, callFor, snd_call]
  nicknamed nickname named name _ free := by
    rw [named]
    exact numbered.assign_of_allocates (by simp [allocates, free])
  bare unnamed name _ fresh := by
    have unbound : roster.table.meaning? name = none := by
      by_contra known
      obtain ⟨call, member, mentions⟩ := numbered.mentioned name known
      exact fresh call member mentions
    have never := numbered.highest_of_unbound unbound
    rw [unnamed]
    constructor
    · have first : roster.allocates none name := by simp [allocates, unbound]
      rw [numbered.assign_of_allocates first, never]
      rfl
    · intro old
      have low := le_highestNumber old
      omega
  new := numbered.allocations_new instrument

theorem givenOnce_cast {calls : List Element}
    (called : ∀ instrument ∈ calls, instrument.WellCalled) : GivenOnce calls (cast {} calls) where
  each before instrument after split := by
    subst split
    rw [List.forall_mem_append, List.forall_mem_cons] at called
    have numbered : Numbered (afterCalls {} before) before (playersOf (cast {} before)) :=
      Numbered.start.run called.1
    exact ⟨_, _, _, _, resolveAll_called called.1 {}, cast_append {} before _,
      numbered.givesOut instrument⟩
  all := length_cast {} calls
  ordered := (Numbered.start.run called).ordered
  apart := (Numbered.start.allocationsOfAll_new called).2

/-- Runs of calls always succeed, and they and texts give out every number once. -/
theorem numbers_given_once :
    (∀ runs : List (List Element), (∀ run ∈ runs, ∀ instrument ∈ run, instrument.WellCalled) →
      ∃ final resolved, resolveRuns {} runs = .ok (final, resolved) ∧
        GivenOnce runs.flatten resolved) ∧
    ∀ texts final resolved, interpretRuns {} texts = .ok (final, resolved) →
      GivenOnce (calledIn texts) resolved := by
  constructor
  · intro runs called
    refine ⟨_, _, resolveRuns_called called {}, givenOnce_cast ?_⟩
    intro instrument member
    obtain ⟨run, given, within⟩ := List.mem_flatten.mp member
    exact called run given instrument within
  · intro texts final resolved interpreted
    obtain ⟨called, -, rfl⟩ := interpretRuns_ok interpreted
    exact givenOnce_cast called

theorem two_runs_given_once : ∃ final resolved,
    resolveRuns {} [[.calling ["piano"] (some "first")],
      [.calling ["piano"] (some "second"), .calling ["first", "cello"] none]] =
        .ok (final, resolved) ∧
      playersOf resolved = [⟨.text "piano", 1⟩, ⟨.text "piano", 2⟩, ⟨.text "piano", 1⟩,
        ⟨.text "cello", 1⟩] ∧
      FirstInOrder (playersOf resolved) := by
  obtain ⟨final, resolved, run, once⟩ := numbers_given_once.1
    [[.calling ["piano"] (some "first")],
      [.calling ["piano"] (some "second"), .calling ["first", "cello"] none]]
    (by simp [Element.wellCalled_calling])
  refine ⟨final, resolved, run, ?_, once.ordered⟩
  cases run
  rfl

end Roster

end Partbook
