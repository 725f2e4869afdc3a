import Partbook.Proofs.Failures
import Partbook.Proofs.Newcomers
import Partbook.Proofs.Roster.Mixed

/-!
Texts entered into a session that is changed in place, one piece of it after another. Whatever stops
a text does so before the first change, so a text that fails might as well not have been entered.
-/
namespace Partbook

open Source Element Roster

/-- An error of parsing or of resolution: the text cannot be read, or asks for somebody whom it
cannot have. -/
def InterpretError.IsRefusal : InterpretError → Prop
  | .unread _ | .noCurrent => True
  | .unresolved error => error.message.isSome
  | .uncollected error => error.message.isSome
  | _ => False

/-- What stops a text on its way through a session. -/
inductive Stop where
  | failed (cause : InterpretError)
  /-- An instrument with nothing in it that could tell who plays. -/
  | unplayed

def Stop.IsRefusal : Stop → Prop
  | .failed cause => cause.IsRefusal
  | .unplayed => False

namespace Roster

theorem Within.readmitted {roster : Roster} {sort : Datum → Prop} (within : roster.Within sort)
    {instances : List Instance} (sorted : ∀ inst ∈ instances, sort inst.name) :
    (roster.readmitted instances).Within sort where
  table inst member := by
    rcases Bindings.mem_instances_bindAll member with ⟨entry, given, bound⟩ | old
    · obtain ⟨other, known, rfl⟩ := List.mem_map.mp given
      rw [List.mem_singleton.mp bound]
      exact sorted other known
    · exact within.table inst old
  nicknames := within.nicknames

end Roster

namespace Session

/-! ## Changing a session -/

/-- A step in a session. If it stops, the session stays as it is by then. -/
abbrev Step := ExceptT Stop (StateM Session)

def Step.ofExcept {α : Type} : Except InterpretError α → Step α
  | .ok value => pure value
  | .error cause => throw (.failed cause)

def follow (instrument : Element) : Step Unit :=
  match instrument.children with
  | [] => throw .unplayed
  | tracks :: _ =>
    modify fun session => { session with current := tracks.children.filterMap instance? }

/-- Carries the session on, piece by piece, after all of the interpreting is done. -/
def carryOn (text context : String) (result : Interpretation) : Step Unit := do
  forM (result.score.childrenOf (.plain .instrument)) follow
  modify fun session => { session with roster := result.roster }
  modify fun session => { session with context := some context }
  modify fun session => { session with history := session.history ++ [text] }

def enter (text : String) : Step (List (Datum × Form)) := do
  let (context, element) ← Step.ofExcept ((← get).read text)
  let score ← Step.ofExcept ((← get).scoreOf element)
  let result ← Step.ofExcept (Interpretation.ofScore (← get).roster score)
  carryOn text context result
  return result.parts

def enterAll : List String → StateM Session (List (Except Stop (List (Datum × Form))))
  | [] => pure []
  | text :: texts => do
    let answer ← (enter text).run
    let answers ← enterAll texts
    return answer :: answers

variable {session : Session}

theorem run_get (session : Session) :
    (get : Step Session).run.run session = (.ok session, session) := rfl

theorem run_ofExcept {α : Type} (result : Except InterpretError α) (session : Session) :
    (Step.ofExcept result).run.run session = (result.mapError .failed, session) := by
  cases result <;> rfl

theorem lastCalled_eq (score : Element) :
    lastCalled score = (score.childrenOf (.plain .instrument)).getLast?.map players := by
  refine congrArg (Option.map · _) (funext fun instrument => ?_)
  rw [players]
  cases instrument.children.head? <;> rfl

theorem run_follow {instrument : Element} (begins : instrument.children ≠ [])
    (session : Session) : (follow instrument).run.run session =
      (.ok (), { session with current := instrument.players }) := by
  obtain ⟨tracks, music, children⟩ := List.exists_cons_of_ne_nil begins
  rw [follow, players, children]
  rfl

theorem run_followAll {instruments : List Element}
    (begin : ∀ instrument ∈ instruments, instrument.children ≠ []) (session : Session) :
    (forM instruments follow).run.run session = (.ok (), { session with
      current := (instruments.getLast?.map players).getD session.current }) := by
  induction instruments generalizing session with
  | nil => rfl
  | cons instrument instruments ih =>
    rw [List.forall_mem_cons] at begin
    rw [List.forM_cons, run_bind, run_follow begin.1]
    simp only [ih begin.2, List.getLast?_cons]
    cases instruments.getLast? <;> rfl

theorem begin_of_resolveAll {roster after : Roster} {instruments resolved : List Element}
    (accepted : roster.resolveAll instruments = .ok (after, resolved)) :
    ∀ instrument ∈ resolved, instrument.children ≠ [] := by
  induction instruments generalizing roster resolved with
  | nil =>
    cases accepted
    simp
  | cons instrument instruments ih =>
    simp only [Roster.resolveAll, bind_eq_ok, pure_eq_ok] at accepted
    obtain ⟨⟨middle, first⟩, here, ⟨last, rest⟩, later, same⟩ := accepted
    cases same
    refine List.forall_mem_cons.mpr ⟨?_, ih later⟩
    rcases resolve_cases here with ⟨tracks, music, begins, -, rfl⟩ | ⟨_, _, music, -, -, rfl⟩
    · rw [begins]
      exact List.cons_ne_nil _ _
    · exact List.cons_ne_nil _ _

theorem run_carryOn {roster : Roster} {score : Element} {result : Interpretation}
    (interpreted : Interpretation.ofScore roster score = .ok result) (text context : String)
    (session : Session) : (carryOn text context result).run.run session = (.ok (), { session with
      context := some context
      roster := result.roster
      current := (lastCalled result.score).getD session.current
      history := session.history ++ [text] }) := by
  -- so no instrument of the result stops the session halfway
  have begin : ∀ instrument ∈ result.score.childrenOf (.plain .instrument),
      instrument.children ≠ [] := fun instrument member =>
    begin_of_resolveAll (Interpretation.ofScore_ok interpreted).2 instrument
      (List.mem_filter.mp member).1
  rw [carryOn, run_bind, run_followAll begin, lastCalled_eq]
  rfl

/-- To enter a text is to interpret it. A text that fails leaves the session as it was. -/
theorem run_enter (session : Session) (text : String) : (enter text).run.run session =
    match session.interpret text with
    | .ok (after, answer) => (.ok answer, after)
    | .error cause => (.error (.failed cause), session) := by
  simp only [enter, run_bind, run_get, run_ofExcept]
  rw [interpret]
  cases session.read text with
  | error cause => rfl
  | ok found =>
    simp only [mapError_ok, bind, Except.bind]
    cases session.scoreOf found.2 with
    | error cause => rfl
    | ok score =>
      simp only [mapError_ok]
      cases interpreted : Interpretation.ofScore session.roster score with
      | error cause => rfl
      | ok result =>
        simp only [mapError_ok, run_carryOn interpreted]
        rfl

/-! ## Refusals -/

/-- A session that tries these rules, and in which nobody is known but by names from texts. -/
structure Sound (rules : List StartRule) (session : Session) : Prop where
  contexts : session.contexts = rules.map StartRule.name
  known : session.roster.Within fun name => ∃ text, name = .text text
  current : ∀ inst ∈ session.current, inst.Named

variable {rules : List StartRule}

def fresh (rules : List StartRule) : Session := { contexts := rules.map StartRule.name }

theorem Sound.start (rules : List StartRule) : Sound rules (fresh rules) where
  contexts := rfl
  known := .start _
  current := by simp [fresh]

theorem ofName?_name (rule : StartRule) : StartRule.ofName? rule.name = some rule := by
  cases rule <;> rfl

theorem readFirst_cases (text : String) (rules : List StartRule) :
    (∃ error, readFirst text (rules.map StartRule.name) = .error (.unread error)) ∨
      ∃ rule element, readFirst text (rules.map StartRule.name) = .ok (rule.name, element) ∧
        Element.read rule text = .ok element := by
  induction rules with
  | nil => exact .inl ⟨_, rfl⟩
  | cons rule rules ih =>
    cases read : Element.read rule text with
    | ok element =>
      exact .inr ⟨rule, element, by simp only [List.map_cons, readFirst, ofName?_name, read], read⟩
    | error error => simpa only [List.map_cons, readFirst, ofName?_name, read] using ih

theorem Sound.after (sound : Sound rules session) (result : Interpretation)
    (known : result.roster.Within fun name => ∃ text, name = .text text)
    (named : ∀ inst ∈ playersOf result.score.children, inst.Named) (text context : String) :
    Sound rules { session with
      context := some context
      roster := result.roster
      current := (lastCalled result.score).getD session.current
      history := session.history ++ [text] } where
  contexts := sound.contexts
  known := known
  current inst member := (mem_current_after member).elim (named inst) (sound.current inst)

/-- The text carries the session on, or is refused. -/
def Settles (rules : List StartRule) (session : Session) (text : String) : Prop :=
  (∃ after answer, session.interpret text = .ok (after, answer) ∧ Sound rules after ∧
    after.history = session.history ++ [text]) ∨
  ∃ cause, session.interpret text = .error cause ∧ cause.IsRefusal

theorem Sound.settles_score (sound : Sound rules session) {rule : StartRule} {text : String}
    {score : Element} (found : session.read text = .ok (rule.name, score))
    (other : rule ≠ .musicData) (read : Element.read rule text = .ok score) :
    Settles rules session text := by
  have scored : session.scoreOf score = .ok score := by
    rw [scoreOf, kind_of_read other read]
    rfl
  have interpreted := Interpretation.ofScore_read sound.known other read
  have texts : ∀ instrument ∈ Interpretation.instrumentsOf rule text,
      ∀ name ∈ instrument.calledNames, ∃ text, name = .text text := fun instrument member =>
    (Interpretation.scripted_instrumentsOf other read instrument member).texts
  obtain ⟨known, named⟩ := sound.known.calls texts
  exact .inl ⟨_, _, interpret_ok found scored interpreted,
    sound.after (.ofResolved _ _) known named _ _, rfl⟩

theorem Sound.settles_music (sound : Sound rules session) {context text : String}
    {events : List Element} (found : session.read text = .ok (context, .plain .musicData events))
    (spelled : ∀ event ∈ events, event.isSpelled) : Settles rules session text := by
  by_cases nobody : session.current = []
  · refine .inr ⟨.noCurrent, ?_, trivial⟩
    rw [interpret, found]
    simp only [scoreOf_nobody nobody events, bind, Except.bind]
  · have scored := scoreOf_music nobody events
    have still := hoist_lineScore session.current spelled
    have resolved := resolve_lineScore session.roster session.current spelled
    have fixed : ∀ inst ∈ session.current, inst.name.isFixed := by
      intro inst member
      obtain ⟨text, named⟩ := sound.current inst member
      rw [named]
      rfl
    by_cases gapless : session.roster.Gapless session.current
    · rw [readmitAll_of_gapless fixed gapless] at resolved
      have players : playersOf [lineScore session.current events] = session.current := by
        rw [playersOf, List.flatMap_singleton]
        exact players_of_begins rfl
      have interpreted := Interpretation.ofScore_resolved still resolved rfl
        (by simpa using tracked_lineScore session.current spelled)
        (players.symm ▸ sound.current) (by simpa [eventsOf_lineScore] using spelled)
      exact .inl ⟨_, _, interpret_ok found scored interpreted,
        sound.after (.ofResolved _ _) (sound.known.readmitted sound.current)
          (players.symm ▸ sound.current) _ _, rfl⟩
    · obtain ⟨inst, -, refused⟩ := readmitAll_of_gap fixed gapless
      refine .inr ⟨.unresolved (.outOfSequence inst), ?_, rfl⟩
      rw [refused] at resolved
      simp only [interpret, found, scored, Interpretation.ofScore, still, resolved, Except.map,
        mapError_ok, mapError_error, bind, Except.bind]

theorem Sound.settles (sound : Sound rules session) (text : String) :
    Settles rules session text := by
  have contexts : session.read text = readFirst text (rules.map StartRule.name) := by
    rw [Session.read, sound.contexts]
  rcases readFirst_cases text rules with ⟨error, unread⟩ | ⟨rule, element, found, read⟩
  · refine .inr ⟨.unread error, ?_, trivial⟩
    rw [interpret, contexts, unread]
    rfl
  · rw [← contexts] at found
    by_cases music : rule = .musicData
    · have built := read_ok_iff.mp read
      have spelled := isSpelled_children (isSpelled_of_build built)
      rw [music] at built
      simp only [build, musicElement, bind_eq_ok, pure_eq_ok] at built
      obtain ⟨_, -, events, -, rfl⟩ := built
      exact sound.settles_music found spelled
    · exact sound.settles_score found music read

/-! ## Texts that failed -/

def answered (texts : List String) (answers : List (Except Stop (List (Datum × Form)))) :
    List String :=
  ((texts.zip answers).filter fun (_, answer) => answer.toBool).map (·.1)

theorem run_enterAll_cons (session : Session) (text : String) (texts : List String) :
    (enterAll (text :: texts)).run session =
      ((((enter text).run.run session).1 ::
          ((enterAll texts).run ((enter text).run.run session).2).1),
        ((enterAll texts).run ((enter text).run.run session).2).2) := rfl

theorem Sound.enterAll (sound : Sound rules session) (texts : List String) :
    ∃ answers last, (enterAll texts).run session = (answers, last) ∧
      answers.length = texts.length ∧ (∀ stop, .error stop ∈ answers → stop.IsRefusal) ∧
      (Session.enterAll (answered texts answers)).run session =
        (answers.filter Except.toBool, last) ∧
      last.history = session.history ++ answered texts answers := by
  induction texts generalizing session with
  | nil => exact ⟨[], session, rfl, rfl, by simp, rfl, by simp [answered]⟩
  | cons text texts ih =>
    have entered := run_enter session text
    rcases sound.settles text with
      ⟨after, answer, given, carried, history⟩ | ⟨cause, failed, refusal⟩
    · rw [given] at entered
      obtain ⟨answers, last, run, length, refusals, again, later⟩ := ih carried
      have kept : answered (text :: texts) (.ok answer :: answers) =
          text :: answered texts answers := rfl
      refine ⟨.ok answer :: answers, last, ?_, congrArg (· + 1) length, ?_, ?_, ?_⟩
      · simp only [run_enterAll_cons, entered, run]
      · simpa using refusals
      · rw [kept, run_enterAll_cons, entered]
        simp only [again]
        rfl
      · rw [kept, later, history, List.append_assoc]
        rfl
    · rw [failed] at entered
      obtain ⟨answers, last, run, length, refusals, again, later⟩ := ih sound
      refine ⟨.error (.failed cause) :: answers, last, ?_, congrArg (· + 1) length, ?_, again,
        later⟩
      · simp only [run_enterAll_cons, entered, run]
      · intro stop member
        rcases List.mem_cons.mp member with same | within
        · cases same
          exact refusal
        · exact refusals stop within

theorem run_enterAll_take (session : Session) (texts : List String) (n : Nat) :
    ((enterAll (texts.take n)).run session).1 = ((enterAll texts).run session).1.take n := by
  induction texts generalizing session n with
  | nil =>
    rw [List.take_nil]
    exact List.take_nil.symm
  | cons text texts ih =>
    cases n with
    | zero => rfl
    | succ n =>
      rw [List.take_succ_cons, run_enterAll_cons, run_enterAll_cons, List.take_succ_cons, ih]

/-- Entering a text is interpreting it, and a text that fails leaves the session as it was. Whatever
rules are tried, no text fails but for a refusal. The texts that fail can be left out: all others
are answered the same, and the session ends as the same. Its history always is the list of the texts
that have not failed so far. -/
theorem failures_leave_no_trace (rules : List StartRule) (texts : List String) :
    (∀ session text, (enter text).run.run session =
      match session.interpret text with
      | .ok (after, answer) => (.ok answer, after)
      | .error cause => (.error (.failed cause), session)) ∧
    ∃ answers last, (enterAll texts).run (fresh rules) = (answers, last) ∧
      answers.length = texts.length ∧ (∀ stop, .error stop ∈ answers → stop.IsRefusal) ∧
      (enterAll (answered texts answers)).run (fresh rules) =
        (answers.filter Except.toBool, last) ∧
      ∀ n, ∃ soFar, (enterAll (texts.take n)).run (fresh rules) = (answers.take n, soFar) ∧
        soFar.history = answered (texts.take n) (answers.take n) := by
  refine ⟨run_enter, ?_⟩
  obtain ⟨answers, last, run, length, refusals, again, -⟩ := (Sound.start rules).enterAll texts
  refine ⟨answers, last, run, length, refusals, again, fun n => ?_⟩
  obtain ⟨before, soFar, here, -, -, -, history⟩ := (Sound.start rules).enterAll (texts.take n)
  have same := run_enterAll_take (fresh rules) texts n
  rw [here, run] at same
  subst same
  exact ⟨soFar, here, history⟩

end Session

end Partbook
