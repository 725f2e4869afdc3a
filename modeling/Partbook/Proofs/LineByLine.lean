import Partbook.Proofs.Session

/-!
Scores that are typed line by line. They mean what they mean as one text as long as no line of
music changes what the names stand for.
-/
namespace Partbook

open Source Element

def inTurn {α : Type} (group : List Instance) (heard : List (List α)) : List (Datum × List α) :=
  ([] :: heard).flatMap (turnsOf group)

/-- It holds of every group that has music, with the roster that its call leaves. -/
def EachGroup (holds : Roster → List Instance → Prop) (roster : Roster) : List Passage → Prop
  | [] => True
  | (call, lines) :: passages =>
    (lines ≠ [] → holds (roster.callFor call.calling).1 (roster.callFor call.calling).2) ∧
    EachGroup holds (roster.callFor call.calling).1 passages

/-- The instance is not in any group with music twice. -/
def PlaysOnce (passages : List Passage) (inst : Instance) : Prop :=
  EachGroup (fun _ group => group.count inst ≤ 1) {} passages

/-- Typed into a new session line by line, the passages are all taken, and they come to the same as
one text: all names and nicknames stand for the same instances in the end, the same players are
there, and each that is in no group twice has played the same. -/
def LineByLine (passages : List Passage) : Prop :=
  ∃ session answers whole, Session.interpretAll {} (linesOf passages) = .ok (session, answers) ∧
    Interpretation.ofText {} .score ("\n".intercalate (linesOf passages)) = .ok whole ∧
    (∀ name, session.roster.table.meaning? name = whole.roster.table.meaning? name) ∧
    (∀ name, session.roster.nicknames.meaning? name = whole.roster.nicknames.meaning? name) ∧
    (∀ player, player ∈ (Form.eventsOfAll answers.flatten).map (·.1) ↔
      player ∈ (Form.eventsOfAll whole.parts).map (·.1)) ∧
    ∀ inst, PlaysOnce passages inst →
      playedBy inst.datum (Form.eventsOfAll answers.flatten) =
        playedBy inst.datum (Form.eventsOfAll whole.parts)

/-- The passages of the first `n` lines, the last of them cut short. -/
def firstLines : Nat → List Passage → List Passage
  | 0, _ | _, [] => []
  | n + 1, (call, lines) :: passages =>
    (call, lines.take n) :: firstLines (n - lines.length) passages

structure Replayable (roster : Roster) (group : List Instance) : Prop where
  within : roster.WithinReach group
  settled : roster.Settled group

def inLines (roster : Roster) : List Passage → List (Datum × List Form)
  | [] => []
  | (call, lines) :: passages =>
    inTurn (roster.callFor call.calling).2 (lines.map heardIn)
      ++ inLines (roster.callFor call.calling).1 passages

section

variable {passages before : List Passage} {call : CallLine} {lines : List String} {line : String}
  {session : Session} {answers : List (List (Datum × Form))} {group : List Instance}
  {inst : Instance} {player : Datum}

/-! ## Turns -/

theorem playedBy_inTurn {α : Type} (inst : Instance) (group : List Instance)
    (heard : List (List α)) :
    playedBy inst.datum (inTurn group heard) = heard.flatMap (copies (group.count inst)) := by
  have nothing : playedBy inst.datum (turnsOf group ([] : List α)) = [] := by
    simp [playedBy_turnsOf]
  rw [inTurn, List.flatMap_cons, playedBy_append, nothing, List.nil_append]
  induction heard with
  | nil => rfl
  | cons events heard ih =>
    rw [List.flatMap_cons, playedBy_append, ih, List.flatMap_cons, playedBy_turnsOf]
    rfl

theorem mem_players_inTurn {α : Type} {heard : List (List α)} :
    player ∈ (inTurn group heard).map (·.1) ↔ ∃ inst ∈ group, inst.datum = player := by
  rw [inTurn, List.flatMap_cons, List.map_append, List.mem_append, mem_players_turnsOf,
    or_iff_left_iff_imp]
  intro member
  obtain ⟨entry, within, rfl⟩ := List.mem_map.mp member
  obtain ⟨events, -, within⟩ := List.mem_flatMap.mp within
  obtain ⟨inst, known, rfl⟩ := List.mem_map.mp within
  exact ⟨inst, known, rfl⟩

theorem playedBy_inTurn_of_once {α : Type} {heard : List (List α)}
    (once : heard ≠ [] → group.count inst ≤ 1) :
    playedBy inst.datum (inTurn group heard) =
      playedBy inst.datum (turnsOf group heard.flatten) := by
  rw [playedBy_inTurn, playedBy_turnsOf]
  rcases eq_or_ne heard [] with rfl | music
  · simp
  · rcases Nat.le_one_iff_eq_zero_or_eq_one.mp (once music) with absent | present
    · simp [absent, copies]
    · have single : (copies 1 : List α → List α) = id := by
        funext events
        simp [copies]
      rw [present, single, List.flatMap_id]
      simp

theorem inLines_append (roster : Roster) (before after : List Passage) :
    inLines roster (before ++ after) =
      inLines roster before ++ inLines (roster.afterPassages before) after := by
  induction before generalizing roster with
  | nil => rfl
  | cons passage before ih =>
    obtain ⟨call, lines⟩ := passage
    rw [List.cons_append, inLines, inLines, ih, List.append_assoc]
    rfl

theorem mem_players_inLines (roster : Roster) :
    player ∈ (inLines roster passages).map (·.1) ↔
      player ∈ (inOneGo roster passages).map (·.1) := by
  induction passages generalizing roster with
  | nil => rfl
  | cons passage passages ih =>
    obtain ⟨call, lines⟩ := passage
    rw [inLines, inOneGo, List.map_append, List.map_append, List.mem_append, List.mem_append, ih,
      mem_players_inTurn, mem_players_turnsOf]

theorem playedBy_inLines {roster : Roster}
    (once : EachGroup (fun _ group => group.count inst ≤ 1) roster passages) :
    playedBy inst.datum (inLines roster passages) =
      playedBy inst.datum (inOneGo roster passages) := by
  induction passages generalizing roster with
  | nil => rfl
  | cons passage passages ih =>
    obtain ⟨call, lines⟩ := passage
    rw [inLines, inOneGo, playedBy_append, playedBy_append, ih once.2, List.flatMap_def,
      playedBy_inTurn_of_once fun music => once.1 (by simpa using music)]

/-! ## Groups -/

variable {holds others : Roster → List Instance → Prop} {roster : Roster}

theorem eachGroup_append (roster : Roster) (before after : List Passage) :
    EachGroup holds roster (before ++ after) ↔
      EachGroup holds roster before ∧ EachGroup holds (roster.afterPassages before) after := by
  induction before generalizing roster with
  | nil => simp [EachGroup, Roster.afterPassages, Roster.afterCalls]
  | cons passage before ih =>
    obtain ⟨call, lines⟩ := passage
    rw [List.cons_append, EachGroup, EachGroup, ih, and_assoc]
    rfl

theorem EachGroup.of_append {after : List Passage}
    (each : EachGroup holds roster (before ++ after)) : EachGroup holds roster before :=
  ((eachGroup_append ..).mp each).1

theorem EachGroup.callLine (each : EachGroup holds {} before) (call : CallLine) :
    EachGroup holds {} (before ++ [(call, [])]) :=
  (eachGroup_append ..).mpr ⟨each, fun music => absurd rfl music, trivial⟩

theorem EachGroup.concat (each : EachGroup holds {} before)
    (here : holds (calledAfter before call).1 (calledAfter before call).2) (lines : List String) :
    EachGroup holds {} (before ++ [(call, lines)]) :=
  (eachGroup_append ..).mpr ⟨each, fun _ => here, trivial⟩

theorem EachGroup.last (each : EachGroup holds {} (before ++ [(call, lines ++ [line])])) :
    holds (calledAfter before call).1 (calledAfter before call).2 :=
  ((eachGroup_append ..).mp each).2.1 (by simp)

theorem EachGroup.imp (weaker : ∀ roster group, holds roster group → others roster group)
    (each : EachGroup holds roster passages) : EachGroup others roster passages := by
  induction passages generalizing roster with
  | nil => trivial
  | cons passage passages ih => exact ⟨fun music => weaker _ _ (each.1 music), ih each.2⟩

theorem EachGroup.replayable (within : EachGroup Roster.WithinReach roster passages)
    (settled : EachGroup Roster.Settled roster passages) :
    EachGroup Replayable roster passages := by
  induction passages generalizing roster with
  | nil => trivial
  | cons passage passages ih =>
    exact ⟨fun music => ⟨within.1 music, settled.1 music⟩, ih within.2 settled.2⟩

/-! ## Every beginning of the lines -/

@[simp]
theorem firstLines_nil (n : Nat) : firstLines n [] = [] := by
  cases n <;> rfl

theorem linesOf_firstLines (n : Nat) (passages : List Passage) :
    linesOf (firstLines n passages) = (linesOf passages).take n := by
  induction passages generalizing n with
  | nil => simp [linesOf]
  | cons passage passages ih =>
    obtain ⟨call, lines⟩ := passage
    cases n with
    | zero => rfl
    | succ n =>
      simp only [linesOf] at ih
      simp [firstLines, linesOf, ih, List.take_append]

theorem firstLines_length (passages : List Passage) :
    firstLines (linesOf passages).length passages = passages := by
  induction passages with
  | nil => rfl
  | cons passage passages ih =>
    obtain ⟨call, lines⟩ := passage
    have length : (linesOf ((call, lines) :: passages)).length =
        (lines.length + (linesOf passages).length) + 1 := by
      simp [linesOf]
    rw [length, firstLines, List.take_of_length_le (Nat.le_add_right ..), Nat.add_sub_cancel_left,
      ih]

theorem exists_firstLines (before : List Passage) (call : CallLine) (lines more : List String)
    (after : List Passage) (n : Nat) : ∃ m, firstLines n (before ++ [(call, lines)]) =
      firstLines m (before ++ (call, lines ++ more) :: after) := by
  induction before generalizing n with
  | nil =>
    cases n with
    | zero => exact ⟨0, rfl⟩
    | succ n =>
      refine ⟨min n lines.length + 1, ?_⟩
      have none : min n lines.length - (lines ++ more).length = 0 := by
        rw [List.length_append]
        omega
      have first : (lines ++ more).take (min n lines.length) = lines.take n := by
        rw [List.take_append_of_le_length (Nat.min_le_right ..), ← List.take_take,
          List.take_length]
      simp only [List.nil_append, firstLines, none, first, firstLines_nil]
  | cons passage before ih =>
    obtain ⟨other, earlier⟩ := passage
    cases n with
    | zero => exact ⟨0, rfl⟩
    | succ n =>
      by_cases short : n ≤ earlier.length
      · refine ⟨n + 1, ?_⟩
        simp [firstLines, Nat.sub_eq_zero_of_le short]
      · obtain ⟨m, same⟩ := ih (n - earlier.length)
        refine ⟨earlier.length + m + 1, ?_⟩
        rw [List.cons_append, List.cons_append, firstLines, firstLines, Nat.add_sub_cancel_left,
          same, List.take_of_length_le (Nat.le_add_right ..),
          List.take_of_length_le (Nat.le_of_not_le short)]

theorem exists_firstLines_call (before : List Passage) (call : CallLine) (n : Nat) :
    ∃ m, firstLines n before = firstLines m (before ++ [(call, [])]) := by
  rcases List.eq_nil_or_concat before with rfl | ⟨before, ⟨last, lines⟩, rfl⟩
  · exact ⟨0, firstLines_nil n⟩
  · obtain ⟨m, same⟩ := exists_firstLines before last lines [] [(call, [])] n
    exact ⟨m, by simpa using same⟩

theorem EachGroup.beginning (each : EachGroup holds roster passages) (n : Nat) :
    EachGroup holds roster (firstLines n passages) := by
  induction passages generalizing n roster with
  | nil => rwa [firstLines_nil]
  | cons passage passages ih =>
    cases n with
    | zero => trivial
    | succ n =>
      refine ⟨fun music => each.1 ?_, ih each.2 _⟩
      rintro none
      simp [none] at music

theorem accepted_beginning (accepted : ∀ passage ∈ passages, ∀ line ∈ passage.2, Accepted line)
    (n : Nat) : ∀ passage ∈ firstLines n passages, ∀ line ∈ passage.2, Accepted line := by
  induction passages generalizing n with
  | nil => simp
  | cons passage passages ih =>
    cases n with
    | zero => simp [firstLines]
    | succ n =>
      rw [List.forall_mem_cons] at accepted
      exact List.forall_mem_cons.mpr
        ⟨fun line member => accepted.1 line (List.mem_of_mem_take member), ih accepted.2 _⟩

/-! ## Typed passages -/

/-- Every list of passages comes about line by line: calls follow, and lines of music for the call
before them. -/
@[elab_as_elim]
theorem passages_induction {motive : List Passage → Prop} (start : motive [])
    (callLine : ∀ before call, motive before → motive (before ++ [(call, [])]))
    (musicLine : ∀ before call lines line, motive (before ++ [(call, lines)]) →
      motive (before ++ [(call, lines ++ [line])])) (passages : List Passage) :
    motive passages := by
  induction passages using List.reverseRecOn with
  | nil => exact start
  | append_singleton before passage ih =>
    obtain ⟨call, lines⟩ := passage
    induction lines using List.reverseRecOn with
    | nil => exact callLine before call ih
    | append_singleton lines line earlier => exact musicLine before call lines line earlier

theorem accepted_last
    (accepted : ∀ passage ∈ before ++ [(call, lines ++ [line])],
      ∀ line ∈ passage.2, Accepted line) : Accepted line :=
  accepted (call, lines ++ [line]) (by simp) line (by simp)

theorem accepted_earlier
    (accepted : ∀ passage ∈ before ++ [(call, lines ++ [line])],
      ∀ line ∈ passage.2, Accepted line) :
    ∀ passage ∈ before ++ [(call, lines)], ∀ line ∈ passage.2, Accepted line := by
  rw [List.forall_mem_append, List.forall_mem_singleton] at accepted ⊢
  exact ⟨accepted.1, (List.forall_mem_append.mp accepted.2).1⟩

/-- The session has taken all lines of the passages, with these answers, and has the roster that
the calls alone would leave. -/
structure Typed (passages : List Passage) (session : Session)
    (answers : List (List (Datum × Form))) : Prop where
  taken : Session.interpretAll {} (linesOf passages) = .ok (session, answers)
  default : session.IsDefault
  roster : session.roster = Roster.afterPassages {} passages
  current : ∀ before call lines, passages = before ++ [(call, lines)] →
    session.current = (calledAfter before call).2
  played : SameParts (Form.eventsOfAll answers.flatten) (inLines {} passages)

theorem linesOf_call (before : List Passage) (call : CallLine) :
    linesOf (before ++ [(call, [])]) = linesOf before ++ [call.text] := by
  simp [linesOf]

theorem linesOf_line (before : List Passage) (call : CallLine) (lines : List String)
    (line : String) : linesOf (before ++ [(call, lines ++ [line])]) =
      linesOf (before ++ [(call, lines)]) ++ [line] := by
  simp [linesOf]

theorem inLines_line (before : List Passage) (call : CallLine) (lines : List String)
    (line : String) : inLines {} (before ++ [(call, lines ++ [line])]) =
      inLines {} (before ++ [(call, lines)]) ++
        turnsOf (calledAfter before call).2 (heardIn line) := by
  rw [inLines_append, inLines_append]
  simp [inLines, inTurn, calledAfter]

theorem afterPassages_concat (before : List Passage) (call : CallLine) (lines : List String) :
    Roster.afterPassages {} (before ++ [(call, lines)]) =
      (calledAfter before call).1 :=
  afterPassages_append _ _ _

theorem played_concat {turns : List (Datum × List Form)} {answer : List (Datum × Form)}
    {more : List (Datum × List Form)}
    (played : SameParts (Form.eventsOfAll answers.flatten) turns)
    (last : SameParts (Form.eventsOfAll answer) more) :
    SameParts (Form.eventsOfAll (answers ++ [answer]).flatten) (turns ++ more) := by
  rw [List.flatten_append, List.flatten_singleton, Form.eventsOfAll, List.map_append]
  exact played.append last

theorem Typed.start : Typed [] {} [] where
  taken := rfl
  default := rfl
  roster := rfl
  current before call lines split := by simp at split
  played := .refl _

theorem Typed.callLine (typed : Typed before session answers) (call : CallLine) :
    ∃ after answer, Typed (before ++ [(call, [])]) after (answers ++ [answer]) := by
  have called := called_after before call
  obtain ⟨after, answer, taken, default, roster, current, played⟩ :=
    Session.interpret_call typed.default call (typed.roster ▸ called.named)
  rw [typed.roster] at roster current played
  refine ⟨after, answer, ?_, default, roster.trans (afterPassages_concat ..).symm, ?_, ?_⟩
  · rw [linesOf_call, Session.interpretAll_concat typed.taken, taken]
    rfl
  · intro earlier last lines split
    obtain ⟨rfl, same⟩ := List.append_inj' split rfl
    cases same
    exact current
  · have turns : inLines {} (before ++ [(call, [])]) = inLines {} before ++
        turnsOf (calledAfter before call).2 [] := by
      rw [inLines_append]
      simp [inLines, inTurn, calledAfter]
    rw [turns]
    exact played_concat typed.played played

theorem Typed.interpret (typed : Typed (before ++ [(call, lines)]) session answers)
    (accepted : Accepted line) :
    (∀ error, (calledAfter before call).1.readmitAll (calledAfter before call).2 = .error error →
      session.interpret line = .error (.unresolved error)) ∧
    ∀ left, (calledAfter before call).1.readmitAll (calledAfter before call).2 = .ok left →
      ∃ after answer, session.interpret line = .ok (after, answer) ∧ after.IsDefault ∧
        after.roster = left ∧ after.current = (calledAfter before call).2 ∧
        SameParts (Form.eventsOfAll answer)
          (turnsOf (calledAfter before call).2 (heardIn line)) := by
  have called := called_after before call
  have current := typed.current before call lines rfl
  have roster := typed.roster.trans (afterPassages_concat before call lines)
  have step := Session.interpret_line typed.default accepted (current ▸ called.nonempty)
    (current ▸ called.named)
  rwa [roster, current] at step

theorem Typed.musicLine (typed : Typed (before ++ [(call, lines)]) session answers)
    (accepted : Accepted line)
    (replayable : Replayable (calledAfter before call).1 (calledAfter before call).2) :
    ∃ after answer, Typed (before ++ [(call, lines ++ [line])]) after (answers ++ [answer]) := by
  have taken := (called_after before call).replays.readmitAll_eq_self_iff.mpr
    ⟨replayable.within, replayable.settled⟩
  obtain ⟨after, answer, interpreted, default, roster, current, played⟩ :=
    (typed.interpret accepted).2 _ taken
  refine ⟨after, answer, ?_, default, roster.trans (afterPassages_concat ..).symm, ?_, ?_⟩
  · rw [linesOf_line, Session.interpretAll_concat typed.taken, interpreted]
    rfl
  · intro earlier last lines split
    obtain ⟨rfl, same⟩ := List.append_inj' split rfl
    cases same
    exact current
  · rw [inLines_line]
    exact played_concat typed.played played

theorem exists_typed (accepted : ∀ passage ∈ passages, ∀ line ∈ passage.2, Accepted line)
    (replayable : EachGroup Replayable {} passages) :
    ∃ session answers, Typed passages session answers := by
  induction passages using passages_induction with
  | start => exact ⟨{}, [], .start⟩
  | callLine before call ih =>
    obtain ⟨session, answers, typed⟩ :=
      ih (List.forall_mem_append.mp accepted).1 replayable.of_append
    obtain ⟨after, answer, typed⟩ := typed.callLine call
    exact ⟨after, _, typed⟩
  | musicLine before call lines line ih =>
    obtain ⟨session, answers, typed⟩ :=
      ih (accepted_earlier accepted) (replayable.of_append.concat replayable.last lines)
    obtain ⟨after, answer, typed⟩ := typed.musicLine (accepted_last accepted) replayable.last
    exact ⟨after, _, typed⟩

theorem Typed.lineByLine (typed : Typed passages session answers)
    (accepted : ∀ passage ∈ passages, ∀ line ∈ passage.2, Accepted line) :
    LineByLine passages := by
  obtain ⟨whole, interpreted, roster, parts⟩ := ofText_passages accepted
  refine ⟨session, answers, whole, typed.taken, interpreted, ?_, ?_, ?_, ?_⟩
  · rw [typed.roster, roster]
    exact fun _ => rfl
  · rw [typed.roster, roster]
    exact fun _ => rfl
  · intro player
    rw [typed.played.players, mem_players_inLines, parts.players]
  · intro inst once
    rw [typed.played.played, playedBy_inLines once, parts.played]

theorem lineByLine_of_replayable
    (accepted : ∀ passage ∈ passages, ∀ line ∈ passage.2, Accepted line)
    (replayable : EachGroup Replayable {} passages) : LineByLine passages := by
  obtain ⟨session, answers, typed⟩ := exists_typed accepted replayable
  exact typed.lineByLine accepted

/-! ## What all lines taken, and the same, say of the groups -/

theorem Typed.within (typed : Typed (before ++ [(call, lines)]) session answers)
    (accepted : Accepted line) {after : Session} {answered : List (List (Datum × Form))}
    (taken : Session.interpretAll {} (linesOf (before ++ [(call, lines ++ [line])])) =
      .ok (after, answered)) :
    (calledAfter before call).1.WithinReach (calledAfter before call).2 := by
  by_contra outside
  obtain ⟨inst, -, gap⟩ := (called_after before call).replays.readmitAll_of_outside outside
  rw [linesOf_line, Session.interpretAll_concat typed.taken,
    (typed.interpret accepted).1 _ gap] at taken
  cases taken

theorem Typed.replayable (typed : Typed (before ++ [(call, lines)]) session answers)
    (accepted : ∀ passage ∈ before ++ [(call, lines ++ [line])], ∀ line ∈ passage.2, Accepted line)
    (same : LineByLine (before ++ [(call, lines ++ [line])])) :
    Replayable (calledAfter before call).1 (calledAfter before call).2 := by
  have called := called_after before call
  have music := accepted_last accepted
  obtain ⟨whole, interpreted, roster, -⟩ := ofText_passages accepted
  obtain ⟨session', answers', whole', taken, interpreted', table, -⟩ := same
  cases interpreted.symm.trans interpreted'
  have within := typed.within music taken
  refine ⟨within, fun inst last => ?_⟩
  obtain ⟨after, answer, read, -, left, -⟩ :=
    (typed.interpret music).2 _ (called.replays.readmitAll_of_reach within)
  rw [linesOf_line, Session.interpretAll_concat typed.taken, read] at taken
  cases taken
  have meaning := table inst.name
  rw [roster, afterPassages_concat, left, Roster.meaning?_readmitted,
    mem_lastOnes.mp last] at meaning
  exact meaning.symm

theorem replayable_of_lineByLine
    (accepted : ∀ passage ∈ passages, ∀ line ∈ passage.2, Accepted line)
    (same : ∀ n, LineByLine (firstLines n passages)) : EachGroup Replayable {} passages := by
  induction passages using passages_induction with
  | start => trivial
  | callLine before call ih =>
    have sameBefore (n : Nat) : LineByLine (firstLines n before) := by
      obtain ⟨m, beginning⟩ := exists_firstLines_call before call n
      exact beginning ▸ same m
    exact (ih (List.forall_mem_append.mp accepted).1 sameBefore).callLine call
  | musicLine before call lines line ih =>
    have sameBefore (n : Nat) : LineByLine (firstLines n (before ++ [(call, lines)])) := by
      obtain ⟨m, beginning⟩ := exists_firstLines before call lines [line] [] n
      exact beginning ▸ same m
    have replayable := ih (accepted_earlier accepted) sameBefore
    obtain ⟨session, answers, typed⟩ := exists_typed (accepted_earlier accepted) replayable
    have whole := firstLines_length (before ++ [(call, lines ++ [line])]) ▸ same _
    exact replayable.of_append.concat (typed.replayable accepted whole) _

theorem replayable_of_taken
    (accepted : ∀ passage ∈ passages, ∀ line ∈ passage.2, Accepted line)
    (settled : EachGroup Roster.Settled {} passages)
    (taken : Session.interpretAll {} (linesOf passages) = .ok (session, answers)) :
    EachGroup Replayable {} passages := by
  induction passages using passages_induction generalizing session answers with
  | start => trivial
  | callLine before call ih =>
    rw [linesOf_call] at taken
    obtain ⟨middle, answered, first⟩ := Session.interpretAll_of_append taken
    exact (ih (List.forall_mem_append.mp accepted).1 settled.of_append first).callLine call
  | musicLine before call lines line ih =>
    have split := taken
    rw [linesOf_line] at split
    obtain ⟨middle, answered, first⟩ := Session.interpretAll_of_append split
    have replayable := ih (accepted_earlier accepted)
      (settled.of_append.concat settled.last lines) first
    obtain ⟨session, answers, typed⟩ := exists_typed (accepted_earlier accepted) replayable
    have within := typed.within (accepted_last accepted) taken
    exact replayable.of_append.concat ⟨within, settled.last⟩ _

/-- Typed line by line, a score means what it means as one text, wherever one stops typing, if the
roster takes back every group with music and the names of its instruments stand for it already. If
all lines are taken, it means the same only if they do. -/
theorem lineByLine_iff_settled
    (accepted : ∀ passage ∈ passages, ∀ line ∈ passage.2, Accepted line) :
    (EachGroup Roster.WithinReach {} passages → EachGroup Roster.Settled {} passages →
      ∀ n, LineByLine (firstLines n passages)) ∧
    ∀ session answers, Session.interpretAll {} (linesOf passages) = .ok (session, answers) →
      ((∀ n, LineByLine (firstLines n passages)) ↔ EachGroup Roster.Settled {} passages) := by
  have same (replayable : EachGroup Replayable {} passages) (n : Nat) :
      LineByLine (firstLines n passages) :=
    lineByLine_of_replayable (accepted_beginning accepted n) (replayable.beginning n)
  constructor
  · intro within settled
    exact same (within.replayable settled)
  · intro session answers taken
    constructor
    · intro all
      exact (replayable_of_lineByLine accepted all).imp fun _ _ replayable => replayable.settled
    · intro settled
      exact same (replayable_of_taken accepted settled taken)

end

/-! ## Two scores -/

def plainCall (name : String) (others : List String) (nickname : Option String)
    (named : (name :: others).all (isName ·.toList)) (quoted : nickname.all (isName ·.toList)) :
    CallLine where
  name := name
  others := others
  nickname := nickname.map ([' '], ·)
  space := []
  named := by simpa using named
  quoted := by
    cases nickname with
    | none => nofun
    | some nickname =>
      rintro gap given ⟨⟩
      exact ⟨by simp, List.forall_mem_singleton.mpr (by decide), by simpa using quoted⟩
  blank := by simp

def firstPiano : CallLine := plainCall "piano" [] (some "first") rfl rfl

def secondPiano : CallLine := plainCall "piano" [] (some "second") rfl rfl

def twoPianos : List Passage := [(firstPiano, ["c d"]), (secondPiano, ["e", "f g"])]

def firstReturns : List Passage :=
  [(firstPiano, []), (secondPiano, []), (plainCall "first" [] none rfl rfl, ["c"])]

theorem accepted_of_build {line : String} (built : (build .musicData line).toBool) :
    Accepted line := by
  cases read : build .musicData line with
  | ok music => exact ⟨music, read_ok_iff.mpr read⟩
  | error fault => simp [read, Except.toBool] at built

-- the lines of both scores, in one evaluation
theorem accepted_notes : ∀ line ∈ ["c d", "e", "f g", "c"], Accepted line := by
  have built : (["c d", "e", "f g", "c"].all fun line => (build .musicData line).toBool) := by
    decide +kernel
  exact fun line member => accepted_of_build (List.all_eq_true.mp built line member)

theorem accepted_twoPianos : ∀ passage ∈ twoPianos, ∀ line ∈ passage.2, Accepted line := by
  simp only [twoPianos, List.forall_mem_cons]
  exact ⟨⟨accepted_notes _ (by simp), by simp⟩,
    ⟨accepted_notes _ (by simp), accepted_notes _ (by simp), by simp⟩, by simp⟩

theorem accepted_firstReturns : ∀ passage ∈ firstReturns, ∀ line ∈ passage.2, Accepted line := by
  simp only [firstReturns, List.forall_mem_cons]
  exact ⟨by simp, by simp, ⟨accepted_notes _ (by simp), by simp⟩, by simp⟩

/-- The music of the first piano takes the name from the second, as tracks do. -/
theorem not_lineByLine_firstReturns :
    (∀ passage ∈ firstReturns, ∀ line ∈ passage.2, Accepted line) ∧ ¬ LineByLine firstReturns := by
  refine ⟨accepted_firstReturns, ?_⟩
  have typed : ((Session.interpretAll {} (linesOf firstReturns)).toOption.bind fun result =>
      result.1.roster.table.meaning? (.text "piano")) = some [⟨.text "piano", 1⟩] := by
    decide +kernel
  have whole : ((Interpretation.ofText {} .score
      ("\n".intercalate (linesOf firstReturns))).toOption.bind fun result =>
      result.roster.table.meaning? (.text "piano")) = some [⟨.text "piano", 2⟩] := by
    decide +kernel
  rintro ⟨session, answers, result, taken, interpreted, table, -⟩
  rw [taken] at typed
  rw [interpreted] at whole
  exact absurd (typed.symm.trans ((table (.text "piano")).trans whole)) (by decide)

theorem lineByLine_twoPianos :
    (∀ passage ∈ twoPianos, ∀ line ∈ passage.2, Accepted line) ∧
      (∀ n, LineByLine (firstLines n twoPianos)) ∧
      ∃ session answers, Session.interpretAll {} (linesOf twoPianos) = .ok (session, answers) ∧
        EachGroup Roster.Settled {} twoPianos := by
  have first := (called_after [] firstPiano).replays.readmitAll_eq_self_iff.mp rfl
  have second :=
    (called_after [(firstPiano, ["c d"])] secondPiano).replays.readmitAll_eq_self_iff.mp rfl
  obtain ⟨taken, kept⟩ := lineByLine_iff_settled accepted_twoPianos
  have all := taken ⟨fun _ => first.1, fun _ => second.1, trivial⟩
    ⟨fun _ => first.2, fun _ => second.2, trivial⟩
  have whole := firstLines_length twoPianos ▸ all _
  obtain ⟨session, answers, -, run, -⟩ := whole
  exact ⟨accepted_twoPianos, all, session, answers, run, (kept _ _ run).mp all⟩

end Partbook
