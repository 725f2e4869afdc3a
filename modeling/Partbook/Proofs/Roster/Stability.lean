import Partbook.Proofs.Roster.Numbering

/-!
What names stand for in the course of a run of calls. A nickname stands for its group until another
group takes it, and any other name for the newest instance of its instrument. A call without a
nickname only adds names.
-/
namespace Partbook

namespace Roster

variable {roster : Roster} {calls : List Element} {history : List Instance} {name : Datum}

/-- Every nickname is a name as well, for the same instances, and never for none. -/
def Consistent (roster : Roster) : Prop :=
  ∀ nickname group, roster.nicknames.meaning? nickname = some group →
    roster.table.meaning? nickname = some group ∧ group ≠ []

theorem Consistent.assign (consistent : roster.Consistent) {group : List Instance}
    (known : roster.nicknames.meaning? name = some group) (nickname : Option Datum) :
    roster.assign nickname name = group := by
  obtain ⟨named, nonempty⟩ := consistent name group known
  cases nickname with
  | none =>
    obtain ⟨inst, others, rfl⟩ := List.exists_cons_of_ne_nil nonempty
    simp [Roster.assign, named]
  | some nickname => simp [Roster.assign, known]

theorem Numbered.consistent (numbered : Numbered roster calls history) : roster.Consistent := by
  intro nickname group known
  have named := numbered.agree nickname group known
  exact ⟨named, numbered.bound nickname group named⟩

theorem Numbered.assign_of_free (numbered : Numbered roster calls history)
    (free : roster.nicknames.meaning? name = none) :
    roster.assign none name = [⟨name, max 1 (highestNumber name history)⟩] := by
  have newest := numbered.newest name free
  have nonneg := numbered.nonneg name
  split at newest
  · rename_i zero
    simp [Roster.assign, newest, zero]
  · have positive : 1 ≤ highestNumber name history := by omega
    simp [Roster.assign, newest, max_eq_right positive]

theorem Numbered.prefix_table_call (numbered : Numbered roster calls history)
    (names : List Datum) : roster.table <+: (roster.call names none).1.table := by
  apply Bindings.prefix_bindAll_map
  intro name _ old known
  obtain ⟨inst, others, rfl⟩ := List.exists_cons_of_ne_nil (numbered.bound name old known)
  simp [Roster.assign, known]

theorem meaning?_nicknames_afterCalls {instruments : List Element}
    (others : ∀ call ∈ instruments, call.calledNickname ≠ some name) :
    (roster.afterCalls instruments).nicknames.meaning? name = roster.nicknames.meaning? name := by
  induction instruments generalizing roster with
  | nil => rfl
  | cons instrument instruments ih =>
    rw [List.forall_mem_cons] at others
    have here : (roster.callFor instrument).1.nicknames.meaning? name =
        roster.nicknames.meaning? name := by
      rw [callFor, meaning?_nicknames_call, if_neg others.1]
    exact (ih others.2).trans here

theorem meaning?_nickname_given {declaring : Element} {between : List Element}
    (declares : declaring.calledNickname = some name)
    (others : ∀ call ∈ between, call.calledNickname ≠ some name) :
    (roster.afterCalls (declaring :: between)).nicknames.meaning? name =
      some (roster.callFor declaring).2 := by
  have after : roster.afterCalls (declaring :: between) =
      (roster.callFor declaring).1.afterCalls between := rfl
  rw [after, meaning?_nicknames_afterCalls others, callFor, meaning?_nicknames_call,
    if_pos declares]

/-- What a call makes of its names, and what it leaves of the bindings, if `before` are the calls
before it and `earlier` the same with their tracks. -/
structure Answers (before earlier : List Element) (roster : Roster) (instrument here : Element)
    (next : Roster) : Prop where
  players : here.players =
    instrument.calledNames.flatMap (roster.assign instrument.calledNickname)
  /-- A nickname stands for the group of the last call that gave it. -/
  nickname : ∀ first declaring declared between,
    before.zip earlier = first ++ (declaring, declared) :: between →
    ∀ name ∈ instrument.calledNames, declaring.calledNickname = some name →
      (∀ call ∈ between, call.1.calledNickname ≠ some name) →
        roster.assign instrument.calledNickname name = declared.players
  newest : instrument.calledNickname = none → ∀ name ∈ instrument.calledNames,
    (∀ call ∈ before, call.calledNickname ≠ some name) →
      roster.assign none name = [⟨name, max 1 (highestNumber name (playersOf earlier))⟩]
  kept : instrument.calledNickname = none →
    roster.table <+: next.table ∧ next.nicknames = roster.nicknames

theorem cast_of_zip {roster : Roster} {before first between : List Element}
    {declaring declared : Element} {earlier resolved : List Element}
    (split : before = first ++ declaring :: between)
    (cut : roster.cast before = earlier ++ declared :: resolved)
    (length : earlier.length = first.length) :
    declared.players = ((roster.afterCalls first).callFor declaring).2 := by
  rw [split, cast_append] at cut
  obtain ⟨-, rest⟩ := List.append_inj cut (by rw [length_cast, length])
  rw [cast] at rest
  rw [← (List.cons.inj rest).1, Element.players_withPlayers]

theorem answers_of_calls {before : List Element} {instrument : Element}
    (called : ∀ call ∈ before, call.WellCalled) :
    Answers before (cast {} before) (afterCalls {} before) instrument
      (instrument.withPlayers ((afterCalls {} before).callFor instrument).2)
      ((afterCalls {} before).callFor instrument).1 := by
  have numbered : Numbered (afterCalls {} before) before (playersOf (cast {} before)) :=
    Numbered.start.run called
  constructor
  case players => rw [Element.players_withPlayers, callFor, snd_call]
  case nickname =>
    intro first declaring declared between split name _ declares others
    have lengths : (cast {} before).length = before.length := length_cast {} before
    have calls := congrArg (List.map Prod.fst) split
    have tracks := congrArg (List.map Prod.snd) split
    rw [List.map_fst_zip lengths.ge, List.map_append, List.map_cons] at calls
    rw [List.map_snd_zip lengths.le, List.map_append, List.map_cons] at tracks
    rw [cast_of_zip calls tracks (by simp)]
    apply numbered.consistent.assign
    rw [calls, afterCalls_append]
    exact meaning?_nickname_given declares (List.forall_mem_map.mpr others)
  case newest =>
    intro _ name _ undeclared
    apply numbered.assign_of_free
    rw [meaning?_nicknames_afterCalls undeclared]
    rfl
  case kept =>
    intro unnamed
    rw [callFor, unnamed]
    exact ⟨numbered.prefix_table_call _, rfl⟩

/-- In every run of calls a nickname stands for one group until another group takes it, and all
other names stand for the newest instances. Calls without a nickname change nothing of this. -/
theorem bindings_stable {calls : List Element}
    (called : ∀ instrument ∈ calls, instrument.WellCalled) :
    ∃ final resolved, resolveAll {} calls = .ok (final, resolved) ∧ final.Consistent ∧
      ∀ before instrument after, calls = before ++ instrument :: after →
        ∃ roster earlier next here later, resolveAll {} before = .ok (roster, earlier) ∧
          roster.Consistent ∧ roster.resolve instrument = .ok (next, here) ∧
          resolved = earlier ++ here :: later ∧ earlier.length = before.length ∧
          Answers before earlier roster instrument here next := by
  refine ⟨_, _, resolveAll_called called {}, (Numbered.start.run called).consistent, ?_⟩
  intro before instrument after split
  subst split
  rw [List.forall_mem_append, List.forall_mem_cons] at called
  exact ⟨_, _, _, _, _, resolveAll_called called.1 {}, (Numbered.start.run called.1).consistent,
    resolve_called called.2.1 _, cast_append {} before _, length_cast {} before,
    answers_of_calls called.1⟩

def celloAsPiano : List Element :=
  [.calling ["piano"] (some "me"), .calling ["cello"] (some "piano"),
    .calling ["piano", "me", "cello"] none]

theorem celloAsPiano_stable : ∃ final resolved,
    resolveAll {} celloAsPiano = .ok (final, resolved) ∧ final.Consistent ∧
      ∃ roster earlier next here, resolveAll {} (celloAsPiano.take 2) = .ok (roster, earlier) ∧
        Answers (celloAsPiano.take 2) earlier roster (.calling ["piano", "me", "cello"] none) here
          next ∧
        here.players = [⟨.text "cello", 1⟩, ⟨.text "piano", 1⟩, ⟨.text "cello", 1⟩] := by
  have called : ∀ instrument ∈ celloAsPiano, instrument.WellCalled := by
    simp [celloAsPiano, Element.wellCalled_calling]
  obtain ⟨final, resolved, run, consistent, each⟩ := bindings_stable called
  obtain ⟨roster, earlier, next, here, later, before, -, -, -, -, answers⟩ :=
    each (celloAsPiano.take 2) _ [] rfl
  refine ⟨final, resolved, run, consistent, roster, earlier, next, here, before, answers, ?_⟩
  rw [answers.players]
  cases before
  rfl

end Roster

end Partbook
