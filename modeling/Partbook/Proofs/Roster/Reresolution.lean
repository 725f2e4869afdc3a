import Partbook.Proofs.Roster.Numbering
import Partbook.Proofs.Roster.Readmission

/-!
Resolved scores resolved again, with an empty roster or with the one that resolving them left. Both
keep every track where they succeed. They do not always succeed: a track of an older instance hides
the newer ones of its instrument, and then the next of these seems to leave a gap.
-/
namespace Partbook

namespace Element

structure Tracked (instrument : Element) : Prop where
  notated : instrument.isNotated
  begins : ∃ group music, instrument.children = Roster.tracks group :: music

theorem players_of_begins {instrument : Element} {group : List Instance} {music : List Element}
    (begins : instrument.children = Roster.tracks group :: music) : instrument.players = group := by
  have same := players_withPlayers (.plain .instrument instrument.children) group
  rw [players, begins]
  exact same

theorem allNotated_tail {elements : List Element} (notated : allNotated elements) :
    allNotated elements.tail := by
  rw [allNotated_iff] at notated ⊢
  exact fun element member => notated element (List.mem_of_mem_tail member)

theorem isNotated_tracks (group : List Instance) : (Roster.tracks group).isNotated := by
  rw [isNotated_iff, allNotated_iff]
  refine ⟨(by decide : Kind.plain .tracks ≠ .plain .node), ?_⟩
  rintro element member
  obtain ⟨inst, -, rfl⟩ := List.mem_map.mp member
  rfl

theorem tracked_withPlayers {instrument : Element} (notated : instrument.isNotated)
    (group : List Instance) : (instrument.withPlayers group).Tracked where
  notated := by
    rw [isNotated_iff]
    refine ⟨(by decide : Kind.plain .instrument ≠ .plain .node), ?_⟩
    simp only [withPlayers, plain, children, allNotated, Bool.and_eq_true]
    exact ⟨isNotated_tracks group, allNotated_tail (isNotated_iff.mp notated).2⟩
  begins := ⟨group, instrument.children.tail, rfl⟩

end Element

namespace Roster

theorem readmitTracks_tracks (roster : Roster) (group : List Instance) :
    roster.readmitTracks (tracks group).children = roster.readmitAll group := by
  simp only [tracks, Element.plain, Element.children]
  induction group generalizing roster with
  | nil => rfl
  | cons inst group ih =>
    rw [List.map_cons, readmitTracks, readmitAll]
    cases admitted : roster.readmit inst with
    | error refusal => simp [instanceOf, Element.text, Element.head?, Element.label, Label.head?,
        Instance.datum, Datum.int?, admitted, bind, Except.bind]
    | ok after => simpa [instanceOf, Element.text, Element.head?, Element.label, Label.head?,
        Instance.datum, Datum.int?, admitted, bind, Except.bind] using ih after

theorem resolve_tracked {instrument : Element} (tracked : instrument.Tracked) (roster : Roster) :
    roster.resolve instrument =
      (roster.readmitAll instrument.players).map fun after => (after, instrument) := by
  obtain ⟨group, music, begins⟩ := tracked.begins
  have isTracks : (tracks group).isA (.plain .tracks) = true := rfl
  rw [resolve, begins, Element.players_of_begins begins]
  simp only [isTracks, if_true, readmitTracks_tracks, tracked.notated]
  cases roster.readmitAll group <;> rfl

theorem readmitAll_append (roster : Roster) (instances more : List Instance) :
    roster.readmitAll (instances ++ more) =
      (roster.readmitAll instances).bind fun after => after.readmitAll more := by
  induction instances generalizing roster with
  | nil => rfl
  | cons inst instances ih =>
    rw [List.cons_append, readmitAll, readmitAll]
    cases roster.readmit inst with
    | error refusal => rfl
    | ok after => exact ih after

theorem resolveAll_tracked {instruments : List Element}
    (tracked : ∀ instrument ∈ instruments, instrument.Tracked) (roster : Roster) :
    roster.resolveAll instruments =
      (roster.readmitAll (playersOf instruments)).map fun after => (after, instruments) := by
  induction instruments generalizing roster with
  | nil => rfl
  | cons instrument instruments ih =>
    rw [List.forall_mem_cons] at tracked
    rw [resolveAll, resolve_tracked tracked.1, playersOf, List.flatMap_cons, readmitAll_append]
    cases roster.readmitAll instrument.players with
    | error refusal => rfl
    | ok after =>
      simp only [Except.map, bind, Except.bind, ih tracked.2, playersOf]
      cases after.readmitAll (instruments.flatMap Element.players) <;> rfl

theorem tracked_cast {instruments : List Element}
    (called : ∀ instrument ∈ instruments, instrument.WellCalled) (roster : Roster) :
    ∀ instrument ∈ roster.cast instruments, instrument.Tracked := by
  induction instruments generalizing roster with
  | nil => simp [cast]
  | cons instrument instruments ih =>
    rw [List.forall_mem_cons] at called
    rw [cast, List.forall_mem_cons]
    exact ⟨Element.tracked_withPlayers called.1.notated _, ih called.2 _⟩

/-! ## Whole scores -/

theorem checkOthers_of_notated {elements : List Element} (notated : Element.allNotated elements) :
    checkOthers elements = .ok () := by
  induction elements with
  | nil => rfl
  | cons element elements ih =>
    simp only [Element.allNotated, Bool.and_eq_true] at notated
    obtain ⟨shown, described⟩ := Element.describe_of_notated notated.1
    rw [checkOthers, ih notated.2, described]
    split <;> rfl

theorem childrenOf_cast (roster : Roster) (instruments : List Element) :
    (Element.plain .score (roster.cast instruments)).childrenOf (.plain .instrument) =
      roster.cast instruments := by
  simp only [Element.childrenOf, Element.plain, Element.children]
  induction instruments generalizing roster with
  | nil => rfl
  | cons instrument instruments ih =>
    rw [cast, List.filter_cons_of_pos rfl, ih]

theorem resolveScore_called {score : Element} (called : score.WellCalledScore) (roster : Roster) :
    roster.resolveScore score =
      .ok (roster.afterCalls (score.childrenOf (.plain .instrument)),
        .plain .score (roster.cast (score.childrenOf (.plain .instrument)))) := by
  rw [resolveScore, checkOthers_of_notated called.notated, resolveAll_called called.called]
  rfl

theorem resolveScore_tracked {instruments : List Element}
    (tracked : ∀ instrument ∈ instruments, instrument.Tracked)
    (all : (Element.plain .score instruments).childrenOf (.plain .instrument) = instruments)
    (roster : Roster) :
    roster.resolveScore (.plain .score instruments) =
      (roster.readmitAll (playersOf instruments)).map fun after =>
        (after, .plain .score instruments) := by
  have notated : Element.allNotated (Element.plain .score instruments).children :=
    Element.allNotated_iff.mpr fun instrument member => (tracked instrument member).notated
  rw [resolveScore, checkOthers_of_notated notated, all, resolveAll_tracked tracked]
  cases roster.readmitAll (playersOf instruments) <;> rfl

theorem nodup_names_call {roster : Roster} (distinct : roster.table.names.Nodup)
    (names : List Datum) (nickname : Option Datum) :
    (roster.call names nickname).1.table.names.Nodup := by
  cases nickname with
  | none => exact Bindings.nodup_names_bindAll distinct _
  | some nickname => exact Bindings.nodup_names_bind (Bindings.nodup_names_bindAll distinct _) _ _

theorem nodup_names_callFor {roster : Roster} (distinct : roster.table.names.Nodup)
    (instrument : Element) : (roster.callFor instrument).1.table.names.Nodup :=
  nodup_names_call distinct _ _

theorem nodup_names_afterCalls {roster : Roster} (distinct : roster.table.names.Nodup)
    (instruments : List Element) : (roster.afterCalls instruments).table.names.Nodup := by
  induction instruments generalizing roster with
  | nil => exact distinct
  | cons instrument instruments ih => exact ih (nodup_names_callFor distinct instrument)

/-! ## Where resolving again succeeds -/

/-- No number is more than one above the one that its instrument occurred with last. -/
def Stepwise (instances : List Instance) : Prop :=
  ∀ before inst after, instances = before ++ inst :: after →
    inst.number ≤ latestNumber inst.name before + 1

/-- No number is more than one above both the last one of its instrument and all those that stand
in the roster under names that have not been bound again. -/
def WithinReach (roster : Roster) (instances : List Instance) : Prop :=
  ∀ before inst after, instances = before ++ inst :: after →
    inst.number ≤
      max (latestNumber inst.name before) (highestNumber inst.name (roster.standing before)) + 1

structure Replays (roster : Roster) (instances : List Instance) : Prop where
  distinct : roster.table.names.Nodup
  known : ∀ inst ∈ roster.table.instances, 1 ≤ inst.number
  positive : ∀ inst ∈ instances, 1 ≤ inst.number
  fixed : ∀ inst ∈ instances, inst.name.isFixed

namespace Replays

variable {roster : Roster} {instances : List Instance}

theorem gapless_iff (replays : Replays roster instances) :
    roster.Gapless instances ↔ roster.WithinReach instances := by
  have reach (before after : List Instance) (inst : Instance)
      (split : instances = before ++ inst :: after) :
      (roster.readmitted before).allocated inst.name =
        max (latestNumber inst.name before) (highestNumber inst.name (roster.standing before)) :=
    allocated_readmitted replays.distinct
      (fun earlier member => replays.positive earlier (by simp [split, member])) replays.known _
  constructor
  · intro gapless before inst after split
    rw [← reach before after inst split]
    exact (gapless before inst after split).2
  · intro within before inst after split
    rw [reach before after inst split]
    exact ⟨replays.positive inst (by simp [split]), within before inst after split⟩

theorem readmitAll_of_reach (replays : Replays roster instances)
    (within : roster.WithinReach instances) :
    roster.readmitAll instances = .ok (roster.readmitted instances) :=
  readmitAll_of_gapless replays.fixed (replays.gapless_iff.mpr within)

theorem readmitAll_of_outside (replays : Replays roster instances)
    (outside : ¬ roster.WithinReach instances) :
    ∃ inst ∈ instances, roster.readmitAll instances = .error (.outOfSequence inst) :=
  readmitAll_of_gap replays.fixed (mt replays.gapless_iff.mp outside)

theorem readmitAll_eq_self_iff (replays : Replays roster instances) :
    roster.readmitAll instances = .ok roster ↔
      roster.WithinReach instances ∧ roster.Settled instances := by
  rw [readmitAll_ok_iff replays.fixed, replays.gapless_iff,
    readmitted_eq_self_iff replays.distinct]

theorem reach_fresh (positive : ∀ inst ∈ instances, 1 ≤ inst.number) :
    WithinReach {} instances ↔ Stepwise instances := by
  have reach (before : List Instance) (name : Datum) (within : ∀ inst ∈ before, 1 ≤ inst.number) :
      max (latestNumber name before) (highestNumber name (standing {} before)) =
        latestNumber name before := by
    rw [← highestNumber_lastOnes]
    exact max_eq_left (highestNumber_nonneg fun inst member =>
      within inst (List.mem_filter.mp member).1)
  have same (before after : List Instance) (inst : Instance)
      (split : instances = before ++ inst :: after) :
      (max (latestNumber inst.name before) (highestNumber inst.name (standing {} before))) =
        latestNumber inst.name before :=
    reach before inst.name fun earlier member => positive earlier (by simp [split, member])
  constructor
  · intro within before inst after split
    rw [← same before after inst split]
    exact within before inst after split
  · intro stepwise before inst after split
    rw [same before after inst split]
    exact stepwise before inst after split

end Replays

theorem replays_of_calls {instruments : List Element}
    (called : ∀ instrument ∈ instruments, instrument.WellCalled) :
    Replays (afterCalls {} instruments) (playersOf (cast {} instruments)) ∧
      Replays {} (playersOf (cast {} instruments)) := by
  have numbered := Numbered.start.run called
  simp only [List.nil_append] at numbered
  have positive : ∀ inst ∈ playersOf (cast {} instruments), 1 ≤ inst.number :=
    fun inst member => (numbered.ordered.mem_iff.mp member).1
  have fixed : ∀ inst ∈ playersOf (cast {} instruments), inst.name.isFixed := by
    intro inst member
    obtain ⟨instrument, given, named⟩ := numbered.named inst member
    exact (called instrument given).fixed _ (List.mem_append_left _ named)
  have distinct : (afterCalls {} instruments).table.names.Nodup :=
    @nodup_names_afterCalls {} List.nodup_nil instruments
  exact ⟨⟨distinct, fun inst known => positive inst (numbered.seen inst known), positive, fixed⟩,
    ⟨List.nodup_nil, by simp [Bindings.instances], positive, fixed⟩⟩

/-- A resolved score is its own resolution, from nothing, exactly if every track has a number at
most one above that of the track of its instrument before it. Else it is refused. -/
theorem resolve_resolved_from_start {score : Element} (called : score.WellCalledScore) :
    ∃ roster instruments, resolveScore {} score = .ok (roster, .plain .score instruments) ∧
      ((∃ again, resolveScore {} (.plain .score instruments) =
          .ok (again, .plain .score instruments)) ↔ Stepwise (playersOf instruments)) ∧
      (¬ Stepwise (playersOf instruments) → ∃ inst ∈ playersOf instruments,
        resolveScore {} (.plain .score instruments) = .error (.outOfSequence inst)) := by
  refine ⟨_, _, resolveScore_called called {}, ?_⟩
  have replays := (replays_of_calls called.called).2
  have tracked := tracked_cast called.called {}
  rw [resolveScore_tracked tracked (childrenOf_cast _ _), ← Replays.reach_fresh replays.positive]
  by_cases within : WithinReach {} (playersOf (cast {} (score.childrenOf (.plain .instrument))))
  · rw [replays.readmitAll_of_reach within]
    exact ⟨⟨fun _ => within, fun _ => ⟨_, rfl⟩⟩, fun outside => absurd within outside⟩
  · obtain ⟨inst, member, refused⟩ := replays.readmitAll_of_outside within
    rw [refused]
    refine ⟨⟨?_, fun inside => absurd inside within⟩, fun _ => ⟨inst, member, rfl⟩⟩
    rintro ⟨again, accepted⟩
    cases accepted

def backAndForth : List Element :=
  [.calling ["piano"] (some "first"), .calling ["piano"] (some "second"),
    .calling ["first"] none, .calling ["piano"] (some "third")]

theorem wellCalled_backAndForth : (Element.plain .score backAndForth).WellCalledScore :=
  Element.wellCalledScore (by simp [backAndForth, Element.wellCalled_calling])

theorem resolve_backAndForth_again : ∃ roster resolved,
    resolveScore {} (.plain .score backAndForth) = .ok (roster, resolved) ∧
      resolveScore {} resolved = .error (.outOfSequence ⟨.text "piano", 3⟩) :=
  ⟨_, _, rfl, rfl⟩

theorem backAndForth_not_stepwise : ∃ roster instruments,
    resolveScore {} (.plain .score backAndForth) = .ok (roster, .plain .score instruments) ∧
      ¬ ∃ again, resolveScore {} (.plain .score instruments) =
        .ok (again, .plain .score instruments) := by
  obtain ⟨roster, instruments, resolved, kept, -⟩ :=
    resolve_resolved_from_start wellCalled_backAndForth
  refine ⟨roster, instruments, resolved, fun same => ?_⟩
  cases (resolveScore_called wellCalled_backAndForth {}).symm.trans resolved
  have low := kept.mp same [⟨.text "piano", 1⟩, ⟨.text "piano", 2⟩, ⟨.text "piano", 1⟩]
    ⟨.text "piano", 3⟩ [] rfl
  exact absurd low (by decide)

/-- What tracks leave of a roster: names of instruments are bound to the last of their tracks, all
else stays, and nobody is new. -/
structure Rebound (roster : Roster) (instances : List Instance) (again : Roster) : Prop where
  last : ∀ inst ∈ lastOnes instances, again.table.meaning? inst.name = some [inst]
  others : ∀ name, name ∉ instances.map (·.name) →
    again.table.meaning? name = roster.table.meaning? name
  nicknames : again.nicknames = roster.nicknames
  known : ∀ inst ∈ again.table.instances, inst ∈ instances ∨ inst ∈ roster.table.instances

theorem rebound_readmitted {roster : Roster} (distinct : roster.table.names.Nodup)
    (instances : List Instance) : Rebound roster instances (roster.readmitted instances) where
  last inst isLast := by
    rw [meaning?_readmitted, mem_lastOnes.mp isLast]
  others name absent := by
    have none : numbersOf name instances = [] := by
      refine List.eq_nil_iff_forall_not_mem.mpr fun number member => absent ?_
      exact List.mem_map.mpr ⟨_, mem_numbersOf.mp member, rfl⟩
    rw [meaning?_readmitted, none]
    rfl
  nicknames := rfl
  known inst member := by
    rcases (mem_instances_readmitted distinct inst).mp member with isLast | standing
    · exact .inl (List.mem_filter.mp isLast).1
    · obtain ⟨entry, within, bound⟩ := List.mem_flatMap.mp standing
      exact .inr (List.mem_flatMap.mpr ⟨entry, (List.mem_filter.mp within).1, bound⟩)

/-- A resolved score that is resolved again with the roster that it left. Whenever that succeeds,
the score stays as it is, no one is new, and every instrument stands for the last of its tracks. So
the roster is the same exactly if every instrument stood for that one already. -/
theorem resolve_resolved_from_end {score : Element} (called : score.WellCalledScore) :
    ∃ roster instruments, resolveScore {} score = .ok (roster, .plain .score instruments) ∧
      (Element.plain .score instruments).childrenOf (.plain .instrument) = instruments ∧
      (roster.WithinReach (playersOf instruments) →
        ∃ again, roster.resolveAll instruments = .ok (again, instruments)) ∧
      ∀ again resolved, roster.resolveAll instruments = .ok (again, resolved) →
        resolved = instruments ∧ Rebound roster (playersOf instruments) again ∧
        (∀ inst ∈ again.table.instances, inst ∈ playersOf instruments) ∧
        (again = roster ↔ roster.Settled (playersOf instruments)) := by
  refine ⟨_, _, resolveScore_called called {}, childrenOf_cast _ _, ?_⟩
  have replays := (replays_of_calls called.called).1
  have numbered := Numbered.start.run called.called
  simp only [List.nil_append] at numbered
  rw [resolveAll_tracked (tracked_cast called.called {})]
  refine ⟨fun within => ?_, fun again resolved replayed => ?_⟩
  · rw [replays.readmitAll_of_reach within]
    exact ⟨_, rfl⟩
  · obtain ⟨after, readmitted, same⟩ := map_eq_ok.mp replayed
    cases same
    obtain ⟨-, rfl⟩ := (readmitAll_ok_iff replays.fixed).mp readmitted
    have rebound := rebound_readmitted replays.distinct (playersOf
      (cast {} (score.childrenOf (.plain .instrument))))
    refine ⟨rfl, rebound, fun inst member => ?_, readmitted_eq_self_iff replays.distinct⟩
    exact (rebound.known inst member).elim id (numbered.seen inst)

def firstAgain : List Element :=
  [.calling ["piano"] (some "first"), .calling ["piano"] (some "second"),
    .calling ["first"] none]

theorem wellCalled_firstAgain : (Element.plain .score firstAgain).WellCalledScore :=
  Element.wellCalledScore (by simp [firstAgain, Element.wellCalled_calling])

/-- The tracks of the first piano take the name from the second. -/
theorem resolve_firstAgain_again : ∃ roster again instruments,
    resolveScore {} (.plain .score firstAgain) = .ok (roster, .plain .score instruments) ∧
      roster.resolveAll instruments = .ok (again, instruments) ∧
      roster.table.meaning? (.text "piano") = some [⟨.text "piano", 2⟩] ∧
      again.table.meaning? (.text "piano") = some [⟨.text "piano", 1⟩] :=
  ⟨_, _, _, rfl, rfl, rfl, rfl⟩

theorem firstAgain_unsettled : ∃ roster again instruments,
    resolveScore {} (.plain .score firstAgain) = .ok (roster, .plain .score instruments) ∧
      roster.resolveAll instruments = .ok (again, instruments) ∧ again ≠ roster := by
  obtain ⟨roster, instruments, resolved, -, -, kept⟩ :=
    resolve_resolved_from_end wellCalled_firstAgain
  cases (resolveScore_called wellCalled_firstAgain {}).symm.trans resolved
  refine ⟨_, _, _, resolved, rfl, fun same => ?_⟩
  have settled := (kept _ _ rfl).2.2.2.mp same ⟨.text "piano", 1⟩ (by decide)
  exact absurd settled (by decide)

end Roster

end Partbook
