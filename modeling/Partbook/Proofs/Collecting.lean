import Partbook.Proofs.Scripted

/-!
What everyone has to play in the end. Collecting goes track by track: an instrument with several
tracks for one player gives that player its music as many times. It plays once only where the tracks
of every instrument with music are for different players.
-/
namespace Partbook

open Source

namespace Parts

/-- Everyone's music, that of each instrument once for each track of it that is theirs. -/
def perTrack (instruments : List Element) : Parts :=
  (Roster.playersOf instruments).eraseDups.map fun inst =>
    (inst.datum, instruments.flatMap fun instrument =>
      copies (instrument.players.count inst) (eventsOf instrument))

/-- Everyone's music, that of each instrument once if any track of it is theirs. -/
def perCall (instruments : List Element) : Parts :=
  (Roster.playersOf instruments).eraseDups.map fun inst =>
    (inst.datum, (instruments.filter (inst ∈ ·.players)).flatMap eventsOf)

theorem playedBy_flatMap {α β : Type} (player : Datum) (turnsIn : β → List (Datum × List α))
    (pieces : List β) :
    playedBy player (pieces.flatMap turnsIn) = pieces.flatMap (playedBy player ∘ turnsIn) := by
  induction pieces with
  | nil => rfl
  | cons piece pieces ih =>
    rw [List.flatMap_cons, playedBy_append, ih, List.flatMap_cons, Function.comp_apply]

theorem gather_turnsIn (instruments : List Element) :
    gather (instruments.flatMap turnsIn) = perTrack instruments := by
  rw [gather, players_turnsIn, eraseDups_map fun _ _ => Instance.datum_injective, List.map_map]
  refine List.map_congr_left fun inst _ => ?_
  rw [Function.comp_apply, playedBy_flatMap]
  congr 2
  funext instrument
  exact playedBy_turnsOf inst instrument.players (eventsOf instrument)

theorem copies_eq_self {α : Type} {n : Nat} {items : List α} (single : items ≠ [] → n = 1) :
    copies n items = items := by
  by_cases empty : items = []
  · simp [empty, copies]
  · simp [single empty, copies]

theorem length_copies {α : Type} (n : Nat) (items : List α) :
    (copies n items).length = n * items.length := by
  simp [copies]

section

variable {α β : Type} (count : β → Nat) (events : β → List α)

theorem length_once_le (pieces : List β) :
    ((pieces.filter (0 < count ·)).flatMap events).length ≤
      (pieces.flatMap fun piece => copies (count piece) (events piece)).length := by
  induction pieces with
  | nil => exact Nat.le_refl _
  | cons piece pieces ih =>
    rw [List.filter_cons, List.flatMap_cons, List.length_append, length_copies]
    split
    · rename_i some
      have once : (events piece).length ≤ count piece * (events piece).length :=
        Nat.le_mul_of_pos_left _ (by simpa using some)
      rw [List.flatMap_cons, List.length_append]
      omega
    · omega

theorem flatMap_copies_eq_iff (pieces : List β) :
    (pieces.flatMap fun piece => copies (count piece) (events piece)) =
        (pieces.filter (0 < count ·)).flatMap events ↔
      ∀ piece ∈ pieces, events piece ≠ [] → count piece ≤ 1 := by
  induction pieces with
  | nil => simp
  | cons piece pieces ih =>
    rw [List.forall_mem_cons, ← ih, List.flatMap_cons, List.filter_cons]
    by_cases absent : count piece = 0
    · simp [absent, copies]
    · have present : 0 < count piece := Nat.pos_of_ne_zero absent
      rw [if_pos (by simpa using present), List.flatMap_cons]
      constructor
      · intro same
        -- more copies would be longer, and nothing later could make up for it
        have lengths := congrArg List.length same
        rw [List.length_append, List.length_append, length_copies] at lengths
        have later := length_once_le count events pieces
        have once : (events piece).length ≤ count piece * (events piece).length :=
          Nat.le_mul_of_pos_left _ present
        have exactly : count piece * (events piece).length = 1 * (events piece).length := by omega
        have single : events piece ≠ [] → count piece = 1 := fun nonempty =>
          Nat.eq_of_mul_eq_mul_right (List.length_pos_iff.mpr nonempty) exactly
        rw [copies_eq_self single] at same
        exact ⟨fun nonempty => (single nonempty).le, List.append_cancel_left same⟩
      · rintro ⟨single, same⟩
        rw [copies_eq_self fun nonempty => le_antisymm (single nonempty) present, same]

end

theorem perTrack_eq_perCall_iff (instruments : List Element) :
    perTrack instruments = perCall instruments ↔
      ∀ instrument ∈ instruments, eventsOf instrument ≠ [] → instrument.players.Nodup := by
  have each : perTrack instruments = perCall instruments ↔
      ∀ inst ∈ Roster.playersOf instruments, ∀ instrument ∈ instruments,
        eventsOf instrument ≠ [] → instrument.players.count inst ≤ 1 := by
    rw [perTrack, perCall, List.map_inj_left]
    refine forall_congr' fun inst => ?_
    have plays : instruments.filter (inst ∈ ·.players) =
        instruments.filter fun instrument => 0 < instrument.players.count inst := by
      simp only [List.count_pos_iff]
    rw [List.mem_eraseDups, Prod.mk.injEq, plays, flatMap_copies_eq_iff]
    simp only [true_and]
  rw [each]
  constructor
  · intro single instrument member nonempty
    refine List.nodup_iff_count_le_one.mpr fun inst => ?_
    by_cases plays : inst ∈ instrument.players
    · exact single inst (List.mem_flatMap.mpr ⟨instrument, member, plays⟩) instrument member
        nonempty
    · rw [List.count_eq_zero_of_not_mem plays]
      exact Nat.zero_le 1
  · intro distinct inst _ instrument member nonempty
    exact List.nodup_iff_count_le_one.mp (distinct instrument member nonempty) inst

theorem ofScore_scripted {instruments : List Element}
    (scripted : ∀ instrument ∈ instruments, instrument.Scripted) :
    ofScore (.plain .score (Roster.cast {} instruments)) =
      .ok (perTrack (Roster.cast {} instruments)) := by
  have called : ∀ instrument ∈ instruments, instrument.WellCalled :=
    fun instrument member => (scripted instrument member).called
  have named := ((Roster.Within.start _).calls fun instrument member =>
    (scripted instrument member).texts).2
  have all := Roster.childrenOf_cast {} instruments
  have collected := @ofScore_tracked (.plain .score (Roster.cast {} instruments))
    (all.symm ▸ Roster.tracked_cast called {}) (all.symm ▸ named)
  rw [collected, all, gather_turnsIn]

/-- The parts of a score that is read and resolved from nothing. The players are those of the
tracks, in order of first appearance, and everyone plays each instrument's music once for each of
their tracks there. That is once for the call exactly if no instrument with music has two tracks for
one player. -/
theorem ofScore_resolved_text {text : String} {keep : Bool} {score : Element}
    (read : Element.readAs .score keep text = .ok score) :
    ∃ roster instruments parts,
      Roster.resolveScore {} score = .ok (roster, .plain .score instruments) ∧
      ofScore (.plain .score instruments) = .ok parts ∧ parts = perTrack instruments ∧
      (parts = perCall instruments ↔
        ∀ instrument ∈ instruments, eventsOf instrument ≠ [] → instrument.players.Nodup) := by
  have kind := Element.kind_of_readAs_score read
  exact ⟨_, _, _, Roster.resolveScore_called (Element.wellCalledScore_of_readAs read kind) {},
    ofScore_scripted (Element.scripted_of_readAs read kind), rfl, perTrack_eq_perCall_iff _⟩

def groupsIn (text : String) : Option (List (List Instance × Nat)) :=
  (Element.readAs .score false text).toOption.bind fun score =>
    (Roster.resolveScore {} score).toOption.map fun resolved =>
      resolved.2.children.map fun instrument => (instrument.players, (eventsOf instrument).length)

theorem groupsIn_of_resolved {text : String} {score : Element} {roster : Roster}
    {instruments : List Element} (read : Element.readAs .score false text = .ok score)
    (resolved : Roster.resolveScore {} score = .ok (roster, .plain .score instruments)) :
    groupsIn text = some (instruments.map fun instrument =>
      (instrument.players, (eventsOf instrument).length)) := by
  simp only [groupsIn, read, resolved, Except.toOption, Option.bind_some, Option.map_some]
  rfl

theorem duo_once : ∃ score roster instruments parts,
    Element.readAs .score false "violin/cello \"duo\": c duo: d" = .ok score ∧
      Roster.resolveScore {} score = .ok (roster, .plain .score instruments) ∧
      ofScore (.plain .score instruments) = .ok parts ∧ parts = perCall instruments := by
  have groups : groupsIn "violin/cello \"duo\": c duo: d" =
      some [([⟨.text "violin", 1⟩, ⟨.text "cello", 1⟩], 1),
        ([⟨.text "violin", 1⟩, ⟨.text "cello", 1⟩], 1)] := by
    decide +kernel
  cases read : Element.readAs .score false "violin/cello \"duo\": c duo: d" with
  | error error => simp [groupsIn, read, Except.toOption] at groups
  | ok score =>
    obtain ⟨roster, instruments, parts, resolved, collected, -, once⟩ := ofScore_resolved_text read
    refine ⟨score, roster, instruments, parts, rfl, resolved, collected, once.mpr ?_⟩
    rw [groupsIn_of_resolved read resolved, Option.some.injEq] at groups
    intro instrument member _
    have group := List.mem_map_of_mem
      (f := fun instrument => (instrument.players, (eventsOf instrument).length)) member
    rw [groups] at group
    have players : instrument.players = [⟨.text "violin", 1⟩, ⟨.text "cello", 1⟩] := by
      simpa using congrArg Prod.fst (List.eq_of_mem_replicate (n := 2) group)
    rw [players]
    decide

/-- One piano that is called by its name twice in one call plays the music of the call twice. -/
theorem unison_not_once : ∃ score roster instruments parts,
    Element.readAs .score false "piano/piano: c" = .ok score ∧
      Roster.resolveScore {} score = .ok (roster, .plain .score instruments) ∧
      ofScore (.plain .score instruments) = .ok parts ∧ parts ≠ perCall instruments := by
  have groups : groupsIn "piano/piano: c" =
      some [([⟨.text "piano", 1⟩, ⟨.text "piano", 1⟩], 1)] := by
    decide +kernel
  cases read : Element.readAs .score false "piano/piano: c" with
  | error error => simp [groupsIn, read, Except.toOption] at groups
  | ok score =>
    have kind := Element.kind_of_readAs_score read
    have resolved := Roster.resolveScore_called (Element.wellCalledScore_of_readAs read kind) {}
    refine ⟨score, _, _, _, rfl, resolved,
      ofScore_scripted (Element.scripted_of_readAs read kind), fun once => ?_⟩
    rw [groupsIn_of_resolved read resolved, Option.some.injEq] at groups
    obtain ⟨instrument, all, group⟩ := List.map_eq_singleton_iff.mp groups
    obtain ⟨players, length⟩ := Prod.mk.inj group
    have distinct := (perTrack_eq_perCall_iff _).mp once instrument (by rw [all]; simp) (by
      intro silent
      simp [silent] at length)
    rw [players] at distinct
    exact absurd distinct (by decide)

end Parts

end Partbook
