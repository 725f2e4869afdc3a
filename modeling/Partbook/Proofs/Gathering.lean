import Partbook.Datum

/-!
Turns and players. A turn is a player with what is to be played. Gathering joins the turns of every
player, in order, at the place where the player comes first.
-/
namespace Partbook

/-! ## Lists without repetitions -/

section

variable {α β : Type} [BEq α] [LawfulBEq α] [BEq β] [LawfulBEq β]

theorem filter_eraseDups (keep : α → Bool) : ∀ items : List α,
    items.eraseDups.filter keep = (items.filter keep).eraseDups
  | [] => by simp
  | item :: items => by
    have swap : (items.filter fun other => !other == item).filter keep =
        (items.filter keep).filter fun other => !other == item := by
      simp only [List.filter_filter, Bool.and_comm]
    rw [List.eraseDups_cons, List.filter_cons, List.filter_cons,
      filter_eraseDups keep (items.filter _), swap]
    split
    · rw [List.eraseDups_cons]
    · -- the item itself is not kept, so nothing equal to it is
      rename_i dropped
      congr 1
      refine List.filter_eq_self.mpr fun other member => ?_
      have kept := (List.mem_filter.mp member).2
      simp only [Bool.not_eq_true', beq_eq_false_iff_ne]
      rintro rfl
      exact dropped kept
termination_by items => items.length
decreasing_by exact Nat.lt_succ_of_le (List.length_filter_le _ _)

theorem nodup_eraseDups : ∀ items : List α, items.eraseDups.Nodup
  | [] => by simp
  | item :: items => by
    rw [List.eraseDups_cons, List.nodup_cons]
    exact ⟨by simp, nodup_eraseDups _⟩
termination_by items => items.length
decreasing_by exact Nat.lt_succ_of_le (List.length_filter_le _ _)

theorem eraseDups_of_nodup : ∀ {items : List α}, items.Nodup → items.eraseDups = items
  | [], _ => by simp
  | item :: items, distinct => by
    rw [List.nodup_cons] at distinct
    have others : (items.filter fun other => !other == item) = items := by
      refine List.filter_eq_self.mpr fun other member => ?_
      simpa using ne_of_mem_of_not_mem member distinct.1
    rw [List.eraseDups_cons, others, eraseDups_of_nodup distinct.2]

theorem eraseDups_map {f : α → β} (injective : ∀ item other, f item = f other → item = other) :
    ∀ items : List α, (items.map f).eraseDups = items.eraseDups.map f
  | [] => by simp
  | item :: items => by
    have others : (items.map f).filter (fun other => !other == f item) =
        (items.filter fun other => !other == item).map f := by
      rw [List.filter_map]
      congr 1
      refine List.filter_congr fun other _ => ?_
      by_cases same : other = item
      · simp [same]
      · have differ : f other ≠ f item := fun equal => same (injective _ _ equal)
        rw [Function.comp_apply, beq_false_of_ne same, beq_false_of_ne differ]
    rw [List.map_cons, List.eraseDups_cons, List.eraseDups_cons, others,
      eraseDups_map injective (items.filter _), List.map_cons]
termination_by items => items.length
decreasing_by exact Nat.lt_succ_of_le (List.length_filter_le _ _)

theorem eraseDups_append_eraseDups (items more : List α) :
    (items.eraseDups ++ more.eraseDups).eraseDups = (items ++ more).eraseDups := by
  have known : more.eraseDups.removeAll items.eraseDups = more.eraseDups.removeAll items :=
    List.filter_congr fun item _ => by simp
  rw [List.eraseDups_append, List.eraseDups_append, known, List.removeAll, filter_eraseDups,
    eraseDups_of_nodup (nodup_eraseDups _), eraseDups_of_nodup (nodup_eraseDups _)]
  rfl

end

/-! ## Turns -/

def playedBy {α : Type} (player : Datum) (turns : List (Datum × List α)) : List α :=
  turns.flatMap fun (who, played) => if who = player then played else []

structure SameParts {α : Type} (turns turns' : List (Datum × List α)) : Prop where
  players : ∀ player, player ∈ turns.map (·.1) ↔ player ∈ turns'.map (·.1)
  played : ∀ player, playedBy player turns = playedBy player turns'

section

variable {α : Type} {turns turns' more more' : List (Datum × List α)}

@[simp] theorem playedBy_append (player : Datum) (turns more : List (Datum × List α)) :
    playedBy player (turns ++ more) = playedBy player turns ++ playedBy player more := by
  simp [playedBy]

@[simp] theorem playedBy_cons (player who : Datum) (played : List α)
    (turns : List (Datum × List α)) :
    playedBy player ((who, played) :: turns) =
      (if who = player then played else []) ++ playedBy player turns := by
  simp [playedBy]

theorem playedBy_of_absent {player : Datum}
    (absent : player ∉ turns.map (·.1)) : playedBy player turns = [] := by
  rw [playedBy, List.flatMap_eq_nil_iff]
  rintro ⟨who, played⟩ member
  refine if_neg fun same => absent ?_
  exact List.mem_map.mpr ⟨_, member, same⟩

theorem playedBy_of_mem {entry : Datum × List α}
    (distinct : (turns.map (·.1)).Nodup) (member : entry ∈ turns) :
    playedBy entry.1 turns = entry.2 := by
  induction turns with
  | nil => simp at member
  | cons first turns ih =>
    obtain ⟨who, played⟩ := first
    rw [List.map_cons, List.nodup_cons] at distinct
    rw [playedBy_cons]
    rcases List.mem_cons.mp member with rfl | later
    · rw [if_pos rfl, playedBy_of_absent distinct.1, List.append_nil]
    · have other : who ≠ entry.1 := by
        intro same
        exact distinct.1 (List.mem_map.mpr ⟨entry, later, same.symm⟩)
      rw [if_neg other, List.nil_append]
      exact ih distinct.2 later

theorem mem_playedBy {player : Datum} {item : α}
    (played : item ∈ playedBy player turns) : ∃ entry ∈ turns, item ∈ entry.2 := by
  obtain ⟨⟨who, items⟩, member, within⟩ := List.mem_flatMap.mp played
  by_cases same : who = player
  · exact ⟨_, member, by simpa [same] using within⟩
  · simp [same] at within

namespace SameParts

theorem refl (turns : List (Datum × List α)) : SameParts turns turns := ⟨by simp, by simp⟩

theorem append (same : SameParts turns turns') (next : SameParts more more') :
    SameParts (turns ++ more) (turns' ++ more') where
  players player := by
    simp only [List.map_append, List.mem_append, same.players player, next.players player]
  played player := by simp only [playedBy_append, same.played player, next.played player]

end SameParts

end

/-! ## Gathering -/

/-- All the turns of every player in one. Players stand in the order in which they come first. -/
def gather {α : Type} (turns : List (Datum × List α)) : List (Datum × List α) :=
  (turns.map (·.1)).eraseDups.map fun player => (player, playedBy player turns)

section

variable {α β : Type} {turns turns' : List (Datum × List α)}

theorem players_gather (turns : List (Datum × List α)) :
    (gather turns).map (·.1) = (turns.map (·.1)).eraseDups := by
  simp [gather, Function.comp_def]

theorem nodup_players_gather (turns : List (Datum × List α)) :
    ((gather turns).map (·.1)).Nodup := by
  rw [players_gather]
  exact nodup_eraseDups _

@[simp] theorem playedBy_gather (player : Datum) (turns : List (Datum × List α)) :
    playedBy player (gather turns) = playedBy player turns := by
  by_cases known : player ∈ turns.map (·.1)
  · have entry : (player, playedBy player turns) ∈ gather turns :=
      List.mem_map.mpr ⟨player, List.mem_eraseDups.mpr known, rfl⟩
    exact playedBy_of_mem (nodup_players_gather turns) entry
  · rw [playedBy_of_absent known, playedBy_of_absent]
    rwa [players_gather, List.mem_eraseDups]

theorem same_gather (turns : List (Datum × List α)) : SameParts (gather turns) turns where
  players player := by rw [players_gather, List.mem_eraseDups]
  played player := playedBy_gather player turns

theorem gather_congr
    (players : (turns.map (·.1)).eraseDups = (turns'.map (·.1)).eraseDups)
    (played : ∀ player, playedBy player turns = playedBy player turns') :
    gather turns = gather turns' := by
  simp only [gather, players, played]

@[simp] theorem gather_nil : gather ([] : List (Datum × List α)) = [] := by simp [gather]

theorem gather_concat_of_mem {player : Datum} (known : player ∈ turns.map (·.1)) (played : List α) :
    gather (turns ++ [(player, played)]) =
      (gather turns).map fun turn =>
        (turn.1, turn.2 ++ if player = turn.1 then played else []) := by
  have players : ((turns ++ [(player, played)]).map (·.1)).eraseDups =
      (turns.map (·.1)).eraseDups := by
    simp [List.eraseDups_append, List.removeAll, List.mem_map.mp known]
  rw [gather, players, gather, List.map_map]
  simp [playedBy]

theorem gather_concat_of_absent {player : Datum} (absent : player ∉ turns.map (·.1))
    (played : List α) :
    gather (turns ++ [(player, played)]) = gather turns ++ [(player, played)] := by
  have new : [player].removeAll (turns.map (·.1)) = [player] := by
    simpa [List.removeAll] using absent
  have players : ((turns ++ [(player, played)]).map (·.1)).eraseDups =
      (turns.map (·.1)).eraseDups ++ [player] := by
    rw [List.map_append, List.eraseDups_append, List.map_singleton, new]
    rfl
  rw [gather, players, gather, List.map_append, List.map_singleton, playedBy_append,
    playedBy_of_absent absent]
  congr 1
  · refine List.map_congr_left fun other member => ?_
    have differ : player ≠ other := by
      rintro rfl
      exact absent (List.mem_eraseDups.mp member)
    simp [differ, playedBy]
  · simp [playedBy]

theorem gather_append_gather (turns more : List (Datum × List α)) :
    gather (gather turns ++ gather more) = gather (turns ++ more) := by
  apply gather_congr
  · rw [List.map_append, List.map_append, players_gather, players_gather,
      eraseDups_append_eraseDups]
  · simp

theorem gather_gather (turns : List (Datum × List α)) : gather (gather turns) = gather turns := by
  simpa [gather] using gather_append_gather turns []

/-- Turns that have been gathered piece by piece are gathered as those of all pieces. -/
theorem gather_flatMap_gather (pieces : List β) (turnsIn : β → List (Datum × List α)) :
    gather (pieces.flatMap fun piece => gather (turnsIn piece)) =
      gather (pieces.flatMap turnsIn) := by
  induction pieces with
  | nil => rfl
  | cons piece pieces ih =>
    rw [List.flatMap_cons, List.flatMap_cons, ← gather_append_gather, gather_gather, ih,
      gather_append_gather]

theorem playedBy_filter (keep : Datum → Bool) {player : Datum} (kept : keep player)
    (turns : List (Datum × List α)) :
    playedBy player (turns.filter fun turn => keep turn.1) = playedBy player turns := by
  induction turns with
  | nil => rfl
  | cons turn turns ih =>
    obtain ⟨who, played⟩ := turn
    rw [List.filter_cons, playedBy_cons]
    split
    · rw [playedBy_cons, ih]
    · rename_i dropped
      have other : who ≠ player := by
        rintro rfl
        exact dropped kept
      rw [if_neg other, ih, List.nil_append]

theorem filter_gather (keep : Datum → Bool) (turns : List (Datum × List α)) :
    (gather turns).filter (fun turn => keep turn.1) =
      gather (turns.filter fun turn => keep turn.1) := by
  have players : (turns.filter fun turn => keep turn.1).map (·.1) =
      (turns.map (·.1)).filter keep := by
    rw [List.filter_map]
    rfl
  rw [gather, gather, List.filter_map, players, ← filter_eraseDups]
  refine List.map_congr_left fun player member => ?_
  rw [playedBy_filter keep (List.mem_filter.mp member).2]

end

end Partbook
