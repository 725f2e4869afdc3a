import Partbook.Proofs.Roster.Reresolution

/-!
Rosters in which tracks have taken names from newer instances. Such a roster may have lost sight of
the newest of an instrument, and then the next number it gives out is not a new one. It still knows
nobody who has not played.
-/
namespace Partbook.Roster

/-- What holds of the roster, whatever has been called and replayed, if the history tells who has
played. -/
structure Familiar (roster : Roster) (history : List Instance) : Prop where
  seen : ∀ inst ∈ roster.table.instances, inst ∈ history
  nicknamed : ∀ name group, roster.nicknames.meaning? name = some group →
    ∀ inst ∈ group, inst ∈ history
  ordered : FirstInOrder history
  distinct : roster.table.names.Nodup
  fixed : ∀ inst ∈ history, inst.name.isFixed

namespace Familiar

variable {roster : Roster} {history : List Instance}

theorem start : Familiar {} [] where
  seen := by simp [Bindings.instances]
  nicknamed := by simp [Bindings.meaning?]
  ordered := .nil
  distinct := List.nodup_nil
  fixed := by simp

theorem positive (familiar : Familiar roster history) : ∀ inst ∈ history, 1 ≤ inst.number :=
  fun _ member => (familiar.ordered.mem_iff.mp member).1

theorem allocated_nonneg (familiar : Familiar roster history) (name : Datum) :
    0 ≤ roster.allocated name :=
  highestNumber_nonneg fun inst member => familiar.positive inst (familiar.seen inst member)

theorem allocated_le (familiar : Familiar roster history) (name : Datum) :
    roster.allocated name ≤ highestNumber name history :=
  highestNumber_le (highestNumber_nonneg familiar.positive) fun _ member =>
    le_highestNumber (familiar.seen _ member)

theorem next_not_mem_iff (familiar : Familiar roster history) (name : Datum) :
    ⟨name, roster.allocated name + 1⟩ ∉ history ↔
      roster.allocated name = highestNumber name history := by
  have low := familiar.allocated_le name
  have nonneg := familiar.allocated_nonneg name
  rw [familiar.ordered.mem_iff]
  simp only
  omega

theorem allocated_eq_highest_iff (familiar : Familiar roster history) (name : Datum) :
    roster.allocated name = highestNumber name history ↔
      highestNumber name history = 0 ∨
        ⟨name, highestNumber name history⟩ ∈ roster.table.instances := by
  constructor
  · intro same
    rcases highestNumber_spec name roster.table.instances with ⟨member, -⟩ | ⟨zero, -⟩
    · rw [← allocated_eq, same] at member
      exact .inr member
    · rw [← same, allocated_eq]
      exact .inl zero
  · rintro (zero | member)
    · have low := familiar.allocated_le name
      have nonneg := familiar.allocated_nonneg name
      omega
    · exact le_antisymm (familiar.allocated_le name) (le_highestNumber member)

theorem mem_call (familiar : Familiar roster history) {names : List Datum}
    {nickname : Option Datum} {inst : Instance} (member : inst ∈ (roster.call names nickname).2) :
    inst ∈ history ∨
      (inst.name ∈ names ∧ inst.number = highestNumber inst.name history + 1) := by
  rw [snd_call, List.mem_flatMap] at member
  obtain ⟨name, named, member⟩ := member
  rcases mem_assign member with ⟨group, found | found, member⟩ | ⟨rfl, next⟩
  · exact .inl (familiar.seen inst (Bindings.mem_instances_of_meaning? found member))
  · exact .inl (familiar.nicknamed name group found inst member)
  · have low := familiar.allocated_le inst.name
    have nonneg := familiar.allocated_nonneg inst.name
    exact (familiar.ordered.mem_or_next (by omega) (by omega)).imp_right fun number =>
      ⟨named, number⟩

theorem answer (familiar : Familiar roster history) {names : List Datum}
    (fixed : ∀ name ∈ names, name.isFixed) (nickname : Option Datum) :
    Familiar (roster.call names nickname).1 (history ++ (roster.call names nickname).2) where
  seen inst member := by
    rcases mem_table_call member with answered | old
    · exact List.mem_append_right _ answered
    · exact List.mem_append_left _ (familiar.seen inst old)
  nicknamed name group found inst member := by
    rw [meaning?_nicknames_call] at found
    split at found
    · cases found
      exact List.mem_append_right _ member
    · exact List.mem_append_left _ (familiar.nicknamed name group found inst member)
  ordered := familiar.ordered.append fun _ member => (familiar.mem_call member).imp_right And.right
  distinct := nodup_names_call familiar.distinct names nickname
  fixed inst member := by
    rcases List.mem_append.mp member with old | answered
    · exact familiar.fixed inst old
    · rcases familiar.mem_call answered with old | ⟨named, -⟩
      · exact familiar.fixed inst old
      · exact fixed _ named

theorem call (familiar : Familiar roster history) {instrument : Element}
    (called : instrument.WellCalled) :
    Familiar (roster.callFor instrument).1 (history ++ (roster.callFor instrument).2) :=
  familiar.answer (fun _ named => called.fixed _ (List.mem_append_left _ named)) _

theorem calls (familiar : Familiar roster history) {instruments : List Element}
    (called : ∀ instrument ∈ instruments, instrument.WellCalled) :
    Familiar (roster.afterCalls instruments)
      (history ++ playersOf (roster.cast instruments)) := by
  induction instruments generalizing roster history with
  | nil => simpa [afterCalls, cast, playersOf] using familiar
  | cons instrument instruments ih =>
    rw [List.forall_mem_cons] at called
    rw [playersOf_cast_cons, ← List.append_assoc]
    exact ih (familiar.call called.1) called.2

theorem replay (familiar : Familiar roster history) {group : List Instance}
    (known : ∀ inst ∈ group, inst ∈ history) :
    Familiar (roster.readmitted group) (history ++ group) where
  seen inst member := by
    rcases (mem_instances_readmitted familiar.distinct inst).mp member with last | standing
    · exact List.mem_append_right _ (List.mem_filter.mp last).1
    · obtain ⟨entry, within, bound⟩ := List.mem_flatMap.mp standing
      have old := List.mem_flatMap.mpr ⟨entry, (List.mem_filter.mp within).1, bound⟩
      exact List.mem_append_left _ (familiar.seen inst old)
  nicknamed name group found inst member :=
    List.mem_append_left _ (familiar.nicknamed name group found inst member)
  ordered := familiar.ordered.append fun inst member => .inl (known inst member)
  distinct := nodup_readmitted familiar.distinct group
  fixed := List.forall_mem_append.mpr
    ⟨familiar.fixed, fun inst member => familiar.fixed inst (known inst member)⟩

end Familiar

theorem Numbered.again {roster : Roster} {calls : List Element} {history group : List Instance}
    (numbered : Numbered roster calls history) (known : ∀ inst ∈ group, inst ∈ history) :
    Numbered roster calls (history ++ group) where
  seen inst member := List.mem_append_left _ (numbered.seen inst member)
  bound := numbered.bound
  agree := numbered.agree
  newest name free := by
    have same : highestNumber name (history ++ group) = highestNumber name history := by
      apply le_antisymm
      · apply highestNumber_le (numbered.nonneg name)
        intro number member
        rcases List.mem_append.mp member with old | again
        · exact le_highestNumber old
        · exact le_highestNumber (known _ again)
      · apply highestNumber_le
        · exact highestNumber_nonneg fun inst member =>
            (numbered.ordered.mem_iff.mp ((List.mem_append.mp member).elim id (known inst))).1
        · exact fun number member => le_highestNumber (List.mem_append_left _ member)
    rw [same]
    exact numbered.newest name free
  ordered := numbered.ordered.append fun inst member => .inl (known inst member)
  mentioned := numbered.mentioned
  named inst member :=
    numbered.named inst ((List.mem_append.mp member).elim id (known inst))

end Partbook.Roster
