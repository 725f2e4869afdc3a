import Partbook.Proofs.Roster.Calls
import Partbook.Proofs.Roster.Numbers

/-!
How numbers are given out. What the table shows is less than what has been called: nicknames are
bound anew, and instances drop out of it. What a call needs of the past is still there, since a name
that is no nickname stays bound to the newest instance of its instrument.
-/
namespace Partbook.Roster

/-! ## One call -/

theorem snd_call (roster : Roster) (names : List Datum) (nickname : Option Datum) :
    (roster.call names nickname).2 = names.flatMap (roster.assign nickname) := by
  cases nickname <;> simp [call, List.flatMap_map]

theorem mem_assign {roster : Roster} {nickname : Option Datum} {name : Datum} {inst : Instance}
    (member : inst ∈ roster.assign nickname name) :
    (∃ group, (roster.table.meaning? name = some group ∨
        roster.nicknames.meaning? name = some group) ∧ inst ∈ group) ∨
      inst.name = name ∧ (inst.number = 1 ∨ inst.number = roster.allocated name + 1) := by
  cases nickname with
  | none =>
    simp only [assign] at member
    split at member
    · rename_i found
      exact .inl ⟨_, .inl found, member⟩
    · rw [List.mem_singleton.mp member]
      exact .inr ⟨rfl, .inl rfl⟩
  | some nickname =>
    simp only [assign] at member
    split at member
    · rename_i found
      exact .inl ⟨_, .inr found, member⟩
    · rw [List.mem_singleton.mp member]
      exact .inr ⟨rfl, .inr rfl⟩

theorem meaning?_table_call (roster : Roster) (names : List Datum) (nickname : Option Datum)
    (other : Datum) :
    (roster.call names nickname).1.table.meaning? other =
      if nickname = some other then some (roster.call names nickname).2
      else if other ∈ names then some (roster.assign nickname other)
      else roster.table.meaning? other := by
  cases nickname with
  | none => simp [call, Bindings.meaning?_bindAll_map]
  | some nickname =>
    simp [call, Bindings.meaning?_bind, Bindings.meaning?_bindAll_map, eq_comm]

theorem meaning?_nicknames_call (roster : Roster) (names : List Datum) (nickname : Option Datum)
    (other : Datum) :
    (roster.call names nickname).1.nicknames.meaning? other =
      if nickname = some other then some (roster.call names nickname).2
      else roster.nicknames.meaning? other := by
  cases nickname with
  | none => simp [call]
  | some nickname => simp [call, Bindings.meaning?_bind, eq_comm]

theorem mem_table_call {roster : Roster} {names : List Datum} {nickname : Option Datum}
    {inst : Instance} (member : inst ∈ (roster.call names nickname).1.table.instances) :
    inst ∈ (roster.call names nickname).2 ∨ inst ∈ roster.table.instances := by
  have resolved (within : inst ∈ (roster.table.bindAll
      (names.map fun name => (name, roster.assign nickname name))).instances) :
      inst ∈ (roster.call names nickname).2 ∨ inst ∈ roster.table.instances := by
    rcases Bindings.mem_instances_bindAll within with ⟨entry, known, bound⟩ | old
    · obtain ⟨name, named, rfl⟩ := List.mem_map.mp known
      rw [snd_call]
      exact .inl (List.mem_flatMap.mpr ⟨name, named, bound⟩)
    · exact .inr old
  cases nickname with
  | none => exact resolved member
  | some nickname =>
    rcases Bindings.mem_instances_bind member with group | within
    · exact .inl group
    · exact resolved within

/-- A call with the nickname, or with none, makes a new instance for the name. -/
def allocates (roster : Roster) (nickname : Option Datum) (name : Datum) : Bool :=
  match nickname with
  | none => (roster.table.meaning? name).getD [] = []
  | some _ => (roster.nicknames.meaning? name).isNone

def allocations (roster : Roster) (instrument : Element) : List Instance :=
  (instrument.calledNames.filter (roster.allocates instrument.calledNickname)).flatMap
    (roster.assign instrument.calledNickname)

def allocationsOfAll (roster : Roster) : List Element → List (List Instance)
  | [] => []
  | instrument :: instruments =>
    roster.allocations instrument :: allocationsOfAll (roster.callFor instrument).1 instruments

/-! ## The invariant -/

/-- What holds of the roster after calls to which the instances of `history` have answered. -/
structure Numbered (roster : Roster) (calls : List Element) (history : List Instance) : Prop where
  seen : ∀ inst ∈ roster.table.instances, inst ∈ history
  bound : ∀ name group, roster.table.meaning? name = some group → group ≠ []
  agree : ∀ name group, roster.nicknames.meaning? name = some group →
    roster.table.meaning? name = some group
  newest : ∀ name, roster.nicknames.meaning? name = none →
    roster.table.meaning? name =
      if highestNumber name history = 0 then none else some [⟨name, highestNumber name history⟩]
  ordered : FirstInOrder history
  mentioned : ∀ name, roster.table.meaning? name ≠ none → ∃ call ∈ calls, call.Mentions name
  named : ∀ inst ∈ history, ∃ call ∈ calls, inst.name ∈ call.calledNames

namespace Numbered

variable {roster : Roster} {calls : List Element} {history : List Instance}

theorem start : Numbered {} [] [] where
  seen := by simp [Bindings.instances]
  bound := by simp [Bindings.meaning?]
  agree := by simp [Bindings.meaning?]
  newest := by simp [Bindings.meaning?, highestNumber, numbersOf]
  ordered := .nil
  mentioned := by simp [Bindings.meaning?]
  named := by simp

theorem seen_of_meaning? (numbered : Numbered roster calls history) {name : Datum}
    {group : List Instance} (found : roster.table.meaning? name = some group) :
    ∀ inst ∈ group, inst ∈ history :=
  fun inst member => numbered.seen inst (Bindings.mem_instances_of_meaning? found member)

theorem nonneg (numbered : Numbered roster calls history) (name : Datum) :
    0 ≤ highestNumber name history :=
  highestNumber_nonneg fun _ member => (numbered.ordered.mem_iff.mp member).1

/-- For a name that is no nickname, the table shows the highest number ever given out. -/
theorem allocated_eq_highest (numbered : Numbered roster calls history) {name : Datum}
    (free : roster.nicknames.meaning? name = none) :
    roster.allocated name = highestNumber name history := by
  rw [allocated_eq]
  apply le_antisymm
  · exact highestNumber_le (numbered.nonneg name) fun number member =>
      le_highestNumber (numbered.seen _ member)
  · have newest := numbered.newest name free
    split at newest
    · rename_i zero
      rw [zero]
      exact highestNumber_nonneg fun inst member =>
        (numbered.ordered.mem_iff.mp (numbered.seen inst member)).1
    · exact le_highestNumber (Bindings.mem_instances_of_meaning? newest (by simp))

theorem highest_of_unbound (numbered : Numbered roster calls history) {name : Datum}
    (unbound : roster.table.meaning? name = none) : highestNumber name history = 0 := by
  have free : roster.nicknames.meaning? name = none := by
    cases nicknamed : roster.nicknames.meaning? name with
    | none => rfl
    | some group => rw [numbered.agree name group nicknamed] at unbound; cases unbound
  have newest := numbered.newest name free
  rw [unbound] at newest
  split at newest
  · assumption
  · cases newest

theorem assign_of_allocates (numbered : Numbered roster calls history) {nickname : Option Datum}
    {name : Datum} (new : roster.allocates nickname name) :
    roster.assign nickname name = [⟨name, highestNumber name history + 1⟩] := by
  cases nickname with
  | none =>
    cases found : roster.table.meaning? name with
    | none => simp [assign, found, numbered.highest_of_unbound found]
    | some group =>
      have empty : group = [] := by simpa [allocates, found] using new
      exact absurd empty (numbered.bound name group found)
  | some nickname =>
    have free : roster.nicknames.meaning? name = none := by simpa [allocates] using new
    simp [assign, free, numbered.allocated_eq_highest free]

theorem assign_of_not_allocates (numbered : Numbered roster calls history)
    {nickname : Option Datum} {name : Datum} (old : roster.allocates nickname name = false) :
    roster.table.meaning? name = some (roster.assign nickname name) := by
  cases nickname with
  | none =>
    cases found : roster.table.meaning? name with
    | none => simp [allocates, found] at old
    | some group =>
      match group, numbered.bound name group found with
      | inst :: more, _ => simp [assign, found]
  | some nickname =>
    cases found : roster.nicknames.meaning? name with
    | none => simp [allocates, found] at old
    | some group => simp [assign, found, numbered.agree name group found]

theorem assign_ne_nil (numbered : Numbered roster calls history) (nickname : Option Datum)
    (name : Datum) : roster.assign nickname name ≠ [] := by
  cases new : roster.allocates nickname name with
  | true => simp [numbered.assign_of_allocates new]
  | false => exact numbered.bound name _ (numbered.assign_of_not_allocates new)

theorem mem_call (numbered : Numbered roster calls history) {names : List Datum}
    {nickname : Option Datum} {inst : Instance} (member : inst ∈ (roster.call names nickname).2) :
    inst ∈ history ∨ (inst.name ∈ names ∧ roster.allocates nickname inst.name ∧
      inst.number = highestNumber inst.name history + 1) := by
  rw [snd_call, List.mem_flatMap] at member
  obtain ⟨name, named, member⟩ := member
  cases new : roster.allocates nickname name with
  | true =>
    rw [numbered.assign_of_allocates new, List.mem_singleton] at member
    subst member
    exact .inr ⟨named, new, rfl⟩
  | false =>
    exact .inl (numbered.seen_of_meaning? (numbered.assign_of_not_allocates new) inst member)

theorem ordered_call (numbered : Numbered roster calls history) (names : List Datum)
    (nickname : Option Datum) : FirstInOrder (history ++ (roster.call names nickname).2) :=
  numbered.ordered.append fun _ member => (numbered.mem_call member).imp_right fun new => new.2.2

theorem highest_after_call (numbered : Numbered roster calls history) (names : List Datum)
    (nickname : Option Datum) (name : Datum) :
    highestNumber name (history ++ (roster.call names nickname).2) =
      if name ∈ names ∧ roster.allocates nickname name then highestNumber name history + 1
      else highestNumber name history := by
  have nonneg := numbered.nonneg name
  apply le_antisymm
  · apply highestNumber_le (by split <;> omega)
    intro number member
    rcases List.mem_append.mp member with old | answered
    · have := le_highestNumber old
      split <;> omega
    · rcases numbered.mem_call answered with old | ⟨named, new, next⟩
      · have := le_highestNumber old
        split <;> omega
      · rw [if_pos ⟨named, new⟩]
        exact next.le
  · split
    · rename_i new
      apply le_highestNumber
      rw [List.mem_append, snd_call, List.mem_flatMap]
      exact .inr ⟨name, new.1, by simp [numbered.assign_of_allocates new.2]⟩
    · have positive (inst : Instance) (member : inst ∈ history ++ (roster.call names nickname).2) :
          1 ≤ inst.number := ((numbered.ordered_call names nickname).mem_iff.mp member).1
      exact highestNumber_le (highestNumber_nonneg positive)
        fun number member => le_highestNumber (List.mem_append_left _ member)

theorem newest_call (numbered : Numbered roster calls history) (names : List Datum)
    (nickname : Option Datum) (name : Datum)
    (free : (roster.call names nickname).1.nicknames.meaning? name = none) :
    (roster.call names nickname).1.table.meaning? name =
      if highestNumber name (history ++ (roster.call names nickname).2) = 0 then none
      else some [⟨name, highestNumber name (history ++ (roster.call names nickname).2)⟩] := by
  rw [meaning?_nicknames_call] at free
  rw [meaning?_table_call, numbered.highest_after_call]
  have nonneg := numbered.nonneg name
  split at free
  · cases free
  · rename_i other
    rw [if_neg other]
    by_cases named : name ∈ names
    · cases new : roster.allocates nickname name with
      | true =>
        have positive : highestNumber name history + 1 ≠ 0 := by omega
        simp only [named, if_true, and_self, positive, if_false]
        rw [numbered.assign_of_allocates new]
      | false =>
        have old := numbered.assign_of_not_allocates new
        simp only [named, if_true, Bool.false_eq_true, and_false, if_false]
        rw [← old, numbered.newest name free]
    · simp only [named, if_false, false_and]
      exact numbered.newest name free

theorem call_ne_nil (numbered : Numbered roster calls history) {names : List Datum}
    (named : names ≠ []) (nickname : Option Datum) : (roster.call names nickname).2 ≠ [] := by
  obtain ⟨name, others, rfl⟩ := List.exists_cons_of_ne_nil named
  simp [snd_call, numbered.assign_ne_nil]

theorem mem_instances_call (numbered : Numbered roster calls history) (names : List Datum)
    (nickname : Option Datum) {inst : Instance}
    (member : inst ∈ (roster.call names nickname).1.table.instances) :
    inst ∈ history ++ (roster.call names nickname).2 := by
  rcases mem_table_call member with answered | old
  · exact List.mem_append_right _ answered
  · exact List.mem_append_left _ (numbered.seen inst old)

theorem agree_call (numbered : Numbered roster calls history) (names : List Datum)
    (nickname : Option Datum) (name : Datum) (group : List Instance)
    (found : (roster.call names nickname).1.nicknames.meaning? name = some group) :
    (roster.call names nickname).1.table.meaning? name = some group := by
  rw [meaning?_nicknames_call] at found
  rw [meaning?_table_call]
  split at found
  · rename_i here
    rw [if_pos here, found]
  · rename_i other
    rw [if_neg other]
    have old : roster.table.meaning? name = some group := numbered.agree name group found
    by_cases named : name ∈ names
    · have kept : roster.allocates nickname name = false := by
        cases nickname with
        | none => simpa [allocates, old] using numbered.bound name group old
        | some nickname => simp [allocates, found]
      rw [if_pos named, ← numbered.assign_of_not_allocates kept, old]
    · rw [if_neg named, old]

theorem step (numbered : Numbered roster calls history) {instrument : Element}
    (called : instrument.WellCalled) :
    Numbered (roster.callFor instrument).1 (calls ++ [instrument])
      (history ++ (roster.callFor instrument).2) where
  seen _ member := numbered.mem_instances_call _ _ member
  bound name group found := by
    rw [callFor, meaning?_table_call] at found
    split at found
    · cases found
      exact numbered.call_ne_nil called.named _
    · split at found
      · cases found
        exact numbered.assign_ne_nil _ _
      · exact numbered.bound name group found
  agree := numbered.agree_call _ _
  newest := numbered.newest_call _ _
  ordered := numbered.ordered_call _ _
  mentioned name known := by
    rw [callFor, meaning?_table_call] at known
    split at known
    · exact ⟨instrument, by simp, .inr (by assumption)⟩
    · split at known
      · exact ⟨instrument, by simp, .inl (by assumption)⟩
      · obtain ⟨call, before, mentions⟩ := numbered.mentioned name known
        exact ⟨call, List.mem_append_left _ before, mentions⟩
  named inst member := by
    rcases List.mem_append.mp member with old | answered
    · obtain ⟨call, before, named⟩ := numbered.named inst old
      exact ⟨call, List.mem_append_left _ before, named⟩
    · rcases numbered.mem_call answered with old | ⟨named, -, -⟩
      · obtain ⟨call, before, named⟩ := numbered.named inst old
        exact ⟨call, List.mem_append_left _ before, named⟩
      · exact ⟨instrument, by simp, named⟩

theorem run (numbered : Numbered roster calls history) {instruments : List Element}
    (called : ∀ instrument ∈ instruments, instrument.WellCalled) :
    Numbered (roster.afterCalls instruments) (calls ++ instruments)
      (history ++ playersOf (roster.cast instruments)) := by
  induction instruments generalizing roster calls history with
  | nil => simpa [afterCalls, cast, playersOf] using numbered
  | cons instrument instruments ih =>
    rw [List.forall_mem_cons] at called
    have rest := ih (numbered.step called.1) called.2
    rw [List.append_assoc, List.append_assoc, ← playersOf_cast_cons] at rest
    exact rest

theorem allocations_new (numbered : Numbered roster calls history) (instrument : Element) :
    List.Disjoint history (roster.allocations instrument) := by
  intro inst old made
  rw [allocations, List.mem_flatMap] at made
  obtain ⟨name, new, made⟩ := made
  rw [numbered.assign_of_allocates (List.mem_filter.mp new).2, List.mem_singleton] at made
  subst made
  have := le_highestNumber old
  omega

theorem allocations_subset (roster : Roster) (instrument : Element) :
    roster.allocations instrument ⊆ (roster.callFor instrument).2 := by
  intro inst made
  obtain ⟨name, new, made⟩ := List.mem_flatMap.mp made
  rw [callFor, snd_call]
  exact List.mem_flatMap.mpr ⟨name, (List.mem_filter.mp new).1, made⟩

theorem allocationsOfAll_new (numbered : Numbered roster calls history)
    {instruments : List Element} (called : ∀ instrument ∈ instruments, instrument.WellCalled) :
    (∀ made ∈ roster.allocationsOfAll instruments, List.Disjoint history made) ∧
      (roster.allocationsOfAll instruments).Pairwise List.Disjoint := by
  induction instruments generalizing roster calls history with
  | nil => simp [allocationsOfAll]
  | cons instrument instruments ih =>
    rw [List.forall_mem_cons] at called
    obtain ⟨later, apart⟩ := ih (numbered.step called.1) called.2
    simp only [allocationsOfAll, List.forall_mem_cons, List.pairwise_cons]
    refine ⟨⟨numbered.allocations_new instrument, fun made member => ?_⟩,
      fun made member => ?_, apart⟩
    · exact (List.disjoint_append_left.mp (later made member)).1
    · exact List.disjoint_of_subset_left (allocations_subset roster instrument)
        (List.disjoint_append_left.mp (later made member)).2

end Numbered

end Partbook.Roster
