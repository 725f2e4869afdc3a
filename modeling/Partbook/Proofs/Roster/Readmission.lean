import Partbook.Proofs.Element.Notated
import Partbook.Proofs.Roster.Calls
import Partbook.Proofs.Roster.Numbers
import Mathlib.Data.List.Induction

/-!
Resolving what is resolved already. Each track binds the name of its instrument to its instance, so
the table keeps the last instance of every instrument and what stands under other names. The next
track is admitted by what is still there to be seen.
-/
namespace Partbook

/-- The instances that no later one of the same instrument follows. -/
def lastOnes (instances : List Instance) : List Instance :=
  instances.filter fun inst => (numbersOf inst.name instances).getLast? = some inst.number

def latestNumber (name : Datum) (instances : List Instance) : Int :=
  (numbersOf name instances).getLast?.getD 0

theorem mem_lastOnes {instances : List Instance} {inst : Instance} :
    inst ∈ lastOnes instances ↔
      (numbersOf inst.name instances).getLast? = some inst.number := by
  simp only [lastOnes, List.mem_filter, decide_eq_true_eq, and_iff_right_iff_imp]
  exact fun last => mem_numbersOf.mp (List.mem_of_getLast? last)

theorem numbersOf_concat (name : Datum) (instances : List Instance) (inst : Instance) :
    numbersOf name (instances ++ [inst]) =
      numbersOf name instances ++ if inst.name = name then [inst.number] else [] := by
  by_cases same : inst.name = name <;> simp [numbersOf, same]

theorem highestNumber_lastOnes (name : Datum) (instances : List Instance) :
    highestNumber name (lastOnes instances) = latestNumber name instances := by
  have last (number : Int) : ⟨name, number⟩ ∈ lastOnes instances ↔
      (numbersOf name instances).getLast? = some number := mem_lastOnes
  rcases highestNumber_spec name (lastOnes instances) with ⟨member, -⟩ | ⟨zero, absent⟩
  · rw [latestNumber, (last _).mp member, Option.getD_some]
  · rw [zero, latestNumber]
    cases found : (numbersOf name instances).getLast? with
    | none => rfl
    | some number => exact absurd ((last number).mpr found) (absent number)

namespace Roster

def readmitted (roster : Roster) (instances : List Instance) : Roster :=
  { roster with table := roster.table.bindAll (instances.map fun inst => (inst.name, [inst])) }

/-- Each number is positive and at most one above the highest in the table at that point. -/
def Gapless (roster : Roster) (instances : List Instance) : Prop :=
  ∀ before inst after, instances = before ++ inst :: after →
    0 < inst.number ∧ inst.number ≤ (roster.readmitted before).allocated inst.name + 1

/-- Every instrument of the instances stands for the last of them. -/
def Settled (roster : Roster) (instances : List Instance) : Prop :=
  ∀ inst ∈ lastOnes instances, roster.table.meaning? inst.name = some [inst]

/-- What stands in the table under names other than those of the instruments. -/
def standing (roster : Roster) (instances : List Instance) : List Instance :=
  Bindings.instances (roster.table.filter fun entry => entry.1 ∉ instances.map (·.name))

theorem gapless_cons {roster : Roster} {inst : Instance} {instances : List Instance} :
    roster.Gapless (inst :: instances) ↔
      (0 < inst.number ∧ inst.number ≤ roster.allocated inst.name + 1) ∧
        (roster.readmitted [inst]).Gapless instances := by
  constructor
  · intro gapless
    exact ⟨gapless [] inst instances rfl, fun before other after split =>
      gapless (inst :: before) other after (by rw [split]; rfl)⟩
  · rintro ⟨first, rest⟩ before other after split
    cases before with
    | nil =>
      cases split
      exact first
    | cons inst before =>
      cases split
      exact rest before other after rfl

theorem readmitAll_of_gapless {roster : Roster} {instances : List Instance}
    (fixed : ∀ inst ∈ instances, inst.name.isFixed) (gapless : roster.Gapless instances) :
    roster.readmitAll instances = .ok (roster.readmitted instances) := by
  induction instances generalizing roster with
  | nil => rfl
  | cons inst instances ih =>
    rw [List.forall_mem_cons] at fixed
    obtain ⟨first, rest⟩ := gapless_cons.mp gapless
    rw [readmitAll, readmit, if_pos first, if_pos fixed.1]
    exact ih fixed.2 rest

theorem readmitAll_of_gap {roster : Roster} {instances : List Instance}
    (fixed : ∀ inst ∈ instances, inst.name.isFixed) (gap : ¬ roster.Gapless instances) :
    ∃ inst ∈ instances, roster.readmitAll instances = .error (.outOfSequence inst) := by
  induction instances generalizing roster with
  | nil => exact absurd (fun before inst after split => by simp at split) gap
  | cons inst instances ih =>
    rw [List.forall_mem_cons] at fixed
    rw [gapless_cons, not_and] at gap
    by_cases first : 0 < inst.number ∧ inst.number ≤ roster.allocated inst.name + 1
    · obtain ⟨culprit, member, refused⟩ := ih fixed.2 (gap first)
      refine ⟨culprit, List.mem_cons_of_mem _ member, ?_⟩
      rw [readmitAll, readmit, if_pos first, if_pos fixed.1]
      exact refused
    · refine ⟨inst, List.mem_cons_self, ?_⟩
      rw [readmitAll, readmit, if_neg first]
      rfl

theorem readmitAll_ok_iff {roster after : Roster} {instances : List Instance}
    (fixed : ∀ inst ∈ instances, inst.name.isFixed) :
    roster.readmitAll instances = .ok after ↔
      roster.Gapless instances ∧ roster.readmitted instances = after := by
  by_cases gapless : roster.Gapless instances
  · simp [readmitAll_of_gapless fixed gapless, gapless]
  · obtain ⟨inst, -, refused⟩ := readmitAll_of_gap fixed gapless
    simp [refused, gapless]

theorem readmitted_concat (roster : Roster) (instances : List Instance) (inst : Instance) :
    (roster.readmitted (instances ++ [inst])).table =
      (roster.readmitted instances).table.bind inst.name [inst] := by
  simp [readmitted, Bindings.bindAll]

theorem nodup_readmitted {roster : Roster} (distinct : roster.table.names.Nodup)
    (instances : List Instance) : (roster.readmitted instances).table.names.Nodup :=
  Bindings.nodup_names_bindAll distinct _

theorem meaning?_readmitted (roster : Roster) (instances : List Instance) (name : Datum) :
    (roster.readmitted instances).table.meaning? name =
      match (numbersOf name instances).getLast? with
      | some number => some [⟨name, number⟩]
      | none => roster.table.meaning? name := by
  induction instances using List.reverseRecOn with
  | nil => rfl
  | append_singleton instances inst ih =>
    rw [readmitted_concat, Bindings.meaning?_bind, ih, numbersOf_concat]
    by_cases same : name = inst.name
    · subst same
      simp
    · simp [same, Ne.symm same]

theorem mem_readmitted {roster : Roster} (distinct : roster.table.names.Nodup)
    {instances : List Instance} {entry : Datum × List Instance} :
    entry ∈ (roster.readmitted instances).table ↔
      (∃ inst ∈ lastOnes instances, entry = (inst.name, [inst])) ∨
        (entry ∈ roster.table ∧ entry.1 ∉ instances.map (·.name)) := by
  induction instances using List.reverseRecOn with
  | nil => simp [readmitted, Bindings.bindAll, lastOnes]
  | append_singleton instances inst ih =>
    rw [readmitted_concat, Bindings.mem_bind_iff (nodup_readmitted distinct instances), ih]
    simp only [mem_lastOnes, numbersOf_concat, List.map_append, List.map_cons, List.map_nil,
      List.mem_append, List.mem_singleton, not_or]
    constructor
    · rintro (rfl | ⟨⟨earlier, last, rfl⟩ | ⟨old, free⟩, other⟩)
      · exact .inl ⟨inst, by simp, rfl⟩
      · exact .inl ⟨earlier, by simp [Ne.symm other, last], rfl⟩
      · exact .inr ⟨old, free, other⟩
    · rintro (⟨last, isLast, rfl⟩ | ⟨old, free, other⟩)
      · by_cases same : inst.name = last.name
        · obtain ⟨name, number⟩ := last
          obtain ⟨_, _⟩ := inst
          simp_all
        · exact .inr ⟨.inl ⟨last, by simpa [same] using isLast, rfl⟩, Ne.symm same⟩
      · exact .inr ⟨.inr ⟨old, free⟩, other⟩

theorem mem_instances_readmitted {roster : Roster} (distinct : roster.table.names.Nodup)
    {instances : List Instance} (inst : Instance) :
    inst ∈ (roster.readmitted instances).table.instances ↔
      inst ∈ lastOnes instances ∨ inst ∈ roster.standing instances := by
  simp only [Bindings.instances, standing, List.mem_flatMap, List.mem_filter, decide_eq_true_eq]
  constructor
  · rintro ⟨entry, known, member⟩
    rcases (mem_readmitted distinct).mp known with ⟨last, isLast, rfl⟩ | old
    · exact .inl (List.mem_singleton.mp member ▸ isLast)
    · exact .inr ⟨entry, old, member⟩
  · rintro (last | ⟨entry, old, member⟩)
    · exact ⟨(inst.name, [inst]), (mem_readmitted distinct).mpr (.inl ⟨inst, last, rfl⟩), by simp⟩
    · exact ⟨entry, (mem_readmitted distinct).mpr (.inr old), member⟩

theorem allocated_readmitted {roster : Roster} (distinct : roster.table.names.Nodup)
    {instances : List Instance} (positive : ∀ inst ∈ instances, 1 ≤ inst.number)
    (known : ∀ inst ∈ roster.table.instances, 1 ≤ inst.number) (name : Datum) :
    (roster.readmitted instances).allocated name =
      max (latestNumber name instances) (highestNumber name (roster.standing instances)) := by
  rw [allocated_eq, highestNumber_union (mem_instances_readmitted distinct),
    highestNumber_lastOnes]
  intro inst member
  rcases (mem_instances_readmitted distinct inst).mp member with last | old
  · exact positive inst (List.mem_filter.mp last).1
  · obtain ⟨entry, within, bound⟩ := List.mem_flatMap.mp old
    exact known inst (List.mem_flatMap.mpr ⟨entry, (List.mem_filter.mp within).1, bound⟩)

/-- Tracks leave the roster as it is if and only if each instrument of theirs stands for the last
of its tracks. -/
theorem readmitted_eq_self_iff {roster : Roster} (distinct : roster.table.names.Nodup)
    {instances : List Instance} :
    roster.readmitted instances = roster ↔ roster.Settled instances := by
  constructor
  · intro same inst last
    have found := meaning?_readmitted roster instances inst.name
    rwa [mem_lastOnes.mp last, same] at found
  · intro settled
    have last (inst : Instance) (member : inst ∈ instances) :
        ∃ number, (numbersOf inst.name instances).getLast? = some number := by
      have occurs : inst.number ∈ numbersOf inst.name instances := mem_numbersOf.mpr member
      exact ⟨_, List.getLast?_eq_some_getLast (List.ne_nil_of_mem occurs)⟩
    have names : (roster.readmitted instances).table.names = roster.table.names := by
      apply Bindings.names_bindAll
      intro entry member
      obtain ⟨inst, occurs, rfl⟩ := List.mem_map.mp member
      obtain ⟨number, isLast⟩ := last inst occurs
      exact Bindings.mem_names_of_meaning? (settled ⟨inst.name, number⟩ (mem_lastOnes.mpr isLast))
    have table : (roster.readmitted instances).table = roster.table := by
      apply Bindings.ext_of_names (nodup_readmitted distinct instances) names
      intro name
      refine (meaning?_readmitted roster instances name).trans ?_
      split
      · rename_i number isLast
        exact (settled ⟨name, number⟩ (mem_lastOnes.mpr isLast)).symm
      · rfl
    obtain ⟨_, _⟩ := roster
    simp_all [readmitted]

end Roster

end Partbook
