import Partbook.Roster.Basic
import Mathlib.Data.Int.Order.Basic
import Mathlib.Order.MinMax

namespace Partbook

def numbersOf (name : Datum) (instances : List Instance) : List Int :=
  (instances.filter (·.name = name)).map (·.number)

def highestNumber (name : Datum) (instances : List Instance) : Int :=
  (numbersOf name instances).max?.getD 0

def upTo (m : Nat) : List Int := (List.range m).map fun k : Nat => (k : Int) + 1

/-- In order of first appearance, the numbers of every instrument are 1, 2, 3 and so on. -/
def FirstInOrder (instances : List Instance) : Prop :=
  ∀ name, ∃ m, (numbersOf name instances).eraseDups = upTo m

theorem allocated_eq (roster : Roster) (name : Datum) :
    roster.allocated name = highestNumber name roster.table.instances := rfl

@[simp] theorem mem_numbersOf {name : Datum} {instances : List Instance} {number : Int} :
    number ∈ numbersOf name instances ↔ ⟨name, number⟩ ∈ instances := by
  simp only [numbersOf, List.mem_map, List.mem_filter, decide_eq_true_eq]
  constructor
  · rintro ⟨inst, ⟨member, rfl⟩, rfl⟩
    exact member
  · intro member
    exact ⟨_, ⟨member, rfl⟩, rfl⟩

@[simp] theorem numbersOf_append (name : Datum) (instances more : List Instance) :
    numbersOf name (instances ++ more) = numbersOf name instances ++ numbersOf name more := by
  simp [numbersOf]

@[simp] theorem mem_upTo {m : Nat} {number : Int} : number ∈ upTo m ↔ 1 ≤ number ∧ number ≤ m := by
  simp only [upTo, List.mem_map, List.mem_range]
  constructor
  · rintro ⟨k, below, rfl⟩
    omega
  · rintro ⟨positive, bounded⟩
    exact ⟨(number - 1).toNat, by omega, by omega⟩

theorem upTo_succ (m : Nat) : upTo (m + 1) = upTo m ++ [(m : Int) + 1] := by
  simp [upTo, List.range_succ]

theorem highestNumber_spec (name : Datum) (instances : List Instance) :
    (⟨name, highestNumber name instances⟩ ∈ instances ∧
      ∀ number, ⟨name, number⟩ ∈ instances → number ≤ highestNumber name instances) ∨
    (highestNumber name instances = 0 ∧ ∀ number, ⟨name, number⟩ ∉ instances) := by
  unfold highestNumber
  cases highest : (numbersOf name instances).max? with
  | none =>
    refine .inr ⟨rfl, fun number member => ?_⟩
    rw [← mem_numbersOf, List.max?_eq_none_iff.mp highest] at member
    exact absurd member List.not_mem_nil
  | some number =>
    rw [List.max?_eq_some_iff] at highest
    simp only [mem_numbersOf] at highest
    exact .inl highest

theorem le_highestNumber {name : Datum} {number : Int} {instances : List Instance}
    (member : ⟨name, number⟩ ∈ instances) : number ≤ highestNumber name instances := by
  rcases highestNumber_spec name instances with ⟨-, above⟩ | ⟨-, absent⟩
  · exact above number member
  · exact absurd member (absent number)

theorem highestNumber_le {name : Datum} {bound : Int} {instances : List Instance}
    (nonneg : 0 ≤ bound) (below : ∀ number, ⟨name, number⟩ ∈ instances → number ≤ bound) :
    highestNumber name instances ≤ bound := by
  rcases highestNumber_spec name instances with ⟨member, -⟩ | ⟨zero, -⟩
  · exact below _ member
  · exact zero ▸ nonneg

theorem highestNumber_nonneg {name : Datum} {instances : List Instance}
    (positive : ∀ inst ∈ instances, 1 ≤ inst.number) : 0 ≤ highestNumber name instances := by
  rcases highestNumber_spec name instances with ⟨member, -⟩ | ⟨zero, -⟩
  · exact Int.le_of_lt (positive _ member)
  · exact zero.ge

theorem highestNumber_union {name : Datum} {all some others : List Instance}
    (members : ∀ inst, inst ∈ all ↔ inst ∈ some ∨ inst ∈ others)
    (positive : ∀ inst ∈ all, 1 ≤ inst.number) :
    highestNumber name all = max (highestNumber name some) (highestNumber name others) := by
  have somePositive : 0 ≤ highestNumber name some :=
    highestNumber_nonneg fun inst member => positive inst ((members inst).mpr (.inl member))
  apply le_antisymm
  · apply highestNumber_le (le_max_of_le_left somePositive)
    intro number member
    rcases (members _).mp member with first | second
    · exact le_max_of_le_left (le_highestNumber first)
    · exact le_max_of_le_right (le_highestNumber second)
  · have nonneg : 0 ≤ highestNumber name all := highestNumber_nonneg positive
    apply max_le
    · exact highestNumber_le nonneg fun number member =>
        le_highestNumber ((members _).mpr (.inl member))
    · exact highestNumber_le nonneg fun number member =>
        le_highestNumber ((members _).mpr (.inr member))

theorem eraseDups_eq_singleton {α : Type} [BEq α] [LawfulBEq α] {items : List α} {item : α}
    (same : ∀ other ∈ items, other = item) (nonempty : items ≠ []) : items.eraseDups = [item] := by
  cases items with
  | nil => exact absurd rfl nonempty
  | cons first rest =>
    have equal : first = item := same first List.mem_cons_self
    have none : rest.filter (fun other => !other == first) = [] := by
      rw [List.filter_eq_nil_iff]
      intro other member
      simp [same other (List.mem_cons_of_mem _ member), equal]
    rw [List.eraseDups_cons, none, equal]
    rfl

namespace FirstInOrder

theorem nil : FirstInOrder [] := fun _ => ⟨0, rfl⟩

theorem eraseDups_eq {instances : List Instance} (ordered : FirstInOrder instances) (name : Datum) :
    ∃ m : Nat, highestNumber name instances = m ∧
      (numbersOf name instances).eraseDups = upTo m := by
  obtain ⟨m, numbers⟩ := ordered name
  have occurs (number : Int) : ⟨name, number⟩ ∈ instances ↔ 1 ≤ number ∧ number ≤ m := by
    rw [← mem_upTo, ← numbers, List.mem_eraseDups, mem_numbersOf]
  refine ⟨m, ?_, numbers⟩
  rcases highestNumber_spec name instances with ⟨member, above⟩ | ⟨zero, absent⟩
  · have highest := (occurs _).mp member
    have last := above m ((occurs m).mpr (by omega))
    omega
  · have := mt (occurs m).mpr (absent m)
    omega

theorem mem_iff {instances : List Instance} (ordered : FirstInOrder instances) {inst : Instance} :
    inst ∈ instances ↔ 1 ≤ inst.number ∧ inst.number ≤ highestNumber inst.name instances := by
  obtain ⟨m, highest, numbers⟩ := ordered.eraseDups_eq inst.name
  rw [highest, ← mem_upTo, ← numbers, List.mem_eraseDups, mem_numbersOf]

theorem mem_or_next {instances : List Instance} (ordered : FirstInOrder instances)
    {inst : Instance} (positive : 1 ≤ inst.number)
    (low : inst.number ≤ highestNumber inst.name instances + 1) :
    inst ∈ instances ∨ inst.number = highestNumber inst.name instances + 1 := by
  by_cases known : inst.number ≤ highestNumber inst.name instances
  · exact .inl (ordered.mem_iff.mpr ⟨positive, known⟩)
  · exact .inr (by omega)

theorem append {instances more : List Instance} (ordered : FirstInOrder instances)
    (next : ∀ inst ∈ more, inst ∈ instances ∨
      inst.number = highestNumber inst.name instances + 1) : FirstInOrder (instances ++ more) := by
  intro name
  obtain ⟨m, highest, numbers⟩ := ordered.eraseDups_eq name
  rw [numbersOf_append, List.eraseDups_append, numbers]
  have new : ∀ number ∈ (numbersOf name more).removeAll (numbersOf name instances),
      number = (m : Int) + 1 := by
    intro number member
    rw [List.removeAll, List.mem_filter] at member
    obtain ⟨known, unseen⟩ := member
    rcases next _ (mem_numbersOf.mp known) with old | number_eq
    · simp [old] at unseen
    · exact highest ▸ number_eq
  by_cases none : (numbersOf name more).removeAll (numbersOf name instances) = []
  · exact ⟨m, by simp [none]⟩
  · exact ⟨m + 1, by rw [eraseDups_eq_singleton new none, upTo_succ]⟩

end FirstInOrder

end Partbook
