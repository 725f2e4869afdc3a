import Mathlib.Data.List.Nodup
import Mathlib.Data.List.Perm.Subperm
import Partbook.Forest.Slot

/-!
What an edit makes of a list. Each item that is in it then was in it before or is one of those that
were put in, and stands there no more often than it did in both together. All that were put in are
there.
-/
namespace Partbook

variable {α : Type} {item : α} {items list edited : List α}

theorem set_subperm (list : List α) (n : Nat) (item : α) :
    (list.set n item).Subperm (item :: list) := by
  by_cases inside : n < list.length
  · exact (List.set_perm_cons_eraseIdx inside item).subperm.trans
      ((List.subperm_cons item).mpr (List.eraseIdx_sublist list n).subperm)
  · rw [List.set_eq_of_length_le (Nat.le_of_not_lt inside)]
    exact (List.sublist_cons_self item list).subperm

namespace Slot

theorem place?_lt {size n : Nat} {i : Int} (found : place? size i = some n) : n < size := by
  simp only [place?, Option.ite_none_right_eq_some, Option.some.injEq] at found
  obtain ⟨inside, rfl⟩ := found
  omega

theorem insertAt_perm (i : Int) (item : α) (list : List α) :
    (insertAt i item list).Perm (item :: list) := by
  have whole := List.take_append_drop (clamp list.length i) list
  exact List.perm_middle.trans (.cons item (.of_eq whole))

theorem replaceAt_subperm {i : Int} (replaced : replaceAt i item list = .ok edited) :
    edited.Subperm (item :: list) := by
  rw [replaceAt] at replaced
  split at replaced
  · cases replaced
    exact set_subperm list _ item
  · cases replaced

theorem mem_replaceAt {i : Int} (replaced : replaceAt i item list = .ok edited) :
    item ∈ edited := by
  rw [replaceAt] at replaced
  split at replaced
  · rename_i n found
    cases replaced
    exact List.mem_set (place?_lt found) item
  · cases replaced

theorem removeAt_subperm {i : Int} (removed : removeAt i list = .ok edited) :
    edited.Subperm list := by
  rw [removeAt] at removed
  split at removed
  · cases removed
    exact (List.eraseIdx_sublist list _).subperm
  · cases removed

end Slot

namespace Slice

theorem putAll_subperm (places : List Nat) (items list : List α) :
    (putAll places items list).Subperm (items ++ list) := by
  induction items generalizing places list with
  | nil => cases places <;> exact .refl list
  | cons item items ih =>
    cases places with
    | nil => exact (List.sublist_append_right (item :: items) list).subperm
    | cons n places =>
      have once : (items ++ list.set n item).Subperm (items ++ item :: list) :=
        (List.subperm_append_left items).mpr (set_subperm list n item)
      exact ((ih places (list.set n item)).trans once).trans List.perm_middle.subperm

theorem cut_subperm {start stop : Nat} (forwards : start ≤ stop) (items list : List α) :
    (list.take start ++ items ++ list.drop stop).Subperm (items ++ list) := by
  have kept : (list.take start ++ list.drop stop).Sublist list := by
    have whole := List.take_append_drop start list
    conv_rhs => rw [← whole]
    exact .append (.refl _) (List.drop_sublist_drop_left list forwards)
  rw [List.append_assoc]
  exact List.perm_append_comm_assoc _ _ _ |>.subperm.trans
    ((List.subperm_append_left items).mpr kept.subperm)

theorem replace_subperm {slice : Slice} (replaced : slice.replace items list = .ok edited) :
    edited.Subperm (items ++ list) := by
  simp only [replace] at replaced
  split at replaced
  · cases replaced
  · split at replaced
    · cases replaced
      exact cut_subperm (Nat.le_max_left _ _) items list
    · split at replaced
      · cases replaced
        exact putAll_subperm _ items list
      · cases replaced

theorem step_lt {reach step i : Nat} (positive : 0 < step)
    (within : i < (reach + step - 1) / step) : i * step < reach := by
  rw [Nat.lt_div_iff_mul_lt positive] at within
  omega

theorem step_inj {step i j : Nat} (positive : 0 < step) (same : i * step = j * step) : i = j :=
  Nat.eq_of_mul_eq_mul_right positive same

theorem clampBackwards_bounds (size : Nat) (i : Int) :
    -1 ≤ clampBackwards size i ∧ clampBackwards size i < size := by
  simp only [clampBackwards]
  split_ifs <;> omega

theorem places_distinct (slice : Slice) (size : Nat) :
    (slice.places size).Nodup ∧ ∀ n ∈ slice.places size, n < size := by
  simp only [places]
  split
  · rename_i forwards
    have positive : 0 < (slice.stride.getD 1).toNat := by omega
    generalize (slice.stride.getD 1).toNat = step at positive
    have bound : (slice.stop.map (Slot.clamp size)).getD size ≤ size := by
      cases slice.stop with
      | none => exact Nat.le_refl size
      | some stop => exact Nat.min_le_left _ _
    constructor
    · exact List.nodup_range.map fun i j same =>
        step_inj positive (Nat.add_left_cancel same)
    · intro n member
      obtain ⟨i, within, rfl⟩ := List.mem_map.mp member
      have before := step_lt positive (List.mem_range.mp within)
      omega
  · split
    · rename_i backwards
      have positive : 0 < (-(slice.stride.getD 1)).toNat := by omega
      generalize (-(slice.stride.getD 1)).toNat = step at positive
      have first : (slice.start.map (clampBackwards size)).getD (size - 1) < size := by
        cases slice.start with
        | none => exact Int.sub_one_lt_of_le (Int.le_refl _)
        | some start => exact (clampBackwards_bounds size start).2
      have last : -1 ≤ (slice.stop.map (clampBackwards size)).getD (-1) := by
        cases slice.stop with
        | none => exact Int.le_refl _
        | some stop => exact (clampBackwards_bounds size stop).1
      constructor
      · refine List.nodup_range.map_on fun i within j within' same => ?_
        have before := step_lt positive (List.mem_range.mp within)
        have before' := step_lt positive (List.mem_range.mp within')
        exact step_inj positive (by omega)
      · intro n member
        obtain ⟨i, within, rfl⟩ := List.mem_map.mp member
        have before := step_lt positive (List.mem_range.mp within)
        omega
    · exact ⟨List.nodup_nil, nofun⟩

theorem getElem?_putAll {places : List Nat} {n : Nat} (other : n ∉ places)
    (items list : List α) : (putAll places items list)[n]? = list[n]? := by
  induction items generalizing places list with
  | nil => cases places <;> rfl
  | cons item items ih =>
    cases places with
    | nil => rfl
    | cons place places =>
      rw [List.mem_cons, not_or] at other
      rw [putAll, ih other.2, List.getElem?_set_ne (Ne.symm other.1)]

theorem mem_putAll {places : List Nat} (distinct : places.Nodup)
    (inside : ∀ n ∈ places, n < list.length) (enough : places.length = items.length) :
    ∀ item ∈ items, item ∈ putAll places items list := by
  induction items generalizing places list with
  | nil => nofun
  | cons first items ih =>
    cases places with
    | nil => cases enough
    | cons place places =>
      rw [List.nodup_cons] at distinct
      rw [List.forall_mem_cons] at inside
      refine List.forall_mem_cons.mpr ⟨?_, ?_⟩
      · have still := getElem?_putAll distinct.1 items (list.set place first)
        rw [List.getElem?_set_self inside.1] at still
        exact List.mem_of_getElem? still
      · exact ih distinct.2 (by simpa using inside.2) (Nat.succ.inj enough)

theorem mem_replace {slice : Slice} (replaced : slice.replace items list = .ok edited) :
    ∀ item ∈ items, item ∈ edited := by
  intro item member
  simp only [replace] at replaced
  split at replaced
  · cases replaced
  · split at replaced
    · cases replaced
      exact List.mem_append_left _ (List.mem_append_right _ member)
    · split at replaced
      · rename_i enough
        cases replaced
        have places := slice.places_distinct list.length
        exact mem_putAll places.1 places.2 enough item member
      · cases replaced

end Slice

end Partbook
