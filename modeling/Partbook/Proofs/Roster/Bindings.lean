import Partbook.Roster.Basic
import Mathlib.Data.List.Nodup

namespace Partbook.Bindings

theorem mem_of_meaning? {bindings : Bindings} {name : Datum} {bound : List Instance}
    (found : bindings.meaning? name = some bound) : (name, bound) ∈ bindings := by
  induction bindings with
  | nil => simp [meaning?] at found
  | cons entry bindings ih =>
    obtain ⟨key, instances⟩ := entry
    by_cases here : name = key
    · simp_all [meaning?]
    · rw [meaning?, List.lookup_cons, beq_false_of_ne here] at found
      exact List.mem_cons_of_mem _ (ih found)

theorem mem_instances_of_meaning? {bindings : Bindings} {name : Datum} {bound : List Instance}
    (found : bindings.meaning? name = some bound) {inst : Instance} (member : inst ∈ bound) :
    inst ∈ bindings.instances :=
  List.mem_flatMap.mpr ⟨_, mem_of_meaning? found, member⟩

@[simp] theorem names_bind (bindings : Bindings) (name : Datum) (bound : List Instance) :
    (bindings.bind name bound).names =
      if name ∈ bindings.names then bindings.names else bindings.names ++ [name] := by
  induction bindings with
  | nil => simp [bind, names]
  | cons entry bindings ih =>
    obtain ⟨key, instances⟩ := entry
    simp only [names] at ih ⊢
    by_cases here : key = name
    · simp [bind, here]
    · simp only [bind, here, if_false, List.map_cons, ih, List.mem_cons, Ne.symm here, false_or]
      split <;> simp_all

theorem nodup_names_bind {bindings : Bindings} (distinct : bindings.names.Nodup) (name : Datum)
    (bound : List Instance) : (bindings.bind name bound).names.Nodup := by
  rw [names_bind]
  split
  · exact distinct
  · rename_i new
    refine List.nodup_append.mpr ⟨distinct, by simp, ?_⟩
    intro other member last here
    rw [List.mem_singleton.mp here]
    exact ne_of_mem_of_not_mem member new

theorem mem_instances_bind {bindings : Bindings} {name : Datum} {bound : List Instance}
    {inst : Instance} (member : inst ∈ (bindings.bind name bound).instances) :
    inst ∈ bound ∨ inst ∈ bindings.instances := by
  induction bindings with
  | nil => exact .inl (by simpa [bind, instances] using member)
  | cons entry bindings ih =>
    obtain ⟨key, instances⟩ := entry
    simp only [Bindings.instances, List.flatMap_cons, List.mem_append] at ih ⊢
    by_cases here : key = name
    · simp only [bind, here, if_true, Bindings.instances, List.flatMap_cons,
        List.mem_append] at member
      exact member.imp_right .inr
    · simp only [bind, here, if_false, Bindings.instances, List.flatMap_cons,
        List.mem_append] at member
      rcases member with first | later
      · exact .inr (.inl first)
      · exact (ih later).imp_right .inr

theorem mem_bind_iff {bindings : Bindings} (distinct : bindings.names.Nodup) {name : Datum}
    {bound : List Instance} {entry : Datum × List Instance} :
    entry ∈ bindings.bind name bound ↔
      entry = (name, bound) ∨ (entry ∈ bindings ∧ entry.1 ≠ name) := by
  induction bindings with
  | nil => simp [bind]
  | cons first bindings ih =>
    obtain ⟨key, instances⟩ := first
    simp only [names, List.map_cons, List.nodup_cons] at distinct
    by_cases here : key = name
    · have others (known : entry ∈ bindings) : entry.1 ≠ name := by
        rintro rfl
        exact distinct.1 (here ▸ List.mem_map_of_mem known)
      simp only [bind, here, if_true, List.mem_cons]
      constructor
      · rintro (rfl | known)
        · exact .inl rfl
        · exact .inr ⟨.inr known, others known⟩
      · rintro (rfl | ⟨rfl | known, other⟩)
        · exact .inl rfl
        · exact absurd rfl other
        · exact .inr known
    · simp only [bind, here, if_false, List.mem_cons, ih distinct.2]
      constructor
      · rintro (rfl | new | ⟨known, other⟩)
        · exact .inr ⟨.inl rfl, here⟩
        · exact .inl new
        · exact .inr ⟨.inr known, other⟩
      · rintro (new | ⟨rfl | known, other⟩)
        · exact .inr (.inl new)
        · exact .inl rfl
        · exact .inr (.inr ⟨known, other⟩)

theorem mem_names_of_meaning? {bindings : Bindings} {name : Datum} {bound : List Instance}
    (found : bindings.meaning? name = some bound) : name ∈ bindings.names :=
  List.mem_map_of_mem (mem_of_meaning? found)

theorem ext_of_names {bindings others : Bindings} (distinct : bindings.names.Nodup)
    (names : bindings.names = others.names)
    (meanings : ∀ name, bindings.meaning? name = others.meaning? name) : bindings = others := by
  induction bindings generalizing others with
  | nil =>
    cases others with
    | nil => rfl
    | cons => simp [Bindings.names] at names
  | cons entry bindings ih =>
    obtain ⟨key, bound⟩ := entry
    match others with
    | [] => simp [Bindings.names] at names
    | (other, bound') :: others =>
      simp only [Bindings.names, List.map_cons, List.cons.injEq] at names
      obtain ⟨rfl, rest⟩ := names
      have first : bound = bound' := by simpa [meaning?] using meanings key
      simp only [Bindings.names, List.map_cons, List.nodup_cons] at distinct
      rw [first, ih distinct.2 rest]
      intro name
      by_cases here : name = key
      · subst here
        have absent (bindings : Bindings) (missing : name ∉ bindings.names) :
            bindings.meaning? name = none := by
          cases found : bindings.meaning? name with
          | none => rfl
          | some bound => exact absurd (mem_names_of_meaning? found) missing
        rw [absent bindings distinct.1, absent others]
        exact fun known => distinct.1 (by rw [rest]; exact known)
      · simpa [meaning?, List.lookup_cons, beq_false_of_ne here] using meanings name

theorem bindAll_cons (name : Datum) (bound : List Instance) (entries : List (Datum × List Instance))
    (bindings : Bindings) :
    bindings.bindAll ((name, bound) :: entries) = (bindings.bind name bound).bindAll entries := rfl

theorem meaning?_bindAll_map (names : List Datum) (given : Datum → List Instance)
    (bindings : Bindings) (other : Datum) :
    (bindings.bindAll (names.map fun name => (name, given name))).meaning? other =
      if other ∈ names then some (given other) else bindings.meaning? other := by
  induction names generalizing bindings with
  | nil => rfl
  | cons name names ih =>
    rw [List.map_cons, bindAll_cons, ih, meaning?_bind]
    by_cases later : other ∈ names
    · simp [later]
    · by_cases here : other = name <;> simp [later, here]

theorem nodup_names_bindAll {bindings : Bindings} (distinct : bindings.names.Nodup)
    (entries : List (Datum × List Instance)) : (bindings.bindAll entries).names.Nodup := by
  induction entries generalizing bindings with
  | nil => exact distinct
  | cons entry entries ih => exact ih (nodup_names_bind distinct entry.1 entry.2)

theorem names_bindAll {bindings : Bindings} {entries : List (Datum × List Instance)}
    (known : ∀ entry ∈ entries, entry.1 ∈ bindings.names) :
    (bindings.bindAll entries).names = bindings.names := by
  induction entries generalizing bindings with
  | nil => rfl
  | cons entry entries ih =>
    rw [List.forall_mem_cons] at known
    have first : (bindings.bind entry.1 entry.2).names = bindings.names := by
      rw [names_bind, if_pos known.1]
    rw [show entry = (entry.1, entry.2) from rfl, bindAll_cons, ih (first ▸ known.2), first]

theorem mem_instances_bindAll {bindings : Bindings} {entries : List (Datum × List Instance)}
    {inst : Instance} (member : inst ∈ (bindings.bindAll entries).instances) :
    (∃ entry ∈ entries, inst ∈ entry.2) ∨ inst ∈ bindings.instances := by
  induction entries generalizing bindings with
  | nil => exact .inr member
  | cons entry entries ih =>
    rcases ih member with ⟨later, known, bound⟩ | before
    · exact .inl ⟨later, List.mem_cons_of_mem _ known, bound⟩
    · rcases mem_instances_bind before with bound | old
      · exact .inl ⟨entry, List.mem_cons_self, bound⟩
      · exact .inr old

section

variable {bindings : Bindings} {name : Datum} {bound : List Instance}

theorem bind_of_meaning? (known : bindings.meaning? name = some bound) :
    bindings.bind name bound = bindings := by
  induction bindings with
  | nil => cases known
  | cons entry bindings ih =>
    obtain ⟨key, group⟩ := entry
    by_cases here : key = name
    · subst here
      have same : group = bound := by simpa [meaning?] using known
      simp [bind, same]
    · rw [meaning?, List.lookup_cons, beq_false_of_ne (Ne.symm here)] at known
      rw [bind, if_neg here, ih known]

theorem bind_of_free (free : bindings.meaning? name = none) (bound : List Instance) :
    bindings.bind name bound = bindings ++ [(name, bound)] := by
  induction bindings with
  | nil => rfl
  | cons entry bindings ih =>
    obtain ⟨key, group⟩ := entry
    by_cases here : key = name
    · subst here
      simp [meaning?] at free
    · rw [meaning?, List.lookup_cons, beq_false_of_ne (Ne.symm here)] at free
      rw [bind, if_neg here, ih free, List.cons_append]

theorem prefix_bind (kept : ∀ old, bindings.meaning? name = some old → old = bound) :
    bindings <+: bindings.bind name bound := by
  cases known : bindings.meaning? name with
  | none =>
    rw [bind_of_free known]
    exact List.prefix_append _ _
  | some old =>
    rw [kept old known] at known
    simp [bind_of_meaning? known]

theorem prefix_bindAll_map {names : List Datum} {given : Datum → List Instance}
    (kept : ∀ name ∈ names, ∀ old, bindings.meaning? name = some old → old = given name) :
    bindings <+: bindings.bindAll (names.map fun name => (name, given name)) := by
  induction names generalizing bindings with
  | nil => exact List.prefix_rfl
  | cons name names ih =>
    rw [List.forall_mem_cons] at kept
    rw [List.map_cons, bindAll_cons]
    apply (prefix_bind kept.1).trans
    apply ih
    intro other member old found
    rw [meaning?_bind] at found
    split at found
    · rename_i same
      cases found
      rw [same]
    · exact kept.2 other member old found

end

end Partbook.Bindings
