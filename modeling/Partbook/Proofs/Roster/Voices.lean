import Partbook.Proofs.Roster.Numbering

/-!
Two voices that share no name. When the calls of both are made in some joint order, the roster of
all of them holds the two that each voice would have alone, and answers every call as that one
would.
-/
namespace Partbook

/-- Two lists in one that keeps the order of both. The sides tell from which of them each item
is. -/
inductive Merged {α : Type} : List Bool → List α → List α → List α → Prop
  | nil : Merged [] [] [] []
  | left {sides : List Bool} {first second whole : List α} (item : α)
      (rest : Merged sides first second whole) :
      Merged (true :: sides) (item :: first) second (item :: whole)
  | right {sides : List Bool} {first second whole : List α} (item : α)
      (rest : Merged sides first second whole) :
      Merged (false :: sides) first (item :: second) (item :: whole)

theorem highestNumber_congr {name : Datum} {instances others : List Instance}
    (same : ∀ number, ⟨name, number⟩ ∈ instances ↔ ⟨name, number⟩ ∈ others) :
    highestNumber name instances = highestNumber name others := by
  rcases highestNumber_spec name instances with ⟨member, above⟩ | ⟨zero, absent⟩
  · rcases highestNumber_spec name others with ⟨member', above'⟩ | ⟨-, absent'⟩
    · exact le_antisymm (above' _ ((same _).mp member)) (above _ ((same _).mpr member'))
    · exact absurd ((same _).mp member) (absent' _)
  · rcases highestNumber_spec name others with ⟨member', -⟩ | ⟨zero', -⟩
    · exact absurd ((same _).mpr member') (absent _)
    · rw [zero, zero']

variable {mine : Datum → Bool} {side : Bool}

namespace Bindings

def onSide (mine : Datum → Bool) (side : Bool) (bindings : Bindings) : Bindings :=
  bindings.filter fun entry => mine entry.1 == side

variable {bindings : Bindings} {name : Datum} {bound : List Instance}

theorem mem_bind {entry : Datum × List Instance} (member : entry ∈ bindings.bind name bound) :
    entry = (name, bound) ∨ entry ∈ bindings := by
  induction bindings with
  | nil => exact .inl (List.mem_singleton.mp member)
  | cons first bindings ih =>
    obtain ⟨key, instances⟩ := first
    rw [bind] at member
    split at member
    · rename_i same
      rcases List.mem_cons.mp member with rfl | old
      · exact .inl (by rw [same])
      · exact .inr (List.mem_cons_of_mem _ old)
    · rcases List.mem_cons.mp member with rfl | later
      · exact .inr List.mem_cons_self
      · exact (ih later).imp_right (List.mem_cons_of_mem _)

theorem onSide_bind (here : mine name = side) :
    (bindings.bind name bound).onSide mine side = (bindings.onSide mine side).bind name bound := by
  induction bindings with
  | nil => simp [bind, onSide, here]
  | cons first bindings ih =>
    obtain ⟨key, instances⟩ := first
    simp only [onSide] at ih ⊢
    by_cases same : key = name
    · simp [bind, same, here]
    · by_cases there : mine key = side
      · simp [bind, same, there, ih]
      · simp [bind, same, there, ih]

theorem onSide_bind_other (there : mine name ≠ side) :
    (bindings.bind name bound).onSide mine side = bindings.onSide mine side := by
  induction bindings with
  | nil => simp [bind, onSide, there]
  | cons first bindings ih =>
    obtain ⟨key, instances⟩ := first
    simp only [onSide] at ih ⊢
    by_cases same : key = name
    · simp [bind, same, there]
    · simp [bind, same, List.filter_cons, ih]

theorem onSide_bindAll {entries : List (Datum × List Instance)}
    (here : ∀ entry ∈ entries, mine entry.1 = side) :
    (bindings.bindAll entries).onSide mine side = (bindings.onSide mine side).bindAll entries := by
  induction entries generalizing bindings with
  | nil => rfl
  | cons entry entries ih =>
    rw [List.forall_mem_cons] at here
    rw [bindAll_cons, ih here.2, onSide_bind here.1, bindAll_cons]

theorem onSide_bindAll_other {entries : List (Datum × List Instance)}
    (there : ∀ entry ∈ entries, mine entry.1 ≠ side) :
    (bindings.bindAll entries).onSide mine side = bindings.onSide mine side := by
  induction entries generalizing bindings with
  | nil => rfl
  | cons entry entries ih =>
    rw [List.forall_mem_cons] at there
    rw [bindAll_cons, ih there.2, onSide_bind_other there.1]

theorem meaning?_onSide (here : mine name = side) :
    (bindings.onSide mine side).meaning? name = bindings.meaning? name := by
  induction bindings with
  | nil => rfl
  | cons first bindings ih =>
    obtain ⟨key, instances⟩ := first
    simp only [onSide, meaning?] at ih ⊢
    by_cases same : name = key
    · subst same
      simp [here]
    · by_cases there : mine key = side
      · simp [there, List.lookup_cons, beq_false_of_ne same, ih]
      · simp [there, List.lookup_cons, beq_false_of_ne same, ih]

def Apart (mine : Datum → Bool) (bindings : Bindings) : Prop :=
  ∀ entry ∈ bindings, ∀ inst ∈ entry.2, mine inst.name = mine entry.1

theorem Apart.bind (apart : bindings.Apart mine)
    (same : ∀ inst ∈ bound, mine inst.name = mine name) :
    (bindings.bind name bound).Apart mine := by
  intro entry member
  rcases mem_bind member with rfl | old
  · exact same
  · exact apart entry old

theorem Apart.bindAll (apart : bindings.Apart mine) {entries : List (Datum × List Instance)}
    (same : ∀ entry ∈ entries, ∀ inst ∈ entry.2, mine inst.name = mine entry.1) :
    (bindings.bindAll entries).Apart mine := by
  induction entries generalizing bindings with
  | nil => exact apart
  | cons entry entries ih =>
    rw [List.forall_mem_cons] at same
    exact ih (apart.bind same.1) same.2

theorem Apart.mem_onSide_iff (apart : bindings.Apart mine) (here : mine name = side)
    (number : Int) : ⟨name, number⟩ ∈ bindings.instances ↔
      ⟨name, number⟩ ∈ (bindings.onSide mine side).instances := by
  simp only [instances, onSide, List.mem_flatMap, List.mem_filter]
  constructor
  · rintro ⟨entry, known, member⟩
    have same : mine name = mine entry.1 := apart entry known _ member
    exact ⟨entry, ⟨known, by rw [← same, here, beq_self_eq_true]⟩, member⟩
  · rintro ⟨entry, ⟨known, -⟩, member⟩
    exact ⟨entry, known, member⟩

end Bindings

namespace Roster

/-- Of the joint roster, what is on one side is all that the voice has of its own. -/
structure Share (mine : Datum → Bool) (side : Bool) (joint own : Roster) : Prop where
  table : joint.table.onSide mine side = own.table
  nicknames : joint.nicknames.onSide mine side = own.nicknames
  tableApart : joint.table.Apart mine
  nicknamesApart : joint.nicknames.Apart mine

namespace Share

variable {joint own : Roster} {names : List Datum} {nickname : Option Datum} {name : Datum}

theorem start : Share mine side {} {} := ⟨rfl, rfl, by simp [Bindings.Apart], by
  simp [Bindings.Apart]⟩

theorem allocated_eq (share : Share mine side joint own) (here : mine name = side) :
    joint.allocated name = own.allocated name := by
  rw [Partbook.allocated_eq, Partbook.allocated_eq, ← share.table]
  exact highestNumber_congr (share.tableApart.mem_onSide_iff here)

theorem assign_eq (share : Share mine side joint own) (here : mine name = side) :
    joint.assign nickname name = own.assign nickname name := by
  cases nickname with
  | none => simp only [assign, ← share.table, Bindings.meaning?_onSide here]
  | some nickname =>
    simp only [assign, ← share.nicknames, Bindings.meaning?_onSide here, share.allocated_eq here]

theorem assign_apart (share : Share mine side joint own) (nickname : Option Datum) (name : Datum) :
    ∀ inst ∈ joint.assign nickname name, mine inst.name = mine name := by
  intro inst member
  rcases mem_assign member with ⟨group, found | found, member⟩ | ⟨same, -⟩
  · exact share.tableApart _ (Bindings.mem_of_meaning? found) inst member
  · exact share.nicknamesApart _ (Bindings.mem_of_meaning? found) inst member
  · rw [same]

theorem apart_call {called : Bool} (share : Share mine side joint own)
    (named : ∀ name ∈ names, mine name = called)
    (nicknamed : ∀ name ∈ nickname, mine name = called) :
    (joint.call names nickname).1.table.Apart mine ∧
      (joint.call names nickname).1.nicknames.Apart mine := by
  have resolved : (joint.table.bindAll
      (names.map fun name => (name, joint.assign nickname name))).Apart mine := by
    refine share.tableApart.bindAll fun entry member => ?_
    obtain ⟨name, -, rfl⟩ := List.mem_map.mp member
    exact share.assign_apart nickname name
  have group : ∀ inst ∈ (joint.call names nickname).2, mine inst.name = called := by
    intro inst member
    rw [snd_call, List.mem_flatMap] at member
    obtain ⟨name, given, member⟩ := member
    exact (share.assign_apart nickname name inst member).trans (named name given)
  cases nickname with
  | none => exact ⟨resolved, share.nicknamesApart⟩
  | some nickname =>
    have same : ∀ inst ∈ (joint.call names (some nickname)).2, mine inst.name = mine nickname :=
      fun inst member => (group inst member).trans (nicknamed nickname rfl).symm
    exact ⟨resolved.bind same, share.nicknamesApart.bind same⟩

theorem call (share : Share mine side joint own) (named : ∀ name ∈ names, mine name = side)
    (nicknamed : ∀ name ∈ nickname, mine name = side) :
    (joint.call names nickname).2 = (own.call names nickname).2 ∧
      Share mine side (joint.call names nickname).1 (own.call names nickname).1 := by
  have answers : (names.map fun name => (name, joint.assign nickname name)) =
      names.map fun name => (name, own.assign nickname name) :=
    List.map_congr_left fun name given => by rw [share.assign_eq (named name given)]
  have here : ∀ entry ∈ names.map (fun name => (name, own.assign nickname name)),
      mine entry.1 = side := by
    intro entry member
    obtain ⟨name, given, rfl⟩ := List.mem_map.mp member
    exact named name given
  have table : (joint.table.bindAll
      (names.map fun name => (name, own.assign nickname name))).onSide mine side =
        own.table.bindAll (names.map fun name => (name, own.assign nickname name)) := by
    rw [Bindings.onSide_bindAll here, share.table]
  obtain ⟨tableApart, nicknamesApart⟩ := share.apart_call named nicknamed
  have group : (joint.call names nickname).2 = (own.call names nickname).2 := by
    rw [snd_call, snd_call]
    exact List.flatMap_congr fun name given => share.assign_eq (named name given)
  refine ⟨group, ?_, ?_, tableApart, nicknamesApart⟩
  · cases nickname with
    | none =>
      simp only [Roster.call, answers]
      exact table
    | some nickname =>
      simp only [Roster.call, answers] at table ⊢
      rw [Bindings.onSide_bind (nicknamed nickname rfl), table]
  · cases nickname with
    | none => exact share.nicknames
    | some nickname =>
      simp only [Roster.call, answers]
      rw [Bindings.onSide_bind (nicknamed nickname rfl), share.nicknames]

theorem call_other (share : Share mine side joint own) (named : ∀ name ∈ names, mine name = !side)
    (nicknamed : ∀ name ∈ nickname, mine name = !side) :
    Share mine side (joint.call names nickname).1 own := by
  have differ {name : Datum} (other : mine name = !side) : mine name ≠ side := by
    rw [other]
    cases side <;> simp
  have there : ∀ entry ∈ names.map (fun name => (name, joint.assign nickname name)),
      mine entry.1 ≠ side := by
    intro entry member
    obtain ⟨name, given, rfl⟩ := List.mem_map.mp member
    exact differ (named name given)
  have table : (joint.table.bindAll
      (names.map fun name => (name, joint.assign nickname name))).onSide mine side = own.table := by
    rw [Bindings.onSide_bindAll_other there, share.table]
  obtain ⟨tableApart, nicknamesApart⟩ := share.apart_call named nicknamed
  refine ⟨?_, ?_, tableApart, nicknamesApart⟩
  · cases nickname with
    | none => exact table
    | some nickname =>
      exact (Bindings.onSide_bind_other (differ (nicknamed nickname rfl))).trans table
  · cases nickname with
    | none => exact share.nicknames
    | some nickname =>
      exact (Bindings.onSide_bind_other (differ (nicknamed nickname rfl))).trans share.nicknames

end Share

def Voice (mine : Datum → Bool) (side : Bool) (instruments : List Element) : Prop :=
  ∀ instrument ∈ instruments, ∀ name, instrument.Mentions name → mine name = side

theorem Voice.cons {instrument : Element} {instruments : List Element}
    (voice : Voice mine side (instrument :: instruments)) :
    (∀ name ∈ instrument.calledNames, mine name = side) ∧
      (∀ name ∈ instrument.calledNickname, mine name = side) ∧ Voice mine side instruments := by
  obtain ⟨here, later⟩ := List.forall_mem_cons.mp voice
  exact ⟨fun name given => here name (.inl given), fun name given => here name (.inr given), later⟩

theorem merged_cast {sides : List Bool} {first second whole : List Element}
    (merged : Merged sides first second whole) (left : Voice mine true first)
    (right : Voice mine false second) {joint one other : Roster}
    (leftShare : Share mine true joint one) (rightShare : Share mine false joint other) :
    Merged sides (one.cast first) (other.cast second) (joint.cast whole) := by
  -- a call moves the share of its own voice along, and the other share stands
  induction merged generalizing joint one other with
  | nil => exact .nil
  | left instrument rest ih =>
    obtain ⟨named, nicknamed, later⟩ := left.cons
    obtain ⟨answer, leftAfter⟩ := leftShare.call named nicknamed
    have rightAfter := rightShare.call_other named nicknamed
    rw [cast, cast, callFor, callFor, answer]
    exact .left _ (ih later right leftAfter rightAfter)
  | right instrument rest ih =>
    obtain ⟨named, nicknamed, later⟩ := right.cons
    obtain ⟨answer, rightAfter⟩ := rightShare.call named nicknamed
    have leftAfter := leftShare.call_other named nicknamed
    rw [cast, cast, callFor, callFor, answer]
    exact .right _ (ih left later leftAfter rightAfter)

end Roster

end Partbook
