import Partbook.Parts
import Partbook.Proofs.Element.Spelled
import Partbook.Proofs.Gathering
import Partbook.Proofs.Roster.Reresolution

namespace Partbook

def turnsOf {α : Type} (group : List Instance) (played : List α) : List (Datum × List α) :=
  group.map fun inst => (inst.datum, played)

def copies {α : Type} (n : Nat) (items : List α) : List α := (List.replicate n items).flatten

theorem mem_players_turnsOf {α : Type} {group : List Instance} {played : List α} {player : Datum} :
    player ∈ (turnsOf group played).map (·.1) ↔ ∃ inst ∈ group, inst.datum = player := by
  simp [turnsOf]

namespace Instance

def Named (inst : Instance) : Prop := ∃ text, inst.name = .text text

theorem datum_injective {inst other : Instance} (same : inst.datum = other.datum) :
    inst = other := by
  obtain ⟨name, number⟩ := inst
  obtain ⟨name', number'⟩ := other
  cases same
  rfl

theorem Named.same_iff {inst other : Instance} (named : inst.Named) (other_named : other.Named) :
    inst.datum.same other.datum = true ↔ inst.datum = other.datum := by
  obtain ⟨name, number⟩ := inst
  obtain ⟨name', number'⟩ := other
  obtain ⟨text, rfl⟩ := named
  obtain ⟨text', rfl⟩ := other_named
  have numbers : (Datum.int number').int? = some number ↔ number = number' := by
    rw [Datum.int?, Option.some.injEq]
    exact eq_comm
  simp only [datum, Datum.same, Datum.items?, Bool.and_eq_true, beq_iff_eq,
    Datum.numbered.injEq, Datum.text.injEq, Datum.int.injEq, numbers]

end Instance

theorem playedBy_turnsOf {α : Type} (inst : Instance) (group : List Instance) (played : List α) :
    playedBy inst.datum (turnsOf group played) =
      (List.replicate (group.count inst) played).flatten := by
  induction group with
  | nil => rfl
  | cons other group ih =>
    rw [turnsOf] at ih
    rw [turnsOf, List.map_cons, playedBy_cons, ih, List.count_cons]
    by_cases same : other = inst
    · simp [same, List.replicate_succ]
    · have differ : other.datum ≠ inst.datum := fun equal => same (Instance.datum_injective equal)
      simp [same, differ]

def NamedTurns {α : Type} (turns : List (Datum × List α)) : Prop :=
  ∀ player ∈ turns.map (·.1), ∃ inst : Instance, inst.Named ∧ player = inst.datum

theorem NamedTurns.append {α : Type} {turns more : List (Datum × List α)}
    (named : NamedTurns turns) (later : NamedTurns more) : NamedTurns (turns ++ more) := by
  rw [NamedTurns, List.map_append]
  exact List.forall_mem_append.mpr ⟨named, later⟩

theorem NamedTurns.gather {α : Type} {turns : List (Datum × List α)} (named : NamedTurns turns) :
    NamedTurns (gather turns) := by
  intro player member
  rw [players_gather, List.mem_eraseDups] at member
  exact named player member

theorem namedTurns_turnsOf {α : Type} {group : List Instance} (named : ∀ inst ∈ group, inst.Named)
    (played : List α) : NamedTurns (turnsOf group played) := by
  intro player member
  obtain ⟨inst, known, rfl⟩ := mem_players_turnsOf.mp member
  exact ⟨inst, named inst known, rfl⟩

namespace Parts

variable {inst : Instance} {parts : Parts}

theorem play_of_mem (named : inst.Named) (allNamed : NamedTurns parts)
    (distinct : (parts.map (·.1)).Nodup) (known : inst.datum ∈ parts.map (·.1))
    (events : List Element) : parts.play inst.datum events =
      parts.map fun part => (part.1, part.2 ++ if inst.datum = part.1 then events else []) := by
  induction parts with
  | nil => simp at known
  | cons part parts ih =>
    obtain ⟨player, played⟩ := part
    obtain ⟨⟨other, otherNamed, rfl⟩, laterNamed⟩ := List.forall_mem_cons.mp allNamed
    rw [List.map_cons, List.nodup_cons] at distinct
    rw [play, List.map_cons]
    split
    · rename_i same
      rw [otherNamed.same_iff named] at same
      have others : ∀ part ∈ parts, part = (part.1,
          part.2 ++ if inst.datum = part.1 then events else []) := by
        intro part member
        have differ : inst.datum ≠ part.1 := by
          rw [← same]
          exact (ne_of_mem_of_not_mem (List.mem_map_of_mem member) distinct.1).symm
        rw [if_neg differ, List.append_nil]
      rw [if_pos same.symm]
      congr 1
      exact (List.map_id _).symm.trans (List.map_congr_left others)
    · rename_i differ
      rw [otherNamed.same_iff named] at differ
      have later := (List.mem_cons.mp known).resolve_left (Ne.symm differ)
      rw [if_neg (Ne.symm differ), List.append_nil, ih laterNamed distinct.2 later]

theorem play_of_absent (named : inst.Named) (allNamed : NamedTurns parts)
    (absent : inst.datum ∉ parts.map (·.1)) (events : List Element) :
    parts.play inst.datum events = parts ++ [(inst.datum, events)] := by
  induction parts with
  | nil => rfl
  | cons part parts ih =>
    obtain ⟨player, played⟩ := part
    obtain ⟨⟨other, otherNamed, rfl⟩, laterNamed⟩ := List.forall_mem_cons.mp allNamed
    rw [List.map_cons, List.mem_cons, not_or] at absent
    have differ : ¬ other.datum.same inst.datum := by
      rw [otherNamed.same_iff named]
      exact Ne.symm absent.1
    rw [play, if_neg differ, ih laterNamed absent.2, List.cons_append]

theorem play_gather (named : inst.Named) {turns : List (Datum × List Element)}
    (allNamed : NamedTurns turns) (events : List Element) :
    play inst.datum events (gather turns) = gather (turns ++ [(inst.datum, events)]) := by
  have sameMember : inst.datum ∈ (gather turns).map (·.1) ↔ inst.datum ∈ turns.map (·.1) := by
    rw [players_gather, List.mem_eraseDups]
  by_cases known : inst.datum ∈ turns.map (·.1)
  · rw [gather_concat_of_mem known]
    exact play_of_mem named allNamed.gather (nodup_players_gather turns) (sameMember.mpr known)
      events
  · rw [gather_concat_of_absent known]
    exact play_of_absent named allNamed.gather (mt sameMember.mp known) events

theorem playerOf_track {inst : Instance} (named : inst.Named) :
    playerOf (.text .track inst.datum) = .ok inst.datum := by
  obtain ⟨name, number⟩ := inst
  obtain ⟨text, rfl⟩ := named
  rfl

theorem playAll_gather {turns : List (Datum × List Element)} (allNamed : NamedTurns turns)
    {group : List Instance} (named : ∀ inst ∈ group, inst.Named) (events : List Element) :
    playAll events (gather turns) (Roster.tracks group).children =
      .ok (gather (turns ++ turnsOf group events)) := by
  simp only [Roster.tracks, Element.plain, Element.children]
  induction group generalizing turns with
  | nil => simp [playAll, turnsOf]
  | cons inst group ih =>
    rw [List.forall_mem_cons] at named
    have next : NamedTurns (turns ++ [(inst.datum, events)]) :=
      allNamed.append (namedTurns_turnsOf (List.forall_mem_singleton.mpr named.1) events)
    rw [List.map_cons, playAll, playerOf_track named.1]
    simp only [bind, Except.bind, play_gather named.1 allNamed, ih next named.2]
    simp [turnsOf]

def turnsIn (instrument : Element) : List (Datum × List Element) :=
  turnsOf instrument.players (eventsOf instrument)

theorem players_turnsIn (instruments : List Element) :
    (instruments.flatMap turnsIn).map (·.1) =
      (Roster.playersOf instruments).map Instance.datum := by
  simp [List.map_flatMap, turnsIn, turnsOf, Roster.playersOf, Function.comp_def]

theorem addAll_gather {turns : List (Datum × List Element)} (allNamed : NamedTurns turns)
    {instruments : List Element} (tracked : ∀ instrument ∈ instruments, instrument.Tracked)
    (named : ∀ inst ∈ Roster.playersOf instruments, inst.Named) :
    addAll (gather turns) instruments = .ok (gather (turns ++ instruments.flatMap turnsIn)) := by
  induction instruments generalizing turns with
  | nil => simp [addAll]
  | cons instrument instruments ih =>
    rw [List.forall_mem_cons] at tracked
    rw [Roster.playersOf, List.flatMap_cons, List.forall_mem_append] at named
    obtain ⟨group, music, begins⟩ := tracked.1.begins
    have players : instrument.players = group := Element.players_of_begins begins
    have isTracks : (Roster.tracks group).isA (.plain .tracks) = true := rfl
    have added : addInstrument (gather turns) instrument =
        .ok (gather (turns ++ turnsIn instrument)) := by
      rw [addInstrument, begins]
      simp only [isTracks, if_true]
      rw [playAll_gather allNamed (players ▸ named.1), turnsIn, players]
    rw [addAll, added, List.flatMap_cons, ← List.append_assoc]
    exact ih (allNamed.append (namedTurns_turnsOf named.1 _)) tracked.2 named.2

theorem ofScore_tracked {score : Element}
    (tracked : ∀ instrument ∈ score.childrenOf (.plain .instrument), instrument.Tracked)
    (named : ∀ inst ∈ Roster.playersOf (score.childrenOf (.plain .instrument)), inst.Named) :
    ofScore score = .ok (gather ((score.childrenOf (.plain .instrument)).flatMap turnsIn)) := by
  have nobody : NamedTurns ([] : List (Datum × List Element)) := by simp [NamedTurns]
  have added := addAll_gather nobody tracked named
  rwa [gather_nil, List.nil_append] at added

end Parts

end Partbook
