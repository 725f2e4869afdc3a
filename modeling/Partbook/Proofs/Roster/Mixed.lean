import Partbook.Proofs.Roster.Familiar

/-!
Calls and tracks in any order. Tracks may be for anybody: those that would leave a gap are refused.
So the numbers of every instrument have no gap, although the roster may have lost sight of some, and
the roster knows nobody who has not played.
-/
namespace Partbook.Roster

/-- The history tells of everyone whom the roster knows, and in it no number has been left out. -/
structure Accounted (roster : Roster) (history : List Instance) : Prop
    extends Familiar roster history where
  bound : ∀ inst ∈ roster.nicknames.instances, inst ∈ history

theorem readmit_eq_ok {roster after : Roster} {inst : Instance} :
    roster.readmit inst = .ok after ↔
      (0 < inst.number ∧ inst.number ≤ roster.allocated inst.name + 1) ∧ inst.name.isFixed ∧
        after = { roster with table := roster.table.bind inst.name [inst] } := by
  unfold readmit
  split <;> rename_i within
  · split <;> rename_i fixed
    · simp [within, fixed, eq_comm]
    · simp [within, fixed]
  · simp [within]

/-- What resolving an instrument can come to: tracks are kept, and a call is answered. -/
theorem resolve_cases {roster after : Roster} {instrument resolved : Element}
    (accepted : roster.resolve instrument = .ok (after, resolved)) :
    (∃ first music, instrument.children = first :: music ∧
      roster.readmitTracks first.children = .ok after ∧ resolved = instrument) ∨
    ∃ names nickname music, (∀ name ∈ names, name.isFixed) ∧
      after = (roster.call names nickname).1 ∧
      resolved = .plain .instrument (tracks (roster.call names nickname).2 :: music) := by
  unfold resolve at accepted
  split at accepted
  · cases accepted
  · rename_i first music begins
    split at accepted
    · simp only [bind_eq_ok] at accepted
      obtain ⟨middle, admitted, accepted⟩ := accepted
      by_cases notated : instrument.isNotated <;>
        simp only [notated, if_true, if_false, pure_eq_ok, Bool.false_eq_true] at accepted <;>
        cases accepted
      exact .inl ⟨first, music, begins, admitted, rfl⟩
    · split at accepted
      · simp only [bind_eq_ok] at accepted
        obtain ⟨⟨names, nickname⟩, -, accepted⟩ := accepted
        by_cases allFixed : (names ++ nickname.toList).all Datum.isFixed
        · simp only [allFixed, Bool.not_true, Bool.false_eq_true, if_false, bind_eq_ok] at accepted
          obtain ⟨_, -, accepted⟩ := accepted
          by_cases notated : Element.allNotated music <;>
            simp only [notated, if_true, if_false, pure_eq_ok, Bool.false_eq_true] at accepted <;>
            cases accepted
          rw [List.all_append, Bool.and_eq_true, List.all_eq_true] at allFixed
          exact .inr ⟨names, nickname, music, allFixed.1, rfl, rfl⟩
        · simp only [allFixed, Bool.not_false, if_true] at accepted
          cases accepted
      · cases accepted

theorem readmitAll_of_readmitTracks {roster after : Roster} {tracks : List Element}
    (admitted : roster.readmitTracks tracks = .ok after) :
    roster.readmitAll (tracks.filterMap Session.instance?) = .ok after := by
  induction tracks generalizing roster with
  | nil => exact admitted
  | cons track tracks ih =>
    simp only [readmitTracks, bind_eq_ok] at admitted
    obtain ⟨inst, found, middle, first, rest⟩ := admitted
    have here : Session.instance? track = some inst := by rw [Session.instance?, found]; rfl
    rw [List.filterMap_cons_some here, readmitAll, first]
    exact ih rest

namespace Accounted

variable {roster after : Roster} {history : List Instance}

theorem start : Accounted {} [] := ⟨.start, by simp [Bindings.instances]⟩

theorem answer (accounted : Accounted roster history) {names : List Datum}
    (fixed : ∀ name ∈ names, name.isFixed) (nickname : Option Datum) :
    Accounted (roster.call names nickname).1 (history ++ (roster.call names nickname).2) where
  toFamiliar := accounted.toFamiliar.answer fixed nickname
  bound inst member := by
    cases nickname with
    | none => exact List.mem_append_left _ (accounted.bound inst member)
    | some nickname =>
      rcases Bindings.mem_instances_bind member with answered | old
      · exact List.mem_append_right _ answered
      · exact List.mem_append_left _ (accounted.bound inst old)

theorem readmit (accounted : Accounted roster history) {inst : Instance}
    (admitted : roster.readmit inst = .ok after) : Accounted after (history ++ [inst]) := by
  obtain ⟨⟨positive, low⟩, fixed, rfl⟩ := readmit_eq_ok.mp admitted
  have seen := accounted.allocated_le inst.name
  refine ⟨⟨fun other member => ?_, fun name group found other member => ?_, ?_, ?_, ?_⟩, ?_⟩
  · rcases Bindings.mem_instances_bind member with same | old
    · exact List.mem_append_right _ same
    · exact List.mem_append_left _ (accounted.seen other old)
  · exact List.mem_append_left _ (accounted.nicknamed name group found other member)
  · exact accounted.ordered.append <| List.forall_mem_singleton.mpr <|
      accounted.ordered.mem_or_next positive (by omega)
  · exact Bindings.nodup_names_bind accounted.distinct _ _
  · exact List.forall_mem_append.mpr ⟨accounted.fixed, List.forall_mem_singleton.mpr fixed⟩
  · exact fun other member => List.mem_append_left _ (accounted.bound other member)

theorem readmitAll (accounted : Accounted roster history) {group : List Instance}
    (admitted : roster.readmitAll group = .ok after) : Accounted after (history ++ group) := by
  induction group generalizing roster history with
  | nil =>
    cases admitted
    simpa using accounted
  | cons inst group ih =>
    simp only [Roster.readmitAll, bind_eq_ok] at admitted
    obtain ⟨middle, first, rest⟩ := admitted
    have next := accounted.readmit first
    simpa using ih next rest

theorem resolve (accounted : Accounted roster history) {instrument resolved : Element}
    (accepted : roster.resolve instrument = .ok (after, resolved)) :
    Accounted after (history ++ resolved.players) := by
  rcases resolve_cases accepted with ⟨first, music, begins, admitted, rfl⟩ |
    ⟨names, nickname, music, fixed, rfl, rfl⟩
  · rw [Element.players, begins]
    exact accounted.readmitAll (readmitAll_of_readmitTracks admitted)
  · have players : (Element.plain .instrument
        (tracks (roster.call names nickname).2 :: music)).players =
          (roster.call names nickname).2 := Element.players_of_begins rfl
    rw [players]
    exact accounted.answer fixed nickname

theorem resolveAll (accounted : Accounted roster history) {instruments resolved : List Element}
    (accepted : roster.resolveAll instruments = .ok (after, resolved)) :
    Accounted after (history ++ playersOf resolved) := by
  induction instruments generalizing roster history resolved with
  | nil =>
    cases accepted
    simpa [playersOf] using accounted
  | cons instrument instruments ih =>
    simp only [Roster.resolveAll, bind_eq_ok, pure_eq_ok] at accepted
    obtain ⟨⟨middle, first⟩, here, ⟨last, rest⟩, later, same⟩ := accepted
    cases same
    have all := ih (accounted.resolve here) later
    rwa [List.append_assoc] at all

end Accounted

/-- However calls and tracks are mixed, after any number of instruments that are resolved without
error the numbers of every instrument are those from one on, and everyone whom the roster knows by a
name or a nickname has played. -/
theorem numbers_without_gaps {instruments : List Element} {n : Nat} {roster : Roster}
    {resolved : List Element}
    (accepted : resolveAll {} (instruments.take n) = .ok (roster, resolved)) :
    (∀ name, ∃ m : Nat, ∀ number : Int,
      ⟨name, number⟩ ∈ playersOf resolved ↔ 1 ≤ number ∧ number ≤ m) ∧
    (∀ inst ∈ roster.table.instances, inst ∈ playersOf resolved) ∧
    ∀ inst ∈ roster.nicknames.instances, inst ∈ playersOf resolved := by
  have accounted := Accounted.start.resolveAll accepted
  rw [List.nil_append] at accounted
  refine ⟨fun name => ?_, accounted.seen, accounted.bound⟩
  obtain ⟨m, highest, -⟩ := accounted.ordered.eraseDups_eq name
  refine ⟨m, fun number => ?_⟩
  rw [accounted.ordered.mem_iff, highest]

def callsAndTracks : List Element :=
  [.calling ["piano"] (some "first"),
    .plain .instrument [tracks [⟨.text "piano", 2⟩, ⟨.text "piano", 1⟩], .plain .musicData []],
    .calling ["piano"] (some "second"),
    .plain .instrument [tracks [⟨.text "piano", 4⟩], .plain .musicData []]]

theorem callsAndTracks_without_gaps :
    resolveAll {} callsAndTracks = .error (.outOfSequence ⟨.text "piano", 4⟩) ∧
    ∃ roster resolved, resolveAll {} (callsAndTracks.take 3) = .ok (roster, resolved) ∧
      playersOf resolved = [1, 2, 1, 2].map (fun number => ⟨.text "piano", number⟩) ∧
      ∃ m : Nat, ∀ number : Int,
        ⟨.text "piano", number⟩ ∈ playersOf resolved ↔ 1 ≤ number ∧ number ≤ m := by
  have accepted : ∃ roster resolved,
      resolveAll {} (callsAndTracks.take 3) = .ok (roster, resolved) ∧
        playersOf resolved = [1, 2, 1, 2].map (fun number => ⟨.text "piano", number⟩) :=
    ⟨_, _, rfl, rfl⟩
  obtain ⟨roster, resolved, accepted, played⟩ := accepted
  exact ⟨rfl, roster, resolved, accepted, played, (numbers_without_gaps accepted).1 _⟩

end Partbook.Roster
