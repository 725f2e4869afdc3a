import Partbook.Proofs.Roster.Voices
import Partbook.Proofs.Scripted

namespace Partbook

open Source

def Element.FromText (instrument : Element) : Prop :=
  ∃ keep text score, Element.readAs .score keep text = .ok score ∧
    instrument ∈ score.childrenOf (.plain .instrument)

theorem Element.FromText.scripted {instrument : Element} (fromText : instrument.FromText) :
    instrument.Scripted := by
  obtain ⟨keep, text, score, read, member⟩ := fromText
  exact scripted_of_readAs read (kind_of_readAs_score read) instrument member

section

variable {α : Type} {sides : List Bool} {first second whole : List α}

theorem Merged.mem_iff (merged : Merged sides first second whole) {item : α} :
    item ∈ whole ↔ item ∈ first ∨ item ∈ second := by
  induction merged with
  | nil => simp
  | left other rest ih => simp only [List.mem_cons, ih, or_assoc]
  | right other rest ih => simp only [List.mem_cons, ih, or_left_comm]

theorem Merged.symm (merged : Merged sides first second whole) :
    Merged (sides.map not) second first whole := by
  induction merged with
  | nil => exact .nil
  | left item rest ih => exact .right item ih
  | right item rest ih => exact .left item ih

theorem Merged.filter_flatMap {β : Type} (merged : Merged sides first second whole)
    {keep : β → Bool} {next : α → List β} (left : ∀ item ∈ first, ∀ made ∈ next item, keep made)
    (right : ∀ item ∈ second, ∀ made ∈ next item, keep made = false) :
    (whole.flatMap next).filter keep = first.flatMap next := by
  induction merged with
  | nil => rfl
  | left item rest ih =>
    rw [List.forall_mem_cons] at left
    rw [List.flatMap_cons, List.filter_append, List.filter_eq_self.mpr left.1, ih left.2 right,
      List.flatMap_cons]
  | right item rest ih =>
    rw [List.forall_mem_cons] at right
    have none : (next item).filter keep = [] :=
      List.filter_eq_nil_iff.mpr fun made member => by simp [right.1 made member]
    rw [List.flatMap_cons, List.filter_append, none, ih left right.2, List.nil_append]

end

namespace Roster

theorem exists_sides {first second : List Element}
    (apart : ∀ one ∈ first, ∀ other ∈ second, ∀ name, one.Mentions name → ¬ other.Mentions name) :
    ∃ mine : Datum → Bool, Voice mine true first ∧ Voice mine false second := by
  classical
  -- a name is on the side of the first list if it is mentioned there, and else on the other side
  refine ⟨fun name => decide (∃ instrument ∈ first, instrument.Mentions name), ?_, ?_⟩
  · intro instrument member name mentions
    exact decide_eq_true ⟨instrument, member, mentions⟩
  · intro instrument member name mentions
    refine decide_eq_false ?_
    rintro ⟨one, given, known⟩
    exact apart one given instrument member name known mentions

theorem Voice.players {mine : Datum → Bool} {side : Bool} {instruments : List Element}
    (voice : Voice mine side instruments) :
    ∀ inst ∈ playersOf (cast {} instruments), mine inst.name = side := by
  have nobody := Within.start fun name => mine name = side
  exact (nobody.calls fun instrument member name given =>
    voice instrument member name (.inl given)).2

end Roster

namespace Interpretation

theorem filter_ofTurn (keep : Datum → Bool) (turns : List (Datum × List Form)) :
    (turns.map Form.ofTurn).filter (fun part => keep part.1) =
      (turns.filter fun turn => keep turn.1).map Form.ofTurn := by
  rw [List.filter_map]
  rfl

theorem mem_players_ofResolved {after : Roster} {instruments : List Element} {inst : Instance} :
    inst.datum ∈ (ofResolved after instruments).parts.map (·.1) ↔
      inst ∈ Roster.playersOf instruments := by
  have players : (ofResolved after instruments).parts.map (·.1) =
      ((Roster.playersOf instruments).map Instance.datum).eraseDups := by
    rw [← Parts.players_turnsIn, ← players_formed, ← players_gather, ofResolved, List.map_map]
    rfl
  rw [players, List.mem_eraseDups, List.mem_map]
  constructor
  · rintro ⟨other, member, same⟩
    rwa [← Instance.datum_injective same]
  · exact fun member => ⟨inst, member, rfl⟩

/-- Keeping the players of the first of two merged lists, and no others, leaves the parts of that
list. -/
theorem parts_ofResolved_merged (keep : Datum → Bool) {sides : List Bool}
    {first second whole : List Element} (merged : Merged sides first second whole)
    (left : ∀ inst ∈ Roster.playersOf first, keep inst.datum)
    (right : ∀ inst ∈ Roster.playersOf second, keep inst.datum = false) (one joint : Roster) :
    (ofResolved joint whole).parts.filter (fun part => keep part.1) =
      (ofResolved one first).parts := by
  have turns {instruments : List Element} {kept : Bool}
      (players : ∀ inst ∈ Roster.playersOf instruments, keep inst.datum = kept) :
      ∀ instrument ∈ instruments, ∀ turn ∈ formed (Parts.turnsIn instrument),
        keep turn.1 = kept := by
    intro instrument member turn given
    rw [formed_turnsIn] at given
    obtain ⟨inst, plays, rfl⟩ := List.mem_map.mp given
    exact players inst (List.mem_flatMap.mpr ⟨instrument, member, plays⟩)
  have kept := merged.filter_flatMap (turns left) (turns right)
  simp only [ofResolved, formed_flatMap]
  rw [filter_ofTurn keep, filter_gather keep, kept]

/-- Two lists of instruments that were read from texts and share no name or nickname, merged in any
way. All are interpreted without fail, every instrument gets the tracks that it gets in its own
list, and the parts are those of the two lists. -/
theorem independent_voices {sides : List Bool} {first second whole : List Element}
    (merged : Merged sides first second whole)
    (firstRead : ∀ instrument ∈ first, instrument.FromText)
    (secondRead : ∀ instrument ∈ second, instrument.FromText)
    (apart : ∀ one ∈ first, ∀ other ∈ second, ∀ name, one.Mentions name → ¬ other.Mentions name) :
    ∃ one other joint,
      ofScore {} (.plain .score first) = .ok one ∧
      ofScore {} (.plain .score second) = .ok other ∧
      ofScore {} (.plain .score whole) = .ok joint ∧
      Merged sides one.score.children other.score.children joint.score.children ∧
      joint.parts.filter (fun part => part.1 ∈ one.parts.map (·.1)) = one.parts ∧
      joint.parts.filter (fun part => part.1 ∉ one.parts.map (·.1)) = other.parts := by
  obtain ⟨mine, left, right⟩ := Roster.exists_sides apart
  have wholeRead : ∀ instrument ∈ whole, instrument.FromText := fun instrument member =>
    (merged.mem_iff.mp member).elim (firstRead instrument) (secondRead instrument)
  have interpreted {instruments : List Element}
      (read : ∀ instrument ∈ instruments, instrument.FromText) :=
    ofScore_scripted (Roster.Within.start _) fun instrument member =>
      (read instrument member).scripted
  have resolved :=
    Roster.merged_cast merged left right (.start : Roster.Share mine true {} {}) .start
  have others : ∀ inst ∈ Roster.playersOf (Roster.cast {} second),
      inst ∉ Roster.playersOf (Roster.cast {} first) := by
    intro inst member known
    exact Bool.noConfusion ((left.players inst known).symm.trans (right.players inst member))
  let one := ofResolved (Roster.afterCalls {} first) (Roster.cast {} first)
  have ours (inst : Instance) : inst.datum ∈ one.parts.map (·.1) ↔
      inst ∈ Roster.playersOf (Roster.cast {} first) := mem_players_ofResolved
  refine ⟨one, _, _, interpreted firstRead, interpreted secondRead, interpreted wholeRead, resolved,
    ?_, ?_⟩
  · exact parts_ofResolved_merged (fun player => player ∈ one.parts.map (·.1)) resolved
      (fun inst known => decide_eq_true ((ours inst).mpr known))
      (fun inst known => decide_eq_false (mt (ours inst).mp (others inst known))) _ _
  · exact parts_ofResolved_merged (fun player => player ∉ one.parts.map (·.1)) resolved.symm
      (fun inst known => decide_eq_true (mt (ours inst).mp (others inst known)))
      (fun inst known => decide_eq_false (not_not_intro ((ours inst).mpr known))) _ _

def instrumentsRead (text : String) : List Element :=
  match Element.readAs .score false text with
  | .ok score => score.childrenOf (.plain .instrument)
  | .error _ => []

theorem fromText_of_mem {text : String} :
    ∀ instrument ∈ instrumentsRead text, instrument.FromText := by
  intro instrument member
  unfold instrumentsRead at member
  split at member
  · rename_i score read
    exact ⟨false, text, score, read, member⟩
  · cases member

def mentionsIn (text : String) : List (List Datum × Option Datum) :=
  (instrumentsRead text).map fun instrument => (instrument.calledNames, instrument.calledNickname)

theorem violin_between_pianos : ∃ piano another violin one other joint,
    instrumentsRead "piano \"first\": c piano \"second\": d" = [piano, another] ∧
      instrumentsRead "violin \"solo\": e" = [violin] ∧
      ofScore {} (.plain .score [piano, another]) = .ok one ∧
      ofScore {} (.plain .score [violin]) = .ok other ∧
      ofScore {} (.plain .score [piano, violin, another]) = .ok joint ∧
      Merged [true, false, true] one.score.children other.score.children joint.score.children ∧
      joint.parts.filter (fun part => part.1 ∈ one.parts.map (·.1)) = one.parts ∧
      joint.parts.filter (fun part => part.1 ∉ one.parts.map (·.1)) = other.parts := by
  have pianos : mentionsIn "piano \"first\": c piano \"second\": d" =
      [([.text "piano"], some (.text "first")), ([.text "piano"], some (.text "second"))] := by
    decide +kernel
  have solo : mentionsIn "violin \"solo\": e" =
      [([.text "violin"], some (.text "solo"))] := by
    decide +kernel
  obtain ⟨piano, rest, readPianos, first, rest⟩ := List.map_eq_cons_iff.mp pianos
  obtain ⟨another, rfl, second⟩ := List.map_eq_singleton_iff.mp rest
  obtain ⟨violin, readViolin, alone⟩ := List.map_eq_singleton_iff.mp solo
  simp only [Prod.mk.injEq] at first second alone
  have apart : ∀ one ∈ [piano, another], ∀ other ∈ [violin], ∀ name,
      one.Mentions name → ¬ other.Mentions name := by
    intro one isPiano other isViolin name mentions
    obtain rfl := List.mem_singleton.mp isViolin
    have theirs : name ∈ [Datum.text "piano", .text "first", .text "second"] := by
      rcases List.mem_pair.mp isPiano with rfl | rfl
      · rw [Element.Mentions, first.1, first.2] at mentions
        rcases mentions with named | nicknamed
        · simp [List.mem_singleton.mp named]
        · simp [← Option.some.inj nicknamed]
      · rw [Element.Mentions, second.1, second.2] at mentions
        rcases mentions with named | nicknamed
        · simp [List.mem_singleton.mp named]
        · simp [← Option.some.inj nicknamed]
    rw [Element.Mentions, alone.1, alone.2]
    simp only [List.mem_cons, List.not_mem_nil, or_false] at theirs
    rcases theirs with rfl | rfl | rfl <;> decide
  have firstRead := @fromText_of_mem "piano \"first\": c piano \"second\": d"
  have secondRead := @fromText_of_mem "violin \"solo\": e"
  rw [readPianos] at firstRead
  rw [readViolin] at secondRead
  obtain ⟨one, other, joint, all⟩ :=
    independent_voices (.left piano (.right violin (.left another .nil))) firstRead secondRead apart
  exact ⟨piano, another, violin, one, other, joint, readPianos, readViolin, all⟩

end Interpretation

end Partbook
