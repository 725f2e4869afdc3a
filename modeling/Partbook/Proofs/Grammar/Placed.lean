import Partbook.Proofs.Element.Spans
import Partbook.Proofs.Grammar.Cutting
import Partbook.Proofs.Grammar.Parts
import Partbook.Proofs.Source.Places

/-!
Events at their places in a text. As music is read, its events take their places one behind the
other with nothing but gaps between them, and each stretch of the text that an event was read from
is music of this event alone.
-/
namespace Partbook

open Text Source Element Cursor

namespace Grammar

variable {text : List Char} {start place now stop next : Nat}

/-! ## Single events and chords -/

/-- The event was read from a stretch of the text where it stands alone. -/
structure Stands (text : List Char) (event : Element) (start stop : Nat) : Prop where
  spans : event.Spans start stop
  forward : start < stop
  within : stop ≤ text.length
  heard : ∃ notes, Group notes ∧ event = joined notes ∧
    Strung (text.drop start) (chordTokens (notes.map forgetOrigins)) (text.drop stop)

theorem Group.forget {notes : List Element} (group : Group notes) :
    Group (notes.map forgetOrigins) := by
  refine ⟨by simpa using group.nonempty, ?_, fun several => ?_⟩
  · rw [List.forall_mem_map]
    exact fun note member => by simpa using group.single note member
  · rw [List.length_map] at several
    rw [List.forall_mem_map]
    exact fun note member => by
      simpa [sounds_forgetOrigins] using group.sounding several note member

theorem joined_forget (notes : List Element) :
    joined (notes.map forgetOrigins) = (joined notes).forgetOrigins := by
  rcases notes with _ | ⟨first, _ | ⟨second, more⟩⟩
  · rfl
  · rfl
  · exact (forgetOrigins_plain .chord (first :: second :: more)).symm

theorem start?_joined (notes : List Element) : (joined notes).start? = firstStart? notes := by
  rcases notes with _ | ⟨first, _ | ⟨second, more⟩⟩
  · exact start?_plain (by decide)
  · exact (firstStart?_singleton first).symm
  · exact start?_plain (by decide)

theorem stop?_joined (notes : List Element) : (joined notes).stop? = lastStop? notes := by
  rcases notes with _ | ⟨first, _ | ⟨second, more⟩⟩
  · exact stop?_plain (by decide)
  · rfl
  · exact stop?_plain (by decide)

theorem Stands.single {event : Element} (spans : event.Spans start stop) (forward : start < stop)
    (within : stop ≤ text.length)
    (heard : Event (text.drop start) event.forgetOrigins (text.drop stop)) :
    Stands text event start stop := by
  have single : event.kind ≠ .plain .chord := by simpa using heard.single
  exact ⟨spans, forward, within, [event], .one single, rfl, .event heard (.done _)⟩

theorem Stands.chord {last element : Element} (stands : Stands text last start place)
    (joins : sounds last || last.kind = .plain .chord)
    (slashed : Strung (text.drop place) [.separator] (text.drop now)) (later : place ≤ now)
    (spans : element.Spans now stop) (forward : now < stop) (within : stop ≤ text.length)
    (heard : Event (text.drop now) element.forgetOrigins (text.drop stop))
    (sounding : sounds element) : Stands text (chord last element) start stop := by
  have first := stands.forward
  obtain ⟨notes, group, rfl, strung⟩ := stands.heard
  have all : ∀ note ∈ notes ++ [element], sounds note :=
    List.forall_mem_append.mpr ⟨(joins_joined group).mp joins, by simpa using sounding⟩
  rw [chord_joined group]
  refine ⟨⟨?_, ?_⟩, by omega, within, notes ++ [element], .of_sounding (by simp) all, rfl, ?_⟩
  · rw [start?_joined]
    exact firstStart?_append_of_some ((start?_joined notes).symm.trans stands.spans.start)
  · rw [stop?_joined]
    exact lastStop?_append_of_some spans.stop
  · rw [List.map_append, List.map_singleton, chordTokens_concat (by simpa using group.nonempty)]
    exact strung.trans (slashed.trans (.event heard (.done _)))

theorem Stands.phrased {event : Element} (stands : Stands text event start stop) :
    ∃ tokens, Strung (text.drop start) tokens (text.drop stop) ∧
      Phrased tokens [event.forgetOrigins] := by
  obtain ⟨notes, group, rfl, strung⟩ := stands.heard
  refine ⟨_, strung, ?_⟩
  have phrased := Phrased.group group.forget .done
  rwa [List.append_nil, joined_forget] at phrased

theorem Stands.music {event : Element} (stands : Stands text event start stop) :
    Music (String.ofList (between text start stop)) [event.forgetOrigins] := by
  obtain ⟨tokens, strung, phrased⟩ := stands.phrased
  obtain ⟨taken, parts, lexed⟩ := strung.alone
  have same := eq_between (Nat.le_of_lt stands.forward) stands.within parts
  exact ⟨tokens, by rwa [String.toList_ofList, ← same], phrased⟩

/-! ## Events one behind the other -/

structure Idle (text : List Char) (start stop : Nat) : Prop where
  gaps : Gaps (text.drop start) (text.drop stop)
  forward : start ≤ stop

theorem Idle.refl (text : List Char) (start : Nat) : Idle text start start := ⟨.refl, Nat.le_refl _⟩

theorem Idle.trans (first : Idle text start place) (later : Idle text place stop) :
    Idle text start stop :=
  ⟨first.gaps.trans later.gaps, Nat.le_trans first.forward later.forward⟩

/-- Events with gaps between them, the latest first, from a place of the text up to the end of the
latest of them. -/
inductive Placed (text : List Char) (start : Nat) : List Element → Nat → Prop
  | nil : Placed text start [] start
  | cons {event : Element} {before : List Element} {place now stop : Nat}
      (earlier : Placed text start before place) (idle : Idle text place now)
      (stands : Stands text event now stop) : Placed text start (event :: before) stop

theorem Phrased.append {tokens others : List Token} {events more : List Element}
    (phrased : Phrased tokens events) (later : Phrased others more) :
    Phrased (tokens ++ others) (events ++ more) := by
  induction phrased with
  | done => exact later
  | event phrased ih => exact .event ih
  | chord several sounding phrased ih =>
    rw [List.append_assoc]
    exact .chord several sounding ih

namespace Placed

variable {before : List Element}

theorem forward (placed : Placed text start before stop) : start ≤ stop := by
  induction placed with
  | nil => exact Nat.le_refl _
  | cons earlier idle stands ih =>
    have := idle.forward
    have := stands.forward
    omega

theorem within (placed : Placed text start before stop) (within : start ≤ text.length) :
    stop ≤ text.length := by
  cases placed with
  | nil => exact within
  | cons earlier idle stands => exact stands.within

theorem stands (placed : Placed text start before stop) :
    ∀ event ∈ before, ∃ first last, Stands text event first last ∧ last ≤ stop := by
  induction placed with
  | nil => simp
  | cons earlier idle stands ih =>
    refine List.forall_mem_cons.mpr ⟨⟨_, _, stands, Nat.le_refl _⟩, fun event member => ?_⟩
    obtain ⟨first, last, found, le⟩ := ih event member
    have := idle.forward
    have := stands.forward
    exact ⟨first, last, found, by omega⟩

theorem phrased (placed : Placed text start before stop) :
    ∃ tokens, Strung (text.drop start) tokens (text.drop stop) ∧
      Phrased tokens (before.reverse.map forgetOrigins) := by
  induction placed with
  | nil => exact ⟨[], .done _, .done⟩
  | cons earlier idle stands ih =>
    obtain ⟨tokens, strung, phrased⟩ := ih
    obtain ⟨others, here, single⟩ := stands.phrased
    refine ⟨tokens ++ others, strung.trans (.gaps idle.gaps here), ?_⟩
    rw [List.reverse_cons, List.map_append]
    exact phrased.append single

theorem music (placed : Placed text start before stop) (inside : start ≤ text.length) :
    Music (String.ofList (between text start stop)) (before.reverse.map forgetOrigins) ∧
      text.drop start = between text start stop ++ text.drop stop := by
  obtain ⟨tokens, strung, phrased⟩ := placed.phrased
  obtain ⟨taken, parts, lexed⟩ := strung.alone
  have same := eq_between placed.forward (placed.within inside) parts
  exact ⟨⟨tokens, by rwa [String.toList_ofList, ← same], phrased⟩, same ▸ parts⟩

theorem endAt (placed : Placed text start before stop) : EndAt start before.reverse stop := by
  induction placed with
  | nil => exact .nil start
  | cons earlier idle stands ih =>
    rw [List.reverse_cons]
    exact ih.append (.single stands.spans.stop)

end Placed

end Grammar

namespace Element

def EndsBefore (event other : Element) : Prop :=
  ∃ stop start, event.stop? = .ok (some stop) ∧ other.start? = .ok (some start) ∧ stop ≤ start

end Element

namespace Grammar

variable {text : List Char} {start place now stop next : Nat}

theorem Placed.ordered {before : List Element} (placed : Placed text start before stop) :
    before.reverse.Pairwise EndsBefore := by
  induction placed with
  | nil => exact .nil
  | cons earlier idle stands ih =>
    rw [List.reverse_cons, List.pairwise_append]
    refine ⟨ih, List.pairwise_singleton _ _, fun event member other single => ?_⟩
    obtain rfl := List.mem_singleton.mp single
    obtain ⟨first, last, found, le⟩ := earlier.stands event (List.mem_reverse.mp member)
    exact ⟨last, _, found.spans.stop, stands.spans.start, Nat.le_trans le idle.forward⟩

/-! ## Reading music -/

/-- The events that have been read up to a place. Behind a separator that is still open, the latest
of them may grow. -/
inductive Sofar (text : List Char) (start : Nat) :
    List Element → Option Lexeme → Nat → Prop
  | between {before : List Element} {place now : Nat} (placed : Placed text start before place)
      (idle : Idle text place now) : Sofar text start before none now
  | opened {last : Element} {before : List Element} {slash : Lexeme} {place now : Nat}
      (placed : Placed text start (last :: before) place)
      (joins : sounds last || last.kind = .plain .chord)
      (slashed : Strung (text.drop place) [.separator] (text.drop now)) (later : place ≤ now) :
      Sofar text start (last :: before) (some slash) now

namespace Sofar

variable {last element : Element} {before : List Element} {opened : Option Lexeme}
  {slash : Lexeme}

theorem idle (sofar : Sofar text start before opened now) (idle : Idle text now next) :
    Sofar text start before opened next := by
  cases sofar with
  | between placed earlier => exact .between placed (earlier.trans idle)
  | opened placed joins slashed later =>
    exact .opened placed joins (slashed.trans (.gaps idle.gaps (.done _)))
      (Nat.le_trans later idle.forward)

theorem separator (sofar : Sofar text start (last :: before) none now)
    (joins : sounds last || last.kind = .plain .chord)
    (slashed : text.drop now = '/' :: text.drop next) (forward : now ≤ next) :
    Sofar text start (last :: before) (some slash) next := by
  cases sofar with
  | between placed idle =>
    refine .opened placed joins (.gaps idle.gaps ?_) (Nat.le_trans idle.forward forward)
    rw [slashed]
    exact .separator (.done _)

theorem event (sofar : Sofar text start before none now) (stands : Stands text element now next) :
    Sofar text start (element :: before) none next := by
  cases sofar with
  | between placed idle => exact .between (.cons placed idle stands) (.refl text next)

theorem joined (sofar : Sofar text start (last :: before) (some slash) now)
    (spans : element.Spans now next) (forward : now < next) (within : next ≤ text.length)
    (heard : Event (text.drop now) element.forgetOrigins (text.drop next))
    (sounding : sounds element) : Sofar text start (chord last element :: before) none next := by
  cases sofar with
  | opened placed joins slashed later =>
    cases placed with
    | cons earlier idle stands =>
      have longer := stands.chord joins slashed later spans forward within heard sounding
      exact .between (.cons earlier idle longer) (.refl text next)

theorem placed (sofar : Sofar text start before none now) :
    ∃ place, Placed text start before place := by
  cases sofar with
  | between placed idle => exact ⟨_, placed⟩

end Sofar

variable {cursor after : Cursor}

theorem idle_skipBlanks (on : On text cursor) : Idle text cursor.pos cursor.skipBlanks.pos := by
  have passes := passes_skipBlanks cursor
  refine ⟨?_, passes.pos_le⟩
  rw [← on.rest, ← (on.passes passes).rest]
  exact gaps_skipBlanks cursor

theorem sofar_music {stops : List Char → Bool} {all : List Piece} {before events : List Element}
    {opened : Option Lexeme} (on : On text cursor)
    (built : pieces (cursor.music stops).1 = .ok all)
    (assembled : Assembled before opened all events)
    (sofar : Sofar text start before opened cursor.pos) :
    Sofar text start events.reverse none (cursor.music stops).2.pos := by
  unfold music at built ⊢
  induction cursor using many.induct (musicItem? stops) generalizing before opened all with
  | case1 cursor fails =>
    rw [many_of_none fails] at built ⊢
    cases built
    cases assembled
    rwa [List.reverse_reverse]
  | case2 cursor item after read shorter ih =>
    rw [many_of_some (consuming_musicItem? _) read] at built ⊢
    simp only [pieces, bind_eq_ok, pure_eq_ok] at built
    obtain ⟨piece, here, later, built, rfl⟩ := built
    rcases musicItem?_cases read with mark | ⟨text, rfl⟩
    · have visible := on.passes (passes_skipBlanks cursor)
      have advances := advances_musicMark? mark
      have onward := visible.passes advances.passes
      have begun := sofar.idle (idle_skipBlanks on)
      rcases musicMark?_sound mark here with
        ⟨tree, rfl, heard⟩ | ⟨slash, rfl, slashed⟩ | ⟨rfl, gap⟩
      · have spans := spans_musicMark? mark here
        rw [visible.rest, onward.rest] at heard
        cases assembled with
        | event more =>
          exact ih onward built more
            (begun.event (.single spans advances.pos_lt onward.within heard))
        | joined sounding more =>
          exact ih onward built more
            (begun.joined spans advances.pos_lt onward.within heard sounding)
      · rw [visible.rest, onward.rest] at slashed
        cases assembled with
        | separator joins more =>
          exact ih onward built more
            (begun.separator joins slashed (Nat.le_of_lt advances.pos_lt))
      · rw [visible.rest, onward.rest] at gap
        cases assembled with
        | comment more =>
          exact ih onward built more
            (begun.idle ⟨.single gap, Nat.le_of_lt advances.pos_lt⟩)
    · cases here
      exact absurd List.mem_cons_self (assembled.not_invalid text)
  | case3 cursor item after read longer =>
    exact absurd (consuming_musicItem? _ _ _ _ read) longer

/-- The events of music take their places from where it begins. -/
theorem placed_music {stops : List Char → Bool} {events : List Element} (on : On text cursor)
    (plays : Plays (cursor.music stops).1 events) :
    ∃ stop, Placed text cursor.pos events.reverse stop := by
  obtain ⟨all, built, assembled⟩ := plays_iff.mp plays
  exact (sofar_music on built assembled (.between .nil (.refl text cursor.pos))).placed

end Grammar

end Partbook
