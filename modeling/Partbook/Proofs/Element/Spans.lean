import Partbook.Proofs.Grammar.Soundness

/-!
Where elements were read from. What begins at the place of a cursor and was read up to another knows
these two places, whether it has a sign of its own, at the front or at the end, or only its
children do.
-/
namespace Partbook

open Source

namespace Element

structure Spans (element : Element) (start stop : Nat) : Prop where
  start : element.start? = .ok (some start)
  stop : element.stop? = .ok (some stop)

/-- What the elements were read from ends at `stop`. Where they were read from nothing, this is the
place from which they were looked for. -/
def EndAt (start : Nat) (elements : List Element) (stop : Nat) : Prop :=
  ∃ last, lastStop? elements = .ok last ∧ last.getD start = stop

variable {element : Element} {elements others : List Element} {start middle stop : Nat}

theorem firstStart?_append_of_some (first : firstStart? elements = .ok (some start)) :
    firstStart? (elements ++ others) = .ok (some start) := by
  induction elements with
  | nil => cases first
  | cons element elements ih =>
    rw [firstStart?, bind_eq_ok] at first
    obtain ⟨found, here, first⟩ := first
    rw [List.cons_append, firstStart?, here]
    cases found with
    | some start' => exact first
    | none => exact ih first

theorem firstStart?_singleton (element : Element) : firstStart? [element] = element.start? := by
  rw [firstStart?]
  cases element.start? with
  | error bare => rfl
  | ok start => cases start <;> rfl

theorem lastStop?_append_of_some (last : lastStop? others = .ok (some stop)) :
    lastStop? (elements ++ others) = .ok (some stop) := by
  induction elements with
  | nil => exact last
  | cons element elements ih => rw [List.cons_append, lastStop?, ih]; rfl

theorem lastStop?_append_of_none (none : lastStop? others = .ok none) :
    lastStop? (elements ++ others) = lastStop? elements := by
  induction elements with
  | nil => exact none
  | cons element elements ih => rw [List.cons_append, lastStop?, lastStop?, ih]

namespace EndAt

theorem nil (start : Nat) : EndAt start [] start := ⟨none, rfl, rfl⟩

theorem append (first : EndAt start elements middle) (later : EndAt middle others stop) :
    EndAt start (elements ++ others) stop := by
  obtain ⟨last, found, same⟩ := later
  cases last with
  | some last => exact ⟨some last, lastStop?_append_of_some found, same⟩
  | none =>
    obtain ⟨earlier, found', same'⟩ := first
    exact ⟨earlier, (lastStop?_append_of_none found).trans found', same'.trans same⟩

theorem single (known : element.stop? = .ok (some stop)) : EndAt start [element] stop :=
  ⟨some stop, known, rfl⟩

theorem cons (known : element.stop? = .ok (some middle)) (later : EndAt middle others stop) :
    EndAt start (element :: others) stop :=
  append (single known) later

end EndAt

theorem lastStop?_cons (known : element.stop? = .ok (some middle))
    (later : EndAt middle elements stop) :
    lastStop? (element :: elements) = .ok (some stop) := by
  obtain ⟨last, found, rfl⟩ := later
  rw [lastStop?, found]
  cases last with
  | some last => rfl
  | none => exact known

/-! ## Signs -/

section

variable {kind : PlainKind} {span : Span}

theorem start?_plain (notated : kind ≠ .node) :
    (plain kind elements).start? = firstStart? elements := by
  rw [plain, start?, if_neg (by simpa [Label.kind] using notated)]

theorem stop?_plain (notated : kind ≠ .node) :
    (plain kind elements).stop? = lastStop? elements := by
  rw [plain, stop?, if_neg (by simpa [Label.kind] using notated)]
  cases found : lastStop? elements with
  | error bare => rfl
  | ok last => cases last <;> rfl

theorem EndAt.plain (notated : kind ≠ .node) (inside : EndAt start elements stop) :
    EndAt start [.plain kind elements] stop := by
  obtain ⟨last, found, same⟩ := inside
  exact ⟨last, (stop?_plain notated).trans found, same⟩

theorem spans_headed {label : Label} (notated : label.kind ≠ .plain .node)
    (inside : EndAt span.stop elements stop) :
    (node label { head := some span } elements).Spans span.start stop := by
  obtain ⟨last, found, rfl⟩ := inside
  refine ⟨by rw [start?, if_neg notated], ?_⟩
  rw [stop?, if_neg notated]
  simp only [found, bind, Except.bind]
  cases last <;> rfl

theorem spans_leaf {label : Label} (notated : label.kind ≠ .plain .node) :
    (node label { head := some span } []).Spans span.start span.stop :=
  spans_headed notated (.nil _)

end

end Element

namespace Source

open Element Cursor Grammar

/-! ## Places of lexemes -/

variable {cursor after : Cursor} {lexeme : Lexeme} {p : Char → Bool}

theorem span_of_next? (read : cursor.next? p = some (lexeme, after)) :
    lexeme.span = ⟨cursor.pos, after.pos⟩ := by
  obtain ⟨c, rest, -, -, same⟩ := next?_eq_some read
  cases same
  rfl

theorem span_of_run? (read : cursor.run? p = some (lexeme, after)) :
    lexeme.span = ⟨cursor.pos, after.pos⟩ := by
  unfold run? at read
  split at read
  · cases read
  · cases read
    rfl

theorem spans_element {place : Span} (same : lexeme.span = place) (kind : TextKind) :
    (lexeme.element kind).Spans place.start place.stop :=
  same ▸ spans_leaf (by simp [Label.kind])

theorem spans_markElement {place : Span} (same : lexeme.span = place) {kind : PlainKind}
    (notated : kind ≠ .node) {children : List Element} {stop : Nat}
    (inside : EndAt place.stop children stop) :
    (lexeme.markElement kind children).Spans place.start stop := by
  subst same
  exact spans_headed (by simpa [Label.kind] using notated) inside

/-! ## Events -/

theorem endAt_many {α : Type} {step : Cursor → Option (α × Cursor)} (consuming : Consuming step)
    {element : α → Element} (each : ∀ cursor item after, step cursor = some (item, after) →
      EndAt cursor.pos [element item] after.pos) (cursor : Cursor) :
    EndAt cursor.pos ((cursor.many step).1.map element) (cursor.many step).2.pos := by
  induction cursor using many.induct step with
  | case1 cursor fails =>
    rw [many_of_none fails]
    exact .nil _
  | case2 cursor item after read shorter ih =>
    rw [many_of_some consuming read]
    exact (each cursor item after read).append ih
  | case3 cursor item after read longer => exact absurd (consuming cursor item after read) longer

theorem endAt_lengthMark? (cursor : Cursor) (mark : LengthMark) (after : Cursor)
    (read : cursor.lengthMark? = some (mark, after)) :
    EndAt cursor.pos [mark.element] after.pos := by
  unfold lengthMark? at read
  split at read
  · rename_i number behind digits
    have first := (spans_element (span_of_run? digits) .number).stop
    split at read
    · rename_i dots later run
      cases read
      exact .plain (by decide) (.cons first (.single (spans_element (span_of_run? run) .dots).stop))
    · cases read
      exact .plain (by decide) (.single first)
  · simp only [Option.bind_eq_bind, Option.bind_eq_some_iff] at read
    obtain ⟨⟨tilde, behind⟩, tied, read⟩ := read
    split at read
    · cases read
      exact .single (spans_markElement (span_of_next? tied) (by decide) (.nil _)).stop
    · cases read

theorem endAt_duration? (cursor : Cursor) :
    EndAt cursor.pos (durationElements cursor.duration?.1) cursor.duration?.2.pos := by
  have marks := endAt_many consuming_lengthMark? endAt_lengthMark? cursor
  unfold duration?
  split
  · simp only [duration]
    cases slur : (cursor.many lengthMark?).2.next? (· == '~') with
    | none => exact .plain (by decide) (marks.append (.nil _))
    | some found =>
      have sign : (found.1.markElement .slur []).Spans _ _ :=
        spans_markElement (span_of_next? slur) (by decide) (.nil _)
      exact .plain (by decide) (marks.append (.single sign.stop))
  · exact .nil _

theorem spans_note? {item : MusicItem} {tree : Element}
    (read : cursor.note? = some (item, after)) (built : item.piece = .ok (.event tree)) :
    tree.Spans cursor.pos after.pos := by
  simp only [note?, Option.bind_eq_bind, Option.bind_eq_some_iff] at read
  obtain ⟨⟨pitch, behind⟩, first, read⟩ := read
  cases read
  cases built
  have accidentals := endAt_many (consuming_next? isAccidental)
    (fun _ _ _ read => .single (spans_element (span_of_next? read) .accidental).stop) behind
  have signed : ((pitch.element .pitch).withChildren
      ((behind.many (next? isAccidental)).1.map (·.element .accidental))).Spans cursor.pos
      (behind.many (next? isAccidental)).2.pos := by
    rw [Lexeme.element, span_of_next? first]
    exact spans_headed (by simp [Label.kind, label]) accidentals
  refine ⟨?_, ?_⟩
  · rw [noteElement, start?_plain (by decide), firstStart?, signed.start]
    rfl
  · rw [noteElement, stop?_plain (by decide)]
    exact lastStop?_cons signed.stop (endAt_duration? _)

theorem spans_rest? {item : MusicItem} {tree : Element}
    (read : cursor.rest? = some (item, after)) (built : item.piece = .ok (.event tree)) :
    tree.Spans cursor.pos after.pos := by
  simp only [rest?, Option.bind_eq_bind, Option.bind_eq_some_iff] at read
  obtain ⟨⟨mark, behind⟩, first, read⟩ := read
  split at read
  · cases read
  · cases read
    cases built
    exact spans_markElement (span_of_next? first) (by decide) (endAt_duration? behind)

theorem spans_octaveSet? {item : MusicItem} {tree : Element}
    (read : cursor.octaveSet? = some (item, after)) (built : item.piece = .ok (.event tree)) :
    tree.Spans cursor.pos after.pos := by
  simp only [octaveSet?, Option.bind_eq_bind, Option.bind_eq_some_iff] at read
  obtain ⟨⟨mark, behind⟩, first, ⟨number, later⟩, digits, read⟩ := read
  cases read
  cases built
  exact spans_markElement (span_of_next? first) (by decide)
    (.single (spans_element (span_of_run? digits) .number).stop)

theorem spans_mark? {item : MusicItem} {tree : Element}
    (read : cursor.mark? = some (item, after)) (built : item.piece = .ok (.event tree)) :
    tree.Spans cursor.pos after.pos := by
  unfold mark? at read
  split at read
  case h_4 | h_5 => cases read <;> cases built
  all_goals
    cases read
    cases built
    exact spans_markElement rfl (by decide) (.nil _)

theorem spans_changes? {changes : Changes} {tree : Element}
    (read : cursor.changes? = some (changes, after)) (built : changes.element = .ok tree) :
    tree.Spans cursor.pos after.pos := by
  simp only [changes?, Option.bind_eq_bind, Option.bind_eq_some_iff] at read
  obtain ⟨⟨opening, behind⟩, opens, read⟩ := read
  split at read
  · rename_i closing later closes
    cases read
    simp only [Changes.element, bind_eq_ok, pure_eq_ok] at built
    obtain ⟨children, -, _, -, rfl⟩ := built
    refine ⟨?_, ?_⟩
    · rw [start?, if_neg (by simp [Label.kind]), span_of_next? opens]
    · rw [stop?, if_neg (by simp [Label.kind]), span_of_next? closes]
  · cases read
    simp only [Changes.element, bind_eq_ok] at built
    obtain ⟨_, -, built⟩ := built
    cases built

theorem spans_musicMark? {item : MusicItem} {tree : Element}
    (read : cursor.musicMark? = some (item, after)) (built : item.piece = .ok (.event tree)) :
    tree.Spans cursor.pos after.pos := by
  simp only [musicMark?, Option.orElse_eq_orElse, Option.orElse_eq_or, Option.or_eq_some_iff,
    Option.map_eq_some_iff, Prod.exists, Prod.mk.injEq] at read
  rcases read with note | ⟨-, rest | ⟨-, octave | ⟨-, mark | ⟨-, ⟨group, rest, changes, rfl, rfl⟩ |
    ⟨-, lexeme, rest, comment, rfl, rfl⟩⟩⟩⟩⟩
  · exact spans_note? note built
  · exact spans_rest? rest built
  · exact spans_octaveSet? octave built
  · exact spans_mark? mark built
  · simp only [MusicItem.piece, bind_eq_ok, pure_eq_ok] at built
    obtain ⟨element, built, same⟩ := built
    cases same
    exact spans_changes? changes built
  · cases built

/-! ## Calls -/

theorem span_of_name? {name : Lexeme} (read : cursor.name? = some (name, after)) :
    name.span = ⟨cursor.pos, after.pos⟩ := by
  unfold name? at read
  split at read
  · split at read
    · cases read
      rfl
    · cases read
  · cases read

theorem spans_call? {call : Call} {tree : Element} (read : cursor.call? = some (call, after))
    (built : call.element = .ok tree) : tree.Spans cursor.pos after.pos := by
  simp only [call?, Option.bind_eq_bind, Option.bind_eq_some_iff] at read
  obtain ⟨⟨name, behind⟩, first, ⟨colon, later⟩, closes, read⟩ := read
  cases read
  simp only [Call.element, bind_eq_ok, pure_eq_ok] at built
  obtain ⟨nickname, -, rfl⟩ := built
  have named := spans_element (span_of_name? first) .name
  refine ⟨?_, ?_⟩
  · rw [start?, if_neg (by simp [Label.kind]), List.cons_append, firstStart?, named.start]
    rfl
  · rw [stop?, if_neg (by simp [Label.kind]), span_of_next? closes]

end Source

end Partbook
