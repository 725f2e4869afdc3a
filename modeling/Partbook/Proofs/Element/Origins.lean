import Partbook.Form.Projection
import Partbook.Proofs.Element.Spelled
import Partbook.Proofs.Source.Lines

namespace Partbook

open Source Element

namespace Element

theorem forgetOriginsOfAll_eq_map (elements : List Element) :
    forgetOriginsOfAll elements = elements.map forgetOrigins := by
  induction elements with
  | nil => rfl
  | cons element elements ih => rw [forgetOriginsOfAll, List.map_cons, ih]

theorem forgetOrigins_node (label : Label) (origin : Origin) (children : List Element) :
    (node label origin children).forgetOrigins = node label {} (children.map forgetOrigins) := by
  rw [forgetOrigins, forgetOriginsOfAll_eq_map]

theorem forgetOrigins_plain (kind : PlainKind) (children : List Element) :
    (plain kind children).forgetOrigins = plain kind (children.map forgetOrigins) :=
  forgetOrigins_node _ _ _

@[simp] theorem kind_forgetOrigins (element : Element) :
    element.forgetOrigins.kind = element.kind := by
  obtain ⟨label, origin, children⟩ := element
  rw [forgetOrigins_node]
  rfl

@[simp] theorem children_forgetOrigins (element : Element) :
    element.forgetOrigins.children = element.children.map forgetOrigins := by
  obtain ⟨label, origin, children⟩ := element
  rw [forgetOrigins_node]
  rfl

theorem forgetOrigins_withChildren (element : Element) (children : List Element) :
    (element.withChildren children).forgetOrigins =
      element.forgetOrigins.withChildren (children.map forgetOrigins) := by
  obtain ⟨label, origin, before⟩ := element
  rw [withChildren, forgetOrigins_node, forgetOrigins_node]
  rfl

end Element

namespace Source

variable {α β γ δ : Type}

def Alike (view : α → β) (built built' : Built α) : Prop :=
  built.toOption.map view = built'.toOption.map view

theorem Alike.pure {view : α → β} {value value' : α} (same : view value = view value') :
    Alike view (pure value) (pure value') :=
  congrArg some same

theorem Alike.bind {view : α → β} {view' : γ → δ} {built built' : Built α}
    {next next' : α → Built γ} (alike : Alike view built built')
    (later : ∀ value value', view value = view value' → Alike view' (next value) (next' value')) :
    Alike view' (built >>= next) (built' >>= next') := by
  cases built with
  | error fault =>
    cases built' with
    | error fault' => rfl
    | ok value' => cases alike
  | ok value =>
    cases built' with
    | error fault' => cases alike
    | ok value' => exact later value value' (Option.some.inj alike)

theorem Alike.ok {view : α → β} {built built' : Built α} (alike : Alike view built built')
    {value : α} (done : built' = .ok value) :
    ∃ value', built = .ok value' ∧ view value' = view value := by
  subst done
  cases built with
  | error fault => cases alike
  | ok value' => exact ⟨value', rfl, Option.some.inj alike⟩

def Piece.forget : Piece → Piece
  | .event element => .event element.forgetOrigins
  | .separator _ => .separator ⟨0, []⟩
  | .comment => .comment
  | .invalid _ => .invalid ⟨0, []⟩

theorem forget_element (lexeme : Lexeme) (n : Nat) (kind : TextKind) :
    ((lexeme.moved n).element kind).forgetOrigins = (lexeme.element kind).forgetOrigins := rfl

theorem forget_markElement (lexeme : Lexeme) (n : Nat) (kind : PlainKind)
    {children children' : List Element}
    (same : children.map forgetOrigins = children'.map forgetOrigins) :
    ((lexeme.moved n).markElement kind children).forgetOrigins =
      (lexeme.markElement kind children').forgetOrigins := by
  rw [Lexeme.markElement, Lexeme.markElement, forgetOrigins_node, forgetOrigins_node, same]

theorem forget_lengthMark (mark : LengthMark) (n : Nat) :
    (mark.moved n).element.forgetOrigins = mark.element.forgetOrigins := by
  cases mark with
  | length number dots =>
    simp only [LengthMark.moved, LengthMark.element, forgetOrigins_plain, List.map_cons,
      forget_element]
    cases dots <;> rfl
  | tie tilde => rfl

theorem forget_durationElements (duration : Option Duration) (n : Nat) :
    (durationElements (duration.map (Duration.moved n))).map forgetOrigins =
      (durationElements duration).map forgetOrigins := by
  cases duration with
  | none => rfl
  | some duration =>
    obtain ⟨marks, slur⟩ := duration
    have same : marks.map (fun mark => (mark.moved n).element.forgetOrigins) =
        marks.map fun mark => mark.element.forgetOrigins :=
      List.map_congr_left fun mark _ => forget_lengthMark mark n
    have slurs : (slur.map (Lexeme.moved n)).toList.map (fun slur =>
          (slur.markElement .slur []).forgetOrigins) =
        slur.toList.map fun slur => (slur.markElement .slur []).forgetOrigins := by
      cases slur <;> rfl
    simp only [durationElements, Option.map_some, Option.toList_some, List.map_cons, List.map_nil,
      Duration.element, Duration.moved, forgetOrigins_plain, List.map_append, List.map_map,
      Function.comp_def, same, slurs]

theorem forget_noteElement (pitch : Lexeme) (accidentals : List Lexeme)
    (duration : Option Duration) (n : Nat) :
    (noteElement (pitch.moved n) (accidentals.map (Lexeme.moved n))
        (duration.map (Duration.moved n))).forgetOrigins =
      (noteElement pitch accidentals duration).forgetOrigins := by
  simp only [noteElement, forgetOrigins_plain, List.map_cons, forgetOrigins_withChildren,
    forget_element, forget_durationElements, List.map_map, Function.comp_def]

theorem alike_valueElements (items : List ValueItem) (n : Nat) :
    Alike (List.map forgetOrigins) (valueElements (items.map (ValueItem.moved n)))
      (valueElements items) := by
  induction items with
  | nil => rfl
  | cons item items ih =>
    cases item with
    | number text | word text =>
      refine ih.bind fun later later' same => .pure ?_
      rw [List.map_cons, List.map_cons, same]
      rfl
    | comment text => exact ih
    | invalid text => rfl

theorem alike_changeElements (items : List ChangeItem) (n : Nat) :
    Alike (List.map forgetOrigins) (changeElements (items.map (ChangeItem.moved n)))
      (changeElements items) := by
  induction items with
  | nil => rfl
  | cons item items ih =>
    cases item with
    | change name values =>
      apply (alike_valueElements values n).bind
      intro values values' same
      refine ih.bind fun later later' same' => .pure ?_
      simp only [List.map_cons, forgetOrigins_plain, forget_element, same, same']
    | comma text | comment text | invalid text => exact ih

theorem alike_checkChangeItems (items : List ChangeItem) (n : Nat) :
    Alike id (checkChangeItems (items.map (ChangeItem.moved n))) (checkChangeItems items) := by
  induction items with
  | nil => rfl
  | cons item items ih =>
    cases item with
    | change name values | comma text | comment text => exact ih
    | invalid text => rfl

theorem alike_changes (changes : Changes) (n : Nat) :
    Alike forgetOrigins (changes.moved n).element changes.element := by
  obtain ⟨opening, items, closing⟩ := changes
  apply (alike_changeElements items n).bind
  intro children children' same
  cases closing with
  | none => rfl
  | some closing =>
    refine (alike_checkChangeItems items n).bind fun _ _ _ => .pure ?_
    rw [forgetOrigins_node, forgetOrigins_node, same]

theorem alike_piece (item : MusicItem) (n : Nat) :
    Alike Piece.forget (item.moved n).piece item.piece := by
  cases item with
  | note pitch accidentals duration =>
    exact .pure (congrArg Piece.event (forget_noteElement pitch accidentals duration n))
  | rest mark duration =>
    exact .pure (congrArg Piece.event
      (forget_markElement mark n .rest (forget_durationElements duration n)))
  | octaveSet mark number =>
    exact .pure (congrArg Piece.event (forget_markElement mark n .octaveSet rfl))
  | changes group =>
    exact (alike_changes group n).bind fun element element' same =>
      .pure (congrArg Piece.event same)
  | octaveUp mark | octaveDown mark | barline mark | separator slash | comment text
  | invalid text => rfl

theorem alike_pieces (items : List MusicItem) (n : Nat) :
    Alike (List.map Piece.forget) (pieces (items.map (MusicItem.moved n))) (pieces items) := by
  induction items with
  | nil => rfl
  | cons item items ih =>
    apply (alike_piece item n).bind
    intro piece piece' same
    refine ih.bind fun later later' same' => .pure ?_
    rw [List.map_cons, List.map_cons, same, same']

theorem sounds_forgetOrigins (element : Element) :
    sounds element.forgetOrigins = sounds element := by
  unfold sounds
  rw [kind_forgetOrigins]

theorem chord_forgetOrigins (last element : Element) :
    chord last.forgetOrigins element.forgetOrigins = (chord last element).forgetOrigins := by
  unfold chord
  rw [kind_forgetOrigins]
  split
  · rw [forgetOrigins_withChildren, children_forgetOrigins, List.map_append]
    rfl
  · rw [forgetOrigins_plain]
    rfl

theorem event_of_forget {piece : Piece} {element : Element}
    (same : piece.forget = (Piece.event element).forget) :
    ∃ element', piece = .event element' ∧ element'.forgetOrigins = element.forgetOrigins := by
  cases piece with
  | event element' => exact ⟨element', rfl, Piece.event.inj same⟩
  | separator slash | comment | invalid text => cases same

theorem separator_of_forget {piece : Piece} {slash : Lexeme}
    (same : piece.forget = (Piece.separator slash).forget) :
    ∃ slash', piece = .separator slash' := by
  cases piece with
  | separator slash' => exact ⟨slash', rfl⟩
  | event element | comment | invalid text => cases same

theorem comment_of_forget {piece : Piece} (same : piece.forget = Piece.comment.forget) :
    piece = .comment := by
  cases piece with
  | comment => rfl
  | event element | separator slash | invalid text => cases same

theorem joins_of_forget {last last' : Element} (same : last'.forgetOrigins = last.forgetOrigins)
    (joins : sounds last || last.kind = .plain .chord) :
    sounds last' || last'.kind = .plain .chord := by
  rwa [← sounds_forgetOrigins, ← kind_forgetOrigins, same, sounds_forgetOrigins,
    kind_forgetOrigins]

theorem sounds_of_forget {element element' : Element}
    (same : element'.forgetOrigins = element.forgetOrigins) (sounding : sounds element) :
    sounds element' := by
  rwa [← sounds_forgetOrigins, same, sounds_forgetOrigins]

theorem Assembled.alike {before events : List Element} {opened : Option Lexeme}
    {all : List Piece} (assembled : Assembled before opened all events) {before' : List Element}
    {opened' : Option Lexeme} {all' : List Piece}
    (earlier : before'.map forgetOrigins = before.map forgetOrigins)
    (pending : opened'.isSome = opened.isSome)
    (same : all'.map Piece.forget = all.map Piece.forget) :
    ∃ events', Assembled before' opened' all' events' ∧
      events'.map forgetOrigins = events.map forgetOrigins := by
  induction assembled generalizing before' opened' all' with
  | done before =>
    obtain rfl : opened' = none := by simpa using pending
    obtain rfl : all' = [] := by simpa using same
    exact ⟨_, .done before', by rw [List.map_reverse, List.map_reverse, earlier]⟩
  | comment later ih =>
    obtain ⟨piece, all', rfl, head, tail⟩ := List.map_eq_cons_iff.mp same
    obtain rfl := comment_of_forget head
    obtain ⟨events', assembled, view⟩ := ih earlier pending tail
    exact ⟨events', .comment assembled, view⟩
  | separator joins later ih =>
    obtain ⟨piece, all', rfl, head, tail⟩ := List.map_eq_cons_iff.mp same
    obtain ⟨last', before', rfl, sameLast, others⟩ := List.map_eq_cons_iff.mp earlier
    obtain ⟨slash', rfl⟩ := separator_of_forget head
    obtain rfl : opened' = none := by simpa using pending
    obtain ⟨events', assembled, view⟩ := @ih _ (some slash') _ earlier rfl tail
    exact ⟨events', .separator (joins_of_forget sameLast joins) assembled, view⟩
  | @event element before events all later ih =>
    obtain ⟨piece, all', rfl, head, tail⟩ := List.map_eq_cons_iff.mp same
    obtain ⟨element', rfl, sameElement⟩ := event_of_forget head
    obtain rfl : opened' = none := by simpa using pending
    have now : (element' :: before').map forgetOrigins = (element :: before).map forgetOrigins := by
      rw [List.map_cons, List.map_cons, earlier, sameElement]
    obtain ⟨events', assembled, view⟩ := ih now rfl tail
    exact ⟨events', .event assembled, view⟩
  | @joined last element before events slash all sounding later ih =>
    obtain ⟨piece, all', rfl, head, tail⟩ := List.map_eq_cons_iff.mp same
    obtain ⟨last', before', rfl, sameLast, others⟩ := List.map_eq_cons_iff.mp earlier
    obtain ⟨element', rfl, sameElement⟩ := event_of_forget head
    obtain ⟨slash', rfl⟩ := Option.isSome_iff_exists.mp pending
    have now : (chord last' element' :: before').map forgetOrigins =
        (chord last element :: before).map forgetOrigins := by
      rw [List.map_cons, List.map_cons, others, ← chord_forgetOrigins last', sameLast,
        sameElement, chord_forgetOrigins]
    obtain ⟨events', assembled, view⟩ := ih now rfl tail
    exact ⟨events', .joined (sounds_of_forget sameElement sounding) assembled, view⟩

def Plays (items : List MusicItem) (events : List Element) : Prop :=
  musicElement items = .ok (.plain .musicData events)

theorem plays_iff {items : List MusicItem} {events : List Element} :
    Plays items events ↔ ∃ all, pieces items = .ok all ∧ Assembled [] none all events := by
  simp only [Plays, musicElement, bind_eq_ok, pure_eq_ok, assemble_ok_iff]
  constructor
  · rintro ⟨all, read, events, assembled, same⟩
    cases same
    exact ⟨all, read, assembled⟩
  · rintro ⟨all, read, assembled⟩
    exact ⟨all, read, events, assembled, rfl⟩

theorem pieces_append (items more : List MusicItem) :
    pieces (items ++ more) = pieces items >>= fun all => (all ++ ·) <$> pieces more := by
  induction items with
  | nil =>
    rw [List.nil_append, pieces]
    cases pieces more <;> rfl
  | cons item items ih =>
    rw [List.cons_append, pieces, pieces, ih]
    cases item.piece with
    | error fault => rfl
    | ok piece => cases pieces items <;> cases pieces more <;> rfl

theorem Plays.append {items more : List MusicItem} {events later : List Element}
    (first : Plays items events) (second : Plays more later) :
    Plays (items ++ more) (events ++ later) := by
  rw [plays_iff] at first second ⊢
  obtain ⟨all, read, assembled⟩ := first
  obtain ⟨all', read', assembled'⟩ := second
  have after := assembled'.after events.reverse
  rw [List.reverse_reverse] at after
  exact ⟨all ++ all', by rw [pieces_append, read, read']; rfl, assembled.append after⟩

theorem Plays.moved {items : List MusicItem} {events : List Element} (plays : Plays items events)
    (n : Nat) : ∃ events', Plays (items.map (MusicItem.moved n)) events' ∧
      events'.map forgetOrigins = events.map forgetOrigins := by
  rw [plays_iff] at plays
  obtain ⟨all, read, assembled⟩ := plays
  obtain ⟨all', read', same⟩ := (alike_pieces items n).ok read
  obtain ⟨events', assembled', view⟩ := assembled.alike rfl rfl same
  exact ⟨events', plays_iff.mpr ⟨all', read', assembled'⟩, view⟩

theorem MovedLines.plays {lines : List String} {items : List MusicItem}
    (moved : MovedLines lines items) {heard : List (List Element)}
    (each : List.Forall₂ (fun line events => Plays (musicOfText line) events) lines heard) :
    ∃ events, Plays items events ∧ events.map forgetOrigins = heard.flatten.map forgetOrigins := by
  induction moved generalizing heard with
  | nil =>
    cases each
    exact ⟨[], rfl, rfl⟩
  | cons line n later ih =>
    cases each with
    | cons first rest =>
      obtain ⟨events, plays, same⟩ := first.moved n
      obtain ⟨events', plays', same'⟩ := ih rest
      refine ⟨events ++ events', plays.append plays', ?_⟩
      simp only [List.map_append, List.flatten_cons, same, same']

end Source

end Partbook
