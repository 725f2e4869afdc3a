import Partbook.Proofs.Grammar.Accepted

/-!
Music that is written is music again, of the same events. The grammar tells the events of a text
apart by what follows each of them; so each lemma here takes what is written of an item and any
text behind it that does not go on with the item.
-/
namespace Partbook

open Text Source

namespace Element

theorem written_plain (kind : PlainKind) (children : List Element) :
    (plain kind children).written = (Label.plain kind).headChars ++
      (writtenAll (.plain kind) true children ++ (Label.plain kind).tailText.toList) := by
  rw [plain, written]

theorem written_headed {kind : PlainKind} {head : String}
    (begins : (Label.plain kind).headText = .ok head) (noTail : (Label.plain kind).tailText = "")
    (children : List Element) :
    (plain kind children).written = head.toList ++ writtenAll (.plain kind) true children := by
  rw [written_plain, Label.headChars, begins, noTail]
  exact congrArg (head.toList ++ ·) (List.append_nil _)

theorem written_bare {kind : PlainKind} (noHead : (Label.plain kind).headText = .ok "")
    (noTail : (Label.plain kind).tailText = "") (children : List Element) :
    (plain kind children).written = writtenAll (.plain kind) true children :=
  written_headed noHead noTail children

theorem writtenAll_later {label : Label} (other : label.kind ≠ .plain .instrumentCall)
    (elements : List Element) : writtenAll label false elements =
      elements.flatMap fun element => label.kind.separator.toList ++ element.written := by
  induction elements with
  | nil => rfl
  | cons element elements ih =>
    rw [writtenAll, ih, List.flatMap_cons, Label.gap, if_neg other, List.append_assoc]
    rfl

theorem writtenAll_cons (label : Label) (element : Element) (elements : List Element) :
    writtenAll label true (element :: elements) =
      element.written ++ writtenAll label false elements := by
  rw [writtenAll]
  rfl

theorem writtenAll_joined {label : Label} (other : label.kind ≠ .plain .instrumentCall)
    (joined : label.kind.separator = "") (first : Bool) (elements : List Element) :
    writtenAll label first elements = elements.flatMap written := by
  induction elements generalizing first with
  | nil => rfl
  | cons element elements ih =>
    rw [writtenAll, ih, List.flatMap_cons, Label.gap, if_neg other, joined]
    cases first <;> rfl

theorem written_text {kind : TextKind} (other : kind ≠ .nickname ∧ kind ≠ .track)
    (text : String) : (Element.text kind (.text text)).written = text.toList := by
  have head : (Label.text kind (.text text)).headChars = text.toList := by
    cases kind
    case nickname => exact absurd rfl other.1
    case track => exact absurd rfl other.2
    all_goals rfl
  rw [Element.text, written, head]
  simp [writtenAll, Label.tailText]

end Element

namespace Grammar

open Element

/-! ## What follows -/

theorem Apart.change {p : Char → Bool} {text rest more : List Char} (apart : Apart p (text ++ rest))
    (other : Apart p more) : Apart p (text ++ more) := by
  cases text with
  | nil => exact other
  | cons c text => exact apart

/-- The text ends, or nothing goes on across its first character. -/
def Over (text : List Char) : Prop := ∀ c ∈ text.head?, c = ' ' ∨ c = '/'

theorem Over.clear {text : List Char} (ends : Over text) : Clear text := by
  intro c first
  rcases ends c first with rfl | rfl
  · exact not_extends_of_blank rfl
  · exact not_extends_of_starter _ (by simp)

theorem Over.letter {text : List Char} (ends : Over text) : Apart isLetter text := by
  intro c first
  rcases ends c first with rfl | rfl <;> rfl

theorem written_leaf {kind : TextKind} (other : kind ≠ .nickname ∧ kind ≠ .track)
    (chars : List Char) : (leaf kind chars).written = chars := by
  rw [leaf, written_text other, String.toList_ofList]

/-! ## Durations -/

structure Ended (text : List Char) : Prop where
  noLength : Apart isDecimal text
  noTie : ∀ later, text = '~' :: later → Apart isDecimal later
  noDot : Apart (· == '.') text

theorem Clear.ended {text : List Char} (clear : Clear text) : Ended text :=
  ⟨clear.decimal, fun later same => absurd (clear.tilde '~' (by simp [same])) (by decide),
    clear.dot⟩

theorem Clear.ended_tilde {text : List Char} (clear : Clear text) : Ended ('~' :: text) := by
  refine ⟨?_, fun later same => ?_, ?_⟩
  · rintro _ ⟨⟩
    rfl
  · cases same
    exact clear.decimal
  · rintro _ ⟨⟩
    rfl

theorem written_noteLength (digits dots : List Char) :
    (noteLength digits dots).written = digits ++ dots := by
  have body : writtenAll (.plain .noteLength) true
      (leaf .number digits :: if dots = [] then [] else [leaf .dots dots]) = digits ++ dots := by
    rw [writtenAll_joined (by decide) rfl]
    split
    · rename_i none
      simp [written_leaf, none]
    · simp [written_leaf]
  rw [noteLength, written_bare rfl rfl, body]

theorem written_tilde {kind : PlainKind} (tilde : kind = .tie ∨ kind = .slur) :
    (plain kind []).written = ['~'] := by
  rcases tilde with rfl | rfl <;> rfl

theorem Marks.text_eq {text rest : List Char} {marks : List Element}
    (said : Marks text marks rest) : text = marks.flatMap written ++ rest := by
  induction said with
  | done noLength noTie => rfl
  | length number dotted whole more ih =>
    rw [List.flatMap_cons, written_noteLength, List.append_assoc, List.append_assoc, ← ih]
  | tie number more ih =>
    rw [List.flatMap_cons, written_tilde (.inl rfl), List.append_assoc, ← ih]
    rfl

theorem Marks.noLength {text rest : List Char} {marks : List Element}
    (said : Marks text marks rest) : Apart isDecimal rest := by
  induction said with
  | done noLength noTie => exact noLength
  | length number dotted whole more ih | tie number more ih => exact ih

theorem Marks.again {text rest : List Char} {marks : List Element} (said : Marks text marks rest)
    {more : List Char} (ended : Ended more) :
    Marks (marks.flatMap written ++ more) marks more := by
  induction said with
  | done noLength noTie => exact .done ended.noLength ended.noTie
  | @length digits dots rest later marks number dotted whole said ih =>
    have parts := said.text_eq
    rw [List.flatMap_cons, written_noteLength, List.append_assoc, List.append_assoc]
    -- the digits and the dots end where they ended in the text that was read
    refine .length ⟨number.nonempty, number.decimal, ?_⟩ dotted ?_ ih
    · have first := number.whole
      rw [parts, ← List.append_assoc] at first
      rw [← List.append_assoc]
      exact first.change ended.noLength
    · rw [parts] at whole
      exact whole.change ended.noDot
  | @tie rest later marks number said ih =>
    rw [List.flatMap_cons, written_tilde (.inl rfl), List.append_assoc]
    refine .tie (fun none => number ?_) ih
    rw [said.text_eq]
    exact Apart.change none said.noLength

theorem written_duration (marks : List Element) :
    (plain .duration marks).written = marks.flatMap written := by
  rw [written_bare rfl rfl, writtenAll_joined (by decide) rfl]

theorem Lasts.text_eq {text rest : List Char} {duration : List Element}
    (lasts : Lasts text duration rest) : text = duration.flatMap written ++ rest := by
  cases lasts with
  | unsaid => rfl
  | said nonempty said =>
    rw [said.text_eq, List.flatMap_singleton, written_duration]
  | slurred said =>
    rw [said.text_eq, List.flatMap_singleton, written_duration, List.flatMap_append,
      List.flatMap_singleton, written_tilde (.inr rfl), List.append_assoc]
    rfl

theorem Lasts.again {text rest : List Char} {duration : List Element}
    (lasts : Lasts text duration rest) {more : List Char} (clear : Clear more) :
    Lasts (duration.flatMap written ++ more) duration more := by
  cases lasts with
  | unsaid => exact .unsaid
  | said nonempty said =>
    rw [List.flatMap_singleton, written_duration]
    exact .said nonempty (said.again clear.ended)
  | slurred said =>
    rw [List.flatMap_singleton, written_duration, List.flatMap_append, List.flatMap_singleton,
      written_tilde (.inr rfl), List.append_assoc]
    exact .slurred (said.again clear.ended_tilde)

/-! ## Attribute changes -/

def valuesWritten (values : List Element) : List Char :=
  values.flatMap fun value => ' ' :: value.written

theorem valuesWritten_cons (value : Element) (values : List Element) (more : List Char) :
    valuesWritten (value :: values) ++ more =
      ' ' :: (value.written ++ (valuesWritten values ++ more)) := by
  simp [valuesWritten]

theorem punctuated_values {c : Char} (ends : c = ',' ∨ c = ')') (values : List Element)
    (more : List Char) : ∀ a ∈ (valuesWritten values ++ c :: more).head?,
      isDecimal a = false ∧ isWordChar a = false ∧ (a == '!') = false := by
  intro a first
  have sign : a = ' ' ∨ a = ',' ∨ a = ')' := by
    cases values with
    | nil =>
      cases first
      exact .inr ends
    | cons value values =>
      cases first
      exact .inl rfl
  obtain ⟨decimal, -, word⟩ := punctuation a (by rcases sign with rfl | rfl | rfl <;> simp)
  exact ⟨decimal, word, by rcases sign with rfl | rfl | rfl <;> rfl⟩

theorem Values.again {text rest : List Char} {values : List Element}
    (valued : Values text values rest) {c : Char} (ends : c = ',' ∨ c = ')') (more : List Char) :
    Values (valuesWritten values ++ c :: more) values (c :: more) := by
  induction valued with
  | done isEnd => exact .done ends
  | gap gap valued ih => exact ih
  | @number digits rest later values number valued ih =>
    have behind := punctuated_values ends values more
    rw [valuesWritten_cons, written_leaf (by decide)]
    exact .gap (.blank rfl) (.number ⟨number.nonempty, number.decimal,
      fun a first => (behind a first).1⟩ ih)
  | @word c chars rest later values word valued ih =>
    have behind := punctuated_values ends values more
    rw [valuesWritten_cons, written_leaf (by decide)]
    exact .gap (.blank rfl) (.word ⟨word.letter, word.chars, fun a first => (behind a first).2.1⟩
      ih)

theorem written_change (name : List Char) (values : List Element) :
    (plain .attributeChange (leaf .attributeName name :: values)).written =
      name ++ valuesWritten values := by
  rw [written_bare rfl rfl, writtenAll_cons, written_leaf (by decide),
    writtenAll_later (by decide)]
  simp [valuesWritten, Label.kind, Kind.separator]

theorem Change.again {text rest : List Char} {change : Element} (isChange : Change text change rest)
    {c : Char} (ends : c = ',' ∨ c = ')') (more : List Char) :
    Change (change.written ++ c :: more) change (c :: more) := by
  cases isChange with
  | @here first chars rest _ values named unmarked valued =>
    have behind := punctuated_values ends values more
    rw [written_change, List.append_assoc, List.cons_append]
    exact .here ⟨named.letter, named.chars, fun a first => (behind a first).2.1⟩
      (fun a first => (behind a first).2.2) (valued.again ends more)
  | @everywhere first chars rest _ values named valued =>
    rw [written_change, List.append_assoc, List.cons_append, List.append_assoc]
    refine .everywhere ⟨named.letter, named.chars, ?_⟩ (valued.again ends more)
    rintro _ ⟨⟩
    exact (punctuation '!' (by simp)).2.2

def IsChange (change : Element) : Prop := ∃ text rest, Change text change rest

theorem Changes.each {text rest : List Char} {changes : List Element}
    (closed : Changes text changes rest) : ∀ change ∈ changes, IsChange change := by
  induction closed with
  | close => simp
  | gap gap more ih | comma more ih => exact ih
  | change first more ih => exact List.forall_mem_cons.mpr ⟨⟨_, _, first⟩, ih⟩

theorem changes_again {changes : List Element} (each : ∀ change ∈ changes, IsChange change)
    (more : List Char) :
    Changes (writtenAll (.plain .attributeChanges) true changes ++ ')' :: more) changes more := by
  cases changes with
  | nil => exact .close
  | cons change changes =>
    rw [writtenAll_cons, writtenAll_later (by decide), List.append_assoc]
    induction changes generalizing change with
    | nil =>
      obtain ⟨_, _, first⟩ := each change (by simp)
      exact .change (first.again (.inr rfl) more) .close
    | cons next changes ih =>
      rw [List.forall_mem_cons] at each
      obtain ⟨_, _, first⟩ := each.1
      have later := ih next each.2
      rw [List.flatMap_cons, List.append_assoc, List.append_assoc]
      exact .change (first.again (.inl rfl) _) (.comma (.gap (.blank rfl) later))

/-! ## Events -/

def IsEvent (tree : Element) : Prop := ∃ text rest, Event text tree rest

theorem Event.each_change {text rest : List Char} {tree : Element} (event : Event text tree rest)
    (kind : tree.kind = .plain .attributeChanges) : ∀ change ∈ tree.children, IsChange change := by
  cases event with
  | changes closed => exact closed.each
  | sign sign => exact fun change member => absurd member List.not_mem_nil
  | note pitch signs lasts | rest alone lasts | octaveSet nonempty decimal => cases kind

theorem written_note (pitch : Char) (accidentals : List Char) (duration : List Element) :
    (note pitch accidentals duration).written =
      pitch :: (accidentals ++ duration.flatMap written) := by
  have leaves : (accidentals.map fun c => leaf .accidental [c]).flatMap written = accidentals := by
    induction accidentals with
    | nil => rfl
    | cons c accidentals ih =>
      rw [List.map_cons, List.flatMap_cons, written_leaf (by decide), ih]
      rfl
  have head : ((leaf .pitch [pitch]).withChildren
      (accidentals.map fun c => leaf .accidental [c])).written = pitch :: accidentals := by
    have label : (Label.text .pitch (.text (String.ofList [pitch]))).headChars = [pitch] :=
      String.toList_ofList
    rw [leaf, Element.text, withChildren, Element.label, Element.origin, written,
      writtenAll_joined (by simp [Label.kind]) rfl, leaves, label]
    simp [Label.tailText]
  rw [note, written_bare rfl rfl, writtenAll_joined (by decide) rfl, List.flatMap_cons, head]
  rfl

theorem written_rest (duration : List Element) :
    (plain .rest duration).written = 'r' :: duration.flatMap written := by
  rw [written_headed rfl rfl, writtenAll_joined (by decide) rfl]
  rfl

theorem written_octaveSet (digits : List Char) :
    (plain .octaveSet [leaf .number digits]).written = 'o' :: digits := by
  rw [written_headed rfl rfl, writtenAll_joined (by decide) rfl, List.flatMap_singleton,
    written_leaf (by decide)]
  rfl

theorem written_sign {c : Char} {kind : PlainKind} (sign : (c, kind) ∈ signs) :
    (plain kind []).written = [c] := by
  simp only [signs, List.mem_cons, Prod.mk.injEq, List.not_mem_nil, or_false] at sign
  rcases sign with ⟨rfl, rfl⟩ | ⟨rfl, rfl⟩ | ⟨rfl, rfl⟩ <;> rfl

theorem written_changes (changes : List Element) :
    (plain .attributeChanges changes).written =
      '(' :: (writtenAll (.plain .attributeChanges) true changes ++ [')']) := by
  rw [written_plain]
  rfl

theorem Event.again {text rest : List Char} {tree : Element} (event : Event text tree rest)
    {more : List Char} (ends : Over more) : Event (tree.written ++ more) tree more := by
  cases event with
  | note pitch signs lasts =>
    rw [written_note, List.cons_append, List.append_assoc]
    exact .note pitch signs (lasts.again ends.clear)
  | rest alone lasts =>
    rw [written_rest]
    rw [lasts.text_eq] at alone
    exact .rest (alone.change ends.letter) (lasts.again ends.clear)
  | octaveSet nonempty decimal =>
    rw [written_octaveSet]
    exact .octaveSet nonempty decimal
  | sign sign =>
    rw [written_sign sign]
    exact .sign sign
  | changes closed =>
    rw [written_changes, List.cons_append, List.append_assoc]
    exact .changes (changes_again closed.each more)

/-! ## Music -/

def eventsWritten (events : List Element) : List Char :=
  writtenAll (.plain .musicData) true events

theorem written_later (event : Element) (events : List Element) :
    writtenAll (.plain .musicData) false (event :: events) =
      ' ' :: eventsWritten (event :: events) := by
  have gap : (Label.plain .musicData).gap event = " " := by
    rw [Label.gap, if_neg (by decide)]
    rfl
  rw [eventsWritten, writtenAll_cons, writtenAll, gap]
  rfl

theorem Lexed.behind_blank {events : List Element} {tokens : List Token}
    (lexed : Lexed (eventsWritten events) tokens) :
    Lexed (writtenAll (.plain .musicData) false events) tokens := by
  cases events with
  | nil => exact lexed
  | cons event events =>
    rw [written_later]
    exact .gap (.blank rfl) lexed

theorem over_later (events : List Element) :
    Over (writtenAll (.plain .musicData) false events) := by
  cases events with
  | nil => nofun
  | cons event events =>
    rw [written_later]
    rintro _ ⟨⟩
    exact .inl rfl

theorem chord_again {note : Element} {notes : List Element}
    (each : ∀ tree ∈ note :: notes, IsEvent tree) {more : List Char} {tokens : List Token}
    (ends : Over more) (later : Lexed more tokens) :
    Lexed ((plain .chord (note :: notes)).written ++ more)
      (chordTokens (note :: notes) ++ tokens) := by
  have written : (plain .chord (note :: notes)).written ++ more =
      note.written ++ (notes.flatMap (fun note => '/' :: note.written) ++ more) := by
    rw [written_bare rfl rfl, writtenAll_cons, writtenAll_later (by decide), List.append_assoc]
    rfl
  rw [written, chordTokens_cons]
  clear written
  induction notes generalizing note with
  | nil =>
    obtain ⟨_, _, event⟩ := each note (by simp)
    exact .event (event.again ends) later
  | cons next notes ih =>
    rw [List.forall_mem_cons] at each
    obtain ⟨_, _, event⟩ := each.1
    have slash : Over ('/' :: (next.written ++
        (notes.flatMap (fun note => '/' :: note.written) ++ more))) := by
      rintro _ ⟨⟩
      exact .inr rfl
    rw [List.flatMap_cons, List.flatMap_cons, List.append_assoc, List.cons_append]
    exact .event (event.again slash) (.separator (ih each.2))

theorem Phrased.lexed {tokens : List Token} {events : List Element}
    (phrased : Phrased tokens events) (each : ∀ tree, .event tree ∈ tokens → IsEvent tree) :
    Lexed (eventsWritten events) tokens := by
  induction phrased with
  | done => exact .done
  | @event tree tokens events more ih =>
    obtain ⟨_, _, event⟩ := each tree (by simp)
    have later := (ih fun tree member => each tree (by simp [member])).behind_blank
    rw [eventsWritten, writtenAll_cons]
    exact .event (event.again (over_later events)) later
  | @chord notes tokens events several sounding more ih =>
    have later := (ih fun tree member => each tree (by simp [member])).behind_blank
    obtain ⟨note, notes, rfl⟩ := List.exists_cons_of_ne_nil (List.ne_nil_of_length_pos
      (Nat.lt_of_lt_of_le Nat.zero_lt_two several))
    rw [eventsWritten, writtenAll_cons]
    refine chord_again (fun tree member => each tree ?_) (over_later events) later
    rw [chordTokens_cons]
    rcases List.mem_cons.mp member with rfl | within
    · simp
    · simp [within]

/-- Wherever music is read from, what is written of it is music of the same events. -/
theorem music_again {stops : List Char → Bool} {cursor : Cursor} {events : List Element}
    (plays : Plays (cursor.music stops).1 events) :
    Music (String.ofList (eventsWritten (events.map forgetOrigins)))
      (events.map forgetOrigins) := by
  obtain ⟨all, built, assembled⟩ := plays_iff.mp plays
  have each (tree : Element) (member : Token.event tree ∈ all.filterMap tokens?) :
      IsEvent tree := by
    obtain ⟨piece, within, token⟩ := List.mem_filterMap.mp member
    cases piece with
    | event read =>
      cases token
      exact event_of_music built within
    | separator slash | comment | invalid text => cases token
  have phrased := (phrased_iff_assemble assembled.not_invalid each).mpr
    ⟨events, assembled.assemble, rfl⟩
  refine ⟨_, ?_, phrased⟩
  rw [String.toList_ofList]
  exact phrased.lexed each

end Grammar

end Partbook
