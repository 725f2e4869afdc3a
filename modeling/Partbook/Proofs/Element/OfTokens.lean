import Partbook.Proofs.Element.ItemsOfTokens

namespace Partbook.Source

open Text TokenTree

namespace OfTokens

variable {trees : List TokenTree} {mode : Mode}

/-! ### Music -/

inductive Presents : List Item → Piece → Prop
  | event (mode : Mode) (element : Element) :
    Presents [.made mode (.element element)] (.event element)
  | octaveSet (mark digits : Lexeme) :
    Presents [.token mark .octave, .token digits .number]
      (.event (mark.markElement .octaveSet [digits.element .number]))
  | mark (text : Lexeme) {action : Action} {kind : PlainKind}
      (marks : markKind? action = some kind) :
    Presents [.token text action] (.event (text.markElement kind []))
  | separator (slash : Lexeme) : Presents [.token slash .chordSeparator] (.separator slash)
  | comment (text : Lexeme) : Presents [.token text .comment] .comment
  | invalid (text : Lexeme) : Presents [.token text .invalid] (.invalid text)

end OfTokens

def MusicItem.Filled : MusicItem → Prop
  | .note _ _ duration | .rest _ duration => ∀ length ∈ duration, length.Filled
  | _ => True

namespace OfTokens

theorem follows_musicItem {item : MusicItem} (filled : item.Filled) :
    Follows Presents (itemsOfAll item.trees) item.piece := by
  cases item with
  | note pitch accidentals duration =>
    rw [itemsOfAll_note pitch accidentals filled]
    exact .event _ _
  | rest mark duration =>
    rw [itemsOfAll_rest mark filled]
    exact .event _ _
  | octaveSet mark number => exact .octaveSet mark number
  | octaveUp mark | octaveDown mark | barline mark => exact .mark mark rfl
  | separator slash => exact .separator slash
  | changes group =>
    have trees : itemsOfAll (MusicItem.trees (.changes group)) = itemsOfAll [group.tree] >>= pure :=
      (bind_pure _).symm
    rw [trees]
    refine (follows_group group).bind fun items element same => ?_
    subst same
    exact .event .attributeChanges element
  | comment text => exact .comment text
  | invalid text => exact .invalid text

section

variable {before : List Element} {opened : Option Lexeme} {items : List Item} {all : List Piece}

/-- Behind anything that was read before, the items come to what the pieces are assembled to. -/
def Assembles (items : List Item) (all : List Piece) : Prop :=
  ∀ before opened, (opened ≠ none → before ≠ []) →
    Follows Eq (eventsOf before opened (screened items)) (assemble before opened all)

theorem Assembles.event (later : Assembles items all) (live : opened ≠ none → before ≠ [])
    (element : Element) :
    Follows Eq (join before opened element >>= fun before => eventsOf before none (screened items))
      (assemble before opened (.event element :: all)) := by
  cases opened with
  | none => exact later (element :: before) none (absurd rfl)
  | some slash =>
    obtain ⟨last, earlier, rfl⟩ := List.exists_cons_of_ne_nil (live (Option.some_ne_none slash))
    simp only [join, assemble]
    by_cases sounding : sounds element
    · simp only [sounding, if_true]
      exact later (chord last element :: earlier) none (absurd rfl)
    · simp only [sounding]
      rfl

/-- A separator is only opened behind an event, so that there is always one to join. -/
theorem Assembles.cons {first : List Item} {piece : Piece} (presents : Presents first piece)
    (later : Assembles items all) : Assembles (first ++ items) (piece :: all) := by
  intro before opened live
  cases presents with
  | event mode element => exact later.event live element
  | octaveSet mark digits => exact later.event live _
  | @mark text action kind marks =>
    have whole : eventsOf before opened (.ok (.token text action) :: screened items) =
        join before opened (text.markElement kind []) >>=
          fun before => eventsOf before none (screened items) := by
      cases action <;> cases marks <;> rfl
    have screen : screened (.token text action :: items) =
        .ok (.token text action) :: screened items := by
      cases action <;> cases marks <;> rfl
    rw [List.singleton_append, screen, whole]
    exact later.event live _
  | separator slash =>
    rw [List.singleton_append]
    simp only [screened, eventsOf, assemble]
    cases opened with
    | some open' => rfl
    | none =>
      cases before with
      | nil => rfl
      | cons last earlier =>
        by_cases sounding : sounds last || last.kind = .plain .chord
        · simp only [sounding, if_true]
          exact later _ _ fun _ => List.cons_ne_nil last earlier
        · simp only [sounding]
          rfl
  | comment text => exact later before opened live
  | invalid text => rfl

theorem follows_pieces {music : List MusicItem} (filled : ∀ item ∈ music, item.Filled) :
    Follows Assembles (itemsOfAll (music.flatMap MusicItem.trees)) (pieces music) := by
  induction music with
  | nil =>
    intro before opened live
    cases opened <;> rfl
  | cons item music ih =>
    rw [List.forall_mem_cons] at filled
    rw [List.flatMap_cons, itemsOfAll_append]
    refine (follows_musicItem filled.1).bind fun first piece presents => ?_
    exact (ih filled.2).bind fun items all later => later.cons presents

end

theorem follows_music {mode : Mode} (heard : mode = .musicData ∨ mode = .fragment)
    {music : List MusicItem} (filled : ∀ item ∈ music, item.Filled) :
    Follows (fun outcome element => outcome = .element element)
      (itemsOfAll (music.flatMap MusicItem.trees) >>= make mode) (musicElement music) := by
  refine (follows_pieces filled).bind fun items all assembles => ?_
  have events := (assembles [] none (absurd rfl)).bind fun events events' same =>
    (show Follows (fun outcome element => outcome = Outcome.element element)
      (pure (.element (.plain .musicData events))) (pure (.plain .musicData events'))
      from same ▸ rfl)
  rcases heard with rfl | rfl <;> exact events

/-! ### Calls and parts -/

def quotationItems : Quotation → List Item
  | .nickname opening name closing =>
    [.token opening .nicknameStart, .token name .nickname, .token closing .nicknameEnd]
  | .invalid text => [.token text .invalidNickname]

def callItems (call : Call) : List Item :=
  .token call.name .instrumentName
    :: call.others.flatMap (fun (slash, name) =>
        [.token slash .separator, .token name .instrumentName])
    ++ call.quotation.toList.flatMap quotationItems

theorem itemsOfAll_call (call : Call) : itemsOfAll [call.tree] =
    make .instrumentCall (callItems call ++ [.token call.colon .colon]) >>=
      fun outcome => pure [.made .instrumentCall outcome] := by
  have others (others : List (Lexeme × Lexeme)) :
      itemsOfAll (others.flatMap fun (slash, name) =>
        [.token slash .separator, .token name .instrumentName]) =
      .ok (others.flatMap fun (slash, name) =>
        [.token slash .separator, .token name .instrumentName]) := by
    induction others with
    | nil => rfl
    | cons other others ih =>
      rw [List.flatMap_cons, itemsOfAll_append, ih]
      rfl
  have quoted : itemsOfAll (call.quotation.toList.flatMap Quotation.trees) =
      .ok (call.quotation.toList.flatMap quotationItems) := by
    cases call.quotation with
    | none => rfl
    | some quotation => cases quotation <;> rfl
  rw [Call.tree, itemsOfAll_context, List.cons_append, List.cons_append, itemsOfAll,
    itemsOfAll_append, itemsOfAll_append, others, quoted]
  rfl

theorem namesOf_others (others : List (Lexeme × Lexeme)) (more : List Item) :
    namesOf [] (screened (others.flatMap (fun (slash, name) =>
        [.token slash .separator, .token name .instrumentName]) ++ more)) = do
      let (names, nickname) ← namesOf [] (screened more)
      return (others.map (fun (_, name) => name.element .name) ++ names, nickname) := by
  induction others with
  | nil => exact (bind_pure _).symm
  | cons other others ih =>
    obtain ⟨slash, name⟩ := other
    simp only [List.flatMap_cons, List.cons_append, List.nil_append, screened, namesOf, ih]
    simp

theorem follows_names (call : Call) :
    Follows (fun found children => found.1 ++ nicknameOf found.2 = children)
      (namesOf [] (screened (callItems call))) do
        let nickname ← nicknameElements call.quotation
        return call.name.element .name :: call.others.map (fun (_, name) => name.element .name) ++
          nickname := by
  have first : namesOf [] (screened (callItems call)) = do
      let (names, nickname) ← namesOf [] (screened (call.quotation.toList.flatMap quotationItems))
      return (call.name.element .name :: call.others.map (fun (_, name) => name.element .name) ++
        names, nickname) := by
    rw [callItems, List.cons_append]
    simp only [screened, namesOf, namesOf_others, bind_assoc, pure_bind, List.cons_append]
  rw [first]
  cases call.quotation with
  | none =>
    simp [screened, namesOf, nicknameOf, nicknameElements, Follows, pure, Except.pure, bind,
      Except.bind]
  | some quotation =>
    cases quotation with
    | nickname opening name closing =>
      simp [quotationItems, screened, namesOf, nicknameOf, nicknameElements, Quotation.element,
        Follows, pure, Except.pure, bind, Except.bind, Lexeme.text]
    | invalid text => rfl

theorem follows_call {call : Call} (colon : call.colon.chars = [':']) :
    Follows (fun items element => items = [.made .instrumentCall (.element element)])
      (itemsOfAll [call.tree]) call.element := by
  have last : callOf (callItems call ++ [.token call.colon .colon]) =
      namesOf [] (screened (callItems call)) >>= fun found =>
        pure (.node (.plain .instrumentCall) { tail := some call.colon.span }
          (found.1 ++ nicknameOf found.2)) := by
    simp only [callOf, List.getLast?_concat, colon, if_true, List.dropLast_concat]
  have element : call.element = (do
      let nickname ← nicknameElements call.quotation
      return call.name.element .name :: call.others.map (fun (_, name) => name.element .name) ++
        nickname) >>= fun children =>
        pure (.node (.plain .instrumentCall) { tail := some call.colon.span } children) := by
    rw [bind_assoc]
    rfl
  rw [itemsOfAll_call, make, last, bind_assoc, bind_assoc, element]
  exact (follows_names call).bind fun found children same => same ▸ rfl

end OfTokens

structure Part.Filled (part : Part) : Prop where
  colon : part.call.colon.chars = [':']
  music : ∀ item ∈ part.music, item.Filled

namespace OfTokens

theorem follows_foundMusic {music : List MusicItem} (filled : ∀ item ∈ music, item.Filled) :
    Follows (fun items element => items = [.made .musicData (.element element)] ∨
        items = [] ∧ element = .plain .musicData [])
      (itemsOfAll (found .musicData (music.flatMap MusicItem.trees))) (musicElement music) := by
  by_cases empty : music.flatMap MusicItem.trees = []
  · have none : music = [] := by
      cases music with
      | nil => rfl
      | cons item music => cases item <;> cases empty
    subst none
    exact .inr ⟨rfl, rfl⟩
  · rw [found, if_neg (by simpa using empty)]
    refine (follows_context (follows_music (.inl rfl) filled)).mono ?_
    rintro items element ⟨_, rfl, rfl⟩
    exact .inl rfl

theorem follows_part {part : Part} (filled : part.Filled) :
    Follows (fun items element => items = [.made .instrument (.element element)])
      (itemsOfAll [part.tree]) part.element := by
  refine (@follows_context _ .instrument _ (fun outcome element => outcome = .element element) _
    ?_).mono fun items element ⟨_, same, made⟩ => same ▸ made
  rw [itemsOfAll_cons, bind_assoc]
  refine (follows_call filled.colon).bind fun items call called => ?_
  rw [bind_assoc]
  refine (follows_foundMusic filled.music).bind fun items music heard => ?_
  subst called
  rcases heard with rfl | ⟨rfl, rfl⟩ <;> rfl

theorem follows_parts {parts : List Part} (filled : ∀ part ∈ parts, part.Filled) :
    Follows (fun items elements =>
        items = elements.map fun element => .made .instrument (.element element))
      (itemsOfAll (parts.map Part.tree)) (partElements parts) := by
  induction parts with
  | nil => rfl
  | cons part parts ih =>
    rw [List.forall_mem_cons] at filled
    rw [List.map_cons, itemsOfAll_cons]
    refine (follows_part filled.1).bind fun items element made => ?_
    refine (ih filled.2).bind fun more elements later => ?_
    rw [made, later]
    rfl

/-! ### Whole texts -/

theorem scoreOf_instruments (elements : List Element) :
    scoreOf (screened (elements.map fun element => .made .instrument (.element element))) =
      .ok ([], elements) := by
  induction elements with
  | nil => rfl
  | cons element elements ih =>
    simp only [List.map_cons, screened, scoreOf, ih]
    rfl

theorem madeIn_instruments (elements : List Element) :
    madeIn (screened (elements.map fun element => .made .instrument (.element element))) =
      .ok elements := by
  induction elements with
  | nil => rfl
  | cons element elements ih =>
    simp only [List.map_cons, screened, madeIn, ih]
    rfl

theorem follows_prelude (prelude : List PreludeItem) :
    Follows (fun items changes => ∀ rest instruments,
      scoreOf (screened rest) = .ok ([], instruments) →
        Follows Eq (scoreOf (screened (items ++ rest))) do
          checkPrelude prelude
          return (changes, instruments))
      (itemsOfAll (prelude.map PreludeItem.tree)) (globalChanges prelude) := by
  induction prelude with
  | nil =>
    intro rest instruments behind
    rw [List.nil_append, behind]
    rfl
  | cons item prelude ih =>
    rw [List.map_cons, itemsOfAll_cons]
    cases item with
    | changes group =>
      refine (follows_group group).bind fun items element made => ?_
      refine ih.bind fun more changes later => ?_
      subst made
      intro rest instruments behind
      have whole := (later rest instruments behind).bind fun found found' same =>
        (show Follows Eq (pure (element.children ++ found.1, found.2))
          (pure (element.children ++ found'.1, found'.2)) from same ▸ rfl)
      rw [bind_assoc] at whole
      exact whole
    | comment text => exact ih.map fun items changes later => later
    | invalid text => exact ih.map fun items changes later rest instruments behind => rfl

theorem follows_comments {prelude : List PreludeItem}
    (unchanged : ∀ item ∈ prelude, ∀ group, item ≠ .changes group) :
    ∃ items, itemsOfAll (prelude.map PreludeItem.tree) = .ok items ∧
      ∀ rest instruments, madeIn (screened rest) = .ok instruments →
        Follows Eq (madeIn (screened (items ++ rest))) do
          checkPrelude prelude
          return instruments := by
  induction prelude with
  | nil =>
    refine ⟨[], rfl, fun rest instruments behind => ?_⟩
    rw [List.nil_append, behind]
    rfl
  | cons item prelude ih =>
    rw [List.forall_mem_cons] at unchanged
    obtain ⟨items, made, later⟩ := ih unchanged.2
    rw [List.map_cons, itemsOfAll_cons, made]
    cases item with
    | changes group => exact absurd rfl (unchanged.1 group)
    | comment text => exact ⟨_, rfl, later⟩
    | invalid text => exact ⟨_, rfl, fun rest instruments behind => rfl⟩

end OfTokens

/-! ## What is read -/

namespace Cursor

variable {cursor after : Cursor}

theorem filled_duration (begins : (cursor.next? fun c => isDecimal c || c == '~').isSome) :
    cursor.duration.1.Filled := by
  cases marked : cursor.lengthMark? with
  | some found =>
    obtain ⟨mark, behind⟩ := found
    left
    rw [marks_duration, many_of_some Grammar.consuming_lengthMark? marked]
    exact List.cons_ne_nil _ _
  | none =>
    right
    obtain ⟨c, first, holds⟩ := Grammar.isSome_next?.mp begins
    have noDigit : isDecimal c = false := (Grammar.lengthMark?_eq_none.mp marked).1 c first
    have tilde : (cursor.next? (· == '~')).isSome :=
      Grammar.isSome_next?.mpr ⟨c, first, by simpa [noDigit] using holds⟩
    obtain ⟨slur, found⟩ := Option.isSome_iff_exists.mp tilde
    rw [duration, many_of_none marked]
    simp only [found]
    exact Option.some_ne_none _

theorem filled_duration? (cursor : Cursor) : ∀ length ∈ cursor.duration?.1, length.Filled := by
  unfold duration?
  split
  · rename_i begins
    rintro length ⟨⟩
    exact filled_duration begins
  · rintro length ⟨⟩

theorem filled_of_musicItem? {stops : List Char → Bool} (cursor : Cursor) (item : MusicItem)
    (after : Cursor) (read : cursor.musicItem? stops = some (item, after)) : item.Filled := by
  rcases musicItem?_cases read with mark | ⟨text, rfl⟩
  · simp only [musicMark?, Option.orElse_eq_orElse, Option.orElse_eq_or, Option.or_eq_some_iff,
      Option.map_eq_some_iff, Prod.exists, Prod.mk.injEq] at mark
    rcases mark with note | ⟨-, rest | ⟨-, octave | ⟨-, mark | ⟨-, ⟨group, rest, -, rfl, -⟩ |
      ⟨-, lexeme, rest, -, rfl, -⟩⟩⟩⟩⟩
    · simp only [note?, Option.bind_eq_bind, Option.bind_eq_some_iff] at note
      obtain ⟨⟨pitch, rest⟩, -, read⟩ := note
      cases read
      exact filled_duration? _
    · simp only [rest?, Option.bind_eq_bind, Option.bind_eq_some_iff] at rest
      obtain ⟨⟨letter, behind⟩, -, read⟩ := rest
      split at read
      · cases read
      · cases read
        exact filled_duration? _
    · simp only [octaveSet?, Option.bind_eq_bind, Option.bind_eq_some_iff] at octave
      obtain ⟨_, -, _, -, read⟩ := octave
      cases read
      trivial
    · unfold mark? at mark
      split at mark <;> cases mark <;> trivial
    · trivial
    · trivial
  · trivial

theorem colon_of_call? {call : Call} (read : cursor.call? = some (call, after)) :
    call.colon.chars = [':'] := by
  simp only [call?, Option.bind_eq_bind, Option.bind_eq_some_iff] at read
  obtain ⟨_, -, ⟨colon, later⟩, closes, read⟩ := read
  cases read
  obtain ⟨c, rest, -, isColon, same⟩ := next?_eq_some closes
  cases same
  simpa [cut] using isColon

theorem filled_of_part? (cursor : Cursor) (part : Part) (after : Cursor)
    (read : cursor.part? = some (part, after)) : part.Filled := by
  obtain ⟨behind, called, music, -⟩ := part?_eq_some read
  refine ⟨colon_of_call? called, ?_⟩
  rw [music]
  exact mem_many filled_of_musicItem? behind

theorem unchanged_prelude (cursor : Cursor) :
    ∀ item ∈ (cursor.many (preludeItem? false)).1, ∀ group, item ≠ .changes group := by
  refine mem_many (fun cursor item after read group same => ?_) cursor
  rcases preludeItem?_cases read with ⟨_, -, allowed, -⟩ | ⟨_, rfl, -⟩ | ⟨_, _, rfl, -⟩
  · cases allowed
  · cases same
  · cases same

end Cursor

namespace OfTokens

theorem follows_score (text : String) :
    Follows (fun items element => items = [.made .root (.element element)])
      (itemsOfAll [TokenTree.ofText .score text]) (build .score text) := by
  refine (@follows_context _ .root _ (fun outcome element => outcome = .element element) _
    ?_).mono fun items element ⟨_, same, made⟩ => same ▸ made
  rw [itemsOfAll_append, bind_assoc]
  refine (follows_prelude _).bind fun items changes later => ?_
  rw [bind_assoc]
  refine (follows_parts (Cursor.mem_many Cursor.filled_of_part? _)).bind
    fun more instruments made => ?_
  subst made
  have whole := (later _ _ (scoreOf_instruments instruments)).bind fun found found' same =>
    (show Follows (fun outcome element => outcome = Outcome.element element)
      (pure (.element (.plain .score
        ((if found.1.isEmpty then [] else [.plain .globalAttributes found.1]) ++ found.2))))
      (pure (.plain .score
        ((if found'.1.isEmpty then [] else [.plain .globalAttributes found'.1]) ++ found'.2)))
      from same ▸ rfl)
  rw [bind_assoc] at whole
  exact whole

theorem follows_partText (text : String) :
    Follows (fun items element => items = [.made .part (.element element)])
      (itemsOfAll [TokenTree.ofText .part text]) (build .part text) := by
  refine (@follows_context _ .part _ (fun outcome element => outcome = .element element) _
    ?_).mono fun items element ⟨_, same, made⟩ => same ▸ made
  obtain ⟨items, made, later⟩ := follows_comments (Cursor.unchanged_prelude (.ofText text))
  have prelude : itemsOfAll ((Document.ofText false text).prelude.map PreludeItem.tree) =
      pure items := made
  rw [itemsOfAll_append, prelude, pure_bind, bind_assoc, build, Document.partElement]
  refine (follows_parts (Cursor.mem_many Cursor.filled_of_part? _)).bind
    fun more instruments made => ?_
  subst made
  have whole := (later _ _ (madeIn_instruments instruments)).bind fun found found' same =>
    (show Follows (fun outcome element => outcome = Outcome.element element)
      (if found.length = 1 then pure (.element (.plain .score found))
        else throw (.fault (.callCount found.length)))
      (if found'.length = 1 then pure (.plain .score found')
        else throw (.callCount found'.length)) by
      subst same
      split <;> rfl)
  rw [bind_assoc] at whole
  exact whole

theorem follows_ofText (rule : StartRule) (text : String) :
    Follows (fun items element => ∃ mode, items = [.made mode (.element element)])
      (itemsOfAll [TokenTree.ofText rule text]) (build rule text) := by
  cases rule with
  | score => exact (follows_score text).mono fun items element made => ⟨.root, made⟩
  | part => exact (follows_partText text).mono fun items element made => ⟨.part, made⟩
  | musicData =>
    have filled : ∀ item ∈ musicOfText text, item.Filled :=
      Cursor.mem_many Cursor.filled_of_musicItem? _
    refine (follows_context (follows_music (.inr rfl) filled)).mono ?_
    rintro items element ⟨_, rfl, rfl⟩
    exact ⟨.fragment, rfl⟩

end OfTokens

/-- Elements are made from the tree of a text without anything missing, and they are those that the
text is read as. -/
theorem element_ofText (rule : StartRule) (text : String) :
    (TokenTree.ofText rule text).element = (build rule text).mapError .fault := by
  have whole := OfTokens.follows_ofText rule text
  apply OfTokens.Follows.eq_mapError
  rw [OfTokens.itemsOfAll] at whole
  rw [TokenTree.element]
  cases made : OfTokens.item (TokenTree.ofText rule text) with
  | error stop =>
    rw [made] at whole
    cases built : build rule text with
    | error fault =>
      rw [built] at whole
      exact whole
    | ok element =>
      rw [built] at whole
      exact whole.elim
  | ok item =>
    rw [made] at whole
    cases built : build rule text with
    | error fault =>
      rw [built] at whole
      exact whole.elim
    | ok element =>
      rw [built] at whole
      obtain ⟨mode, same⟩ := whole
      cases same
      rfl

end Partbook.Source
