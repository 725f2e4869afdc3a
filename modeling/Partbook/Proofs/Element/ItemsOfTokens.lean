import Partbook.Element.OfTokens
import Partbook.Proofs.Grammar.Soundness

/-!
Items made from the trees of attribute changes, notes and rests. Tree and concrete syntax are gone
through together: each comes to the same as the other, or the text is at fault in the same way. That
something is missing would be a third way, and does not happen.
-/
namespace Partbook.Source

open Text TokenTree

namespace OfTokens

/-! ## Beside the concrete syntax -/

section

variable {α β γ δ : Type}

/-- Both come to the same, or the text is at fault in the same way. -/
def Follows (same : α → β → Prop) : Tried α → Built β → Prop
  | .ok value, .ok value' => same value value'
  | .error stop, .error fault => stop = .fault fault
  | _, _ => False

variable {same : α → β → Prop} {same' : γ → δ → Prop} {tried : Tried α} {built : Built β}

theorem Follows.bind (follows : Follows same tried built) {next : α → Tried γ} {next' : β → Built δ}
    (later : ∀ value value', same value value' → Follows same' (next value) (next' value')) :
    Follows same' (tried >>= next) (built >>= next') := by
  cases tried with
  | error stop =>
    cases built with
    | error fault => exact follows
    | ok value' => exact follows.elim
  | ok value =>
    cases built with
    | error fault => exact follows.elim
    | ok value' => exact later value value' follows

theorem Follows.map (follows : Follows same tried built) {change : α → γ} {same' : γ → β → Prop}
    (later : ∀ value value', same value value' → same' (change value) value') :
    Follows same' (tried >>= fun value => pure (change value)) built := by
  have whole : Follows same' (tried >>= fun value => pure (change value)) (built >>= pure) :=
    follows.bind later
  rwa [bind_pure] at whole

theorem Follows.mono (follows : Follows same tried built) {weaker : α → β → Prop}
    (later : ∀ value value', same value value' → weaker value value') :
    Follows weaker tried built := by
  have whole := follows.map later
  rwa [bind_pure] at whole

theorem Follows.eq_mapError {tried : Tried β} (follows : Follows Eq tried built) :
    tried = built.mapError .fault := by
  cases tried with
  | error stop =>
    cases built with
    | error fault => exact congrArg Except.error follows
    | ok value' => exact follows.elim
  | ok value =>
    cases built with
    | error fault => exact follows.elim
    | ok value' => exact congrArg Except.ok follows

end

variable {trees more : List TokenTree} {mode : Mode}

theorem itemsOfAll_append : itemsOfAll (trees ++ more) = do
    let items ← itemsOfAll trees
    return items ++ (← itemsOfAll more) := by
  induction trees with
  | nil =>
    rw [List.nil_append, itemsOfAll]
    cases itemsOfAll more <;> rfl
  | cons tree trees ih =>
    rw [List.cons_append, itemsOfAll, itemsOfAll, ih]
    cases item tree with
    | error stop => rfl
    | ok first =>
      cases itemsOfAll trees with
      | error stop => rfl
      | ok items => cases itemsOfAll more <;> rfl

theorem itemsOfAll_cons {tree : TokenTree} : itemsOfAll (tree :: trees) = do
    let items ← itemsOfAll [tree]
    return items ++ (← itemsOfAll trees) :=
  @itemsOfAll_append [tree] trees

theorem itemsOfAll_tokens {α : Type} {treeOf : α → TokenTree} {itemOf : α → Item}
    (token : ∀ one, item (treeOf one) = .ok (itemOf one)) (all : List α) :
    itemsOfAll (all.map treeOf) = .ok (all.map itemOf) := by
  induction all with
  | nil => rfl
  | cons one all ih =>
    rw [List.map_cons, itemsOfAll, ih, token]
    rfl

theorem itemsOfAll_context : itemsOfAll [.context mode trees] =
    itemsOfAll trees >>= make mode >>= fun outcome => pure [.made mode outcome] := by
  simp only [itemsOfAll, item, bind_assoc, pure_bind]
  rfl

theorem follows_context {β : Type} {same : Outcome → β → Prop} {built : Built β}
    (inside : Follows same (itemsOfAll trees >>= make mode) built) :
    Follows (fun items value => ∃ outcome, same outcome value ∧ items = [.made mode outcome])
      (itemsOfAll [.context mode trees]) built := by
  rw [itemsOfAll_context, bind_assoc, ← bind_assoc]
  exact inside.map fun outcome value same => ⟨outcome, same, rfl⟩

/-! ### Attribute changes -/

def valueItem : ValueItem → Item
  | .number digits => .token digits .number
  | .word text => .token text .word
  | .comment text => .token text .comment
  | .invalid text => .token text .invalid

theorem itemsOfAll_values (values : List ValueItem) :
    itemsOfAll (values.map ValueItem.tree) = .ok (values.map valueItem) :=
  itemsOfAll_tokens (fun value => by cases value <;> rfl) values

theorem follows_values (values : List ValueItem) :
    Follows Eq (valuesOf (screened (values.map valueItem))) (valueElements values) := by
  induction values with
  | nil => rfl
  | cons value values ih =>
    cases value with
    | number digits | word text => exact ih.bind fun _ _ same => congrArg _ same
    | comment text => exact ih
    | invalid text => rfl

theorem follows_found (values : List ValueItem) :
    Follows (fun items read => items = [.made .attributeValue (.values read)] ∨
        items = [] ∧ read = [])
      (itemsOfAll (found .attributeValue (values.map ValueItem.tree))) (valueElements values) := by
  by_cases empty : values = []
  · subst empty
    exact .inr ⟨rfl, rfl⟩
  · rw [found, if_neg (by simpa using empty)]
    refine (@follows_context _ _ _ (fun outcome read => outcome = .values read) _ ?_).mono ?_
    · rw [itemsOfAll_values]
      exact (follows_values values).map fun _ _ same => congrArg _ same
    · rintro items read ⟨_, rfl, rfl⟩
      exact .inl rfl

def Grouped (changes : List ChangeItem) (items : List Item) (children : List Element) : Prop :=
  (∀ text, .token text .bracketEnd ∉ items) ∧
    ∀ before, Follows Eq (changesOf before (screened items)) do
      checkChangeItems changes
      return before.reverse ++ children

theorem follows_changes (changes : List ChangeItem) :
    Follows (Grouped changes) (itemsOfAll (changes.flatMap ChangeItem.trees))
      (changeElements changes) := by
  induction changes with
  | nil => exact ⟨by simp, fun before => (List.append_nil _).symm⟩
  | cons change changes ih =>
    rw [List.flatMap_cons, itemsOfAll_append]
    cases change with
    | comma text | comment text =>
      exact ih.map fun items children grouped => ⟨by simpa using grouped.1, grouped.2⟩
    | invalid text =>
      exact ih.map fun items children grouped => ⟨by simpa using grouped.1, fun before => rfl⟩
    | change name values =>
      simp only [ChangeItem.trees, itemsOfAll, item, bind_assoc, pure_bind]
      refine (follows_found values).bind fun items read found => ?_
      refine ih.bind fun rest children grouped => ?_
      refine ⟨?_, fun before => ?_⟩
      · rcases found with rfl | ⟨rfl, -⟩ <;> simpa using grouped.1
      · have later := grouped.2 (.plain .attributeChange (name.element .attributeName :: read)
          :: before)
        rw [List.reverse_cons, List.append_assoc] at later
        rcases found with rfl | ⟨rfl, rfl⟩ <;> exact later

theorem groupOf_unclosed {opening : Lexeme} {action : Action} {items : List Item}
    (unclosed : ∀ text, .token text .bracketEnd ∉ Item.token opening action :: items) :
    groupOf (.token opening action :: items) = .error (.fault (.unclosed opening)) := by
  unfold groupOf
  split
  · rename_i text action' closing first last
    exact absurd (List.mem_of_getLast? last) (unclosed closing)
  · rename_i first other
    cases first
    rfl
  · rename_i other _
    exact (other opening action rfl).elim

theorem groupOf_closed (opening closing : Lexeme) (action : Action) (items : List Item) :
    groupOf (.token opening action :: (items ++ [.token closing .bracketEnd])) = do
      let changes ← changesOf [] (screened items)
      return .node (.plain .attributeChanges)
        { head := some opening.span, tail := some closing.span } changes := by
  have last : (Item.token opening action :: (items ++ [.token closing .bracketEnd])).getLast? =
      some (.token closing .bracketEnd) := by
    rw [← List.cons_append, List.getLast?_concat]
  have inside : (Item.token opening action ::
      (items ++ [.token closing .bracketEnd])).dropLast.tail = items := by
    rw [← List.cons_append, List.dropLast_concat, List.tail_cons]
  simp only [groupOf, last, inside, List.head?_cons]

theorem follows_group (group : Changes) :
    Follows (fun items element => items = [.made .attributeChanges (.element element)])
      (itemsOfAll [group.tree]) group.element := by
  obtain ⟨opening, changes, closing⟩ := group
  refine (@follows_context _ _ _ (fun outcome element => outcome = .element element) _ ?_).mono
    fun items element ⟨_, same, made⟩ => same ▸ made
  rw [List.cons_append, itemsOfAll, itemsOfAll_append]
  simp only [item, bind_assoc, pure_bind]
  refine (follows_changes changes).bind fun items children grouped => ?_
  cases closing with
  | none =>
    have unclosed : ∀ text, .token text .bracketEnd ∉ Item.token opening .bracketStart :: items :=
      fun text => by simpa using grouped.1 text
    have none : itemsOfAll (TokenTree.optional .bracketEnd none) = .ok [] := rfl
    simp only [none, bind, Except.bind, List.append_nil, make, groupOf_unclosed unclosed]
    rfl
  | some closing =>
    have last : itemsOfAll (TokenTree.optional .bracketEnd (some closing)) =
        pure [.token closing .bracketEnd] := rfl
    let bracketed (children : List Element) : Element := .node (.plain .attributeChanges)
      { head := some opening.span, tail := some closing.span } children
    have inside := (grouped.2 []).bind fun changes children same =>
      (show Follows (fun outcome element => outcome = Outcome.element element)
        (pure (.element (bracketed changes))) (pure (bracketed children)) from same ▸ rfl)
    rw [bind_assoc] at inside
    simp only [last, make]
    rw [pure_bind, groupOf_closed, bind_assoc]
    exact inside

/-! ### Notes and rests -/

def lengthItems : LengthMark → List Item
  | .length number dots => .token number .number :: dots.toList.map (.token · .dots)
  | .tie tilde => [.token tilde .tie]

theorem itemsOfAll_optional (action : Action) (lexeme : Option Lexeme) :
    itemsOfAll (TokenTree.optional action lexeme) =
      .ok (lexeme.toList.map (.token · action)) := by
  cases lexeme <;> rfl

theorem itemsOfAll_marks (marks : List LengthMark) :
    itemsOfAll (marks.flatMap LengthMark.trees) = .ok (marks.flatMap lengthItems) := by
  induction marks with
  | nil => rfl
  | cons mark marks ih =>
    have first : itemsOfAll mark.trees = .ok (lengthItems mark) := by
      cases mark with
      | length number dots => cases dots <;> rfl
      | tie tilde => rfl
    rw [List.flatMap_cons, List.flatMap_cons, itemsOfAll_append, first, ih]
    rfl

theorem lengthsOf_marks (marks : List LengthMark) (before : List Element) (more : List Item) :
    lengthsOf before (screened (marks.flatMap lengthItems ++ more)) =
      lengthsOf ((marks.map LengthMark.element).reverse ++ before) (screened more) := by
  induction marks generalizing before with
  | nil => rfl
  | cons mark marks ih =>
    rw [List.flatMap_cons, List.map_cons, List.reverse_cons, List.append_assoc, List.append_assoc,
      List.singleton_append, ← ih]
    cases mark with
    | length number dots => cases dots <;> rfl
    | tie tilde => rfl

end OfTokens

def Duration.Filled (duration : Duration) : Prop := duration.marks ≠ [] ∨ duration.slur ≠ none

namespace OfTokens

def durationItem (duration : Duration) : Item := .made .duration (.element duration.element)

theorem itemsOfAll_duration {duration : Duration} (filled : duration.Filled) :
    itemsOfAll duration.trees = .ok [durationItem duration] := by
  obtain ⟨marks, slur⟩ := duration
  have nonempty : marks.flatMap LengthMark.trees ++ TokenTree.optional .slur slur ≠ [] := by
    rcases filled with marked | slurred
    · obtain ⟨mark, others, rfl⟩ := List.exists_cons_of_ne_nil marked
      cases mark <;> simp [LengthMark.trees]
    · obtain ⟨tilde, rfl⟩ := Option.ne_none_iff_exists'.mp slurred
      simp [TokenTree.optional]
  have lengths : lengthsOf [] (screened (marks.flatMap lengthItems ++
      slur.toList.map (.token · .slur))) =
        .ok (marks.map LengthMark.element ++ slur.toList.map (·.markElement .slur [])) := by
    rw [lengthsOf_marks, List.append_nil]
    cases slur with
    | none => simp [screened, lengthsOf]
    | some tilde => simp [screened, lengthsOf]
  rw [Duration.trees, found, if_neg (by simpa using nonempty), itemsOfAll_context,
    itemsOfAll_append, itemsOfAll_marks, itemsOfAll_optional]
  show make .duration _ >>= _ = _
  rw [make, lengths]
  rfl

def durationItems (duration : Option Duration) : List Item := duration.toList.map durationItem

theorem itemsOfAll_durations {duration : Option Duration}
    (filled : ∀ length ∈ duration, length.Filled) :
    itemsOfAll (durationTrees duration) = .ok (durationItems duration) := by
  cases duration with
  | none => rfl
  | some duration =>
    rw [durationTrees, Option.toList_some, List.flatMap_singleton,
      itemsOfAll_duration (filled duration rfl)]
    rfl

theorem noteOf_accidentals (accidentals : List Lexeme) (pitch : Element) (duration : List Element)
    (more : List Item) :
    noteOf (some pitch) duration
        (screened (accidentals.map (fun sign => .token sign .accidental) ++ more)) =
      noteOf (some (pitch.withChildren
        (pitch.children ++ accidentals.map (·.element .accidental)))) duration (screened more) := by
  induction accidentals generalizing pitch with
  | nil =>
    obtain ⟨label, origin, children⟩ := pitch
    simp [Element.withChildren, Element.children, Element.label, Element.origin]
  | cons sign accidentals ih =>
    simp only [List.map_cons, List.cons_append, screened, noteOf, ih]
    simp [Element.withChildren, Element.children, Element.label, Element.origin]

theorem itemsOfAll_note (pitch : Lexeme) (accidentals : List Lexeme) {duration : Option Duration}
    (filled : ∀ length ∈ duration, length.Filled) :
    itemsOfAll (MusicItem.trees (.note pitch accidentals duration)) =
      .ok [.made .note (.element (noteElement pitch accidentals duration))] := by
  have signs : itemsOfAll (accidentals.map fun sign => TokenTree.token sign .accidental) =
      .ok (accidentals.map fun sign => .token sign .accidental) :=
    itemsOfAll_tokens (fun _ => rfl) accidentals
  have made : noteOf none [] (screened (.token pitch .pitch ::
      (accidentals.map (fun sign => Item.token sign .accidental) ++ durationItems duration))) =
        .ok (noteElement pitch accidentals duration) := by
    rw [screened, noteOf, noteOf_accidentals]
    · cases duration <;> rfl
    · simp
    · simp
    · simp
  rw [MusicItem.trees, itemsOfAll_context, List.cons_append, itemsOfAll, itemsOfAll_append, signs,
    itemsOfAll_durations filled]
  show make .note _ >>= _ = _
  rw [make, made]
  rfl

theorem itemsOfAll_rest (mark : Lexeme) {duration : Option Duration}
    (filled : ∀ length ∈ duration, length.Filled) :
    itemsOfAll (MusicItem.trees (.rest mark duration)) =
      .ok [.made .rest (.element (mark.markElement .rest (durationElements duration)))] := by
  rw [MusicItem.trees, itemsOfAll_context, itemsOfAll, itemsOfAll_durations filled]
  cases duration <;> rfl

end OfTokens

end Partbook.Source
