import Partbook.Proofs.Element.Equality
import Partbook.Proofs.Source.Visible
import Partbook.Proofs.Text.Place

namespace Partbook

open Text

namespace Source

open TokenTree

variable {tokens more : List (Lexeme × Action)} {fault : Fault}

def Lexeme.Among (tokens : List (Lexeme × Action)) (lexeme : Lexeme) : Prop :=
  ∃ action, (lexeme, action) ∈ tokens

def Fault.Among (tokens : List (Lexeme × Action)) (fault : Fault) : Prop :=
  ∃ lexeme, fault.lexeme? = some lexeme ∧ lexeme.Among tokens

theorem Fault.Among.mono (among : fault.Among tokens) (all : tokens ⊆ more) :
    fault.Among more := by
  obtain ⟨lexeme, named, action, member⟩ := among
  exact ⟨lexeme, named, action, all member⟩

theorem Fault.Among.left (among : fault.Among tokens) : fault.Among (tokens ++ more) :=
  among.mono (List.subset_append_left tokens more)

theorem Fault.Among.right (among : fault.Among more) : fault.Among (tokens ++ more) :=
  among.mono (List.subset_append_right tokens more)

theorem Fault.Among.later {token : Lexeme × Action} (among : fault.Among tokens) :
    fault.Among (token :: tokens) :=
  among.mono (List.subset_cons_self token tokens)

/-! ## Attribute changes -/

theorem among_valueElements {items : List ValueItem} (failed : valueElements items = .error fault) :
    fault.Among (tokensOfAll (items.map ValueItem.tree)) := by
  induction items with
  | nil => cases failed
  | cons item items ih =>
    cases item with
    | number digits | word text =>
      simp only [valueElements, bind_eq_error] at failed
      rcases failed with later | ⟨_, -, done⟩
      · exact (ih later).later
      · cases done
    | comment text => exact (ih failed).later
    | invalid text =>
      cases failed
      exact ⟨text, rfl, .invalid, List.mem_cons_self⟩

theorem among_changeElements {items : List ChangeItem}
    (failed : changeElements items = .error fault) :
    fault.Among (tokensOfAll (items.flatMap ChangeItem.trees)) := by
  induction items with
  | nil => cases failed
  | cons item items ih =>
    rw [List.flatMap_cons, tokensOfAll_append]
    cases item with
    | change name values =>
      simp only [changeElements, bind_eq_error] at failed
      rcases failed with values | ⟨_, -, later | ⟨_, -, done⟩⟩
      · refine Fault.Among.left ?_
        simpa [ChangeItem.trees] using (among_valueElements values).later
      · exact (ih later).right
      · cases done
    | comma text | comment text | invalid text => exact (ih failed).right

theorem among_checkChangeItems {items : List ChangeItem}
    (failed : checkChangeItems items = .error fault) :
    fault.Among (tokensOfAll (items.flatMap ChangeItem.trees)) := by
  induction items with
  | nil => cases failed
  | cons item items ih =>
    rw [List.flatMap_cons, tokensOfAll_append]
    cases item with
    | invalid text =>
      cases failed
      exact ⟨text, rfl, .invalid, List.mem_cons_self⟩
    | comma text | comment text | change name values => exact (ih failed).right

theorem Changes.among_element {changes : Changes} (failed : changes.element = .error fault) :
    fault.Among changes.tree.tokens := by
  rw [Changes.tree, tokens_context, List.cons_append, tokensOfAll_cons, tokensOfAll_append,
    tokens_token, List.singleton_append]
  simp only [Changes.element, bind_eq_error] at failed
  rcases failed with items | ⟨children, -, failed⟩
  · exact (among_changeElements items).left.later
  · split at failed
    · cases failed
      exact ⟨changes.opening, rfl, .bracketStart, List.mem_cons_self⟩
    · simp only [bind_eq_error] at failed
      rcases failed with items | ⟨_, -, done⟩
      · exact (among_checkChangeItems items).left.later
      · cases done

/-! ## Music -/

def Piece.Among (tokens : List (Lexeme × Action)) : Piece → Prop
  | .separator slash => slash.Among tokens
  | .invalid text => text.Among tokens
  | .event _ | .comment => True

theorem MusicItem.among_piece {item : MusicItem} (failed : item.piece = .error fault) :
    fault.Among (tokensOfAll item.trees) := by
  cases item with
  | changes group =>
    simp only [MusicItem.piece, bind_eq_error] at failed
    rcases failed with group | ⟨_, -, done⟩
    · simpa [MusicItem.trees] using Changes.among_element group
    · cases done
  | _ => cases failed

theorem MusicItem.piece_among {item : MusicItem} {piece : Piece} (built : item.piece = .ok piece) :
    piece.Among (tokensOfAll item.trees) := by
  cases item with
  | separator slash =>
    cases built
    exact ⟨.chordSeparator, List.mem_singleton_self _⟩
  | invalid text =>
    cases built
    exact ⟨.invalid, List.mem_singleton_self _⟩
  | changes group =>
    simp only [MusicItem.piece, bind_eq_ok, pure_eq_ok] at built
    obtain ⟨element, -, rfl⟩ := built
    trivial
  | _ =>
    cases built
    trivial

theorem Piece.Among.mono {piece : Piece} (among : piece.Among tokens) (all : tokens ⊆ more) :
    piece.Among more := by
  cases piece with
  | separator slash | invalid text =>
    obtain ⟨action, member⟩ := among
    exact ⟨action, all member⟩
  | event element | comment => trivial

theorem among_pieces {items : List MusicItem} (failed : pieces items = .error fault) :
    fault.Among (tokensOfAll (items.flatMap MusicItem.trees)) := by
  induction items with
  | nil => cases failed
  | cons item items ih =>
    rw [List.flatMap_cons, tokensOfAll_append]
    simp only [pieces, bind_eq_error] at failed
    rcases failed with first | ⟨_, -, later | ⟨_, -, done⟩⟩
    · exact (MusicItem.among_piece first).left
    · exact (ih later).right
    · cases done

theorem pieces_among {items : List MusicItem} {all : List Piece} (built : pieces items = .ok all) :
    ∀ piece ∈ all, piece.Among (tokensOfAll (items.flatMap MusicItem.trees)) := by
  induction items generalizing all with
  | nil =>
    cases built
    simp
  | cons item items ih =>
    rw [List.flatMap_cons, tokensOfAll_append]
    simp only [pieces, bind_eq_ok, pure_eq_ok] at built
    obtain ⟨piece, here, later, rest, rfl⟩ := built
    exact List.forall_mem_cons.mpr
      ⟨(MusicItem.piece_among here).mono (List.subset_append_left _ _), fun piece member =>
        (ih rest piece member).mono (List.subset_append_right _ _)⟩

/-- The separator that is open is a token too: the fault may lie with it later on. -/
theorem among_assemble {all : List Piece} {before : List Element} {opened : Option Lexeme}
    (each : ∀ piece ∈ all, piece.Among tokens) (pending : ∀ slash ∈ opened, slash.Among tokens)
    (failed : assemble before opened all = .error fault) : fault.Among tokens := by
  induction all generalizing before opened with
  | nil =>
    cases opened with
    | none => cases failed
    | some slash =>
      cases failed
      exact ⟨slash, rfl, pending slash rfl⟩
  | cons piece all ih =>
    rw [List.forall_mem_cons] at each
    cases piece with
    | comment => exact ih each.2 pending failed
    | invalid text =>
      cases failed
      exact ⟨text, rfl, each.1⟩
    | separator slash =>
      simp only [assemble] at failed
      split at failed
      · split at failed
        · refine ih each.2 ?_ failed
          rintro _ ⟨⟩
          exact each.1
        · cases failed
          exact ⟨slash, rfl, each.1⟩
      · cases failed
        exact ⟨slash, rfl, each.1⟩
    | event element =>
      simp only [assemble] at failed
      split at failed
      · exact ih each.2 (by simp) failed
      · rename_i slash last earlier
        split at failed
        · exact ih each.2 (by simp) failed
        · cases failed
          exact ⟨slash, rfl, pending slash rfl⟩
      · rename_i slash
        cases failed
        exact ⟨slash, rfl, pending slash rfl⟩

theorem among_musicElement {items : List MusicItem} (failed : musicElement items = .error fault) :
    fault.Among (tokensOfAll (items.flatMap MusicItem.trees)) := by
  simp only [musicElement, bind_eq_error] at failed
  rcases failed with inside | ⟨all, built, assembling | ⟨_, -, done⟩⟩
  · exact among_pieces inside
  · exact among_assemble (pieces_among built) (by simp) assembling
  · cases done

/-! ## Calls and parts -/

theorem Call.among_element {call : Call} (failed : call.element = .error fault) :
    fault.Among call.tree.tokens := by
  simp only [Call.element, bind_eq_error] at failed
  rcases failed with quoted | ⟨_, -, done⟩
  · cases quotation : call.quotation with
    | none =>
      rw [quotation] at quoted
      cases quoted
    | some found =>
      cases found with
      | nickname opening name closing =>
        rw [quotation] at quoted
        cases quoted
      | invalid text =>
        rw [quotation] at quoted
        cases quoted
        exact ⟨text, rfl, .invalidNickname, by simp [Call.tree, quotation, Quotation.trees]⟩
  · cases done

theorem Part.among_element {part : Part} (failed : part.element = .error fault) :
    fault.Among part.tree.tokens := by
  rw [Part.tree, tokens_context, tokensOfAll_cons, tokensOfAll_found]
  simp only [Part.element, bind_eq_error] at failed
  rcases failed with call | ⟨_, -, music | ⟨_, -, done⟩⟩
  · exact (Call.among_element call).left
  · exact (among_musicElement music).right
  · cases done

theorem among_partElements {parts : List Part} (failed : partElements parts = .error fault) :
    fault.Among (tokensOfAll (parts.map Part.tree)) := by
  induction parts with
  | nil => cases failed
  | cons part parts ih =>
    rw [List.map_cons, tokensOfAll_cons]
    simp only [partElements, bind_eq_error] at failed
    rcases failed with first | ⟨_, -, later | ⟨_, -, done⟩⟩
    · exact (Part.among_element first).left
    · exact (ih later).right
    · cases done

/-! ## Whole texts -/

theorem among_globalChanges {items : List PreludeItem}
    (failed : globalChanges items = .error fault) :
    fault.Among (tokensOfAll (items.map PreludeItem.tree)) := by
  induction items with
  | nil => cases failed
  | cons item items ih =>
    rw [List.map_cons, tokensOfAll_cons]
    cases item with
    | changes group =>
      simp only [globalChanges, bind_eq_error] at failed
      rcases failed with first | ⟨_, -, later | ⟨_, -, done⟩⟩
      · exact (Changes.among_element first).left
      · exact (ih later).right
      · cases done
    | comment text | invalid text => exact (ih failed).right

theorem among_checkPrelude {items : List PreludeItem} (failed : checkPrelude items = .error fault) :
    fault.Among (tokensOfAll (items.map PreludeItem.tree)) := by
  induction items with
  | nil => cases failed
  | cons item items ih =>
    rw [List.map_cons, tokensOfAll_cons]
    cases item with
    | invalid text =>
      cases failed
      exact ⟨text, rfl, .invalid, List.mem_cons_self⟩
    | comment text | changes group => exact (ih failed).right

namespace Document

variable {document : Document} (mode : Mode)

theorem among_scoreElement (failed : document.scoreElement = .error fault) :
    fault.Among (document.tree mode).tokens := by
  rw [Document.tree, tokens_context, tokensOfAll_append]
  simp only [scoreElement, bind_eq_error] at failed
  rcases failed with changes | ⟨_, -, parts | ⟨_, -, prelude | ⟨_, -, done⟩⟩⟩
  · exact (among_globalChanges changes).left
  · exact (among_partElements parts).right
  · exact (among_checkPrelude prelude).left
  · cases done

theorem among_partElement (failed : document.partElement = .error fault) :
    fault.Among (document.tree mode).tokens ∨ ∃ n, fault = .callCount n := by
  rw [Document.tree, tokens_context, tokensOfAll_append]
  simp only [partElement, bind_eq_error] at failed
  rcases failed with parts | ⟨_, -, prelude | ⟨_, -, count⟩⟩
  · exact .inl (among_partElements parts).right
  · exact .inl (among_checkPrelude prelude).left
  · split at count
    · cases count
    · cases count
      exact .inr ⟨_, rfl⟩

end Document

theorem among_build {rule : StartRule} {text : String} (failed : build rule text = .error fault) :
    fault.Among (TokenTree.ofText rule text).tokens ∨
      rule = .part ∧ ∃ n, fault = .callCount n := by
  cases rule with
  | score => exact .inl (Document.among_scoreElement .root failed)
  | part => exact (Document.among_partElement .part failed).imp id fun count => ⟨rfl, count⟩
  | musicData =>
    rw [TokenTree.ofText, tokens_context]
    exact .inl (among_musicElement failed)

end Source

open Source

/-! ## Errors -/

/-- The error points at a piece of the text that is not empty, and tells its line and column. -/
def ParseError.PointsInto (text : String) (error : ParseError) : Prop :=
  ∃ (pos : Nat) (piece : String) (place : Place),
    error.pos = some (pos : Int) ∧ error.text = some piece ∧ error.place = some place ∧
      pos < text.length ∧ piece ≠ "" ∧
      piece.toList = between text.toList pos (pos + piece.length) ∧
      place.Marks text.toList pos

theorem Source.Fault.Among.pointsInto {rule : StartRule} {text : String} {fault : Fault}
    (among : fault.Among (TokenTree.ofText rule text).tokens) :
    (fault.toError.locate text).PointsInto text := by
  obtain ⟨lexeme, named, action, member⟩ := among
  have lexes := Lexer.lexes_ofText rule text
  have lossless : Lexer.Lossless text.toList _ := lexes.lossless rfl
  have visible : lexeme.Visible := lexes.visible _ member
  have exact : lexeme.chars = between text.toList lexeme.span.start lexeme.span.stop :=
    lossless.exact _ member
  have nonempty : lexeme.chars ≠ [] := lossless.nonempty _ member
  obtain ⟨c, later, begins⟩ := List.exists_cons_of_ne_nil nonempty
  have first : text.toList[lexeme.pos]? = some c := by
    have here := congrArg List.head? exact
    rw [begins, between, List.head?_take, List.head?_drop] at here
    split at here
    · cases here
    · exact here.symm
  obtain ⟨inside, rfl⟩ := List.getElem?_eq_some_iff.mp first
  have parts : text.toList = text.toList.take lexeme.pos ++
      text.toList[lexeme.pos] :: text.toList.drop (lexeme.pos + 1) := by
    rw [List.getElem_cons_drop, List.take_append_drop]
  have length : (text.toList.take lexeme.pos).length = lexeme.pos :=
    List.length_take_of_le inside.le
  have other : text.toList[lexeme.pos] ≠ '\n' := by
    intro ends
    have blank := visible text.toList[lexeme.pos] (by rw [begins]; rfl)
    rw [ends] at blank
    exact absurd blank (by decide)
  have marks := Place.marks_ofPos parts other
  rw [length] at marks
  refine ⟨lexeme.pos, lexeme.text, Place.ofPos text lexeme.pos, ?_, ?_, ?_, ?_, ?_, ?_, marks⟩
  · simp [Fault.toError, named, ParseError.locate]
  · simp [Fault.toError, named, ParseError.locate]
  · simp [Fault.toError, named, ParseError.locate]
  · rwa [← String.length_toList]
  · intro empty
    exact nonempty (by simpa [Lexeme.text] using empty)
  · simpa [Lexeme.text, Lexeme.span] using exact

theorem Element.readAs_error_iff {rule : StartRule} {keep : Bool} {text : String}
    {error : ParseError} : readAs rule keep text = .error error ↔
      ∃ fault, build rule text = .error fault ∧ fault.toError.locate text = error := by
  simp only [readAs, bind_eq_error, read]
  cases build rule text with
  | ok element => simp [pure, Except.pure]
  | error fault => simp

/-- The error for a text that cannot be read points at what is wrong in the text. Only if the text
was to be a part and has no call, or more than one, there is no place to point at. -/
theorem Element.errors_point (rule : StartRule) (keep : Bool) (text : String) (error : ParseError)
    (failed : readAs rule keep text = .error error) :
    error.PointsInto text ∨
      rule = .part ∧ error.text = none ∧ error.pos = none ∧ error.place = none := by
  obtain ⟨fault, broken, rfl⟩ := readAs_error_iff.mp failed
  rcases among_build broken with among | ⟨part, n, rfl⟩
  · exact .inl among.pointsInto
  · exact .inr ⟨part, rfl, rfl, rfl⟩

theorem Element.errors_point_bracket : ∃ error,
    readAs .score false "harp \"left\": c\n  e/ (vol 5, x" = .error error ∧
      error.reason = "missing closing parenthesis after: '('" ∧ error.pos = some 20 ∧
      error.place = some ⟨2, 6⟩ ∧ error.PointsInto "harp \"left\": c\n  e/ (vol 5, x" := by
  have shown : (match readAs .score false "harp \"left\": c\n  e/ (vol 5, x" with
      | .ok _ => none
      | .error error => some error) =
      some { reason := "missing closing parenthesis after: '('", text := some "(", pos := some 20,
             place := some ⟨2, 6⟩ } := by
    decide +kernel
  cases read : readAs .score false "harp \"left\": c\n  e/ (vol 5, x" with
  | ok element =>
    rw [read] at shown
    cases shown
  | error error =>
    rw [read] at shown
    cases shown
    refine ⟨_, rfl, rfl, rfl, rfl, ?_⟩
    rcases errors_point .score false _ _ read with points | ⟨part, -⟩
    · exact points
    · cases part

end Partbook
