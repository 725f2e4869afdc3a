import Partbook.Proofs.Form.Projection
import Partbook.Proofs.Grammar.Accepted
import Partbook.Proofs.Kind

/-!
Elements restored from their forms. The form of music tells the music up to the spelling of its
numbers: a number and the size of dots are both integers, and a tie and a slur are both symbols, but
dots stand only behind the number of a note length, and the tags of all kinds differ.
-/
namespace Partbook

open Source Text

def Label.withValue : Label → Label
  | .text .number (.text s) => .text .number ((Text.int? s).elim (.text s) .int)
  | label => label

namespace Element

mutual

/-- The same tree, with the value of each number in the place of its digits. -/
def withValues : Element → Element
  | node label origin children => node label.withValue origin (withValuesOfAll children)

def withValuesOfAll : List Element → List Element
  | [] => []
  | element :: elements => element.withValues :: withValuesOfAll elements

end

theorem withValuesOfAll_eq_map (elements : List Element) :
    withValuesOfAll elements = elements.map withValues := by
  induction elements with
  | nil => rfl
  | cons element elements ih => rw [withValuesOfAll, List.map_cons, ih]

theorem withValues_plain (kind : PlainKind) (children : List Element) :
    (plain kind children).withValues = plain kind (children.map withValues) := by
  rw [plain, withValues, withValuesOfAll_eq_map]
  rfl

mutual

theorem withValues_forgetOrigins : ∀ element : Element,
    element.forgetOrigins.withValues = element.withValues.forgetOrigins
  | node label origin children => by
    simp only [forgetOrigins, withValues, withValuesOfAll_forgetOrigins children]

theorem withValuesOfAll_forgetOrigins : ∀ elements : List Element,
    withValuesOfAll (forgetOriginsOfAll elements) = forgetOriginsOfAll (withValuesOfAll elements)
  | [] => rfl
  | element :: elements => by
    simp only [forgetOriginsOfAll, withValuesOfAll, withValues_forgetOrigins element,
      withValuesOfAll_forgetOrigins elements]

end

end Element

/-! ## Music of the grammar -/

open Grammar Element

/-- Trees as they are read of music. Dots stand in note lengths only, and nothing below numbers,
ties and slurs. -/
inductive Legible : Element → Prop
  | number {digits : List Char} (nonempty : digits ≠ []) (decimal : ∀ c ∈ digits, isDecimal c) :
      Legible (leaf .number digits)
  | length {digits dots : List Char} (nonempty : digits ≠ [])
      (decimal : ∀ c ∈ digits, isDecimal c) (dotted : ∀ c ∈ dots, c = '.') :
      Legible (noteLength digits dots)
  | tilde {kind : PlainKind} (tilde : kind = .tie ∨ kind = .slur) : Legible (.plain kind [])
  | plain {kind : PlainKind} {children : List Element}
      (other : kind ∉ [.node, .noteLength, .tie, .slur])
      (below : ∀ child ∈ children, Legible child) : Legible (.plain kind children)
  | text {kind : TextKind} {chars : List Char} {children : List Element}
      (other : kind ∉ [.number, .dots, .track]) (below : ∀ child ∈ children, Legible child) :
      Legible ((leaf kind chars).withChildren children)

theorem Legible.leaf {kind : TextKind} (other : kind ∉ [.number, .dots, .track])
    (chars : List Char) : Legible (leaf kind chars) :=
  @Legible.text kind chars [] other (by simp)

namespace Grammar

theorem Marks.legible {text rest : List Char} {marks : List Element}
    (said : Marks text marks rest) : ∀ mark ∈ marks, Legible mark := by
  induction said with
  | done noLength noTie => simp
  | length number dotted whole more ih =>
    exact List.forall_mem_cons.mpr ⟨.length number.nonempty number.decimal dotted, ih⟩
  | tie number more ih => exact List.forall_mem_cons.mpr ⟨.tilde (.inl rfl), ih⟩

theorem Lasts.legible {text rest : List Char} {duration : List Element}
    (lasts : Lasts text duration rest) : ∀ length ∈ duration, Legible length := by
  cases lasts with
  | unsaid => simp
  | said nonempty said => simpa using Legible.plain (by decide) said.legible
  | slurred said =>
    have parts := List.forall_mem_append.mpr
      ⟨said.legible, List.forall_mem_singleton.mpr (.tilde (.inr rfl))⟩
    simpa using @Legible.plain .duration _ (by decide) parts

theorem Values.legible {text rest : List Char} {values : List Element}
    (valued : Values text values rest) : ∀ value ∈ values, Legible value := by
  induction valued with
  | done ends => simp
  | gap gap more ih => exact ih
  | number number more ih =>
    exact List.forall_mem_cons.mpr ⟨.number number.nonempty number.decimal, ih⟩
  | word word more ih => exact List.forall_mem_cons.mpr ⟨.leaf (by decide) _, ih⟩

theorem Change.legible {text rest : List Char} {change : Element}
    (changed : Change text change rest) : Legible change := by
  cases changed with
  | here named unmarked valued | everywhere named valued =>
    exact .plain (by decide) (List.forall_mem_cons.mpr ⟨.leaf (by decide) _, valued.legible⟩)

theorem Changes.legible {text rest : List Char} {changes : List Element}
    (closed : Changes text changes rest) : ∀ change ∈ changes, Legible change := by
  induction closed with
  | close => simp
  | gap gap more ih | comma more ih => exact ih
  | change first more ih => exact List.forall_mem_cons.mpr ⟨first.legible, ih⟩

theorem Event.legible {text rest : List Char} {tree : Element} (event : Event text tree rest) :
    Legible tree := by
  cases event with
  | note pitch signs lasts =>
    refine .plain (by decide) (List.forall_mem_cons.mpr ⟨.text (by decide) ?_, lasts.legible⟩)
    intro accidental member
    obtain ⟨c, -, rfl⟩ := List.mem_map.mp member
    exact .leaf (by decide) _
  | rest alone lasts => exact .plain (by decide) lasts.legible
  | octaveSet nonempty decimal =>
    exact .plain (by decide) (List.forall_mem_singleton.mpr (.number nonempty decimal))
  | sign sign =>
    simp only [signs, List.mem_cons, Prod.mk.injEq, List.not_mem_nil, or_false] at sign
    rcases sign with ⟨-, rfl⟩ | ⟨-, rfl⟩ | ⟨-, rfl⟩ <;> exact .plain (by decide) (by simp)
  | changes closed => exact .plain (by decide) closed.legible

theorem Phrased.legible {tokens : List Token} {events : List Element}
    (phrased : Phrased tokens events) (each : ∀ tree, .event tree ∈ tokens → Legible tree) :
    ∀ event ∈ events, Legible event := by
  induction phrased with
  | done => simp
  | event more ih =>
    exact List.forall_mem_cons.mpr ⟨each _ List.mem_cons_self,
      ih fun tree member => each tree (List.mem_cons_of_mem _ member)⟩
  | @chord notes tokens events several sounding more ih =>
    refine List.forall_mem_cons.mpr ⟨.plain (by decide) fun note member => each note ?_,
      ih fun tree member => each tree (List.mem_append_right _ member)⟩
    obtain ⟨first, notes, rfl⟩ := List.exists_cons_of_ne_nil (List.ne_nil_of_mem member)
    rw [chordTokens_cons]
    rcases List.mem_cons.mp member with rfl | within
    · simp
    · simp [within]

theorem Music.legible {text : String} {events : List Element} (music : Music text events) :
    Legible (.plain .musicData events) := by
  obtain ⟨tokens, lexed, phrased⟩ := music
  refine .plain (by decide) (phrased.legible fun tree member => ?_)
  obtain ⟨_, _, event⟩ := lexed.event_of_mem member
  exact event.legible

end Grammar

/-! ## Restoring -/

namespace Form

/-- An element made of its tag and of what its arguments were taken for. A constant is taken for a
number at first; it can turn out to be the size of dots or the head of a text element. -/
def rebuild : Kind → List Element → Option Element
  | .plain .noteLength, [number, .node (.text .number (.int count)) _ _] =>
    some (.plain .noteLength [number, leaf .dots (List.replicate count.toNat '.')])
  | .plain kind, children => some (.plain kind children)
  | .text kind, .node (.text .number head) _ _ :: children =>
    some (.node (.text kind head) {} children)
  | .text _, _ => none

theorem rebuild_dotted (number : Element) (count : Nat) :
    rebuild (.plain .noteLength) [number, .text .number (.int count)] =
      some (.plain .noteLength [number, leaf .dots (List.replicate count '.')]) := rfl

mutual

def restore : Form → Option Element
  | atom value => some (.text .number value)
  | symbol tag => do rebuild (← Kind.ofTag? tag) []
  | apply (symbol tag) args => do rebuild (← Kind.ofTag? tag) (← restoreAll args)
  | apply _ _ => none

def restoreAll : List Form → Option (List Element)
  | [] => some []
  | form :: forms => do return (← restore form) :: (← restoreAll forms)

end

theorem restore_symbol (kind : Kind) : restore (symbol kind.tag) = rebuild kind [] := by
  rw [restore, Kind.ofTag?_tag]
  rfl

theorem restore_apply (kind : Kind) {args : List Form} {children : List Element}
    (below : restoreAll args = some children) :
    restore (apply (symbol kind.tag) args) = rebuild kind children := by
  rw [restore, Kind.ofTag?_tag, below]
  rfl

theorem rebuild_plain {kind : PlainKind} (other : kind ≠ .noteLength) (children : List Element) :
    rebuild (.plain kind) children = some (.plain kind children) := by
  cases kind with
  | noteLength => exact absurd rfl other
  | _ => rfl

def Restores (tree : Element) : Prop :=
  ∃ form, ofElement tree = .ok form ∧ restore form = some tree.withValues

theorem restoreAll_forms {children : List Element} (each : ∀ child ∈ children, Restores child) :
    ∃ forms, ofElements children = .ok forms ∧
      restoreAll forms = some (children.map withValues) := by
  induction children with
  | nil => exact ⟨[], rfl, rfl⟩
  | cons child children ih =>
    rw [List.forall_mem_cons] at each
    obtain ⟨form, here, restored⟩ := each.1
    obtain ⟨forms, later, rest⟩ := ih each.2
    refine ⟨form :: forms, ?_, ?_⟩
    · rw [ofElements, here, later]
      rfl
    · rw [restoreAll, restored, rest]
      rfl

theorem restores_number {digits : List Char} (nonempty : digits ≠ [])
    (decimal : ∀ c ∈ digits, isDecimal c) : ∃ n : Int,
      ofElement (leaf .number digits) = .ok (atom (.int n)) ∧
        (leaf .number digits).withValues = .text .number (.int n) := by
  have numeral : (Text.int? (String.ofList digits)).isSome :=
    int?_isSome (by simpa using nonempty) (by simpa using decimal)
  obtain ⟨n, value⟩ := Option.isSome_iff_exists.mp numeral
  refine ⟨n, ?_, ?_⟩
  · simp [leaf, Element.text, ofElement, numberOf, value]
  · simp [leaf, Element.text, withValues, withValuesOfAll, Label.withValue, value]

theorem ofElement_plain {kind : PlainKind} (other : kind ∉ [.node, .tie, .slur])
    {children : List Element} {forms : List Form} (all : ofElements children = .ok forms) :
    ofElement (.plain kind children) = .ok (apply (symbol (Kind.plain kind).tag) forms) := by
  cases kind with
  | node | tie | slur => exact absurd other (by decide)
  | _ =>
    simp only [Element.plain, ofElement, all]
    rfl

theorem ofElement_text {kind : TextKind} (other : kind ∉ [.number, .dots, .track]) {head : Datum}
    {origin : Origin} {children : List Element} {forms : List Form}
    (all : ofElements children = .ok forms) :
    ofElement (.node (.text kind head) origin children) =
      .ok (apply (symbol (Kind.text kind).tag) (atom head :: forms)) := by
  cases kind with
  | number | dots | track => exact absurd other (by decide)
  | _ =>
    simp only [ofElement, all]
    rfl

theorem withValue_text {kind : TextKind} (other : kind ≠ .number) (head : Datum) :
    (Label.text kind head).withValue = .text kind head := by
  cases kind with
  | number => exact absurd rfl other
  | _ => rfl

theorem ofElement_noteLength {digits : List Char} {n : Int}
    (number : ofElement (leaf .number digits) = .ok (atom (.int n))) (dots : List Char) :
    ofElement (Grammar.noteLength digits dots) =
      .ok (apply (symbol (Kind.plain .noteLength).tag)
        (atom (.int n) :: if dots = [] then [] else [atom (.int dots.length)])) := by
  refine ofElement_plain (by decide) ?_
  rw [ofElements, number]
  split
  · rfl
  · have count : ofElement (leaf .dots dots) = .ok (atom (.int dots.length)) := by
      simp [leaf, Element.text, ofElement, countOf, Datum.size?]
    rw [ofElements, count]
    rfl

theorem restores_noteLength {digits dots : List Char} (nonempty : digits ≠ [])
    (decimal : ∀ c ∈ digits, isDecimal c) (dotted : ∀ c ∈ dots, c = '.') :
    Restores (Grammar.noteLength digits dots) := by
  obtain ⟨n, number, value⟩ := restores_number nonempty decimal
  have dotless : (leaf .dots dots).withValues = leaf .dots dots := rfl
  rw [Restores, ofElement_noteLength number, Grammar.noteLength, withValues_plain]
  refine ⟨_, rfl, ?_⟩
  by_cases bare : dots = []
  · rw [if_pos bare, if_pos bare, List.map_singleton, value]
    exact (restore_apply (.plain .noteLength) rfl).trans rfl
  · have size : List.replicate dots.length '.' = dots :=
      (List.eq_replicate_iff.mpr ⟨rfl, dotted⟩).symm
    rw [if_neg bare, if_neg bare, List.map_cons, List.map_singleton, value, dotless]
    refine (restore_apply (.plain .noteLength) rfl).trans ?_
    rw [rebuild_dotted, size]

theorem tag_tilde {kind : PlainKind} (tilde : kind = .tie ∨ kind = .slur) :
    (Kind.plain kind).tag = if kind = .tie then "tie" else "slur" := by
  rcases tilde with rfl | rfl <;> decide

/-- Nothing is lost of a tree that is read of music but the spelling of its numbers. -/
theorem restores {tree : Element} (legible : Legible tree) : Restores tree := by
  induction legible with
  | number nonempty decimal =>
    obtain ⟨n, form, value⟩ := restores_number nonempty decimal
    exact ⟨_, form, by rw [value, restore]⟩
  | length nonempty decimal dotted => exact restores_noteLength nonempty decimal dotted
  | @tilde kind tilde =>
    have form : ofElement (.plain kind []) = .ok (symbol (Kind.plain kind).tag) := by
      rw [tag_tilde tilde]
      rcases tilde with rfl | rfl <;> rfl
    refine ⟨_, form, ?_⟩
    rw [restore_symbol, rebuild_plain (by rcases tilde with rfl | rfl <;> decide), withValues_plain]
    rfl
  | @plain kind children other below ih =>
    simp only [List.mem_cons, List.not_mem_nil, or_false, not_or] at other
    obtain ⟨forms, all, restored⟩ := restoreAll_forms ih
    refine ⟨_, ofElement_plain (by simp [other]) all, ?_⟩
    rw [restore_apply _ restored, rebuild_plain other.2.1, withValues_plain]
  | @text kind chars children other below ih =>
    obtain ⟨forms, all, restored⟩ := restoreAll_forms ih
    refine ⟨_, ofElement_text other all, ?_⟩
    -- the head is restored as a number and only then taken for the head
    have args : restoreAll (atom (.text (String.ofList chars)) :: forms) =
        some (.text .number (.text (String.ofList chars)) :: children.map withValues) := by
      rw [restoreAll, restored]
      rfl
    have label : (Label.text kind (.text (String.ofList chars))).withValue =
        .text kind (.text (String.ofList chars)) := by
      apply withValue_text
      rintro rfl
      exact other (by decide)
    rw [restore_apply _ args, leaf, Element.text, withChildren, withValues, withValuesOfAll_eq_map]
    exact congrArg (fun label => some (Element.node label {} _)) label.symm

/-! ## Spelling -/

theorem numberOf_value {s : String} {n : Int} (value : Text.int? s = some n) :
    numberOf (.text s) = numberOf (.int n) := by
  simp [numberOf, value, Datum.int?]

mutual

theorem ofElement_withValues : ∀ element : Element,
    ofElement element.withValues = ofElement element
  | .node label origin children => by
    have below := ofElements_withValues children
    have length : (withValuesOfAll children).length = children.length := by
      rw [withValuesOfAll_eq_map, List.length_map]
    rw [withValues]
    cases label with
    | plain kind => cases kind <;> simp only [Label.withValue, ofElement, below, length]
    | text kind head =>
      cases kind with
      | number =>
        cases head with
        | text s =>
          cases value : Text.int? s with
          | none => simp only [Label.withValue, ofElement, value, Option.elim]
          | some n =>
            simp only [Label.withValue, ofElement, value, Option.elim, numberOf_value value]
        | _ => simp only [Label.withValue, ofElement]
      | _ => simp only [Label.withValue, ofElement, below]

theorem ofElements_withValues : ∀ elements : List Element,
    ofElements (withValuesOfAll elements) = ofElements elements
  | [] => rfl
  | element :: elements => by
    rw [withValuesOfAll, ofElements, ofElements, ofElement_withValues element,
      ofElements_withValues elements]

end

end Form

theorem Label.exists_value {kind : TextKind} {head : Datum}
    (spelled : (Label.text kind head).isSpelled) :
    ∃ value, (Label.text kind head).withValue = .text kind value ∧
      ((∃ s, value = .text s) ∨ ∃ n, value = .int n) := by
  cases head with
  | text s =>
    cases kind with
    | number =>
      cases value : Text.int? s with
      | none => exact ⟨.text s, by simp [withValue, value], .inl ⟨s, rfl⟩⟩
      | some n => exact ⟨.int n, by simp [withValue, value], .inr ⟨n, rfl⟩⟩
    | _ => exact ⟨.text s, rfl, .inl ⟨s, rfl⟩⟩
  | _ => cases kind <;> cases spelled

theorem Label.withValue_eq_of_same {label label' : Label} (spelled : label.isSpelled)
    (spelled' : label'.isSpelled) (same : label.withValue.same label'.withValue) :
    label.withValue = label'.withValue := by
  cases label with
  | plain kind =>
    cases label' with
    | plain kind' => simpa [withValue, Label.same] using same
    | text kind' head' =>
      obtain ⟨value, has, -⟩ := exists_value spelled'
      rw [has] at same
      cases same
  | text kind head =>
    obtain ⟨value, has, simple⟩ := exists_value spelled
    cases label' with
    | plain kind' =>
      rw [has] at same
      cases same
    | text kind' head' =>
      obtain ⟨value', has', simple'⟩ := exists_value spelled'
      rw [has, has'] at same ⊢
      simp only [Label.same, Bool.and_eq_true, beq_iff_eq] at same
      obtain ⟨rfl, same⟩ := same
      rcases simple with ⟨s, rfl⟩ | ⟨n, rfl⟩ <;> rcases simple' with ⟨s', rfl⟩ | ⟨n', rfl⟩ <;>
        simp only [Datum.same, Datum.int?, beq_iff_eq, Option.some.injEq, reduceCtorEq] at same <;>
        rw [same]

mutual

theorem Element.forgetOrigins_eq_of_same : ∀ {element other : Element}, element.isSpelled →
    other.isSpelled → element.withValues.same other.withValues →
    element.withValues.forgetOrigins = other.withValues.forgetOrigins
  | .node label origin children, .node label' origin' children', spelled, spelled', same => by
    simp only [isSpelled, Bool.and_eq_true] at spelled spelled'
    simp only [withValues, Element.same, Bool.and_eq_true] at same
    simp only [withValues, forgetOrigins]
    rw [Label.withValue_eq_of_same spelled.1 spelled'.1 same.1,
      forgetOriginsOfAll_eq_of_same spelled.2 spelled'.2 same.2]

theorem Element.forgetOriginsOfAll_eq_of_same : ∀ {elements others : List Element},
    allSpelled elements → allSpelled others →
    sameAll (withValuesOfAll elements) (withValuesOfAll others) →
    forgetOriginsOfAll (withValuesOfAll elements) = forgetOriginsOfAll (withValuesOfAll others)
  | [], [], _, _, _ => rfl
  | [], _ :: _, _, _, same | _ :: _, [], _, _, same => by cases same
  | element :: elements, other :: others, spelled, spelled', same => by
    simp only [allSpelled, Bool.and_eq_true] at spelled spelled'
    simp only [withValuesOfAll, sameAll, Bool.and_eq_true] at same
    simp only [withValuesOfAll, forgetOriginsOfAll]
    rw [forgetOrigins_eq_of_same spelled.1 spelled'.1 same.1,
      forgetOriginsOfAll_eq_of_same spelled.2 spelled'.2 same.2]

end

/-! ## Music -/

theorem legible_of_readAs {keep : Bool} {text : String} {music : Element}
    (read : readAs .musicData keep text = .ok music) :
    Legible music.forgetOrigins ∧ music.forgetOrigins.isSpelled := by
  obtain ⟨built, whole, -⟩ := readAs_ok_iff.mp read
  have shape : musicElement (musicOfText text) = .ok built := whole
  simp only [musicElement, bind_eq_ok, pure_eq_ok] at shape
  obtain ⟨_, -, events, -, rfl⟩ := shape
  have grammar : Music text (events.map forgetOrigins) := music_iff.mpr ⟨events, whole, rfl⟩
  have spelled := isSpelled_musicElement (numeric_musicOfText text) whole
  rw [forgetOrigins_readAs read whole]
  exact ⟨forgetOrigins_plain .musicData events ▸ grammar.legible, isSpelled_forgetOrigins spelled⟩

/-- All music has a form, and two pieces of music have one form if and only if they are the same but
for the digits that spell the numbers. -/
theorem Form.ofElement_inj {keep keep' : Bool} {text text' : String} {music music' : Element}
    (read : readAs .musicData keep text = .ok music)
    (read' : readAs .musicData keep' text' = .ok music') :
    ∃ form form', ofElement music = .ok form ∧ ofElement music' = .ok form' ∧
      (form = form' ↔ music.withValues.same music'.withValues) := by
  obtain ⟨legible, spelled⟩ := legible_of_readAs read
  obtain ⟨legible', spelled'⟩ := legible_of_readAs read'
  obtain ⟨form, has, restored⟩ := restores legible
  obtain ⟨form', has', restored'⟩ := restores legible'
  -- the grammar knows the trees without their origins, and neither side looks at those
  rw [← same_forgetOrigins, ← withValues_forgetOrigins, ← withValues_forgetOrigins]
  refine ⟨form, form', ?_, ?_, ?_, ?_⟩
  · rwa [ofElement_forgetOrigins] at has
  · rwa [ofElement_forgetOrigins] at has'
  · rintro rfl
    rw [Option.some.inj (restored.symm.trans restored')]
    exact same_self _
  · intro same
    have trees := forgetOrigins_eq_of_same spelled spelled' same
    have forms := congrArg ofElement trees
    rw [ofElement_forgetOrigins, ofElement_forgetOrigins, ofElement_withValues,
      ofElement_withValues, has, has'] at forms
    exact Except.ok.inj forms

theorem Form.ofElement_inj_spellings : ∃ music music' form,
    readAs .musicData true "c+04.~2~ (vol 07)" = .ok music ∧
      readAs .musicData false "c+٤.~2~(vol 7)" = .ok music' ∧ music.same music' = false ∧
      ofElement music = .ok form ∧ ofElement music' = .ok form := by
  have reads : ((readAs .musicData true "c+04.~2~ (vol 07)").toOption.bind fun music =>
      (readAs .musicData false "c+٤.~2~(vol 7)").toOption.map fun music' =>
        (music.same music', music.withValues.same music'.withValues)) = some (false, true) := by
    decide +kernel
  obtain ⟨music, read, both⟩ := Option.bind_eq_some_iff.mp reads
  obtain ⟨music', read', compared⟩ := Option.map_eq_some_iff.mp both
  rw [toOption_eq_some] at read read'
  obtain ⟨form, form', has, has', iff⟩ := ofElement_inj read read'
  have one : form = form' := iff.mpr (congrArg Prod.snd compared)
  exact ⟨music, music', form, read, read', congrArg Prod.fst compared, has, one ▸ has'⟩

end Partbook
