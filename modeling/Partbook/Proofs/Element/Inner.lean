import Partbook.Proofs.Grammar.Soundness

/-!
What stands in a tree. Music and instruments stand only at the top of what is read: there are none
of them within calls, attribute changes and events.
-/
namespace Partbook

open Source

namespace Element

theorem descendantsOfAll_eq_flatMap (elements : List Element) :
    descendantsOfAll elements = elements.flatMap fun element => element :: element.descendants := by
  induction elements with
  | nil => rfl
  | cons element elements ih => rw [descendantsOfAll, List.flatMap_cons, ih]

theorem descendants_node (label : Label) (origin : Origin) (children : List Element) :
    (node label origin children).descendants =
      children.flatMap fun child => child :: child.descendants := by
  rw [descendants, descendantsOfAll_eq_flatMap]

mutual

theorem descendants_forgetOrigins : ∀ element : Element,
    element.forgetOrigins.descendants = element.descendants.map forgetOrigins
  | node label origin children => by
    rw [forgetOrigins, descendants, descendants, descendantsOfAll_forgetOrigins children]

theorem descendantsOfAll_forgetOrigins : ∀ elements : List Element,
    descendantsOfAll (forgetOriginsOfAll elements) =
      (descendantsOfAll elements).map forgetOrigins
  | [] => rfl
  | element :: elements => by
    rw [forgetOriginsOfAll, descendantsOfAll, descendantsOfAll, List.map_append, List.map_cons,
      descendants_forgetOrigins element, descendantsOfAll_forgetOrigins elements]

end

mutual

theorem isSpelled_descendants : ∀ {element : Element}, element.isSpelled →
    ∀ inner ∈ element.descendants, inner.isSpelled
  | node label origin children, spelled => by
    rw [isSpelled, Bool.and_eq_true] at spelled
    rw [descendants]
    exact isSpelled_descendantsOfAll spelled.2

theorem isSpelled_descendantsOfAll : ∀ {elements : List Element}, allSpelled elements →
    ∀ inner ∈ descendantsOfAll elements, inner.isSpelled
  | [], _ => nofun
  | element :: elements, spelled => by
    rw [allSpelled, Bool.and_eq_true] at spelled
    rw [descendantsOfAll, List.forall_mem_append, List.forall_mem_cons]
    exact ⟨⟨spelled.1, isSpelled_descendants spelled.1⟩, isSpelled_descendantsOfAll spelled.2⟩

end

theorem eq_or_below {sought element : Element}
    (member : sought ∈ element :: element.descendants) :
    sought = element ∨ ∃ child ∈ element.children, sought ∈ child :: child.descendants := by
  obtain ⟨label, origin, children⟩ := element
  rw [descendants_node, List.mem_cons, List.mem_flatMap] at member
  exact member

def Inner (element : Element) : Prop :=
  ∀ inner ∈ element :: element.descendants,
    inner.kind ≠ .plain .instrument ∧ inner.kind ≠ .plain .musicData

variable {label : Label} {origin : Origin} {below : List Element}

theorem inner_node (kind : label.kind ≠ .plain .instrument ∧ label.kind ≠ .plain .musicData)
    (each : ∀ child ∈ below, child.Inner) : (node label origin below).Inner := by
  rw [Inner, descendants_node, List.forall_mem_cons]
  refine ⟨kind, fun inner member => ?_⟩
  obtain ⟨child, within, member⟩ := List.mem_flatMap.mp member
  exact each child within inner member

theorem inner_plain {kind : PlainKind} (other : kind ≠ .instrument ∧ kind ≠ .musicData)
    (each : ∀ child ∈ below, child.Inner) : (plain kind below).Inner :=
  inner_node (by simpa [Label.kind] using other) each

theorem Inner.children {element : Element} (inner : element.Inner) :
    ∀ child ∈ element.children, child.Inner := by
  obtain ⟨label, origin, children⟩ := element
  intro child within deep member
  refine inner deep (List.mem_cons_of_mem _ ?_)
  rw [descendants_node]
  exact List.mem_flatMap.mpr ⟨child, within, member⟩

theorem inner_of_forgetOrigins {element : Element} (inner : element.forgetOrigins.Inner) :
    element.Inner := by
  intro deep member
  have there := inner deep.forgetOrigins (by
    rw [descendants_forgetOrigins, ← List.map_cons (f := forgetOrigins)]
    exact List.mem_map_of_mem member)
  rwa [kind_forgetOrigins] at there

def musics (element : Element) : List Element :=
  (element :: element.descendants).filter (·.kind = .plain .musicData)

def events (element : Element) : List Element := element.musics.flatMap Element.children

theorem Inner.musics {element : Element} (inner : element.Inner) : element.musics = [] :=
  List.filter_eq_nil_iff.mpr fun deep member => by simpa using (inner deep member).2

theorem Inner.events {element : Element} (inner : element.Inner) : element.events = [] := by
  rw [Element.events, inner.musics, List.flatMap_nil]

theorem events_node (other : label.kind ≠ .plain .musicData) :
    (node label origin below).events = below.flatMap events := by
  have each : (node label origin below).musics = below.flatMap musics := by
    rw [Element.musics, descendants_node, List.filter_cons_of_neg, List.filter_flatMap]
    · rfl
    · exact fun same => other (of_decide_eq_true same)
  rw [events, each, List.flatMap_assoc]
  rfl

theorem events_music (each : ∀ child ∈ below, child.Inner) :
    (node (.plain .musicData) origin below).events = below := by
  have none : below.flatMap musics = [] :=
    List.flatMap_eq_nil_iff.mpr fun child member => (each child member).musics
  have all : (node (.plain .musicData) origin below).musics =
      node (.plain .musicData) origin below :: below.flatMap musics := by
    rw [Element.musics, descendants_node, List.filter_cons_of_pos (by rfl), List.filter_flatMap]
    rfl
  rw [events, all, none, List.flatMap_singleton]
  rfl

end Element

namespace Grammar

open Element

variable {text rest : List Char}

theorem inner_leaf (kind : TextKind) (chars : List Char) : (leaf kind chars).Inner :=
  inner_node (by simp [Label.kind]) (by simp)

theorem Marks.inner {marks : List Element} (said : Marks text marks rest) :
    ∀ mark ∈ marks, mark.Inner := by
  induction said with
  | done noLength noTie => simp
  | @length digits dots rest later marks number dotted whole said ih =>
    refine List.forall_mem_cons.mpr ⟨inner_plain (by decide) ?_, ih⟩
    refine List.forall_mem_cons.mpr ⟨inner_leaf _ _, ?_⟩
    split
    · simp
    · exact List.forall_mem_singleton.mpr (inner_leaf _ _)
  | tie number said ih =>
    exact List.forall_mem_cons.mpr ⟨inner_plain (by decide) (by simp), ih⟩

theorem Lasts.inner {duration : List Element} (lasts : Lasts text duration rest) :
    ∀ element ∈ duration, element.Inner := by
  cases lasts with
  | unsaid => simp
  | said nonempty said =>
    exact List.forall_mem_singleton.mpr (inner_plain (by decide) said.inner)
  | slurred said =>
    refine List.forall_mem_singleton.mpr (inner_plain (by decide) ?_)
    refine List.forall_mem_append.mpr ⟨said.inner, List.forall_mem_singleton.mpr ?_⟩
    exact inner_plain (by decide) (by simp)

theorem Values.inner {values : List Element} (valued : Values text values rest) :
    ∀ value ∈ values, value.Inner := by
  induction valued with
  | done ends => simp
  | gap gap valued ih => exact ih
  | number number valued ih | word word valued ih =>
    exact List.forall_mem_cons.mpr ⟨inner_leaf _ _, ih⟩

theorem Changes.inner {changes : List Element} (closed : Changes text changes rest) :
    ∀ change ∈ changes, change.Inner := by
  induction closed with
  | close => simp
  | gap gap closed ih | comma closed ih => exact ih
  | change first closed ih =>
    refine List.forall_mem_cons.mpr ⟨?_, ih⟩
    cases first with
    | here named unmarked valued | everywhere named valued =>
      exact inner_plain (by decide) (List.forall_mem_cons.mpr ⟨inner_leaf _ _, valued.inner⟩)

theorem Event.inner {tree : Element} (event : Event text tree rest) : tree.Inner := by
  cases event with
  | note pitch signs lasts =>
    refine inner_plain (by decide) (List.forall_mem_cons.mpr ⟨?_, lasts.inner⟩)
    refine inner_node (by simp [Label.kind, leaf, Element.text, Element.label]) ?_
    rw [List.forall_mem_map]
    exact fun c _ => inner_leaf _ _
  | rest alone lasts => exact inner_plain (by decide) lasts.inner
  | octaveSet nonempty decimal =>
    exact inner_plain (by decide) (List.forall_mem_singleton.mpr (inner_leaf _ _))
  | @sign c kind rest sign =>
    have one : ∀ sign ∈ signs, sign.2 ≠ .instrument ∧ sign.2 ≠ .musicData := by decide
    exact inner_plain (one _ sign) (by simp)
  | changes closed => exact inner_plain (by decide) closed.inner

end Grammar

end Partbook
