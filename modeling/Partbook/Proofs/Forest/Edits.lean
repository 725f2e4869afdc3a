import Partbook.Forest.Basic
import Partbook.Proofs.Forest.Slots
import Partbook.Proofs.Results

/-!
Edits of a forest, one after another. An edit changes the list of one node and links what it added
there. As long as every node is added only once, each child is linked to the node in whose list it
is.
-/
namespace Partbook

/-! ## Edits -/

inductive ListEdit where
  | append (node : NodeId)
  | extend (nodes : List NodeId)
  | insert (i : Int) (node : NodeId)
  | replace (i : Int) (node : NodeId)
  | replaceSlice (slice : Slice) (nodes : List NodeId)
  | remove (i : Int)

namespace ListEdit

def added : ListEdit → List NodeId
  | append node | insert _ node | replace _ node => [node]
  | extend nodes | replaceSlice _ nodes => nodes
  | remove _ => []

def apply (list : List NodeId) : ListEdit → Except EditError (List NodeId)
  | append node => .ok (list ++ [node])
  | extend nodes => .ok (list ++ nodes)
  | insert i node => .ok (Slot.insertAt i node list)
  | replace i node => Slot.replaceAt i node list
  | replaceSlice slice nodes => slice.replace nodes list
  | remove i => Slot.removeAt i list

theorem apply_subperm {edit : ListEdit} {list edited : List NodeId}
    (applied : edit.apply list = .ok edited) : edited.Subperm (edit.added ++ list) := by
  cases edit with
  | append node | extend nodes =>
    cases applied
    exact List.perm_append_comm.subperm
  | insert i node =>
    cases applied
    exact (Slot.insertAt_perm i node list).subperm
  | replace i node => exact Slot.replaceAt_subperm applied
  | replaceSlice slice nodes => exact Slice.replace_subperm applied
  | remove i => exact Slot.removeAt_subperm applied

theorem mem_apply {edit : ListEdit} {list edited : List NodeId}
    (applied : edit.apply list = .ok edited) : ∀ node ∈ edit.added, node ∈ edited := by
  cases edit with
  | append node | extend nodes =>
    cases applied
    exact fun node member => List.mem_append_right _ member
  | insert i node =>
    cases applied
    exact List.forall_mem_singleton.mpr ((Slot.insertAt_perm i node list).mem_iff.mpr
      List.mem_cons_self)
  | replace i node => exact List.forall_mem_singleton.mpr (Slot.mem_replaceAt applied)
  | replaceSlice slice nodes => exact Slice.mem_replace applied
  | remove i => nofun

end ListEdit

inductive Edit where
  | grow (label : Label) (origin : Origin) (children : List NodeId)
  | change (id : NodeId) (edit : ListEdit)

namespace Edit

def target? : Edit → Option NodeId
  | grow .. => none
  | change id _ => some id

def place (forest : Forest) : Edit → NodeId
  | grow .. => forest.links.size
  | change id _ => id

def added : Edit → List NodeId
  | grow _ _ children => children
  | change _ edit => edit.added

def apply (forest : Forest) : Edit → Except EditError Forest
  | grow label origin children => .ok (forest.grow label origin children).1
  | change id (.append node) => .ok (forest.append id node)
  | change id (.extend nodes) => .ok (forest.extend id nodes)
  | change id (.insert i node) => .ok (forest.insert id i node)
  | change id (.replace i node) => forest.replace id i node
  | change id (.replaceSlice slice nodes) => forest.replaceSlice id slice nodes
  | change id (.remove i) => forest.remove id i

theorem apply_change (forest : Forest) (id : NodeId) (edit : ListEdit) :
    (change id edit).apply forest =
      (edit.apply (forest.children id)).map fun children =>
        forest.rewire id children edit.added := by
  cases edit <;> rfl

end Edit

/-! ## Editing in place -/

namespace Forest

/-- A step in a forest. If it fails, the forest stays as it is by then. -/
abbrev Step := ExceptT EditError (StateM Forest)

def Step.ofExcept {α : Type} : Except EditError α → Step α
  | .ok value => pure value
  | .error cause => throw cause

def link (parent : NodeId) (nodes : List NodeId) : Step Unit :=
  forM nodes fun node =>
    modify fun forest => forest.update node fun link => { link with parent := some parent }

end Forest

open Forest in
/-- The edit as it goes: first the list is edited, then what it added is linked. -/
def Edit.enter : Edit → Forest.Step Unit
  | grow label origin children => do
    let id := (← get).links.size
    modify fun forest =>
      { links := forest.links.push { label, origin, children, parent := none } }
    link id children
  | change id edit => do
    let children ← Step.ofExcept (edit.apply ((← get).children id))
    modify fun forest => forest.update id fun link => { link with children }
    link id edit.added

namespace Forest

theorem run_ofExcept {α : Type} (result : Except EditError α) (forest : Forest) :
    (Step.ofExcept result).run.run forest = (result, forest) := by
  cases result <;> rfl

theorem run_link (parent : NodeId) (nodes : List NodeId) (forest : Forest) :
    (link parent nodes).run.run forest = (.ok (), forest.adopt parent nodes) := by
  induction nodes generalizing forest with
  | nil => rfl
  | cons node nodes ih =>
    rw [link, List.forM_cons, run_bind]
    exact ih _

theorem run_enter (edit : Edit) (forest : Forest) : edit.enter.run.run forest =
    match edit.apply forest with
    | .ok after => (.ok (), after)
    | .error cause => (.error cause, forest) := by
  cases edit with
  | grow label origin children => exact run_link _ _ _
  | change id edit =>
    have start : (get : Step Forest).run.run forest = (.ok forest, forest) := rfl
    simp only [Edit.apply_change, Edit.enter, run_bind, start, run_ofExcept]
    cases edit.apply (forest.children id) with
    | ok children => exact run_link _ _ _
    | error cause => rfl

/-! ## What an edit changes -/

variable {forest after : Forest} {added : List NodeId}

theorem link?_update (forest : Forest) (id : NodeId) (change : Link → Link) (n : NodeId) :
    (forest.update id change).link? n =
      if n = id then (forest.link? n).map change else forest.link? n := by
  rw [link?, update, Array.getElem?_modify]
  simp only [eq_comm (a := id)]
  rfl

@[simp] theorem size_adopt (forest : Forest) (parent : NodeId) (nodes : List NodeId) :
    (forest.adopt parent nodes).links.size = forest.links.size := by
  induction nodes generalizing forest with
  | nil => rfl
  | cons node nodes ih =>
    rw [adopt, List.foldl_cons, ← adopt, ih]
    exact Array.size_modify

@[simp] theorem children_adopt (forest : Forest) (parent : NodeId) (nodes : List NodeId)
    (n : NodeId) : (forest.adopt parent nodes).children n = forest.children n := by
  induction nodes generalizing forest with
  | nil => rfl
  | cons node nodes ih =>
    rw [adopt, List.foldl_cons, ← adopt, ih, children, link?_update, children]
    split
    · cases forest.link? n <;> rfl
    · rfl

theorem parent?_adopt {nodes : List NodeId} (built : ∀ node ∈ nodes, node < forest.links.size)
    (parent n : NodeId) : (forest.adopt parent nodes).parent? n =
      if n ∈ nodes then some parent else forest.parent? n := by
  induction nodes generalizing forest with
  | nil => rfl
  | cons node nodes ih =>
    rw [List.forall_mem_cons] at built
    have size (change : Link → Link) : (forest.update node change).links.size =
        forest.links.size := Array.size_modify
    rw [adopt, List.foldl_cons, ← adopt, ih (by rw [size]; exact built.2), parent?, link?_update]
    by_cases later : n ∈ nodes
    · rw [if_pos later, if_pos (List.mem_cons_of_mem _ later)]
    · rw [if_neg later]
      by_cases same : n = node
      · obtain ⟨link, is⟩ : ∃ link, forest.link? n = some link := by
          rw [same]
          exact ⟨_, Array.getElem?_eq_getElem built.1⟩
        rw [if_pos same, if_pos (by simp [same]), is]
        rfl
      · rw [if_neg same, if_neg (by simp [same, later])]
        rfl

structure Changed (forest after : Forest) (id : NodeId) (children nodes : List NodeId) : Prop where
  size : forest.links.size ≤ after.links.size
  children (n : NodeId) : after.children n = if n = id then children else forest.children n
  parent? (n : NodeId) : after.parent? n = if n ∈ nodes then some id else forest.parent? n

theorem changed_rewire {id : NodeId} (built : id < forest.links.size) {nodes : List NodeId}
    (allBuilt : ∀ node ∈ nodes, node < forest.links.size) (children : List NodeId) :
    forest.Changed (forest.rewire id children nodes) id children nodes := by
  have size (change : Link → Link) : (forest.update id change).links.size =
      forest.links.size := Array.size_modify
  constructor
  · exact Nat.le_of_eq ((size_adopt _ _ _).trans (size _)).symm
  · intro n
    rw [rewire, children_adopt, Forest.children, link?_update]
    split
    · rename_i same
      rw [same, link?, Array.getElem?_eq_getElem built]
      rfl
    · rfl
  · intro n
    rw [rewire, parent?_adopt (by rw [size]; exact allBuilt), Forest.parent?, link?_update]
    split
    · rfl
    · split
      · cases is : forest.link? n <;> simp [Forest.parent?, is]
      · rfl

theorem changed_grow {nodes : List NodeId} (allBuilt : ∀ node ∈ nodes, node < forest.links.size)
    (label : Label) (origin : Origin) :
    forest.Changed (forest.grow label origin nodes).1 forest.links.size nodes nodes := by
  have link (n : NodeId) : Forest.link? ⟨forest.links.push ⟨label, origin, nodes, none⟩⟩ n =
      if n = forest.links.size then some ⟨label, origin, nodes, none⟩ else forest.link? n :=
    Array.getElem?_push
  have none : forest.link? forest.links.size = none := Array.getElem?_size
  constructor
  · rw [grow, size_adopt, Array.size_push]
    exact Nat.le_succ _
  · intro n
    rw [grow, children_adopt, Forest.children, link]
    split <;> rfl
  · intro n
    have built : ∀ node ∈ nodes,
        node < (Forest.mk (forest.links.push ⟨label, origin, nodes, .none⟩)).links.size := by
      intro node member
      rw [Array.size_push]
      exact Nat.lt_succ_of_lt (allBuilt node member)
    rw [grow, parent?_adopt built, Forest.parent?, link]
    split
    · rfl
    · split
      · rename_i same
        rw [Forest.parent?, same, none]
        rfl
      · rfl

structure Possible (forest : Forest) (edit : Edit) : Prop where
  target : ∀ id ∈ edit.target?, id < forest.links.size
  built : ∀ node ∈ edit.added, node < forest.links.size

/-- What an edit does: one node has other children, all that were added and besides them only such
as it had before. -/
theorem changed_place {edit : Edit} (possible : forest.Possible edit)
    (applied : edit.apply forest = .ok after) :
    ∃ children, forest.Changed after (edit.place forest) children edit.added ∧
      children.Subperm (edit.added ++ forest.children (edit.place forest)) ∧
      ∀ node ∈ edit.added, node ∈ children := by
  cases edit with
  | grow label origin children =>
    cases applied
    exact ⟨children, changed_grow possible.built label origin,
      (List.sublist_append_left _ _).subperm, fun _ member => member⟩
  | change id edit =>
    rw [Edit.apply_change, map_eq_ok] at applied
    obtain ⟨children, edited, rfl⟩ := applied
    exact ⟨children, changed_rewire (possible.target id rfl) possible.built children,
      ListEdit.apply_subperm edited, ListEdit.mem_apply edited⟩

/-! ## Nodes that are added once -/

/-- The edit is of a node that is there, and all that it adds is there and has not been added
before. -/
structure Fits (forest : Forest) (added : List NodeId) (edit : Edit) : Prop where
  target : ∀ id ∈ edit.target?, id < forest.links.size
  built : ∀ node ∈ edit.added, node < forest.links.size
  once : (edit.added ++ added).Nodup

theorem changed_of_apply {edit : Edit} (fits : forest.Fits added edit)
    (applied : edit.apply forest = .ok after) :
    ∃ id children, forest.Changed after id children edit.added ∧
      children.Subperm (edit.added ++ forest.children id) := by
  obtain ⟨children, change, mixed, -⟩ := changed_place ⟨fits.target, fits.built⟩ applied
  exact ⟨_, children, change, mixed⟩

/-- Each child is linked to the node in whose list it is, and stands there only once. Nodes that
have never been added are linked to none. -/
structure Ledger (forest : Forest) (added : List NodeId) : Prop where
  linked {parent child : NodeId} (member : child ∈ forest.children parent) :
    forest.parent? child = some parent
  distinct (parent : NodeId) : (forest.children parent).Nodup
  fresh {id : NodeId} (never : id ∉ added) : forest.parent? id = none
  built : ∀ id ∈ added, id < forest.links.size
  once : added.Nodup

namespace Ledger

theorem added_of_child (ledger : forest.Ledger added) {parent child : NodeId}
    (member : child ∈ forest.children parent) : child ∈ added := by
  by_contra never
  have linked := ledger.linked member
  rw [ledger.fresh never] at linked
  cases linked

theorem nothing : Ledger {} [] where
  linked member := by cases member
  distinct parent := List.nodup_nil
  fresh never := rfl
  built := nofun
  once := List.nodup_nil

theorem changed (ledger : forest.Ledger added) {id : NodeId} {children nodes : List NodeId}
    (change : forest.Changed after id children nodes)
    (mixed : children.Subperm (nodes ++ forest.children id))
    (built : ∀ node ∈ nodes, node < forest.links.size) (once : (nodes ++ added).Nodup) :
    after.Ledger (nodes ++ added) := by
  obtain ⟨-, -, apart⟩ := List.nodup_append.mp once
  -- a child has been added before, so it is none of the nodes that are linked now
  have kept {parent child : NodeId} (member : child ∈ forest.children parent) : child ∉ nodes :=
    fun new => apart child new child (ledger.added_of_child member) rfl
  constructor
  · intro parent child member
    rw [change.children] at member
    rw [change.parent?]
    split at member
    · rename_i same
      split
      · rw [same]
      · rename_i old
        have before := (List.mem_append.mp (mixed.subset member)).resolve_left old
        rw [same, ledger.linked before]
    · rw [if_neg (kept member), ledger.linked member]
  · intro parent
    rw [change.children]
    split
    · have whole : (nodes ++ forest.children id).Nodup := by
        refine List.nodup_append.mpr ⟨(List.nodup_append.mp once).1, ledger.distinct id, ?_⟩
        rintro node new _ member rfl
        exact kept member new
      obtain ⟨listed, perm, sublist⟩ := mixed
      exact perm.nodup_iff.mp (whole.sublist sublist)
    · exact ledger.distinct parent
  · intro id never
    rw [List.mem_append, not_or] at never
    rw [change.parent?, if_neg never.1, ledger.fresh never.2]
  · intro id member
    refine Nat.lt_of_lt_of_le ?_ change.size
    rcases List.mem_append.mp member with new | old
    · exact built id new
    · exact ledger.built id old
  · exact once

end Ledger

/-- A forest as it comes about by edits, with all nodes that were added on the way. Each of them
was built and added once. Edits that failed are among them too. -/
inductive Edited : Forest → List NodeId → Prop
  | nothing : Edited {} []
  | entered {forest after : Forest} {added : List NodeId} {edit : Edit}
      (before : Edited forest added) (fits : forest.Fits added edit)
      (entered : edit.enter.run.run forest = (.ok (), after)) : Edited after (edit.added ++ added)
  | failed {forest after : Forest} {added : List NodeId} {edit : Edit} {cause : EditError}
      (before : Edited forest added) (failed : edit.enter.run.run forest = (.error cause, after)) :
      Edited after added

theorem enter_ok_iff {edit : Edit} :
    edit.enter.run.run forest = (.ok (), after) ↔ edit.apply forest = .ok after := by
  rw [run_enter]
  cases edit.apply forest <;> constructor <;> rintro ⟨⟩ <;> rfl

theorem enter_error_iff {edit : Edit} {cause : EditError} :
    edit.enter.run.run forest = (.error cause, after) ↔
      edit.apply forest = .error cause ∧ after = forest := by
  rw [run_enter]
  cases edit.apply forest with
  | ok applied => constructor <;> rintro ⟨⟨⟩⟩
  | error failure =>
    constructor
    · rintro ⟨⟩
      exact ⟨rfl, rfl⟩
    · rintro ⟨⟨⟩, rfl⟩
      rfl

theorem Edited.ledger (edited : Edited forest added) : forest.Ledger added := by
  induction edited with
  | nothing => exact .nothing
  | entered before fits entered ih =>
    obtain ⟨id, children, change, mixed⟩ := changed_of_apply fits (enter_ok_iff.mp entered)
    exact ih.changed change mixed fits.built fits.once
  | failed before failed ih =>
    rw [(enter_error_iff.mp failed).2]
    exact ih

/-! ## Planting -/

structure Planted (forest after : Forest) (added ids : List NodeId) : Prop where
  size : forest.links.size ≤ after.links.size
  edited : ∃ new, Edited after (new ++ added) ∧
    (∀ n ∈ new, forest.links.size ≤ n) ∧ ∀ id ∈ ids, id ∉ new
  built : ∀ id ∈ ids, forest.links.size ≤ id ∧ id < after.links.size
  distinct : ids.Nodup

theorem Planted.grow {ids : List NodeId} (edited : Edited forest added)
    (planted : Planted forest after added ids) (label : Label) (origin : Origin) :
    Planted forest (after.grow label origin ids).1 added [(after.grow label origin ids).2] := by
  obtain ⟨size, ⟨new, made, later, apart⟩, built, distinct⟩ := planted
  have grown : (after.grow label origin ids).1.links.size = after.links.size + 1 := by
    rw [Forest.grow, size_adopt, Array.size_push]
  have fits : after.Fits (new ++ added) (.grow label origin ids) := by
    refine ⟨nofun, fun id member => (built id member).2, ?_⟩
    refine List.nodup_append.mpr ⟨distinct, made.ledger.once, ?_⟩
    rintro id member _ other rfl
    rcases List.mem_append.mp other with inside | old
    · exact apart id member inside
    · exact absurd (edited.ledger.built id old) (Nat.not_lt.mpr (built id member).1)
  have id : (after.grow label origin ids).2 = after.links.size := rfl
  refine ⟨by omega, ⟨ids ++ new, ?_, ?_, ?_⟩, ?_, by simp⟩
  · rw [List.append_assoc]
    exact made.entered fits (enter_ok_iff.mpr rfl)
  · refine List.forall_mem_append.mpr ⟨fun id member => (built id member).1, later⟩
  · rw [List.forall_mem_singleton, id, List.mem_append, not_or]
    refine ⟨fun member => Nat.lt_irrefl _ (built _ member).2, fun member => ?_⟩
    exact Nat.lt_irrefl _ (made.ledger.built _ (List.mem_append_left _ member))
  · rw [List.forall_mem_singleton, id]
    exact ⟨size, grown ▸ Nat.lt_succ_self _⟩

mutual

theorem Edited.plant : ∀ (element : Element) {forest : Forest} {added : List NodeId},
    Edited forest added →
      Planted forest (forest.plant element).1 added [(forest.plant element).2]
  | .node label origin children, _, _, edited =>
    (edited.plantAll children).grow edited label origin

theorem Edited.plantAll : ∀ (elements : List Element) {forest : Forest} {added : List NodeId},
    Edited forest added →
      Planted forest (forest.plantAll elements).1 added (forest.plantAll elements).2
  | [], _, _, edited =>
    ⟨Nat.le_refl _, ⟨[], edited, nofun, nofun⟩, nofun, List.nodup_nil⟩
  | element :: elements, forest, _, edited => by
    obtain ⟨size, ⟨new, made, later, apart⟩, built, -⟩ := edited.plant element
    obtain ⟨size', ⟨new', made', later', apart'⟩, built', distinct⟩ := made.plantAll elements
    have ids : forest.plantAll (element :: elements) =
        (((forest.plant element).1.plantAll elements).1, (forest.plant element).2 ::
          ((forest.plant element).1.plantAll elements).2) := rfl
    rw [List.forall_mem_singleton] at apart built
    rw [ids]
    refine ⟨Nat.le_trans size size', ⟨new' ++ new, ?_, ?_, ?_⟩, ?_, ?_⟩
    · rw [List.append_assoc]
      exact made'
    · exact List.forall_mem_append.mpr
        ⟨fun n member => Nat.le_trans size (later' n member), later⟩
    · refine List.forall_mem_cons.mpr ⟨?_, fun id member => ?_⟩
      · rw [List.mem_append, not_or]
        exact ⟨fun member => Nat.not_lt.mpr (later' _ member) built.2, apart⟩
      · rw [List.mem_append, not_or]
        refine ⟨apart' id member, fun old => ?_⟩
        exact Nat.not_lt.mpr (built' id member).1
          (made.ledger.built id (List.mem_append_left _ old))
    · exact List.forall_mem_cons.mpr ⟨⟨built.1, Nat.lt_of_lt_of_le built.2 size'⟩,
        fun id member => ⟨Nat.le_trans size (built' id member).1, (built' id member).2⟩⟩
    · exact List.nodup_cons.mpr
        ⟨fun member => Nat.not_lt.mpr (built' _ member).1 built.2, distinct⟩

end

end Forest

end Partbook
