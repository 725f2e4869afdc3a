import Mathlib.Data.List.Nodup
import Mathlib.Logic.Relation
import Partbook.Forest.Query
import Partbook.Proofs.Forest.Edits

/-!
Walks in the tree of a node that has never been added to another. The links up from a node in it
lead to the top, through just those nodes that it is below; and a walk downwards comes to each node
below once.
-/
namespace Partbook.Forest

open Relation

variable {forest : Forest} {added : List NodeId} {root : NodeId}

/-! ## Upwards -/

/-- From the node up there are these, one after another, and the last has no parent. -/
inductive Climbs (forest : Forest) : NodeId → List NodeId → Prop
  | top {x : NodeId} (top : forest.parent? x = none) : Climbs forest x []
  | up {x parent : NodeId} {above : List NodeId} (linked : forest.parent? x = some parent)
      (more : Climbs forest parent above) : Climbs forest x (parent :: above)

namespace Climbs

variable {x y : NodeId} {above above' : List NodeId}

theorem unique (climbs : forest.Climbs x above) (climbs' : forest.Climbs x above') :
    above = above' := by
  induction climbs generalizing above' with
  | top top =>
    cases climbs' with
    | top => rfl
    | up linked => rw [top] at linked; cases linked
  | up linked more ih =>
    cases climbs' with
    | top top => rw [linked] at top; cases top
    | up linked' more' =>
      obtain rfl := Option.some.inj (linked.symm.trans linked')
      rw [ih more']

theorem from_mem (climbs : forest.Climbs x above) (member : y ∈ x :: above) :
    ∃ rest, forest.Climbs y rest ∧ (y :: rest) <:+ (x :: above) := by
  induction climbs with
  | top top =>
    obtain rfl := List.mem_singleton.mp member
    exact ⟨[], .top top, List.suffix_refl _⟩
  | up linked more ih =>
    rcases List.mem_cons.mp member with rfl | later
    · exact ⟨_, .up linked more, List.suffix_refl _⟩
    · obtain ⟨rest, climbs, suffix⟩ := ih later
      exact ⟨rest, climbs, suffix.trans (List.suffix_cons _ _)⟩

theorem not_mem (climbs : forest.Climbs x above) : x ∉ above := by
  intro member
  obtain ⟨rest, climbs', suffix⟩ := climbs.from_mem (List.mem_cons_of_mem x member)
  obtain rfl := climbs'.unique climbs
  cases climbs with
  | top => cases member
  | up linked more =>
    -- the way from the parent would have the node on it, and the way from there once more
    obtain ⟨rest, climbs, suffix⟩ := more.from_mem member
    rw [climbs.unique (.up linked more)] at suffix
    exact absurd suffix.length_le (by simp)

theorem nodup (climbs : forest.Climbs x above) : (x :: above).Nodup := by
  induction climbs with
  | top top => simp
  | up linked more ih => exact List.nodup_cons.mpr ⟨(Climbs.up linked more).not_mem, ih⟩

theorem built (climbs : forest.Climbs x above) :
    ∀ y ∈ (x :: above).dropLast, y < forest.links.size := by
  induction climbs with
  | top top => nofun
  | up linked more ih =>
    obtain ⟨link, found, -⟩ := Option.bind_eq_some_iff.mp linked
    rw [List.dropLast_cons_of_ne_nil (List.cons_ne_nil _ _), List.forall_mem_cons]
    exact ⟨(Array.getElem?_eq_some_iff.mp found).1, ih⟩

theorem length_le (climbs : forest.Climbs x above) : above.length ≤ forest.links.size := by
  have inside : (x :: above).dropLast.Subperm (List.range forest.links.size) :=
    (climbs.nodup.sublist (List.dropLast_sublist _)).subperm fun y member =>
      List.mem_range.mpr (climbs.built y member)
  simpa using inside.length_le

theorem ancestorsWithin (climbs : forest.Climbs x above) {steps : Nat}
    (enough : above.length < steps) : forest.ancestorsWithin steps x = some above := by
  induction climbs generalizing steps with
  | top top =>
    obtain ⟨steps, rfl⟩ := Nat.exists_eq_add_of_lt enough
    simp [Forest.ancestorsWithin, top]
  | up linked more ih =>
    obtain ⟨steps, rfl⟩ := Nat.exists_eq_add_one_of_ne_zero (Nat.ne_zero_of_lt enough)
    simp [Forest.ancestorsWithin, linked, ih (Nat.lt_of_succ_lt_succ enough)]

theorem ancestors? (climbs : forest.Climbs x above) : forest.ancestors? x = some above :=
  climbs.ancestorsWithin (Nat.lt_succ_of_le climbs.length_le)

end Climbs

/-! ## Trees -/

def Child (forest : Forest) (parent child : NodeId) : Prop := child ∈ forest.children parent

def Below (forest : Forest) : NodeId → NodeId → Prop := TransGen forest.Child

def Tree (forest : Forest) : NodeId → NodeId → Prop := ReflTransGen forest.Child

variable {n x : NodeId} {above : List NodeId}

theorem tree_parent (ledger : forest.Ledger added) (top : forest.parent? root = none)
    (tree : forest.Tree root x) (linked : forest.parent? x = some n) :
    forest.Tree root n ∧ forest.Child n x := by
  rcases ReflTransGen.cases_tail tree with rfl | ⟨parent, tree, child⟩
  · rw [top] at linked
    cases linked
  · obtain rfl := Option.some.inj (linked.symm.trans (ledger.linked child))
    exact ⟨tree, child⟩

theorem exists_climbs (ledger : forest.Ledger added) (top : forest.parent? root = none)
    (tree : forest.Tree root x) :
    ∃ above, forest.Climbs x above ∧ above.getLast?.getD x = root := by
  induction tree with
  | refl => exact ⟨[], .top top, rfl⟩
  | tail _ child ih =>
    obtain ⟨above, climbs, last⟩ := ih
    refine ⟨_, .up (ledger.linked child) climbs, ?_⟩
    rw [List.getLast?_cons, Option.getD_some, last]

theorem mem_above_iff (ledger : forest.Ledger added) (top : forest.parent? root = none)
    (tree : forest.Tree root x) (climbs : forest.Climbs x above) :
    n ∈ above ↔ forest.Below n x := by
  constructor
  · intro member
    induction climbs with
    | top => cases member
    | up linked more ih =>
      obtain ⟨treeParent, child⟩ := tree_parent ledger top tree linked
      rcases List.mem_cons.mp member with rfl | later
      · exact .single child
      · exact (ih treeParent later).tail child
  · intro below
    clear tree
    induction below generalizing above with
    | single child =>
      cases climbs with
      | top none => rw [ledger.linked child] at none; cases none
      | up linked more =>
        obtain rfl := Option.some.inj (linked.symm.trans (ledger.linked child))
        exact List.mem_cons_self
    | tail below child ih =>
      cases climbs with
      | top none => rw [ledger.linked child] at none; cases none
      | up linked more =>
        obtain rfl := Option.some.inj (linked.symm.trans (ledger.linked child))
        exact List.mem_cons_of_mem _ (ih more)

/-! ## Downwards -/

theorem mapM_eq_some {α β : Type} {f : α → Option β} {g : α → β} {list : List α}
    (each : ∀ item ∈ list, f item = some (g item)) : list.mapM f = some (list.map g) := by
  induction list with
  | nil => rfl
  | cons item list ih =>
    rw [List.forall_mem_cons] at each
    rw [List.mapM_cons, each.1, ih each.2]
    rfl

theorem child_unique (ledger : forest.Ledger added) (top : forest.parent? root = none)
    (tree : forest.Tree root n) {child child' : NodeId} (isChild : forest.Child n child)
    (isChild' : forest.Child n child') (within : forest.Tree child x)
    (within' : forest.Tree child' x) : child = child' := by
  obtain ⟨above, climbs, -⟩ := exists_climbs ledger top tree
  have treeX : forest.Tree root x := (tree.tail isChild).trans within
  obtain ⟨aboveX, climbsX, -⟩ := exists_climbs ledger top treeX
  have suffix {child : NodeId} (isChild : forest.Child n child) (within : forest.Tree child x) :
      child :: n :: above <:+ x :: aboveX := by
    have member : child ∈ x :: aboveX := by
      rcases reflTransGen_iff_eq_or_transGen.mp within with rfl | below
      · exact List.mem_cons_self
      · exact List.mem_cons_of_mem _ ((mem_above_iff ledger top treeX climbsX).mpr below)
    obtain ⟨rest, climbs', suffix⟩ := climbsX.from_mem member
    rwa [climbs'.unique (.up (ledger.linked isChild) climbs)] at suffix
  have both := List.suffix_of_suffix_length_le (suffix isChild within) (suffix isChild' within')
    (Nat.le_refl _)
  exact (List.cons.inj (both.eq_of_length rfl)).1

/-- The walk downwards comes to every node below once. The farther down it starts, the fewer steps
it needs. -/
theorem exists_descendantsWithin (ledger : forest.Ledger added)
    (top : forest.parent? root = none) (backwards : Bool) {steps : Nat}
    (tree : forest.Tree root n) (climbs : forest.Climbs n above)
    (enough : forest.links.size < above.length + steps) :
    ∃ below, forest.descendantsWithin backwards steps n = some below ∧ below.Nodup ∧
      ∀ x, x ∈ below ↔ forest.Below n x := by
  induction steps generalizing n above with
  | zero => exact absurd climbs.length_le (Nat.not_le.mpr enough)
  | succ steps ih =>
    -- a child, and what the walk from it comes to
    let branch (child : NodeId) : List NodeId :=
      child :: (forest.descendantsWithin backwards steps child).getD []
    have each {child : NodeId} (isChild : forest.Child n child) :
        (forest.descendantsWithin backwards steps child).map (child :: ·) = some (branch child) ∧
          (branch child).Nodup ∧ ∀ x, x ∈ branch child ↔ forest.Tree child x := by
      have climbsChild := Climbs.up (ledger.linked isChild) climbs
      have treeChild := tree.tail isChild
      obtain ⟨below, found, nodup, all⟩ := ih treeChild climbsChild
        (by rw [List.length_cons]; omega)
      have isBranch : branch child = child :: below := by
        show child :: Option.getD _ _ = _
        rw [found, Option.getD_some]
      rw [isBranch, found]
      refine ⟨rfl, List.nodup_cons.mpr ⟨fun circle => ?_, nodup⟩, fun x => ?_⟩
      · exact climbsChild.not_mem
          ((mem_above_iff ledger top treeChild climbsChild).mpr ((all child).mp circle))
      · rw [List.mem_cons, all, Tree, reflTransGen_iff_eq_or_transGen, Below]
    let children := if backwards then (forest.children n).reverse else forest.children n
    have mem (child : NodeId) : child ∈ children ↔ forest.Child n child := by
      cases backwards
      · exact Iff.rfl
      · exact List.mem_reverse
    have distinct : children.Nodup := by
      cases backwards
      · exact ledger.distinct n
      · exact List.nodup_reverse.mpr (ledger.distinct n)
    refine ⟨children.flatMap branch, ?_, ?_, fun x => ?_⟩
    · have walks := mapM_eq_some fun child member => (each ((mem child).mp member)).1
      rw [descendantsWithin]
      show ((children.mapM fun child =>
        (forest.descendantsWithin backwards steps child).map (child :: ·)).bind fun below =>
          some below.flatten) = _
      rw [walks, Option.bind_some, List.flatMap_def]
    · refine List.nodup_flatMap.mpr ⟨fun child member => (each ((mem child).mp member)).2.1, ?_⟩
      refine List.Pairwise.imp_of_mem (fun {child child'} member member' other x here there => ?_)
        distinct
      have isChild := (mem child).mp member
      have isChild' := (mem child').mp member'
      exact other (child_unique ledger top tree isChild isChild'
        (((each isChild).2.2 x).mp here) (((each isChild').2.2 x).mp there))
    · rw [List.mem_flatMap, Below, TransGen.head'_iff]
      constructor
      · rintro ⟨child, member, within⟩
        have isChild := (mem child).mp member
        exact ⟨child, isChild, ((each isChild).2.2 x).mp within⟩
      · rintro ⟨child, isChild, within⟩
        exact ⟨child, (mem child).mpr isChild, ((each isChild).2.2 x).mpr within⟩

theorem exists_descendants (ledger : forest.Ledger added) (top : forest.parent? root = none)
    (backwards : Bool) (tree : forest.Tree root n) :
    ∃ below, forest.descendants? backwards n = some below ∧ below.Nodup ∧
      ∀ x, x ∈ below ↔ forest.Below n x := by
  obtain ⟨above, climbs, -⟩ := exists_climbs ledger top tree
  exact exists_descendantsWithin ledger top backwards tree climbs (by omega)

/-! ## Links and lists -/

/-- In the tree of the root the links up and the lists of children tell the same. -/
structure Mirrored (forest : Forest) (root : NodeId) : Prop where
  top : forest.parent? root = none ∧ ∀ n, root ∉ forest.children n
  parent {x : NodeId} (tree : forest.Tree root x) (other : x ≠ root) :
    ∃ parent, forest.Tree root parent ∧ forest.parent? x = some parent ∧
      ∀ n, x ∈ forest.children n ↔ n = parent
  root? {x : NodeId} (tree : forest.Tree root x) : forest.root? x = some root
  walks {n x : NodeId} (tree : forest.Tree root n) (tree' : forest.Tree root x)
    (backwards : Bool) : ∃ above below, forest.ancestors? x = some above ∧
      forest.descendants? backwards n = some below ∧ (n ∈ above ↔ x ∈ below)
  descendants? {n : NodeId} (tree : forest.Tree root n) (backwards : Bool) :
    ∃ below, forest.descendants? backwards n = some below ∧ below.Nodup ∧
      ∀ x, x ∈ below ↔ forest.Below n x

theorem Ledger.mirrored_tree (ledger : forest.Ledger added) (never : root ∉ added) :
    forest.Mirrored root where
  top := by
    have none := ledger.fresh never
    refine ⟨none, fun n member => ?_⟩
    rw [ledger.linked member] at none
    cases none
  parent {x} tree other := by
    rcases ReflTransGen.cases_tail tree with same | ⟨parent, tree, child⟩
    · exact absurd same other
    · have linked := ledger.linked child
      refine ⟨parent, tree, linked, fun n => ⟨fun member => ?_, fun same => same ▸ child⟩⟩
      exact Option.some.inj ((ledger.linked member).symm.trans linked)
  root? {x} tree := by
    obtain ⟨above, climbs, last⟩ := exists_climbs ledger (ledger.fresh never) tree
    rw [Forest.root?, climbs.ancestors?, Option.map_some, last]
  walks {n x} tree tree' backwards := by
    have top := ledger.fresh never
    obtain ⟨above, climbs, -⟩ := exists_climbs ledger top tree'
    obtain ⟨below, found, -, all⟩ := exists_descendants ledger top backwards tree
    refine ⟨above, below, climbs.ancestors?, found, ?_⟩
    rw [mem_above_iff ledger top tree' climbs, all]
  descendants? tree backwards :=
    exists_descendants ledger (ledger.fresh never) backwards tree

theorem Edited.mirrored_plant (edited : Edited forest added) (element : Element) :
    (forest.plant element).1.Mirrored (forest.plant element).2 := by
  obtain ⟨-, ⟨new, made, -, apart⟩, built, -⟩ := edited.plant element
  rw [List.forall_mem_singleton] at apart built
  refine made.ledger.mirrored_tree fun member => ?_
  rcases List.mem_append.mp member with new | old
  · exact apart new
  · exact absurd (edited.ledger.built _ old) (Nat.not_lt.mpr built.1)

/-- Whatever edits are made, in the tree of a node that has not been added to another the links up
and the lists of children tell the same; and an edit that fails changes nothing. -/
theorem Edited.mirrored (edited : Edited forest added) :
    (∀ root, root ∉ added → forest.Mirrored root) ∧
      ∀ (edit : Edit) (cause : EditError) (after : Forest),
        edit.enter.run.run forest = (.error cause, after) → after = forest :=
  ⟨fun _ never => edited.ledger.mirrored_tree never,
    fun _ _ _ failed => (enter_error_iff.mp failed).2⟩

theorem mirrored_after_replacing : ∃ forest added, Edited forest added ∧ 0 ∉ added ∧
    forest.children 0 = [1, 3] ∧ forest.Mirrored 0 ∧ ∃ after,
      (Edit.change 0 (.replace 2 4)).enter.run.run forest = (.error .noPlace, after) ∧
        after = forest := by
  let leaf : Edit := .grow (.plain .node) {} []
  have first : Edited _ _ := Edited.nothing.entered
    (⟨nofun, nofun, by decide⟩ : Fits {} [] leaf) (enter_ok_iff.mpr rfl)
  have second : Edited _ _ := first.entered
    (⟨nofun, nofun, by decide⟩ : Fits _ _ leaf) (enter_ok_iff.mpr rfl)
  have third : Edited _ _ := second.entered
    (⟨nofun, nofun, by decide⟩ : Fits _ _ leaf) (enter_ok_iff.mpr rfl)
  have fourth : Edited _ _ := third.entered
    (⟨nofun, nofun, by decide⟩ : Fits _ _ leaf) (enter_ok_iff.mpr rfl)
  have extended : Edited _ _ := fourth.entered
    (⟨by decide, by decide, by decide⟩ : Fits _ _ (.change 0 (.extend [1, 2])))
    (enter_ok_iff.mpr rfl)
  have replaced : Edited _ _ := extended.entered
    (⟨by decide, by decide, by decide⟩ : Fits _ _ (.change 0 (.replace (-1) 3)))
    (enter_ok_iff.mpr rfl)
  refine ⟨_, _, replaced, by decide, by decide, replaced.mirrored.1 0 (by decide), ?_⟩
  refine ⟨_, enter_error_iff.mpr ⟨rfl, rfl⟩, ?_⟩
  exact replaced.mirrored.2 (.change 0 (.replace 2 4)) .noPlace _ (enter_error_iff.mpr ⟨rfl, rfl⟩)

end Partbook.Forest
