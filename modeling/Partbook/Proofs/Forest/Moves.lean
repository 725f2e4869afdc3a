import Partbook.Proofs.Forest.Walks

/-!
Nodes that are added again. A node that was taken out of a list keeps its link until it is added
anywhere, so the links up can lead elsewhere than the lists do. The walks up come to an end as long
as no node is put below one from which the links lead up to it.
-/
namespace Partbook

namespace Forest

open Relation

variable {forest after : Forest} {x y node : NodeId} {above : List NodeId}

/-! ## Ways up -/

/-- The links lead from a node up to another, or it is that node. -/
def Leads (forest : Forest) : NodeId → NodeId → Prop :=
  ReflTransGen fun x parent => forest.parent? x = some parent

def Ends (forest : Forest) (x : NodeId) : Prop := ∃ steps, (forest.ancestorsWithin steps x).isSome

theorem climbs_of_ancestorsWithin {steps : Nat}
    (walk : forest.ancestorsWithin steps x = some above) : forest.Climbs x above := by
  induction steps generalizing x above with
  | zero => cases walk
  | succ steps ih =>
    rw [ancestorsWithin] at walk
    split at walk
    · rename_i top
      cases walk
      exact .top top
    · rename_i parent linked
      obtain ⟨rest, more, rfl⟩ := Option.map_eq_some_iff.mp walk
      exact .up linked (ih more)

theorem Climbs.ends (climbs : forest.Climbs x above) : forest.Ends x :=
  ⟨_, Option.isSome_iff_exists.mpr ⟨above, climbs.ancestors?⟩⟩

theorem ends_iff_climbs : forest.Ends x ↔ ∃ above, forest.Climbs x above := by
  constructor
  · rintro ⟨steps, walk⟩
    obtain ⟨above, walk⟩ := Option.isSome_iff_exists.mp walk
    exact ⟨above, climbs_of_ancestorsWithin walk⟩
  · rintro ⟨above, climbs⟩
    exact climbs.ends

theorem ends_iff_ancestors : forest.Ends x ↔ ∃ above, forest.ancestors? x = some above ∧
    forest.root? x = some (above.getLast?.getD x) := by
  constructor
  · intro ends
    obtain ⟨above, climbs⟩ := ends_iff_climbs.mp ends
    exact ⟨above, climbs.ancestors?, by rw [root?, climbs.ancestors?, Option.map_some]⟩
  · rintro ⟨above, walk, -⟩
    exact (climbs_of_ancestorsWithin walk).ends

theorem Climbs.mem_of_leads (climbs : forest.Climbs x above) (leads : forest.Leads x y) :
    y ∈ x :: above := by
  induction leads with
  | refl => exact List.mem_cons_self
  | tail leads linked ih =>
    obtain ⟨rest, climbs, suffix⟩ := climbs.from_mem ih
    cases climbs with
    | top top => rw [linked] at top; cases top
    | up linked' more =>
      obtain rfl := Option.some.inj (linked.symm.trans linked')
      exact suffix.subset (List.mem_cons_of_mem _ List.mem_cons_self)

theorem Climbs.leads (climbs : forest.Climbs x above) (member : y ∈ x :: above) :
    forest.Leads x y := by
  induction climbs with
  | top => exact List.mem_singleton.mp member ▸ .refl
  | up linked more ih =>
    rcases List.mem_cons.mp member with rfl | later
    · exact .refl
    · exact (ih later).head linked

theorem Climbs.congr (climbs : forest.Climbs x above)
    (same : ∀ y ∈ x :: above, after.parent? y = forest.parent? y) : after.Climbs x above := by
  induction climbs with
  | top top => exact .top ((same _ List.mem_cons_self).trans top)
  | up linked more ih =>
    rw [List.forall_mem_cons] at same
    exact .up (same.1.trans linked) (ih same.2)

/-! ## Circles -/

variable {id : NodeId} {children nodes : List NodeId}

theorem leads_added (changed : forest.Changed after id children nodes) (member : node ∈ nodes)
    (leads : forest.Leads x node) : ∃ added ∈ nodes, after.Leads x added := by
  induction leads using ReflTransGen.head_induction_on with
  | refl => exact ⟨node, member, .refl⟩
  | @head x parent linked way ih =>
    by_cases new : x ∈ nodes
    · exact ⟨x, new, .refl⟩
    · obtain ⟨added, isNew, behind⟩ := ih
      exact ⟨added, isNew, behind.head ((changed.parent? x).trans ((if_neg new).trans linked))⟩

/-- One edit closes a circle exactly if the links lead from the node that it changes up to one that
it adds. -/
theorem Changed.ends_iff (changed : forest.Changed after id children nodes)
    (ends : ∀ x, forest.Ends x) :
    (∀ x, after.Ends x) ↔ ∀ node ∈ nodes, ¬ forest.Leads id node := by
  constructor
  · intro endsAfter node member leads
    obtain ⟨added, isNew, way⟩ := leads_added changed member leads
    obtain ⟨above, climbs⟩ := ends_iff_climbs.mp (endsAfter id)
    have linked : after.parent? added = some id := (changed.parent? added).trans (if_pos isNew)
    exact (Climbs.up linked climbs).not_mem (climbs.mem_of_leads way)
  · intro apart x
    obtain ⟨aboveId, climbsId⟩ := ends_iff_climbs.mp (ends id)
    have still : after.Climbs id aboveId := climbsId.congr fun y member =>
      (changed.parent? y).trans (if_neg fun new => apart y new (climbsId.leads member))
    have new {x : NodeId} (added : x ∈ nodes) : ∃ above, after.Climbs x above :=
      ⟨_, .up ((changed.parent? x).trans (if_pos added)) still⟩
    have old {x : NodeId} (kept : x ∉ nodes) : after.parent? x = forest.parent? x :=
      (changed.parent? x).trans (if_neg kept)
    obtain ⟨above, climbs⟩ := ends_iff_climbs.mp (ends x)
    rw [ends_iff_climbs]
    induction climbs with
    | @top x top =>
      by_cases added : x ∈ nodes
      · exact new added
      · exact ⟨_, .top ((old added).trans top)⟩
    | @up x parent above linked more ih =>
      by_cases added : x ∈ nodes
      · exact new added
      · obtain ⟨rest, climbs⟩ := ih
        exact ⟨_, .up ((old added).trans linked) climbs⟩

/-- The edit puts a node below itself, going by the links. -/
def Closes (forest : Forest) (edit : Edit) : Prop :=
  ∃ node ∈ edit.added, forest.Leads (edit.place forest) node

/-! ## Lists that make trees -/

structure Treelike (forest : Forest) : Prop where
  once {parent parent' child : NodeId} (member : child ∈ forest.children parent)
    (member' : child ∈ forest.children parent') : parent = parent'
  distinct (parent : NodeId) : (forest.children parent).Nodup
  apart (x : NodeId) : ¬ forest.Below x x

theorem lt_size_of_child {parent child : NodeId} (member : child ∈ forest.children parent) :
    parent < forest.links.size := by
  by_contra unbuilt
  rw [children, link?, Array.getElem?_eq_none (Nat.le_of_not_lt unbuilt)] at member
  cases member

theorem Treelike.of_rank (rank : NodeId → Nat)
    (each : ∀ parent < forest.links.size, (forest.children parent).Nodup ∧
      ∀ child ∈ forest.children parent, rank child < rank parent ∧
        ∀ other < forest.links.size, child ∈ forest.children other → parent = other) :
    forest.Treelike where
  once member member' := ((each _ (lt_size_of_child member)).2 _ member).2 _
    (lt_size_of_child member') member'
  distinct parent := by
    by_cases built : parent < forest.links.size
    · exact (each parent built).1
    · have none : forest.children parent = [] := by
        rw [children, link?, Array.getElem?_eq_none (Nat.le_of_not_lt built)]
        rfl
      exact none ▸ List.nodup_nil
  apart x below := by
    have lower {x y : NodeId} (below : forest.Below x y) : rank y < rank x := by
      induction below with
      | single child => exact ((each _ (lt_size_of_child child)).2 _ child).1
      | tail _ child ih =>
        exact Nat.lt_trans ((each _ (lt_size_of_child child)).2 _ child).1 ih
    exact Nat.lt_irrefl _ (lower below)

/-- The node was taken out of the list of the parent that it is still linked to. -/
def Stray (forest : Forest) (x parent : NodeId) : Prop :=
  forest.parent? x = some parent ∧ x ∉ forest.children parent

theorem stray_or_tree (changed : forest.Changed after id children nodes)
    (leads : forest.Leads id y) :
    (∃ x parent, forest.Leads id x ∧ forest.Stray x parent ∧ forest.Leads parent y) ∨
      after.Tree y id := by
  induction leads with
  | refl => exact .inr .refl
  | @tail y parent way linked ih =>
    rcases ih with ⟨x, above, before, stray, behind⟩ | tree
    · exact .inl ⟨x, above, before, stray, behind.tail linked⟩
    · by_cases child : y ∈ forest.children parent
      · right
        by_cases same : parent = id
        · rw [same]
          exact .refl
        · have still : after.Child parent y := by
            rw [Child, changed.children, if_neg same]
            exact child
          exact tree.head still
      · exact .inl ⟨y, parent, way, ⟨linked, child⟩, .refl⟩

/-- As long as the lists make trees, a circle is closed only by way of a node that was taken out. -/
theorem exists_stray {edit : Edit} (possible : forest.Possible edit)
    (applied : edit.apply forest = .ok after) (treelike : after.Treelike)
    (closes : forest.Closes edit) :
    ∃ x parent, ∃ node ∈ edit.added, forest.Leads (edit.place forest) x ∧
      forest.Stray x parent ∧ forest.Leads parent node := by
  obtain ⟨children, changed, -, all⟩ := changed_place possible applied
  obtain ⟨node, member, leads⟩ := closes
  rcases stray_or_tree changed leads with ⟨x, parent, before, stray, behind⟩ | tree
  · exact ⟨x, parent, node, member, before, stray, behind⟩
  · have child : after.Child (edit.place forest) node := by
      rw [Child, changed.children, if_pos rfl]
      exact all node member
    exact absurd (TransGen.tail' tree child) (treelike.apart node)

/-! ## Runs of edits -/

/-- A forest as it comes about by edits that may add any nodes, as long as the lists make trees
after each of them. The edits that did not fail are told, the latest first, each with the forest in
which it was made. -/
inductive Arranged : Forest → List (Forest × Edit) → Prop
  | nothing : Arranged {} []
  | entered {forest after : Forest} {steps : List (Forest × Edit)} {edit : Edit}
      (before : Arranged forest steps) (possible : forest.Possible edit)
      (entered : edit.enter.run.run forest = (.ok (), after)) (treelike : after.Treelike) :
      Arranged after ((forest, edit) :: steps)
  | failed {forest after : Forest} {steps : List (Forest × Edit)} {edit : Edit} {cause : EditError}
      (before : Arranged forest steps)
      (failed : edit.enter.run.run forest = (.error cause, after)) : Arranged after steps

def stages (forest : Forest) (steps : List (Forest × Edit)) : List Forest :=
  forest :: steps.map (·.1)

variable {steps : List (Forest × Edit)}

theorem ends_nothing (x : NodeId) : Ends {} x := (Climbs.top rfl).ends

theorem Arranged.ends_iff_not_closes (arranged : Arranged forest steps) :
    (∀ stage ∈ stages forest steps, ∀ x, stage.Ends x) ↔
      ∀ step ∈ steps, ¬ step.1.Closes step.2 := by
  induction arranged with
  | nothing => simpa [stages] using ends_nothing
  | @entered forest after steps edit before possible entered treelike ih =>
    obtain ⟨children, changed, -⟩ := changed_place possible (enter_ok_iff.mp entered)
    have stagesAfter : stages after ((forest, edit) :: steps) = after :: stages forest steps := rfl
    have step : (∀ node ∈ edit.added, ¬ forest.Leads (edit.place forest) node) ↔
        ¬ forest.Closes edit := by simp [Closes]
    rw [stagesAfter, List.forall_mem_cons, List.forall_mem_cons, ih.symm, ← step]
    constructor
    · rintro ⟨last, earlier⟩
      exact ⟨(changed.ends_iff (earlier forest List.mem_cons_self)).mp last, earlier⟩
    · rintro ⟨last, earlier⟩
      exact ⟨(changed.ends_iff (earlier forest List.mem_cons_self)).mpr last, earlier⟩
  | failed before failed ih =>
    rw [(enter_error_iff.mp failed).2]
    exact ih

theorem Arranged.exists_stray (arranged : Arranged forest steps) :
    ∀ step ∈ steps, step.1.Closes step.2 →
      ∃ x parent, ∃ node ∈ step.2.added, step.1.Leads (step.2.place step.1) x ∧
        step.1.Stray x parent ∧ step.1.Leads parent node := by
  induction arranged with
  | nothing => nofun
  | entered before possible entered treelike ih =>
    exact List.forall_mem_cons.mpr
      ⟨Forest.exists_stray possible (enter_ok_iff.mp entered) treelike, ih⟩
  | failed before failed ih => exact ih

/-- However nodes are moved, as long as the lists make trees: the walks up from all nodes have
always come to an end if and only if no edit has put a node below itself, going by the links, which
takes a node on the way up that was taken out and has not been added anywhere since. -/
theorem walks_end_iff (arranged : Arranged forest steps) :
    ((∀ stage ∈ stages forest steps, ∀ x, stage.Ends x) ↔
      ∀ step ∈ steps, ¬ step.1.Closes step.2) ∧
    (∀ step ∈ steps, step.1.Closes step.2 →
      ∃ x parent, ∃ node ∈ step.2.added, step.1.Leads (step.2.place step.1) x ∧
        step.1.Stray x parent ∧ step.1.Leads parent node) ∧
    ∀ stage ∈ stages forest steps, ∀ x, stage.Ends x ↔ ∃ above,
      stage.ancestors? x = some above ∧ stage.root? x = some (above.getLast?.getD x) :=
  ⟨arranged.ends_iff_not_closes, arranged.exists_stray, fun _ _ _ => ends_iff_ancestors⟩

theorem not_closes_of_top {edit : Edit} (top : forest.parent? (edit.place forest) = none)
    (others : edit.place forest ∉ edit.added) : ¬ forest.Closes edit := by
  rintro ⟨node, member, leads⟩
  have same := (Climbs.top top).mem_of_leads leads
  exact others (List.mem_singleton.mp same ▸ member)

def bareOver (children : List NodeId) : Edit := .grow (.plain .node) {} children

theorem walks_end_after_move : ∃ forest steps, Arranged forest steps ∧
    forest.children 1 = [] ∧ forest.children 2 = [0] ∧
      ∀ stage ∈ stages forest steps, ∀ x, stage.Ends x := by
  have leaf : Arranged _ _ := Arranged.nothing.entered
    (⟨nofun, nofun⟩ : Possible {} (bareOver [])) (enter_ok_iff.mpr rfl)
    (.of_rank id (by decide))
  have whole : Arranged _ _ := leaf.entered
    (⟨nofun, by decide⟩ : Possible _ (bareOver [0])) (enter_ok_iff.mpr rfl)
    (.of_rank id (by decide))
  have other : Arranged _ _ := whole.entered
    (⟨nofun, nofun⟩ : Possible _ (bareOver [])) (enter_ok_iff.mpr rfl)
    (.of_rank id (by decide))
  have removed : Arranged _ _ := other.entered
    (⟨by decide, nofun⟩ : Possible _ (.change 1 (.remove 0))) (enter_ok_iff.mpr rfl)
    (.of_rank id (by decide))
  have moved : Arranged _ _ := removed.entered
    (⟨by decide, by decide⟩ : Possible _ (.change 2 (.append 0))) (enter_ok_iff.mpr rfl)
    (.of_rank id (by decide))
  refine ⟨_, _, moved, by decide, by decide, (walks_end_iff moved).1.mpr ?_⟩
  simp only [List.forall_mem_cons]
  refine ⟨?_, ?_, ?_, ?_, ?_, nofun⟩ <;> exact not_closes_of_top (by decide) (by decide)

def crossed : Forest :=
  { links := #[{ label := .plain .node, origin := {}, children := [1], parent := some 1 },
      { label := .plain .node, origin := {}, children := [], parent := some 0 }] }

/-- A node is taken out of the list of another, which is then put into its own list. The walk up
from either node goes round for ever. -/
theorem crossed_goes_round : (∃ steps, Arranged crossed steps) ∧
    ¬ crossed.Ends 0 ∧ ¬ crossed.Ends 1 := by
  constructor
  · have leaf : Arranged _ _ := Arranged.nothing.entered
      (⟨nofun, nofun⟩ : Possible {} (bareOver [])) (enter_ok_iff.mpr rfl)
      (.of_rank id (by decide))
    have whole : Arranged _ _ := leaf.entered
      (⟨nofun, by decide⟩ : Possible _ (bareOver [0])) (enter_ok_iff.mpr rfl)
      (.of_rank id (by decide))
    have removed : Arranged _ _ := whole.entered
      (⟨by decide, nofun⟩ : Possible _ (.change 1 (.remove 0))) (enter_ok_iff.mpr rfl)
      (.of_rank id (by decide))
    have turned : Arranged _ _ := removed.entered
      (⟨by decide, by decide⟩ : Possible _ (.change 0 (.append 1))) (enter_ok_iff.mpr rfl)
      (.of_rank (1 - ·) (by decide))
    exact ⟨_, turned⟩
  · constructor
    · intro ends
      obtain ⟨above, walk, -⟩ := ends_iff_ancestors.mp ends
      cases walk
    · intro ends
      obtain ⟨above, walk, -⟩ := ends_iff_ancestors.mp ends
      cases walk

end Forest

end Partbook
