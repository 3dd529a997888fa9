import Mathlib.Data.Fintype.Card
import Mathlib.Logic.Relation

/-! # Forests by parent

Every node has at most one parent, and no chain of parents goes on forever. The ancestors of a node
form a chain that ends in a root; on this chain the number of ancestors above, the depth, tells the
nodes apart. So at most one node of the chain has a given parent, and at most one is a root.
-/

/-- A forest, by the parent of each node. -/
structure Forest (α : Type*) where
  parent : α → Option α
  wellFounded : WellFounded fun above node => parent node = some above

namespace Forest

variable {α : Type*}

/-- On a finite type it is enough that there are no cycles. -/
theorem wellFounded_of_acyclic [Finite α] {parent : α → Option α}
    (acyclic : ∀ node, ¬ Relation.TransGen (fun node above => parent node = some above) node node) :
    WellFounded fun above node => parent node = some above := by
  let Below (above node : α) := Relation.TransGen (fun node above => parent node = some above) node above
  have : IsTrans α Below := ⟨fun _ _ _ first second => second.trans first⟩
  have : Std.Irrefl Below := ⟨acyclic⟩
  exact Subrelation.wf (r := Below) (fun step => .single step) (Finite.wellFounded_of_trans_of_irrefl Below)

variable (forest : Forest α)

/-- The second node is the first one or is above it. -/
def Ancestor : α → α → Prop := Relation.ReflTransGen fun node above => forest.parent node = some above

/-- The second node is above the first one. -/
def ProperAncestor : α → α → Prop := Relation.TransGen fun node above => forest.parent node = some above

/-- The number of nodes above a node. -/
def depth (node : α) : ℕ :=
  match found : forest.parent node with
  | none => 0
  | some above => depth above + 1
termination_by forest.wellFounded.wrap node
decreasing_by exact found

theorem depth_of_parent_eq_none {forest : Forest α} {node : α} (root : forest.parent node = none) :
    forest.depth node = 0 := by
  rw [depth]
  split
  · rfl
  · next found => rw [root] at found; contradiction

theorem depth_of_parent_eq_some {forest : Forest α} {node above : α}
    (step : forest.parent node = some above) : forest.depth node = forest.depth above + 1 := by
  rw [depth]
  split
  · next found => rw [step] at found; contradiction
  · next found =>
    rw [step] at found
    rw [Option.some.inj found]

variable {forest} {node left right above : α}

theorem depth_eq_of_parent_eq (same : forest.parent left = forest.parent right) :
    forest.depth left = forest.depth right := by
  cases found : forest.parent right with
  | none => rw [depth_of_parent_eq_none found, depth_of_parent_eq_none (same.trans found)]
  | some above => rw [depth_of_parent_eq_some found, depth_of_parent_eq_some (same.trans found)]

theorem ProperAncestor.depth_lt (proper : forest.ProperAncestor node above) :
    forest.depth above < forest.depth node := by
  induction proper with
  | single step =>
    rw [depth_of_parent_eq_some step]
    exact Nat.lt_succ_self _
  | tail _ step ih =>
    rw [depth_of_parent_eq_some step] at ih
    exact Nat.lt_of_succ_lt ih

theorem Ancestor.eq_of_depth_eq (ancestor : forest.Ancestor node above)
    (same : forest.depth node = forest.depth above) : node = above := by
  rcases Relation.reflTransGen_iff_eq_or_transGen.mp ancestor with equal | proper
  · exact equal.symm
  · exact absurd same (Nat.ne_of_gt (ProperAncestor.depth_lt proper))

/-- The ancestors of a node form a chain. -/
theorem Ancestor.total (first : forest.Ancestor node left) (second : forest.Ancestor node right) :
    forest.Ancestor left right ∨ forest.Ancestor right left := by
  apply Relation.ReflTransGen.total_of_right_unique _ first second
  intro below one other firstStep secondStep
  exact Option.some.inj (firstStep.symm.trans secondStep)

/-- On a chain, the parent tells the nodes apart. -/
theorem Ancestor.eq_of_parent_eq (first : forest.Ancestor node left) (second : forest.Ancestor node right)
    (same : forest.parent left = forest.parent right) : left = right := by
  have depths := depth_eq_of_parent_eq same
  rcases first.total second with up | down
  · exact up.eq_of_depth_eq depths
  · exact (down.eq_of_depth_eq depths.symm).symm

/-- Nothing is above a root. -/
theorem Ancestor.eq_of_root (ancestor : forest.Ancestor node above) (root : forest.parent node = none) :
    node = above := by
  rcases ancestor.cases_head with equal | ⟨next, step, _⟩
  · exact equal
  · rw [root] at step
    contradiction

/-- Walk up from a node, looking for another one. -/
def isAncestor [DecidableEq α] (forest : Forest α) (node above : α) : Bool :=
  match _step : forest.parent node with
  | none => node = above
  | some next => node = above ∨ isAncestor forest next above
termination_by forest.wellFounded.wrap node
decreasing_by assumption

/-- The walk finds exactly the ancestors. -/
theorem isAncestor_iff [DecidableEq α] : forest.isAncestor node above ↔ forest.Ancestor node above := by
  -- Induction up the chain of parents.
  induction node using forest.wellFounded.induction with
  | _ node ih =>
    rw [Ancestor, Relation.ReflTransGen.cases_head_iff, isAncestor]
    split
    · next root => simp [root]
    · next next step => simp [step, ih next step, Ancestor]

end Forest
