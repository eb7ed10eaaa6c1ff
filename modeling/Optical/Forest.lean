/-!
# Ordered forests

A forest is a list of trees with a label at each root. It is empty, or it is a first tree, given by
its label and the forest below it, and the rest of the forest. A directory is read as the forest of
its entries.
-/

namespace Optical

/-- An ordered list of trees with labels. -/
inductive Forest (α : Type) where
  | nil
  | cons (root : α) (below rest : Forest α)
deriving DecidableEq, Repr

namespace Forest

variable {α β : Type}

/-- The labels, each before those below it. -/
def labels : Forest α → List α
  | nil => []
  | cons root below rest => root :: (below.labels ++ rest.labels)

/-- The forest of a list of trees, each a label and the forest below it. -/
def ofTrees : List (α × Forest α) → Forest α
  | [] => nil
  | (root, below) :: trees => cons root below (ofTrees trees)

/-- The forest of the same shape with other labels. -/
def map (f : α → β) : Forest α → Forest β
  | nil => nil
  | cons root below rest => cons (f root) (below.map f) (rest.map f)

/-- The number of labels. -/
def size (forest : Forest α) : Nat :=
  forest.labels.length

theorem labels_ofTrees (trees : List (α × Forest α)) :
    (ofTrees trees).labels = trees.flatMap fun tree => tree.1 :: tree.2.labels := by
  induction trees with
  | nil => rfl
  | cons tree trees ih => simp [ofTrees, labels, ih]

@[simp] theorem labels_map (f : α → β) (forest : Forest α) :
    (forest.map f).labels = forest.labels.map f := by
  induction forest with
  | nil => rfl
  | cons root below rest ihBelow ihRest => simp [map, labels, ihBelow, ihRest]

@[simp] theorem size_map (f : α → β) (forest : Forest α) :
    (forest.map f).size = forest.size := by
  simp [size]

end Forest
end Optical
