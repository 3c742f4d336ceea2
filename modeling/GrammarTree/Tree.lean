/-
# Ordered trees

A tree is a label with a list of trees below it.  The labels are left open: a parsed grammar is a
tree of contents, its image for writing out is a tree of records, and a forest numbers its nodes by
labelling them with identities.

The two walks over all nodes, `preorder` for the nodes in reading order and `depth` for the number
of levels, work through a list of subtrees that are still to be visited.
-/

namespace GrammarTree

/-- A label with an ordered list of trees below it. -/
inductive Tree (α : Type) where
  | node (label : α) (children : List (Tree α))
deriving Repr

namespace Tree

variable {α β : Type}

/-- The label of the topmost node. -/
def label : Tree α → α
  | node a _ => a

/-- The trees below the topmost node. -/
def children : Tree α → List (Tree α)
  | node _ ts => ts

/-- A tree without children. -/
def leaf (a : α) : Tree α := node a []

@[simp] theorem label_node (a : α) (ts : List (Tree α)) : (node a ts).label = a := rfl

@[simp] theorem children_node (a : α) (ts : List (Tree α)) : (node a ts).children = ts := rfl

mutual

/-- The number of nodes. -/
def size : Tree α → Nat
  | node _ ts => sizeAll ts + 1

/-- The number of nodes of several trees. -/
def sizeAll : List (Tree α) → Nat
  | [] => 0
  | t :: ts => t.size + sizeAll ts

end

mutual

/-- The same tree with other labels. -/
def map (f : α → β) : Tree α → Tree β
  | node a ts => node (f a) (mapAll f ts)

/-- Several trees with other labels. -/
def mapAll (f : α → β) : List (Tree α) → List (Tree β)
  | [] => []
  | t :: ts => t.map f :: mapAll f ts

end

theorem mapAll_eq_map (f : α → β) (ts : List (Tree α)) : mapAll f ts = ts.map (map f) := by
  induction ts with
  | nil => rfl
  | cons t ts ih => simp [mapAll, ih]

theorem sizeAll_append (ts us : List (Tree α)) : sizeAll (ts ++ us) = sizeAll ts + sizeAll us := by
  induction ts with
  | nil => simp [sizeAll]
  | cons t ts ih => simp [sizeAll, ih, Nat.add_assoc]

theorem size_pos (t : Tree α) : 0 < t.size := by
  cases t
  simp [size]

/-! ### Equality -/

mutual

/-- Whether two trees are equal. -/
def decEq [DecidableEq α] : (t u : Tree α) → Decidable (t = u)
  | node a ts, node b us =>
    match (inferInstance : Decidable (a = b)), decEqAll ts us with
    | isTrue h, isTrue h' => isTrue (by rw [h, h'])
    | isFalse h, _ => isFalse fun e => h (by injection e)
    | _, isFalse h => isFalse fun e => h (by injection e)

/-- Whether two lists of trees are equal. -/
def decEqAll [DecidableEq α] : (ts us : List (Tree α)) → Decidable (ts = us)
  | [], [] => isTrue rfl
  | [], _ :: _ => isFalse (by simp)
  | _ :: _, [] => isFalse (by simp)
  | t :: ts, u :: us =>
    match decEq t u, decEqAll ts us with
    | isTrue h, isTrue h' => isTrue (by rw [h, h'])
    | isFalse h, _ => isFalse fun e => h (by injection e)
    | _, isFalse h => isFalse fun e => h (by injection e)

end

instance [DecidableEq α] : DecidableEq (Tree α) := decEq

/-! ### Walks -/

/-- The nodes of the trees that wait, in reading order; each node is given with what is below it. -/
def preorderOf : List (Tree α) → List (Tree α)
  | [] => []
  | node a ts :: rest => node a ts :: preorderOf (ts ++ rest)
termination_by ts => sizeAll ts
decreasing_by simp [sizeAll, size, sizeAll_append]

/-- A tree and all trees below it, each before those below it. -/
def preorder (t : Tree α) : List (Tree α) := preorderOf [t]

/-- Some trees that wait at one level. -/
def atLevel (level : Nat) (ts : List (Tree α)) : List (Tree α × Nat) := ts.map fun t => (t, level)

@[simp] theorem map_fst_atLevel (level : Nat) (ts : List (Tree α)) :
    (atLevel level ts).map Prod.fst = ts := by
  simp [atLevel, Function.comp_def]

/-- The greatest level among the trees that wait and all below them; a waiting tree comes with its
own level. -/
def deepest (best : Nat) : List (Tree α × Nat) → Nat
  | [] => best
  | (node _ ts, level) :: rest => deepest (max best level) (atLevel (level + 1) ts ++ rest)
termination_by ts => sizeAll (ts.map Prod.fst)
decreasing_by simp [sizeAll, size, sizeAll_append]

/-- The number of levels: 1 for a leaf. -/
def depth (t : Tree α) : Nat := deepest 0 [(t, 1)]

/-- Whether there is nothing below the topmost node. -/
def isLeaf (t : Tree α) : Bool := t.children.isEmpty

/-- The subtree reached by a list of child indexes; on failure, the first index that has no child. -/
def descend (t : Tree α) : List Nat → Except Nat (Tree α)
  | [] => .ok t
  | i :: path =>
    match t.children[i]? with
    | some child => child.descend path
    | none => .error i

mutual

/-- Each node's level and label in reading order, the topmost node being at the given level. -/
def rows (level : Nat) : Tree α → List (Nat × α)
  | node a ts => (level, a) :: rowsAll (level + 1) ts

/-- The rows of several trees at one level. -/
def rowsAll (level : Nat) : List (Tree α) → List (Nat × α)
  | [] => []
  | t :: ts => t.rows level ++ rowsAll level ts

end

end Tree

end GrammarTree
