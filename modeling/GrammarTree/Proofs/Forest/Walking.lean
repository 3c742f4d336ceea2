/-
# Walking with a stack

The nodes below a node can be visited by a loop.  It takes a node from a stack and puts the children
of this node on it, until nothing is left.  One such loop lists the nodes it meets (`listRound`); it
puts the last child on first, so that the first one comes next.  Another one keeps the greatest level
(`levelRound`); in which order it goes through the children does not matter there.

Nothing in a loop says that it ends, and it would not if a node were below itself.  In a sound forest
a node on top of the stack is worked off together with all that is below it, and what lies under it
stays (`Sound.lists`, `Sound.measures`).  So the loops end, and they come to what the
recursive definitions say (`walks_of_sound`).
-/
import Mathlib.Computability.StateTransition
import GrammarTree.Proofs.Forest.Descendants
import GrammarTree.Proofs.Forest.Reachable
import GrammarTree.Snapshot

namespace GrammarTree

namespace Forest

variable {f : Forest} {id : Nat}

/-! ### The loops -/

/-- A stack with some items put on it one after the other; the last one lies on top. -/
def push {α : Type} (stack items : List α) : List α := items.foldl (fun stack a => a :: stack) stack

lemma push_eq {α : Type} (stack items : List α) : push stack items = items.reverse ++ stack := by
  rw [push, List.foldl_flip_cons_eq_append (f := fun a => a), List.map_id']

/-- A round of the loop that lists nodes: the stack and the nodes met so far. -/
def listRound (f : Forest) : List Nat × List Nat → Option (List Nat × List Nat)
  | ([], _) => none
  | (id :: stack, met) => some (push stack (f.children id).reverse, met ++ [id])

/-- A round of the loop that counts levels: the stack of nodes with their levels, and the greatest
level so far. -/
def levelRound (f : Forest) : List (Nat × Nat) × Nat → Option (List (Nat × Nat) × Nat)
  | ([], _) => none
  | ((id, level) :: stack, deepest) =>
    some (push stack ((f.children id).map (·, level + 1)), max deepest level)

open StateTransition

/-- Whatever lies under it on the stack, a node is listed with all nodes below it. -/
def Lists (f : Forest) (id : Nat) : Prop := ∀ stack met : List Nat,
  Reaches f.listRound (id :: stack, met) (stack, met ++ f.descendants id)

/-- Nodes on the stack are listed one after the other. -/
lemma reaches_list_all {nodes : List Nat} (hall : ∀ id ∈ nodes, f.Lists id) (stack met : List Nat) :
    Reaches f.listRound (nodes ++ stack, met) (stack, met ++ nodes.flatMap f.descendants) := by
  induction nodes generalizing met with
  | nil =>
    rw [List.flatMap_nil, List.append_nil]
    exact .refl
  | cons id nodes ih =>
    obtain ⟨hid, hall⟩ := List.forall_mem_cons.1 hall
    have hrest := ih hall (met ++ f.descendants id)
    rw [List.append_assoc, ← List.flatMap_cons] at hrest
    exact (hid (nodes ++ stack) met).trans hrest

lemma Sound.lists (h : f.Sound) (hid : id < f.size) : f.Lists id := by
  refine h.below_induction (fun id hid ih stack met => ?_) hid
  have hround : f.listRound (id :: stack, met) = some (f.children id ++ stack, met ++ [id]) := by
    rw [listRound, push_eq, List.reverse_reverse]
  have hmet : met ++ f.descendants id =
      met ++ [id] ++ (f.children id).flatMap f.descendants := by
    rw [h.descendants_eq hid, List.append_assoc]
    rfl
  rw [hmet]
  exact .head hround (reaches_list_all ih stack (met ++ [id]))

/-- The number of levels is one more than the greatest number of levels below. -/
lemma Sound.depth_treeAt (h : f.Sound) (hid : id < f.size) :
    (f.treeAt id).depth =
      ((f.children id).map fun child => (f.treeAt child).depth).foldr max 0 + 1 := by
  rw [h.treeAt_eq hid, Tree.depth_node, List.map_map]
  rfl

/-- Whatever lies under it on the stack, a node is worked off down to the deepest level below it. -/
def Measures (f : Forest) (id : Nat) : Prop :=
  ∀ (level : Nat) (stack : List (Nat × Nat)) (deepest : Nat),
    Reaches f.levelRound ((id, level + 1) :: stack, deepest)
      (stack, max deepest (level + (f.treeAt id).depth))

/-- Nodes on the stack are worked off one after the other; their own level has been met before. -/
lemma reaches_level_all {nodes : List Nat} (hall : ∀ id ∈ nodes, f.Measures id)
    {level deepest : Nat} (hle : level ≤ deepest) (stack : List (Nat × Nat)) :
    Reaches f.levelRound (nodes.map (·, level + 1) ++ stack, deepest)
      (stack, max deepest
        (level + (nodes.map fun id => (f.treeAt id).depth).foldr max 0)) := by
  induction nodes generalizing deepest with
  | nil =>
    rw [List.map_nil, List.map_nil, List.foldr_nil, Nat.add_zero, Nat.max_eq_left hle]
    exact .refl
  | cons id nodes ih =>
    obtain ⟨hid, hall⟩ := List.forall_mem_cons.1 hall
    have hfirst := hid level (nodes.map (·, level + 1) ++ stack) deepest
    have hrest := ih hall (Nat.le_trans hle (Nat.le_max_left deepest (level + (f.treeAt id).depth)))
    rw [Nat.max_assoc, Nat.add_max_add_left] at hrest
    exact hfirst.trans hrest

lemma Sound.measures (h : f.Sound) (hid : id < f.size) : f.Measures id := by
  refine h.below_induction (fun id hid ih level stack deepest => ?_) hid
  have hround : f.levelRound ((id, level + 1) :: stack, deepest) =
      some ((f.children id).reverse.map (·, level + 2) ++ stack, max deepest (level + 1)) := by
    rw [levelRound, push_eq, List.map_reverse]
  have hchildren := reaches_level_all (fun child hchild => ih child (List.mem_reverse.1 hchild))
    (Nat.le_max_right deepest (level + 1)) stack
  -- the children come in reverse, which does not change the greatest of their depths
  have hdepth : max (max deepest (level + 1)) (level + 1 +
      ((f.children id).reverse.map fun child => (f.treeAt child).depth).foldr max 0) =
        max deepest (level + (f.treeAt id).depth) := by
    rw [((f.children id).reverse_perm.map fun child => (f.treeAt child).depth).foldr_eq,
      h.depth_treeAt hid]
    omega
  rw [hdepth] at hchildren
  exact .head hround hchildren

/-! ### The theorem -/

/-- In a sound forest both loops end.  The one lists the nodes below a node: the node itself and then
what is listed for its children, each node once, and exactly those that the node is above of; in the
snapshot of the node there are as many records.  The other one finds the number of levels: one for a
node without children, and else one more than the greatest number of levels at its children. -/
theorem walks_of_sound (h : f.Sound) (hid : id < f.size) :
    ([], f.descendants id) ∈ eval f.listRound ([id], []) ∧
    ([], (f.treeAt id).depth) ∈ eval f.levelRound ([(id, 1)], 0) ∧
    (f.children id = [] → (f.treeAt id).depth = 1) ∧
    (∀ m, ((f.children id).map fun child => (f.treeAt child).depth).max? = some m →
      (f.treeAt id).depth = 1 + m) ∧
    f.descendants id = id :: (f.children id).flatMap f.descendants ∧
    (f.descendants id).Nodup ∧
    (∀ i, i ∈ f.descendants id ↔ f.Above id i) ∧
    (f.descendants id).length = (Snapshot.ofTree (f.treeAt id)).size := by
  refine ⟨mem_eval.2 ⟨?_, rfl⟩, mem_eval.2 ⟨?_, rfl⟩, ?_, ?_, h.descendants_eq hid,
    h.nodup_descendants hid, fun i => h.mem_descendants hid, ?_⟩
  · exact h.lists hid [] []
  · have hlevel := h.measures hid 0 [] 0
    rwa [Nat.zero_add, Nat.zero_add, Nat.zero_max] at hlevel
  · intro hnone
    rw [h.depth_treeAt hid, hnone]
    rfl
  · intro m hm
    have hmax : ((f.children id).map fun child => (f.treeAt child).depth).foldr max 0 = m :=
      eq_of_forall_ge_iff fun n => Tree.foldr_max_le_iff.trans (List.max?_le_iff hm).symm
    rw [h.depth_treeAt hid, hmax, Nat.add_comm]
  · rw [Snapshot.ofTree, Tree.size_map, treeAt, Tree.size_map, descendants, List.length_map,
      Tree.length_preorder]

/-- The loops go through a rule with two leaves of different depth, while another node is loose. -/
theorem walks_of_sound_rule :
    ∃ f : Forest, f.Sound ∧ 1 < f.size ∧ f.children 1 = [2, 4] ∧
      ([], [1, 2, 3, 4]) ∈ eval f.listRound ([1], []) ∧
      ([], 3) ∈ eval f.levelRound ([(1, 1)], 0) ∧
      ((f.children 1).map fun child => (f.treeAt child).depth).max? = some 2 ∧
      (f.treeAt 1).depth = 1 + 2 ∧ (Snapshot.ofTree (f.treeAt 1)).size = 4 := by
  have h₁ := Reachable.empty.createBelow .rule "a" 0 (by decide) (by decide)
  have h₂ := h₁.createBelow .group "" 1 (by decide) (by decide)
  have h₃ := h₂.createBelow .terminal "x" 2 (by decide) (by decide)
  have h₄ := h₃.createBelow .comment "y" 1 (by decide) (by decide)
  have h₅ := h₄.change (c := .create .optional "" none) ⟨by decide, nofun⟩ nofun
  obtain ⟨f, hsound, hsize, hchildren, hlist, hmax⟩ : ∃ f : Forest, f.Sound ∧ 1 < f.size ∧
      f.children 1 = [2, 4] ∧ f.descendants 1 = [1, 2, 3, 4] ∧
      ((f.children 1).map fun child => (f.treeAt child).depth).max? = some 2 :=
    ⟨_, sound_of_reachable h₅, by decide, by decide, by decide +kernel, by decide +kernel⟩
  obtain ⟨hmet, hlevel, -, hdepth, -, -, -, hcount⟩ := walks_of_sound hsound hsize
  rw [hlist] at hmet hcount
  rw [hdepth 2 hmax] at hlevel
  exact ⟨f, hsound, hsize, hchildren, hmet, hlevel, hmax, hdepth 2 hmax, hcount.symm⟩

end Forest

end GrammarTree
