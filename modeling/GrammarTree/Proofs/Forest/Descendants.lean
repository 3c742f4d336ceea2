/-
# The nodes below a node

The tree below a node has every node in it that the node is above of, and each of them once.  That
none is met twice rests on the parents: the ways up from a node do not part, so that of two siblings
only one can be above it.

A statement about a node can be proved from the same statement about its children
(`Sound.below_induction`), since below the children there are fewer nodes than below the node.
-/
import GrammarTree.Proofs.Forest.Hanging
import GrammarTree.Proofs.Walk

namespace GrammarTree

namespace Forest

variable {f : Forest} {id i u v : Nat}

/-- The identities of a node and of all nodes below it, in reading order. -/
def descendants (f : Forest) (id : Nat) : List Nat := (f.below id).preorder.map (·.label)

@[elab_as_elim]
lemma Sound.below_induction (h : f.Sound) {P : Nat → Prop}
    (node : ∀ id < f.size, (∀ child ∈ f.children id, P child) → P id) (hid : id < f.size) :
    P id := by
  induction hn : (f.below id).size using Nat.strongRecOn generalizing id with
  | ind n ih =>
    refine node id hid fun child hchild => ih (f.below child).size ?_ (h.child_lt hchild) rfl
    rw [← hn, h.below_eq hid, Tree.size]
    exact Nat.lt_succ_of_le (Tree.size_le_sizeAll (List.mem_map_of_mem hchild))

lemma Sound.descendants_eq (h : f.Sound) (hid : id < f.size) :
    f.descendants id = id :: (f.children id).flatMap f.descendants := by
  rw [descendants, h.below_eq hid, Tree.preorder_node, Tree.preorderOf_eq_flatMap, List.map_cons,
    List.flatMap_map, List.map_flatMap]
  rfl

/-! ### Which nodes are there -/

/-- What is above a node is the node itself or above its parent; told from the upper end. -/
lemma Sound.above_iff (h : f.Sound) :
    f.Above u i ↔ i = u ∨ ∃ child ∈ f.children u, f.Above child i := by
  constructor
  · intro habove
    induction habove with
    | self => exact Or.inl rfl
    | @step l p hp _ ih =>
      right
      rcases ih with rfl | ⟨child, hchild, habove⟩
      · exact ⟨l, (h.linked l p).1 hp, .self⟩
      · exact ⟨child, hchild, .step hp habove⟩
  · rintro (rfl | ⟨child, hchild, habove⟩)
    · exact .self
    · exact Above.trans (.step ((h.linked child u).2 hchild) .self) habove

lemma Sound.mem_descendants (h : f.Sound) (hid : id < f.size) :
    i ∈ f.descendants id ↔ f.Above id i := by
  refine h.below_induction (fun id hid ih => ?_) hid
  rw [h.descendants_eq hid, List.mem_cons, List.mem_flatMap, h.above_iff]
  exact or_congr_right (exists_congr fun child => and_congr_right fun hchild => ih child hchild)

lemma Sound.lt_size_of_mem_descendants (h : f.Sound) (hid : id < f.size)
    (hi : i ∈ f.descendants id) : i < f.size := by
  cases (h.mem_descendants hid).1 hi with
  | self => exact hid
  | step hp _ => exact lt_size_of_parent? hp

/-! ### Each of them once -/

/-- Of two nodes above a third one, one is above the other. -/
lemma Above.total (hu : f.Above u i) (hv : f.Above v i) : f.Above u v ∨ f.Above v u := by
  induction hu with
  | self => exact Or.inr hv
  | @step l p hp hup ih =>
    cases hv with
    | self => exact Or.inl (.step hp hup)
    | step hq hvq =>
      rw [hp] at hq
      cases hq
      exact ih hvq

/-- Two different children of a node have nothing below them in common. -/
lemma Sound.eq_of_above (h : f.Sound) (hu : u ∈ f.children id) (hv : v ∈ f.children id)
    (hui : f.Above u i) (hvi : f.Above v i) : u = v := by
  have hup : f.parent? u = some id := (h.linked u id).2 hu
  have hvp : f.parent? v = some id := (h.linked v id).2 hv
  -- above a child is the child itself, or what is above the parent
  have hup' : ∀ {w w'}, f.parent? w = some id → f.parent? w' = some id → f.Above w w' → w = w' := by
    intro w w' hw hw' habove
    cases habove with
    | self => rfl
    | step hp hrest =>
      rw [hw'] at hp
      cases hp
      exact absurd hrest ((h.ends id).not_above w hw)
  rcases hui.total hvi with habove | habove
  · exact hup' hup hvp habove
  · exact (hup' hvp hup habove).symm

lemma Sound.nodup_descendants (h : f.Sound) (hid : id < f.size) : (f.descendants id).Nodup := by
  refine h.below_induction (fun id hid ih => ?_) hid
  rw [h.descendants_eq hid, List.nodup_cons, List.nodup_flatMap]
  refine ⟨fun hmem => ?_, ih, ?_⟩
  · obtain ⟨child, hchild, hmem⟩ := List.mem_flatMap.1 hmem
    rw [h.mem_descendants (h.child_lt hchild)] at hmem
    exact (h.ends id).not_above child ((h.linked child id).2 hchild) hmem
  · refine (h.once id).imp_of_mem fun hu hv hne i hui hvi => hne ?_
    rw [h.mem_descendants (h.child_lt hu)] at hui
    rw [h.mem_descendants (h.child_lt hv)] at hvi
    exact h.eq_of_above hu hv hui hvi

/-- Every node that a node is above of is met below it, and none is met twice. -/
lemma Sound.perm_descendants (h : f.Sound) (hid : id < f.size) :
    (f.descendants id).Perm ((List.range f.size).filter fun i => f.isAbove id i) := by
  rw [List.perm_ext_iff_of_nodup (h.nodup_descendants hid) (List.nodup_range.filter _)]
  intro i
  rw [List.mem_filter, List.mem_range]
  constructor
  · intro hmem
    have hi : i < f.size := h.lt_size_of_mem_descendants hid hmem
    exact ⟨hi, (h.isAbove_iff hi).2 ((h.mem_descendants hid).1 hmem)⟩
  · rintro ⟨hi, habove⟩
    exact (h.mem_descendants hid).2 ((h.isAbove_iff hi).1 habove)

/-- The tree at a node has as many nodes as there are nodes that it is above of. -/
lemma Sound.size_treeAt (h : f.Sound) (hid : id < f.size) :
    (f.treeAt id).size = ((List.range f.size).filter fun i => f.isAbove id i).length := by
  rw [← (h.perm_descendants hid).length_eq, descendants, List.length_map, Tree.length_preorder,
    treeAt, Tree.size_map]

end Forest

end GrammarTree
