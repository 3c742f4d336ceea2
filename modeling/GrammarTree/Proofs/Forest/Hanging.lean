/-
# What hangs from a node

The tree below a node is unfolded for as many levels as the forest has nodes.  In a sound forest this
is enough: the nodes on a way down are all different, so that no way is longer.  Hence the tree at a
node has the trees at the node's children below it (`Sound.treeAt_eq`), as if there were no limit.

What a node is, as far as the tree is concerned, is then just what the forest stores of it: since a
node of a sound forest has the attributes of its kind, its content has them, too
(`Sound.attributes_content`).
-/
import GrammarTree.Proofs.Forest.Invariant

namespace GrammarTree

/-- A node with the attributes of its kind is of the content that has these attributes. -/
lemma Entry.attributes_content {e : Entry} (h : e.attributes.map Prod.fst = e.kind.attributeNames) :
    e.content.attributes = e.attributes := by
  obtain ⟨kind, parent, children, attributes⟩ := e
  -- the names say how many attributes there are
  cases kind with
  | grammar =>
    obtain ⟨⟨name₁, title⟩, attributes, rfl, hfirst, h⟩ := List.map_eq_cons_iff.1 h
    obtain ⟨⟨name₂, about⟩, attributes, rfl, hsecond, h⟩ := List.map_eq_cons_iff.1 h
    cases List.map_eq_nil_iff.1 h
    cases hfirst
    cases hsecond
    rfl
  | rule | identifier | terminal | comment =>
    obtain ⟨⟨name, value⟩, attributes, rfl, hname, h⟩ := List.map_eq_cons_iff.1 h
    cases List.map_eq_nil_iff.1 h
    cases hname
    rfl
  | sequence | choice | optional | repetition | group | exception =>
    cases List.map_eq_nil_iff.1 h
    rfl

@[simp] lemma Entry.kind_content (e : Entry) : e.content.kind = e.kind := by
  obtain ⟨kind, parent, children, attributes⟩ := e
  cases kind <;> rfl

namespace Forest

variable {f : Forest} {id : Nat}

/-! ### Levels -/

/-- Another level adds nothing, once the levels below a node and the nodes above it are together more
than there are nodes. -/
lemma Sound.unfold_succ (h : f.Sound) {levels : Nat} (steps : Nat) (hid : id < f.size)
    (hlt : f.size < levels + (f.climb steps id).length) :
    f.unfold (levels + 1) id = f.unfold levels id := by
  -- one level further down there is one level less and one node more above
  induction levels generalizing id steps with
  | zero =>
    have hle := h.length_climb_le hid steps
    omega
  | succ levels ih =>
    rw [unfold, unfold]
    congr 1
    refine List.map_congr_left fun child hchild => ?_
    have hup : f.climb (steps + 1) child = child :: f.climb steps id := by
      rw [climb_succ, (h.linked child id).2 hchild]
      rfl
    refine ih (steps + 1) (h.child_lt hchild) ?_
    rw [hup, List.length_cons]
    omega

/-- Below a node are its children with what is below them. -/
lemma Sound.below_eq (h : f.Sound) (hid : id < f.size) :
    f.below id = .node id ((f.children id).map f.below) := by
  have hone : f.size < f.size + (f.climb 1 id).length := by
    rw [climb_succ, List.length_cons]
    omega
  have hmore : f.unfold (f.size + 1) id = f.unfold f.size id := h.unfold_succ 1 hid hone
  rw [below, ← hmore, unfold]
  rfl

lemma Sound.treeAt_eq (h : f.Sound) (hid : id < f.size) :
    f.treeAt id = .node (f.content id) ((f.children id).map f.treeAt) := by
  rw [treeAt, h.below_eq hid, Tree.map, Tree.mapAll_eq_map, List.map_map]
  rfl

/-! ### Contents -/

lemma kind?_content (hid : id < f.size) : f.kind? id = some (f.content id).kind := by
  obtain ⟨e, he⟩ := Option.isSome_iff_exists.1 (node?_isSome_iff.2 hid)
  simp [kind?, content, he]

lemma Sound.attributes_content (h : f.Sound) (hid : id < f.size) :
    (f.content id).attributes = f.attributes id := by
  obtain ⟨e, he⟩ := Option.isSome_iff_exists.1 (node?_isSome_iff.2 hid)
  have hkind : f.kind? id = some e.kind := by rw [kind?, he, Option.map_some]
  have hnamed := h.named id e.kind hkind
  simp only [attributes, content, he, Option.map_some, Option.getD_some] at hnamed ⊢
  exact Entry.attributes_content hnamed

end Forest

end GrammarTree
