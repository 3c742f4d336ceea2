/-
# Copies

A copy is made node by node, each node before those below it.  What a copy adds to a forest is a
growth whose identities are the next ones in their order (`Gains`): a node is made, and what is added
below it is added to the node's children, which are none at first.  Of the nodes that were there
before, only the parent is changed: the new topmost nodes come behind its children.

The root is copied as the list of its children.  A deep copy of a forest is a grammar with the texts
of the root, to which a copy of the root is added; nothing loose is copied.
-/
import GrammarTree.Proofs.Forest.Descendants
import GrammarTree.Proofs.Forest.Growth
import GrammarTree.Proofs.RoundTrip
import GrammarTree.Snapshot

namespace GrammarTree

open Growth

/-- A node with more children behind the others. -/
def Entry.adoptAll (ids : List Nat) (e : Entry) : Entry := { e with children := e.children ++ ids }

namespace Forest

variable {f g k s : Forest} {id i n : Nat} {c : Content} {parent : Option Nat}
  {hs ks : List Growth} {t : Tree Content} {ts : List (Tree Content)}

/-! ### New growths -/

/-- The forest `g` is `f` with new growths that hang, in their order, behind the children of a node
or are loose.  Their identities are the next ones, in reading order. -/
structure Gains (f g : Forest) (parent : Option Nat) (hs : List Growth) : Prop where
  stands : ∀ h ∈ hs, g.Stands parent h
  size_eq : g.size = f.size + (idsOf hs).length
  ids_eq : idsOf hs = List.range' f.size (idsOf hs).length
  node?_eq : ∀ i < f.size, g.node? i =
    (f.node? i).map fun e => if parent = some i then e.adoptAll (hs.map top) else e

lemma Gains.size_le (h : Gains f g parent hs) : f.size ≤ g.size := by
  rw [h.size_eq]
  exact Nat.le_add_right _ _

lemma Gains.mem_ids (h : Gains f g parent hs) : i ∈ idsOf hs ↔ f.size ≤ i ∧ i < g.size := by
  rw [h.ids_eq, List.mem_range'_1, h.size_eq]

lemma Offers.mono (hp : f.Offers parent) (h : f.size ≤ g.size) : g.Offers parent :=
  fun p hpar => Nat.lt_of_lt_of_le (hp p hpar) h

lemma gains_nil (f : Forest) (parent : Option Nat) : Gains f f parent [] := by
  refine ⟨nofun, by simp, by simp, fun i _ => ?_⟩
  cases hi : f.node? i with
  | none => rfl
  | some e => simp [Entry.adoptAll]

/-- Gains of one parent come one behind the other. -/
lemma Gains.append (h : Gains f g parent hs) (h' : Gains g k parent ks) (hp : f.Offers parent) :
    Gains f k parent (hs ++ ks) := by
  have hsize : k.size = f.size + (idsOf (hs ++ ks)).length := by
    rw [h'.size_eq, h.size_eq, idsOf_append, List.length_append, Nat.add_assoc]
  refine ⟨?_, hsize, ?_, ?_⟩
  · refine List.forall_mem_append.2 ⟨fun u hu => ?_, h'.stands⟩
    refine (h.stands u hu).congr fun i hi => ?_
    obtain ⟨hle, hlt⟩ := h.mem_ids.1 (mem_idsOf.2 ⟨u, hu, hi⟩)
    have hne : parent ≠ some i := fun hpar => Nat.lt_irrefl i (Nat.lt_of_lt_of_le (hp i hpar) hle)
    rw [h'.node?_eq i hlt]
    simp [hne]
  · rw [idsOf_append, List.length_append, ← List.range'_append_1, ← h.ids_eq, ← h.size_eq,
      ← h'.ids_eq]
  · intro i hi
    rw [h'.node?_eq i (Nat.lt_of_lt_of_le hi h.size_le), h.node?_eq i hi, Option.map_map]
    congr 1
    funext e
    by_cases hpar : parent = some i
    · simp [hpar, Entry.adoptAll]
    · simp [hpar]

/-- A new node with its gains is a gain of the node's parent. -/
lemma Gains.node (h : Gains (f.create c parent) g (some f.size) hs) (hp : f.Offers parent) :
    Gains f g parent [.node (f.size, c) hs] := by
  have hsize : (f.create c parent).size = f.size + 1 := size_create hp
  refine ⟨?_, ?_, ?_, ?_⟩
  · intro u hu
    cases List.mem_singleton.1 hu
    refine .node ?_ h.stands
    rw [h.node?_eq f.size (by omega), node?_create hp, if_pos rfl]
    simp [Entry.adoptAll, Entry.ofContent]
  · rw [h.size_eq, hsize, idsOf_node, List.length_cons]
    omega
  · rw [idsOf_node, List.length_cons, List.range'_succ, ← hsize, ← h.ids_eq]
  · intro i hi
    have hne : f.size ≠ i := Nat.ne_of_gt hi
    have hnot : some f.size ≠ some i := fun heq => hne (Option.some.inj heq)
    rw [h.node?_eq i (by omega), node?_create hp, if_neg hne.symm]
    simp only [if_neg hnot, Option.map_id_fun', id]
    split
    · rfl
    · rw [Option.map_id_fun', id]

/-! ### What a copy gains -/

/-- A copy of the tree is a gain with this tree, and its topmost node is told. -/
def Copies (f : Forest) (parent : Option Nat) (t : Tree Content) : Prop :=
  ∃ h : Growth, h.tree = t ∧ (f.copy parent t).1 = some (top h) ∧
    Gains f (f.copy parent t).2 parent [h]

lemma exists_gains_of_copyAll (hcopy : ∀ t ∈ ts, ∀ f : Forest, f.Offers parent → Copies f parent t)
    (hp : f.Offers parent) :
    ∃ hs, hs.map Growth.tree = ts ∧ Gains f (f.copyAll parent ts) parent hs := by
  induction ts generalizing f with
  | nil =>
    rw [copyAll]
    exact ⟨[], rfl, gains_nil f parent⟩
  | cons t ts ih =>
    obtain ⟨hfirst, hothers⟩ := List.forall_mem_cons.1 hcopy
    obtain ⟨h, rfl, -, hgain⟩ := hfirst f hp
    obtain ⟨hs, rfl, hgains⟩ := ih hothers (hp.mono hgain.size_le)
    rw [copyAll]
    exact ⟨h :: hs, rfl, hgain.append hgains hp⟩

/-- Every node of a sound forest but the root can be copied. -/
lemma Sound.copies (h : s.Sound) (hid : id < s.size) :
    id ≠ rootId → ∀ (f : Forest) (parent : Option Nat), f.Offers parent →
      Copies f parent (s.treeAt id) := by
  refine h.below_induction (fun id hid ih hroot f parent hp => ?_) hid
  have hkind : (s.content id).kind ≠ .grammar := fun heq =>
    hroot (h.alone id (by rw [kind?_content hid, heq]))
  have hchildren : ∀ t ∈ (s.children id).map s.treeAt, ∀ g : Forest, g.Offers (some f.size) →
      Copies g (some f.size) t := by
    refine List.forall_mem_map.2 fun child hchild g hg => ?_
    exact ih child hchild (h.ne_root hchild) g (some f.size) hg
  have hmade : (f.create (s.content id) parent).Offers (some f.size) := by
    rintro p ⟨rfl⟩
    rw [size_create hp]
    exact Nat.lt_succ_self _
  obtain ⟨hs, htrees, hgains⟩ := exists_gains_of_copyAll hchildren hmade
  have hcopy : f.copy parent (s.treeAt id) = (some f.size,
      (f.create (s.content id) parent).copyAll (some f.size) ((s.children id).map s.treeAt)) := by
    rw [h.treeAt_eq hid, Forest.copy, if_neg hkind]
  refine ⟨.node (f.size, s.content id) hs, ?_, ?_, ?_⟩
  · rw [tree_node, htrees, h.treeAt_eq hid]
  · rw [hcopy]
    rfl
  · rw [hcopy]
    exact hgains.node hp

/-! ### What has been gained -/

section Gained

variable (h : Gains f g parent hs) (hsound : g.Sound)
include h hsound

/-- The trees of the growths are those at their topmost nodes. -/
lemma Gains.map_treeAt : (hs.map top).map g.treeAt = hs.map Growth.tree := by
  rw [List.map_map]
  exact List.map_congr_left fun u hu => (h.stands u hu).treeAt_eq hsound

/-- Every new node is below one of the topmost nodes, and the new nodes are numbered in reading
order. -/
lemma Gains.flatMap_descendants :
    (hs.map top).flatMap g.descendants = List.range' f.size (g.size - f.size) := by
  have hlength : (idsOf hs).length = g.size - f.size := by
    rw [h.size_eq, Nat.add_sub_cancel_left]
  rw [← hlength, ← h.ids_eq, idsOf_eq_flatMap, List.flatMap_map]
  refine List.flatMap_congr fun u hu => ?_
  rw [descendants, (h.stands u hu).below_eq hsound, labels_map_fst]

end Gained

/-! ### Copies of nodes -/

/-- What is copied for a node: the tree at the node, and for a grammar the trees at its children. -/
def parts (s : Forest) (id : Nat) : List (Tree Content) :=
  if s.kind? id = some .grammar then (s.children id).map s.treeAt else [s.treeAt id]

/-- All nodes below a node are copied, and the node itself unless it is a grammar. -/
lemma Sound.sizeAll_parts (h : s.Sound) (hid : id < s.size) :
    Tree.sizeAll (s.parts id) + (if s.kind? id = some .grammar then 1 else 0) =
      (s.treeAt id).size := by
  rw [parts]
  split
  · rw [h.treeAt_eq hid, Tree.size]
  · rfl

/-- The root is copied as the list of its children. -/
lemma Sound.copy_root (h : s.Sound) (f : Forest) (parent : Option Nat) :
    f.copy parent (s.treeAt rootId) =
      (none, f.copyAll parent ((s.children rootId).map s.treeAt)) := by
  have hroot : rootId < s.size := h.size_pos
  have hkind : (s.content rootId).kind = .grammar :=
    Option.some.inj ((kind?_content hroot).symm.trans h.root)
  rw [h.treeAt_eq hroot, Forest.copy, if_pos hkind]

lemma Sound.exists_gains_of_root (h : s.Sound) (hp : f.Offers parent) :
    ∃ hs, hs.map Growth.tree = (s.children rootId).map s.treeAt ∧
      Gains f (f.copyAll parent ((s.children rootId).map s.treeAt)) parent hs := by
  refine exists_gains_of_copyAll (List.forall_mem_map.2 fun child hchild g hg => ?_) hp
  exact h.copies (h.child_lt hchild) (h.ne_root hchild) g parent hg

/-- A copy gains what is to be copied, and tells its topmost node unless a grammar is copied. -/
lemma Sound.exists_gains (h : s.Sound) (hid : id < s.size) (hp : f.Offers parent) :
    ∃ hs, hs.map Growth.tree = s.parts id ∧ Gains f (f.copy parent (s.treeAt id)).2 parent hs ∧
      ((s.kind? id = some .grammar ∧ (f.copy parent (s.treeAt id)).1 = none) ∨
        (s.kind? id ≠ some .grammar ∧
          ∃ n, (f.copy parent (s.treeAt id)).1 = some n ∧ hs.map Growth.top = [n])) := by
  by_cases hroot : id = rootId
  · subst hroot
    obtain ⟨hs, htrees, hgains⟩ := h.exists_gains_of_root hp
    rw [h.copy_root, parts, if_pos h.root]
    exact ⟨hs, htrees, hgains, Or.inl ⟨h.root, rfl⟩⟩
  · have hkind : s.kind? id ≠ some .grammar := fun heq => hroot (h.alone id heq)
    obtain ⟨u, hu, hmade, hgains⟩ := h.copies hid hroot f parent hp
    rw [parts, if_neg hkind, hmade]
    exact ⟨[u], by rw [List.map_singleton, hu], hgains, Or.inr ⟨hkind, Growth.top u, rfl, rfl⟩⟩

/-! ### Deep copies -/

/-- A grammar that has no rules yet but the texts of another one. -/
def rooted (s : Forest) : Forest :=
  empty.modify rootId fun e => { e with attributes := s.attributes rootId }

lemma Sound.rooted (h : s.Sound) : s.rooted.Sound := by
  refine sound_empty.relabelled (kind?_modify fun _ => rfl) (parent?_modify fun _ => rfl)
    (children_modify fun _ => rfl) fun i => ?_
  rw [attributes, Forest.rooted, node?_modify]
  split
  · rename_i hi
    subst hi
    exact h.named rootId .grammar h.root
  · rfl

lemma node?_rooted (s : Forest) :
    s.rooted.node? rootId = some ⟨.grammar, none, [], s.attributes rootId⟩ := by
  rw [Forest.rooted, node?_modify, if_pos rfl]
  rfl

/-- What the grammar with the texts of another one gains becomes all that is below its root. -/
lemma Gains.treeAt_root (h : s.Sound) (hg : g.Sound) (hgains : Gains s.rooted g (some rootId) hs) :
    g.tree = .node (s.content rootId) (hs.map Growth.tree) := by
  have hroot : rootId < g.size := hg.size_pos
  have hnode : g.node? rootId =
      some ⟨.grammar, none, hs.map Growth.top, s.attributes rootId⟩ := by
    rw [hgains.node?_eq rootId h.rooted.size_pos, node?_rooted]
    rfl
  have hkind : g.kind? rootId = s.kind? rootId := by rw [hg.root, h.root]
  have hattributes : g.attributes rootId = s.attributes rootId := by
    rw [attributes, hnode]
    rfl
  have hchildren : g.children rootId = hs.map Growth.top := by
    rw [children, hnode]
    rfl
  rw [Forest.tree, hg.treeAt_eq hroot, content_eq, hkind, hattributes, ← content_eq, hchildren,
    hgains.map_treeAt hg]

/-- A deep copy has the same tree, and no nodes besides. -/
lemma Sound.deepCopy (h : s.Sound) : s.deepCopy.tree = s.tree ∧ s.deepCopy.size = s.tree.size := by
  have hroot : rootId < s.size := h.size_pos
  have hp : s.rooted.Offers (some rootId) := by
    rintro p ⟨rfl⟩
    exact h.rooted.size_pos
  obtain ⟨hs, htrees, hgains⟩ := h.exists_gains_of_root hp
  have htree : s.tree = .node (s.content rootId) ((s.children rootId).map s.treeAt) :=
    h.treeAt_eq hroot
  have hcopy : s.deepCopy =
      s.rooted.copyAll (some rootId) ((s.children rootId).map s.treeAt) := by
    rw [Forest.deepCopy, htree]
    rfl
  have hsound : s.deepCopy.Sound := by
    rw [hcopy]
    exact (Sound.copyAll _ h.rooted hp).1
  rw [← hcopy] at hgains
  refine ⟨?_, ?_⟩
  · rw [hgains.treeAt_root h hsound, htrees, htree]
  · have hone : s.rooted.size = 1 := size_modify _ _ _
    rw [hgains.size_eq, length_idsOf, htrees, hone, htree, Tree.size, Nat.add_comm]

/-! ### The theorem -/

/-- Copying a node of a sound forest into a sound forest makes one new node for each node at or below
it, the root excepted.  No other node is changed, but that the topmost nodes of the copy come behind
the children of the parent; and the topmost node, if there is a single one, is told and has the
snapshot of the node that was copied.  A deep copy has a node for each node that the root is above
of, and no difference from the tree of the forest. -/
theorem copy_faithful (hf : f.Sound) (h : s.Sound) (hid : id < s.size) (hp : f.Offers parent) :
    (∃ made g tops, f.copy parent (s.treeAt id) = (made, g) ∧
      (made = none ↔ s.kind? id = some .grammar) ∧
      (∀ n, made = some n → tops = [n] ∧
        Snapshot.ofTree (g.treeAt n) = Snapshot.ofTree (s.treeAt id)) ∧
      tops.map g.treeAt = s.parts id ∧
      (∀ n ∈ tops, g.parent? n = parent) ∧
      (∀ i < f.size, g.node? i =
        (f.node? i).map fun e => if parent = some i then e.adoptAll tops else e) ∧
      tops.flatMap g.descendants = List.range' f.size (g.size - f.size) ∧
      g.size + (if s.kind? id = some .grammar then 1 else 0) =
        f.size + ((List.range s.size).filter fun i => s.isAbove id i).length) ∧
    s.deepCopy.size = ((List.range s.size).filter fun i => s.isAbove rootId i).length ∧
    Snapshot.ofTree s.deepCopy.tree = Snapshot.ofTree s.tree ∧
    differences s.tree s.deepCopy.tree = [] := by
  obtain ⟨htree, hsize⟩ := h.deepCopy
  have hroot : rootId < s.size := h.size_pos
  refine ⟨?_, ?_, by rw [htree], by rw [htree, differences_self]⟩
  · obtain ⟨hs, htrees, hgains, hmade⟩ := h.exists_gains hid hp
    have hsound := (Sound.copy (s.treeAt id) hf hp).1
    have htops := hgains.map_treeAt hsound
    rw [htrees] at htops
    refine ⟨_, _, hs.map Growth.top, rfl, ?_, ?_, htops, ?_, hgains.node?_eq,
      hgains.flatMap_descendants hsound, ?_⟩
    · rcases hmade with ⟨hkind, hnone⟩ | ⟨hkind, n, hsome, -⟩
      · exact iff_of_true hnone hkind
      · refine iff_of_false ?_ hkind
        rw [hsome]
        exact Option.some_ne_none n
    · intro n hn
      rcases hmade with ⟨-, hnone⟩ | ⟨hkind, m, hsome, hone⟩
      · rw [hnone] at hn
        cases hn
      · rw [hsome] at hn
        cases hn
        rw [hone, parts, if_neg hkind] at htops
        exact ⟨hone, congrArg Snapshot.ofTree (List.cons.inj htops).1⟩
    · refine List.forall_mem_map.2 fun u hu => ?_
      exact (hgains.stands u hu).parent?
    · rw [hgains.size_eq, length_idsOf, htrees, Nat.add_assoc, h.sizeAll_parts hid,
        h.size_treeAt hid]
  · rw [hsize, Forest.tree, h.size_treeAt hroot]

/-- A rule is copied below the root of an empty grammar, and the grammar of the rule is copied without
a terminal that is loose. -/
theorem copy_faithful_of_rule :
    ∃ f s g : Forest, f.Sound ∧ s.Sound ∧ s.size = 4 ∧ s.parent? 3 = none ∧
      f.copy (some rootId) (s.treeAt 1) = (some 1, g) ∧ g.size = 3 ∧
      Snapshot.ofTree (g.treeAt 1) = Snapshot.ofTree (s.treeAt 1) ∧
      s.deepCopy.size = 3 ∧ differences s.tree s.deepCopy.tree = [] := by
  have h₁ : Reachable (Change.result .empty (.create .rule "a" (some 0))) :=
    .change .empty ⟨by decide, by rintro p ⟨rfl⟩; decide⟩ nofun
  have h₂ := h₁.change (c := .create .group "" (some 1))
    ⟨by decide, by rintro p ⟨rfl⟩; decide⟩ nofun
  have h₃ := h₂.change (c := .create .terminal "x" none) ⟨by decide, nofun⟩ nofun
  have hroot : Forest.empty.Offers (some rootId) := by
    rintro p ⟨rfl⟩
    decide
  obtain ⟨s, hsound, hsize, hloose, hmade, hrule, hall⟩ : ∃ s : Forest, s.Sound ∧ s.size = 4 ∧
      s.parent? 3 = none ∧ (Forest.empty.copy (some rootId) (s.treeAt 1)).1 = some 1 ∧
      ((List.range s.size).filter fun i => s.isAbove 1 i).length = 2 ∧
      ((List.range s.size).filter fun i => s.isAbove rootId i).length = 3 :=
    ⟨_, sound_of_reachable h₃, by decide, by decide, by decide, by decide, by decide⟩
  have hone : 1 < s.size := by omega
  obtain ⟨⟨made, g, tops, hcopy, hnone, hsome, -, -, -, -, hcount⟩, hdeep, -, hsame⟩ :=
    copy_faithful sound_empty hsound hone hroot
  rw [hcopy] at hmade
  obtain rfl : made = some 1 := hmade
  have hkind : s.kind? 1 ≠ some .grammar := by
    rw [Ne, ← hnone]
    exact Option.some_ne_none 1
  rw [if_neg hkind, hrule] at hcount
  exact ⟨.empty, s, g, sound_empty, hsound, hsize, hloose, hcopy, hcount, (hsome 1 rfl).2,
    hdeep.trans hall, hsame⟩

end Forest

end GrammarTree
