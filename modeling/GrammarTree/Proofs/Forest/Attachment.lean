/-
# Moving a node

Attaching a node is refused in two cases, and these are told apart: the node is the root, or it is
the new parent or lies above it.  A refused call leaves the forest as it is, since both cases are
told apart before anything is changed.

In all other cases the node is moved (`Moves`).  It becomes the last child of its new parent and is
no child of the old one any more, which may be the same node; the other children of both keep their
order.  Nothing else changes, in particular nothing below the node: what is below it is told by the
children of the nodes there, and neither of the two parents is among these.
-/
import GrammarTree.Proofs.Forest.Hanging
import GrammarTree.Proofs.Forest.Reachable

namespace GrammarTree

namespace Forest

variable {f g : Forest} {id i : Nat}

/-! ### What is below a node -/

/-- What is below a node is told by the children of the nodes there. -/
lemma Sound.unfold_congr (h : f.Sound) (levels : Nat)
    (heq : ∀ i, f.Above id i → g.children i = f.children i) :
    g.unfold levels id = f.unfold levels id := by
  induction levels generalizing id with
  | zero => rfl
  | succ levels ih =>
    rw [unfold, unfold, heq id .self]
    congr 1
    refine List.map_congr_left fun child hchild => ih fun i hi => heq i ?_
    have hbelow : f.Above id child := .step ((h.linked child id).2 hchild) .self
    exact hbelow.trans hi

/-! ### The move -/

section Move

variable {parent child : Nat}

/-- In the forest `g` the node `child` is moved to the end of the children of `parent`, and nothing
else is different from `f`. -/
structure Moves (f g : Forest) (parent child : Nat) : Prop where
  /-- The node is below its new parent, and every other node where it was. -/
  parent?_eq : ∀ i, g.parent? i = if i = child then some parent else f.parent? i
  /-- It is the last child there; the other children keep their order. -/
  children_parent : g.children parent = (f.children parent).filter (· ≠ child) ++ [child]
  /-- The old parent keeps its other children in their order. -/
  children_old : ∀ q, f.parent? child = some q → q ≠ parent →
    g.children q = (f.children q).filter (· ≠ child)
  /-- All other nodes keep their children. -/
  children_eq : ∀ i, i ≠ parent → f.parent? child ≠ some i → g.children i = f.children i
  kind?_eq : ∀ i, g.kind? i = f.kind? i
  attributes_eq : ∀ i, g.attributes i = f.attributes i
  /-- Nodes that are neither moved nor one of the two parents are the same as before. -/
  node?_eq : ∀ i, i ≠ child → i ≠ parent → f.parent? child ≠ some i → g.node? i = f.node? i
  size_eq : g.size = f.size
  /-- Below the node the same nodes are in the same places. -/
  below_eq : g.below child = f.below child
  /-- The tree that hangs from the node is the same. -/
  treeAt_eq : g.treeAt child = f.treeAt child

lemma Sound.children_append (h : f.Sound) (hparent : parent < f.size) (i : Nat) :
    (f.append parent child).children i =
      (f.children i).filter (· ≠ child) ++ if parent = i then [child] else [] := by
  rw [Forest.children_append hparent, h.children_detach]

/-- A node that is neither of the parents keeps its children. -/
lemma Sound.children_append_of_ne (h : f.Sound) (hparent : parent < f.size) (hi : i ≠ parent)
    (hold : f.parent? child ≠ some i) : (f.append parent child).children i = f.children i := by
  have hnot : ∀ n ∈ f.children i, n ≠ child := by
    rintro n hn rfl
    exact hold ((h.linked n i).2 hn)
  rw [h.children_append hparent, if_neg hi.symm, List.append_nil, List.filter_eq_self]
  exact fun n hn => by simpa using hnot n hn

/-- Neither the old nor the new parent of the node is below it. -/
lemma Sound.children_append_of_above (h : f.Sound) (hparent : parent < f.size)
    (hnot : ¬ f.Above child parent) (hi : f.Above child i) :
    (f.append parent child).children i = f.children i := by
  refine h.children_append_of_ne hparent ?_ fun hold => ?_
  · rintro rfl
    exact hnot hi
  · exact (h.ends i).not_above child hold hi

lemma Sound.moves (h : f.Sound) (hparent : parent < f.size) (hchild : child < f.size)
    (hnot : ¬ f.Above child parent) : Moves f (f.append parent child) parent child := by
  have hchildren : ∀ i, i ≠ parent → f.parent? child ≠ some i →
      (f.append parent child).children i = f.children i :=
    fun i => h.children_append_of_ne hparent
  have hparents : ∀ i, (f.append parent child).parent? i =
      if i = child then some parent else f.parent? i := by
    intro i
    rw [parent?_append hchild]
    simp only [eq_comm]
  have hbelow : (f.append parent child).below child = f.below child := by
    rw [below, below, size_append]
    exact h.unfold_congr _ fun i => h.children_append_of_above hparent hnot
  have hcontent : (f.append parent child).content = f.content := by
    funext i
    rw [content_eq, content_eq, kind?_append, attributes_append]
  refine ⟨hparents, ?_, ?_, hchildren, kind?_append f parent child,
    attributes_append f parent child, ?_, size_append f parent child, hbelow, ?_⟩
  · rw [h.children_append hparent, if_pos rfl]
  · intro q _ hq
    rw [h.children_append hparent, if_neg hq.symm, List.append_nil]
  · intro i hi hip hold
    rw [node?_eq, node?_eq, kind?_append, attributes_append, hparents, if_neg hi,
      hchildren i hip hold]
  · rw [treeAt, treeAt, hbelow, hcontent]

/-! ### The three cases -/

lemma exists_kind? (hid : id < f.size) : ∃ k, f.kind? id = some k :=
  ⟨(f.content id).kind, kind?_content hid⟩

/-- The root is refused, a node above its new parent is refused, and any other node is moved. -/
lemma Sound.attach_cases (h : f.Sound) (hparent : parent < f.size) (hchild : child < f.size) :
    (child = rootId ∧ (Edit.attach parent child).run f = .error .rootAttachment f) ∨
    (child ≠ rootId ∧ f.Above child parent ∧ ∃ k l, f.kind? parent = some k ∧
      f.kind? child = some l ∧ (Edit.attach parent child).run f = .error (.cyclicAttachment k l) f) ∨
    (child ≠ rootId ∧ ¬ f.Above child parent ∧
      (Edit.attach parent child).run f = .ok () (f.append parent child)) := by
  rw [run_attach]
  by_cases hroot : child = rootId
  · exact Or.inl ⟨hroot, if_pos hroot⟩
  · rw [if_neg hroot]
    by_cases habove : f.Above child parent
    · obtain ⟨k, hk⟩ := exists_kind? hparent
      obtain ⟨l, hl⟩ := exists_kind? hchild
      refine Or.inr (Or.inl ⟨hroot, habove, k, l, hk, hl, ?_⟩)
      rw [if_pos ((h.isAbove_iff hparent).2 habove), hk, hl]
      rfl
    · exact Or.inr (Or.inr ⟨hroot, habove, if_neg fun hle => habove ((h.isAbove_iff hparent).1 hle)⟩)

/-! ### The theorem -/

/-- In a sound forest, attaching one node to another is refused exactly if the node is the root, or
if it is no root but its new parent itself or above it; the refusal says which of the two it is, and
the forest behind it is the one before.  Otherwise the node is moved, and nothing else is changed. -/
theorem attach_moves_or_refuses (h : f.Sound) (hparent : parent < f.size) (hchild : child < f.size) :
    (f.attach parent child = .error .rootAttachment ↔ child = rootId) ∧
    ((∃ k l, f.attach parent child = .error (.cyclicAttachment k l)) ↔
      child ≠ rootId ∧ f.Above child parent) ∧
    (∀ e, f.attach parent child = .error e →
      (e = .rootAttachment ∨ ∃ k l, f.kind? parent = some k ∧ f.kind? child = some l ∧
        e = .cyclicAttachment k l) ∧
      (Edit.attach parent child).run f = .error e f ∧
      (Change.attach parent child).result f = f) ∧
    (child ≠ rootId → ¬ f.Above child parent →
      ∃ g, f.attach parent child = .ok g ∧ (Edit.attach parent child).run f = .ok () g ∧
        Moves f g parent child) := by
  have hrefused : ∀ e, f.attach parent child = .error e →
      (Edit.attach parent child).run f = .error e f ∧ (Change.attach parent child).result f = f :=
    fun e he => Change.unchanged_of_refused (c := .attach parent child) he
  have hattach : f.attach parent child = f.outcome (Edit.attach parent child) := rfl
  rw [outcome] at hattach
  rcases h.attach_cases hparent hchild with
    ⟨hroot, heq⟩ | ⟨hroot, habove, k, l, hk, hl, heq⟩ | ⟨hroot, habove, heq⟩
  · rw [heq] at hattach
    refine ⟨iff_of_true hattach hroot, iff_of_false ?_ fun hne => hne.1 hroot,
      fun e he => ⟨?_, hrefused e he⟩, fun hne => absurd hroot hne⟩
    · rintro ⟨k, l, hcyclic⟩
      cases hattach.symm.trans hcyclic
    · rw [hattach] at he
      exact Or.inl (Except.error.inj he).symm
  · rw [heq] at hattach
    refine ⟨iff_of_false ?_ hroot, iff_of_true ⟨k, l, hattach⟩ ⟨hroot, habove⟩,
      fun e he => ⟨?_, hrefused e he⟩, fun _ hnot => absurd habove hnot⟩
    · intro hrefusal
      cases hattach.symm.trans hrefusal
    · rw [hattach] at he
      exact Or.inr ⟨k, l, hk, hl, (Except.error.inj he).symm⟩
  · rw [heq] at hattach
    refine ⟨iff_of_false ?_ hroot, iff_of_false ?_ fun hle => habove hle.2, fun e he => ?_,
      fun _ _ => ⟨_, hattach, heq, h.moves hparent hchild habove⟩⟩
    · intro hrefusal
      cases hattach.symm.trans hrefusal
    · rintro ⟨k, l, hcyclic⟩
      cases hattach.symm.trans hcyclic
    · cases hattach.symm.trans he

/-- A name is moved behind the group that follows it in the same rule; the rule cannot be put into
the group, nor can the grammar. -/
theorem attach_moves_name_behind_group :
    ∃ f : Forest, f.Sound ∧ f.children 1 = [2, 3] ∧
      (∃ g, f.attach 1 2 = .ok g ∧ Moves f g 1 2 ∧ g.children 1 = [3, 2]) ∧
      f.attach 3 1 = .error (.cyclicAttachment .group .rule) ∧
      (Edit.attach 3 1).run f = .error (.cyclicAttachment .group .rule) f ∧
      (Change.attach 3 1).result f = f ∧
      f.attach 3 rootId = .error .rootAttachment := by
  obtain ⟨f, hsound, hsize, hchildren, hbelow, hcyclic⟩ : ∃ f : Forest, f.Sound ∧ f.size = 4 ∧
      f.children 1 = [2, 3] ∧ ¬ f.isAbove 2 1 = true ∧
      f.attach 3 1 = .error (.cyclicAttachment .group .rule) := by
    have h₁ : Reachable (Change.result .empty (.create .rule "a" (some 0))) :=
      .change .empty ⟨by decide, by rintro p ⟨rfl⟩; decide⟩ nofun
    have h₂ := h₁.change (c := .create .identifier "a" (some 1))
      ⟨by decide, by rintro p ⟨rfl⟩; decide⟩ nofun
    have h₃ := h₂.change (c := .create .group "" (some 1))
      ⟨by decide, by rintro p ⟨rfl⟩; decide⟩ nofun
    exact ⟨_, sound_of_reachable h₃, by decide, by decide, by decide, by decide⟩
  have hrule : 1 < f.size := by omega
  have hname : 2 < f.size := by omega
  have hgroup : 3 < f.size := by omega
  obtain ⟨-, -, -, hmoves⟩ := attach_moves_or_refuses hsound hrule hname
  obtain ⟨-, -, hrefused, -⟩ := attach_moves_or_refuses hsound hgroup hrule
  obtain ⟨hroot, -⟩ := attach_moves_or_refuses hsound hgroup hsound.size_pos
  rw [hsound.isAbove_iff hrule] at hbelow
  obtain ⟨g, hg, -, hmove⟩ := hmoves (by decide) hbelow
  obtain ⟨-, hrun, hresult⟩ := hrefused _ hcyclic
  refine ⟨f, hsound, hchildren, ⟨g, hg, hmove, ?_⟩, hcyclic, hrun, hresult, hroot.2 rfl⟩
  rw [hmove.children_parent, hchildren]
  decide

end Move

end Forest

end GrammarTree
