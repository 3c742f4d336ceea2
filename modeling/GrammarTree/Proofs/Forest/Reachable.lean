/-
# Forests reached by operations

A `Change` is a call of one of the operations that make, move, copy or relabel nodes.  It may be
refused, and then the forest stays as it is (`Change.unchanged_of_refused`).  A forest is *reachable*
if it comes from the empty grammar by changes that speak of nodes that there are; the source of a
copy is a node of a reachable forest, too.

Every change keeps a forest sound (`Sound.change`), and so every reachable forest is sound
(`sound_of_reachable`).  What this means, said without the invariant, is the last theorem.
-/
import GrammarTree.Proofs.Forest.Invariant

namespace GrammarTree

namespace Forest

/-- A call of an operation. -/
inductive Change where
  | create (kind : Kind) (label : String) (parent : Option Nat)
  | setAttribute (id : Nat) (name value : String)
  | setTitle (value : String)
  | setMeta (value : String)
  | attach (parent child : Nat)
  | detach (id : Nat)
  | copy (parent : Option Nat) (source : Forest) (id : Nat)

namespace Change

/-- What a call does to the forest at hand. -/
def edit : Change → Edit Unit
  | create kind label parent => .always (·.create (Content.ofKind kind label) parent)
  | setAttribute id name value => .setAttribute id name value
  | setTitle value => .always (·.setTitle value)
  | setMeta value => .always (·.setMeta value)
  | attach parent child => .attach parent child
  | detach id => .always (·.detach id)
  | copy parent source id => .always fun f => (f.copy parent (source.treeAt id)).2

/-- The forest behind a call, whether it was refused or not. -/
def result (f : Forest) (c : Change) : Forest := f.edited c.edit

/-- Whatever is refused is refused before anything is changed. -/
lemma eq_of_refused {f g : Forest} {c : Change} {e : ForestError}
    (h : c.edit.run f = .error e g) : g = f := by
  cases c with
  | setAttribute id name value =>
    rcases run_setAttribute f id name value with ⟨index, heq⟩ | ⟨e', heq⟩
    · cases h.symm.trans heq
    · cases h.symm.trans heq
      rfl
  | attach parent child =>
    rw [edit, run_attach] at h
    split at h
    · cases h
      rfl
    · split at h
      · cases h
        rfl
      · cases h
  | create | setTitle | setMeta | detach | copy => cases h

/-- A refused call leaves the forest as it is. -/
lemma unchanged_of_refused {f : Forest} {c : Change} {e : ForestError}
    (h : f.outcome c.edit = .error e) : c.edit.run f = .error e f ∧ c.result f = f := by
  rw [outcome] at h
  rw [result, edited]
  cases hrun : c.edit.run f with
  | ok _ g =>
    rw [hrun] at h
    cases h
  | error e' g =>
    rw [hrun] at h
    cases h
    rw [eq_of_refused hrun]
    exact ⟨rfl, rfl⟩

/-- Whether a call speaks of nodes that there are.  Grammars cannot be made. -/
def Fits (f : Forest) : Change → Prop
  | create kind _ parent => kind ≠ .grammar ∧ f.Offers parent
  | setAttribute id _ _ => id < f.size
  | setTitle _ => True
  | setMeta _ => True
  | attach parent child => parent < f.size ∧ child < f.size
  | detach id => id < f.size
  | copy parent source id => f.Offers parent ∧ id < source.size

/-- The forest from which a call copies. -/
def source? : Change → Option Forest
  | copy _ source _ => some source
  | _ => none

end Change

/-- The forests that are made from the empty grammar. -/
inductive Reachable : Forest → Prop
  | empty : Reachable .empty
  | change {f : Forest} {c : Change} : Reachable f → c.Fits f →
      (∀ g, c.source? = some g → Reachable g) → Reachable (c.result f)

/-- Any node but a grammar can be made below a node that there is. -/
lemma Reachable.createBelow {f : Forest} (h : f.Reachable) (kind : Kind) (label : String) (p : Nat)
    (hkind : kind ≠ .grammar) (hp : p < f.size) :
    Reachable (Change.result f (.create kind label (some p))) := by
  refine h.change ⟨hkind, ?_⟩ nofun
  rintro _ ⟨rfl⟩
  exact hp

lemma sound_empty : Forest.empty.Sound := by
  have hroot : Forest.empty.node? rootId =
      some (Entry.ofContent (.grammar "" Content.defaultMeta) none) := rfl
  have hother : ∀ id, id ≠ rootId → Forest.empty.node? id = none := by
    intro id hid
    exact node?_of_le (Nat.one_le_iff_ne_zero.2 hid)
  have hparent : ∀ id, Forest.empty.parent? id = none := by
    intro id
    by_cases hid : id = rootId
    · rw [parent?, hid, hroot]
      rfl
    · rw [parent?, hother id hid, Option.bind_none]
  have hchildren : ∀ id, Forest.empty.children id = [] := by
    intro id
    by_cases hid : id = rootId
    · rw [children, hid, hroot]
      rfl
    · rw [children, hother id hid]
      rfl
  refine ⟨rfl, rfl, ?_, ?_, ?_, fun id => .top (hparent id), ?_⟩
  · intro id hid
    by_contra hne
    rw [kind?, hother id hne] at hid
    cases hid
  · intro n p
    simp [hparent, hchildren]
  · intro p
    rw [hchildren]
    exact List.nodup_nil
  · intro id k hid
    by_cases hne : id = rootId
    · subst hne
      cases hid
      rfl
    · rw [kind?, hother id hne] at hid
      cases hid

/-- One change keeps a forest sound. -/
lemma Sound.change {f : Forest} (h : f.Sound) {c : Change} (hfits : c.Fits f) :
    (c.result f).Sound := by
  cases c with
  | create kind label parent => exact h.create hfits.2 (by simpa using hfits.1)
  | setAttribute id name value => exact h.setAttribute id name value
  | setTitle value => exact h.setAt rootId 0 value
  | setMeta value => exact h.setAt rootId 1 value
  | attach parent child => exact h.attach hfits.1 hfits.2
  | detach id => exact h.detach id
  | copy parent source id => exact (Sound.copy _ h hfits.1).1

/-- A run of changes keeps a forest sound. -/
lemma sound_of_reachable {f : Forest} (h : f.Reachable) : f.Sound := by
  induction h with
  | empty => exact sound_empty
  | change _ hfits _ ih _ => exact ih.change hfits

/-! ### What it means -/

/-- The parent of a node, the parent of that and so on, after a number of steps. -/
def ancestor? (f : Forest) (steps id : Nat) : Option Nat := (·.bind f.parent?)^[steps] (some id)

lemma Ends.exists_steps {f : Forest} {id : Nat} (h : f.Ends id) :
    ∃ steps, f.ancestor? steps id = none := by
  induction h with
  | top hnone => exact ⟨1, hnone⟩
  | @step id p hp _ ih =>
    obtain ⟨steps, hsteps⟩ := ih
    refine ⟨steps + 1, ?_⟩
    have hfirst : (some id).bind f.parent? = some p := hp
    rw [ancestor?, Function.iterate_succ_apply, hfirst]
    exact hsteps

/-- A node stands at its index among the children of its parent. -/
lemma Sound.exists_index {f : Forest} (h : f.Sound) {n p : Nat} (hp : f.parent? n = some p) :
    ∃ i, f.indexInParent? n = some i ∧ (f.children p)[i]? = some n := by
  have hmem : n ∈ f.children p := (h.linked n p).1 hp
  have hsome : ((f.children p).findIdx? (· == n)).isSome := by
    rw [List.findIdx?_isSome, List.any_eq_true]
    exact ⟨n, hmem, beq_self_eq_true n⟩
  obtain ⟨i, hi⟩ := Option.isSome_iff_exists.1 hsome
  refine ⟨i, by rw [indexInParent?, hp, Option.bind_some, hi], ?_⟩
  obtain ⟨hlt, heq, -⟩ := List.findIdx?_eq_some_iff_getElem.1 hi
  rw [List.getElem?_eq_getElem hlt, eq_of_beq heq]

/-- In a forest that was made by any operations, successful or refused, the root is the only grammar
and has no parent; parents and children are nodes of the forest; a node has a parent exactly if it is
among the children of the parent, and then it is there once, at its index; the way up from a node
ends; and every node has the attributes of its kind in their order. -/
theorem invariant_of_reachable {f : Forest} (h : f.Reachable) :
    (∀ id, f.kind? id = some .grammar ↔ id = rootId) ∧ f.parent? rootId = none ∧
    (∀ n p, f.parent? n = some p → n < f.size ∧ p < f.size) ∧
    (∀ n p, n ∈ f.children p → n < f.size ∧ p < f.size) ∧
    (∀ n p, f.parent? n = some p ↔ n ∈ f.children p) ∧
    (∀ n p, f.parent? n = some p → (f.children p).count n = 1 ∧
      ∃ i, f.indexInParent? n = some i ∧ (f.children p)[i]? = some n) ∧
    (∀ id, ∃ steps, f.ancestor? steps id = none) ∧
    ∀ id k, f.kind? id = some k → (f.attributes id).map Prod.fst = k.attributeNames := by
  have hs := sound_of_reachable h
  refine ⟨?_, hs.top, ?_, ?_, hs.linked, ?_, fun id => (hs.ends id).exists_steps, hs.named⟩
  · intro id
    constructor
    · exact hs.alone id
    · rintro rfl
      exact hs.root
  · intro n p hp
    exact ⟨lt_size_of_parent? hp, hs.parent_lt hp⟩
  · intro n p hn
    exact ⟨hs.child_lt hn, lt_size_of_mem_children hn⟩
  · intro n p hp
    have hmem : n ∈ f.children p := (hs.linked n p).1 hp
    exact ⟨List.count_eq_one_of_mem (hs.once p) hmem, hs.exists_index hp⟩

/-- A group is moved from a rule to a loose option, after an attempt to put the rule below its own
content was refused, and a rule is copied from another forest. -/
theorem invariant_of_moved_group :
    ∃ f : Forest, f.Reachable ∧ f.size = 6 ∧ f.parent? 2 = some 4 ∧ f.children 1 = [] ∧
      (f.children 4).count 2 = 1 ∧
      ∃ i, f.indexInParent? 2 = some i ∧ (f.children 4)[i]? = some 2 := by
  have h₁ : Reachable (Change.result .empty (.create .rule "a" (some 0))) :=
    .change .empty ⟨by decide, by rintro p ⟨rfl⟩; decide⟩ nofun
  have h₂ := h₁.change (c := .create .group "" (some 1))
    ⟨by decide, by rintro p ⟨rfl⟩; decide⟩ nofun
  have h₃ := h₂.change (c := .create .terminal "x" (some 2))
    ⟨by decide, by rintro p ⟨rfl⟩; decide⟩ nofun
  have h₄ := h₃.change (c := .create .optional "" none) ⟨by decide, nofun⟩ nofun
  have h₅ := h₄.change (c := .attach 3 1) ⟨by decide, by decide⟩ nofun
  have h₆ := h₅.change (c := .attach 4 2) ⟨by decide, by decide⟩ nofun
  have h₇ := h₆.change
    (c := .copy none (Change.result .empty (.create .rule "a" (some 0))) 1)
    ⟨nofun, by decide⟩ (by rintro g ⟨rfl⟩; exact h₁)
  obtain ⟨-, -, -, -, -, hplace, -⟩ := invariant_of_reachable h₇
  exact ⟨_, h₇, by decide, by decide, by decide, hplace 2 4 (by decide)⟩

end Forest

end GrammarTree
