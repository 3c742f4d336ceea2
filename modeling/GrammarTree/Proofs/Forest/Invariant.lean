/-
# The invariant of forests

Nodes refer to each other by identities, so that nothing in the way they are stored keeps two nodes
from claiming the same child, or a node from being above itself.  `Forest.Sound` says that this does
not happen:

* the first node is the root; it is the only grammar, and it has no parent;
* a node has a parent exactly if it is among the children of this parent, and there it is once;
* the way up from a node, from parent to parent, comes to an end;
* the attributes of a node are those of its kind, in their order.

Every operation keeps this up, also when it refuses what it is asked for, and so it holds of every
forest that is reached by operations from the empty grammar (`sound_of_reachable`).

The way up is finite, but it is bounded only by the number of nodes.  That `lineage` finds all of it
(`isAbove_iff`) is what attaching a node relies on.
-/
import Mathlib.Data.List.Nodup
import Mathlib.Data.List.Perm.Subperm
import Mathlib.Logic.Function.Iterate
import GrammarTree.Proofs.Forest.Operations

namespace GrammarTree

namespace Forest

variable {f g : Forest} {id i l n p u : Nat} {c : Content} {parent : Option Nat}

/-- `u` is the node `l` or lies above it. -/
inductive Above (f : Forest) (u : Nat) : Nat → Prop
  | self : Above f u u
  | step {l p : Nat} : f.parent? l = some p → Above f u p → Above f u l

/-- The way up from a node comes to an end. -/
inductive Ends (f : Forest) : Nat → Prop
  | top {id : Nat} : f.parent? id = none → Ends f id
  | step {id p : Nat} : f.parent? id = some p → Ends f p → Ends f id

/-- What holds of every forest that is changed only by its operations. -/
structure Sound (f : Forest) : Prop where
  root : f.kind? rootId = some .grammar
  top : f.parent? rootId = none
  alone : ∀ id, f.kind? id = some .grammar → id = rootId
  linked : ∀ n p, f.parent? n = some p ↔ n ∈ f.children p
  once : ∀ p, (f.children p).Nodup
  ends : ∀ id, f.Ends id
  named : ∀ id k, f.kind? id = some k → (f.attributes id).map Prod.fst = k.attributeNames

/-- Below the given parent a node can be made. -/
def Offers (f : Forest) (parent : Option Nat) : Prop := ∀ p, parent = some p → p < f.size

lemma Sound.size_pos (h : f.Sound) : 0 < f.size := lt_size_of_kind? h.root

lemma Sound.parent_lt (h : f.Sound) (hp : f.parent? n = some p) : p < f.size :=
  lt_size_of_mem_children ((h.linked n p).1 hp)

lemma Sound.child_lt (h : f.Sound) (hn : n ∈ f.children p) : n < f.size :=
  lt_size_of_parent? ((h.linked n p).2 hn)

/-- The root is nobody's child. -/
lemma Sound.ne_root (h : f.Sound) (hn : n ∈ f.children p) : n ≠ rootId := by
  rintro rfl
  have hp := (h.linked rootId p).2 hn
  rw [h.top] at hp
  cases hp

/-- The next identity is not in use. -/
lemma Sound.size_not_mem (h : f.Sound) (p : Nat) : f.size ∉ f.children p :=
  fun hn => Nat.lt_irrefl _ (h.child_lt hn)

/-! ### The way up -/

lemma Above.trans (hu : f.Above u p) (hp : f.Above p l) : f.Above u l := by
  induction hp with
  | self => exact hu
  | step hl _ ih => exact .step hl ih

/-- A way up that ends does not come back. -/
lemma Ends.not_above (h : f.Ends l) : ∀ u, f.parent? u = some l → ¬ f.Above u l := by
  induction h with
  | top hnone =>
    intro u hu habove
    cases habove with
    | self => rw [hnone] at hu; cases hu
    | step hp _ => rw [hnone] at hp; cases hp
  | @step l p hp _ ih =>
    -- going round from `l` is going round from its parent, too
    intro u hu habove
    refine ih l hp ?_
    cases habove with
    | self =>
      rw [hu] at hp
      cases hp
      exact .self
    | step hq hrest =>
      rw [hq] at hp
      cases hp
      exact Above.trans (.step hu .self) hrest

lemma climb_succ (f : Forest) (n id : Nat) :
    f.climb (n + 1) id = id :: ((f.parent? id).map (f.climb n)).getD [] := by
  rw [climb]
  cases f.parent? id <;> rfl

lemma above_of_mem_climb (h : u ∈ f.climb n l) : f.Above u l := by
  induction n generalizing l with
  | zero => cases h
  | succ n ih =>
    rw [climb_succ] at h
    rcases List.mem_cons.1 h with rfl | h
    · exact .self
    · cases hp : f.parent? l with
      | none => simp [hp] at h
      | some p =>
        rw [hp] at h
        exact .step hp (ih h)

/-- More steps lead to more nodes. -/
lemma climb_subset {m : Nat} (h : n ≤ m) : f.climb n l ⊆ f.climb m l := by
  induction n generalizing l m with
  | zero => exact List.nil_subset _
  | succ n ih =>
    obtain ⟨m, rfl⟩ : ∃ k, m = k + 1 := ⟨m - 1, by omega⟩
    rw [climb_succ, climb_succ]
    refine List.cons_subset_cons _ ?_
    cases f.parent? l with
    | none => exact List.nil_subset _
    | some p => exact ih (by omega)

lemma nodup_climb (h : ∀ id, f.Ends id) (n l : Nat) : (f.climb n l).Nodup := by
  induction n generalizing l with
  | zero => exact List.nodup_nil
  | succ n ih =>
    rw [climb_succ]
    cases hp : f.parent? l with
    | none => simp
    | some p =>
      refine List.nodup_cons.2 ⟨?_, ih p⟩
      intro hmem
      exact (h p).not_above l hp (above_of_mem_climb hmem)

lemma Sound.above_lt (h : f.Sound) (hl : l < f.size) (hu : f.Above u l) : u < f.size := by
  induction hu with
  | self => exact hl
  | step hp _ ih => exact ih (h.parent_lt hp)

/-- On the way up there are no more nodes than in the forest. -/
lemma Sound.length_climb_le (h : f.Sound) (hl : l < f.size) (n : Nat) :
    (f.climb n l).length ≤ f.size := by
  have hsub : f.climb n l ⊆ List.range f.size := by
    intro u hu
    exact List.mem_range.2 (h.above_lt hl (above_of_mem_climb hu))
  have hle := (List.subperm_of_subset (nodup_climb h.ends n l) hsub).length_le
  rwa [List.length_range] at hle

lemma exists_mem_climb (h : f.Above u l) :
    ∃ k, (f.climb (k + 1) l).length = k + 1 ∧ u ∈ f.climb (k + 1) l := by
  induction h with
  | self =>
    refine ⟨0, ?_, by simp [climb_succ]⟩
    rw [climb_succ]
    cases f.parent? u <;> rfl
  | @step l p hp _ ih =>
    obtain ⟨k, hlength, hmem⟩ := ih
    have hclimb : f.climb (k + 1 + 1) l = l :: f.climb (k + 1) p := by
      rw [climb_succ, hp]
      rfl
    exact ⟨k + 1, by rw [hclimb, List.length_cons, hlength],
      by rw [hclimb]; exact List.mem_cons_of_mem _ hmem⟩

/-- As many steps as there are nodes lead all the way up. -/
lemma Sound.isAbove_iff (h : f.Sound) (hl : l < f.size) : f.isAbove u l = true ↔ f.Above u l := by
  rw [isAbove, List.contains_iff_mem, lineage]
  constructor
  · exact above_of_mem_climb
  · intro hu
    obtain ⟨k, hlength, hmem⟩ := exists_mem_climb hu
    have hle := h.length_climb_le hl (k + 1)
    exact climb_subset (by omega) hmem

/-! ### Changing attributes -/

lemma Ends.congr (hparent : ∀ i, g.parent? i = f.parent? i) (h : f.Ends id) : g.Ends id := by
  induction h with
  | top hnone => exact .top ((hparent _).trans hnone)
  | step hp _ ih => exact .step ((hparent _).trans hp) ih

/-- Other texts under the same names change nothing of this. -/
lemma Sound.relabelled (h : f.Sound) (hkind : ∀ i, g.kind? i = f.kind? i)
    (hparent : ∀ i, g.parent? i = f.parent? i) (hchildren : ∀ i, g.children i = f.children i)
    (hnames : ∀ i, (g.attributes i).map Prod.fst = (f.attributes i).map Prod.fst) : g.Sound := by
  refine ⟨by rw [hkind, h.root], by rw [hparent, h.top], ?_, ?_, ?_, ?_, ?_⟩
  · intro i hi
    exact h.alone i (by rwa [hkind] at hi)
  · intro n p
    rw [hparent, hchildren, h.linked]
  · intro p
    rw [hchildren]
    exact h.once p
  · intro i
    exact (h.ends i).congr hparent
  · intro i k hi
    rw [hkind] at hi
    rw [hnames]
    exact h.named i k hi

lemma Sound.setAt (h : f.Sound) (id index : Nat) (value : String) :
    (f.modify id (Entry.setAt index value)).Sound :=
  h.relabelled (kind?_modify (by simp)) (parent?_modify (by simp)) (children_modify (by simp))
    (names_modify_setAt f id index value)

lemma Sound.setAttribute (h : f.Sound) (id : Nat) (name value : String) :
    (f.edited (Edit.setAttribute id name value)).Sound := by
  rw [edited]
  rcases run_setAttribute f id name value with ⟨index, heq⟩ | ⟨e, heq⟩
  · rw [heq]
    exact h.setAt id index value
  · rwa [heq]

/-! ### Making nodes -/

lemma Ends.create (hs : f.Sound) (hp : f.Offers parent) (h : f.Ends id) (hid : id ≠ f.size) :
    (f.create c parent).Ends id := by
  induction h with
  | top hnone => exact .top (by rw [parent?_create hp, if_neg hid, hnone])
  | step hq _ ih =>
    refine .step (by rw [parent?_create hp, if_neg hid, hq]) (ih ?_)
    exact Nat.ne_of_lt (hs.parent_lt hq)

lemma Sound.create (h : f.Sound) (hp : f.Offers parent) (hc : c.kind ≠ .grammar) :
    (f.create c parent).Sound := by
  have hroot : rootId ≠ f.size := Nat.ne_of_lt h.size_pos
  refine ⟨?_, ?_, ?_, ?_, ?_, ?_, ?_⟩
  · rw [kind?_create hp, if_neg hroot, h.root]
  · rw [parent?_create hp, if_neg hroot, h.top]
  · intro i hi
    rw [kind?_create hp] at hi
    split at hi
    · exact absurd (Option.some.inj hi) hc
    · exact h.alone i hi
  · intro n p
    rw [parent?_create hp, children_create hp, List.mem_append]
    by_cases hn : n = f.size
    · subst hn
      simp [h.size_not_mem]
    · have hlast : n ∉ if parent = some p then [f.size] else [] := by
        split <;> simp [hn]
      rw [if_neg hn, h.linked]
      simp only [hlast, or_false]
  · intro p
    rw [children_create hp]
    have hold := h.once p
    have hnew := h.size_not_mem p
    split
    · exact List.nodup_append'.2 ⟨hold, List.nodup_singleton _, by simpa using hnew⟩
    · rwa [List.append_nil]
  · intro i
    by_cases hi : i = f.size
    · subst hi
      cases hparent : parent with
      | none => exact .top (by rw [← hparent, parent?_create hp, if_pos rfl, hparent])
      | some p =>
        have hlt : p < f.size := hp p hparent
        rw [← hparent]
        refine .step (by rw [parent?_create hp, if_pos rfl, hparent]) ?_
        exact (h.ends p).create h hp (Nat.ne_of_lt hlt)
    · exact (h.ends i).create h hp hi
  · intro i k hi
    rw [kind?_create hp] at hi
    rw [attributes_create hp]
    split at hi
    · rename_i heq
      cases hi
      rw [if_pos heq]
      exact c.names_attributes
    · rename_i hne
      rw [if_neg hne]
      exact h.named i k hi

mutual

/-- A copy keeps the forest sound, and takes nothing away from it. -/
lemma Sound.copy : ∀ (t : Tree Content) {f : Forest} {parent : Option Nat}, f.Sound →
    f.Offers parent → (f.copy parent t).2.Sound ∧ f.size ≤ (f.copy parent t).2.size
  | .node c ts, f, parent, h, hp => by
    rw [Forest.copy]
    split
    · exact Sound.copyAll ts h hp
    · rename_i hc
      have hmade : (f.create c parent).Offers (some f.size) := by
        rintro p ⟨rfl⟩
        rw [size_create hp]
        exact Nat.lt_succ_self _
      obtain ⟨hsound, hle⟩ := Sound.copyAll ts (h.create hp hc) hmade
      rw [size_create hp] at hle
      exact ⟨hsound, Nat.le_of_succ_le hle⟩

lemma Sound.copyAll : ∀ (ts : List (Tree Content)) {f : Forest} {parent : Option Nat}, f.Sound →
    f.Offers parent → (f.copyAll parent ts).Sound ∧ f.size ≤ (f.copyAll parent ts).size
  | [], f, parent, h, _ => by
    rw [Forest.copyAll]
    exact ⟨h, Nat.le_refl _⟩
  | t :: ts, f, parent, h, hp => by
    rw [Forest.copyAll]
    obtain ⟨hfirst, hle⟩ := Sound.copy t h hp
    have hp' : (f.copy parent t).2.Offers parent := fun p hpar =>
      Nat.lt_of_lt_of_le (hp p hpar) hle
    obtain ⟨hrest, hle'⟩ := Sound.copyAll ts hfirst hp'
    exact ⟨hrest, Nat.le_trans hle hle'⟩

end

/-! ### Moving nodes -/

/-- In a sound forest a node that is cut off is taken from all lists of children. -/
lemma Sound.children_detach (h : f.Sound) (id i : Nat) :
    (f.detach id).children i = (f.children i).filter (· ≠ id) := by
  rw [Forest.children_detach]
  split
  · rfl
  · rename_i hne
    have hnot : ∀ n ∈ f.children i, n ≠ id := by
      rintro n hn rfl
      exact hne ((h.linked n i).2 hn)
    exact (List.filter_eq_self.2 fun n hn => by simpa using hnot n hn).symm

lemma Ends.detach (h : f.Ends i) : (f.detach id).Ends i := by
  induction h with
  | top hnone => exact .top (by rw [parent?_detach, hnone, ite_self])
  | @step i p hp _ ih =>
    by_cases hi : id = i
    · exact .top (by rw [parent?_detach, if_pos hi])
    · exact .step (by rw [parent?_detach, if_neg hi, hp]) ih

lemma Sound.detach (h : f.Sound) (id : Nat) : (f.detach id).Sound := by
  refine ⟨by rw [kind?_detach, h.root], ?_, ?_, ?_, ?_, fun i => (h.ends i).detach, ?_⟩
  · rw [parent?_detach, h.top, ite_self]
  · intro i hi
    exact h.alone i (by rwa [kind?_detach] at hi)
  · intro n p
    rw [parent?_detach, h.children_detach, List.mem_filter]
    by_cases hn : id = n
    · simp [hn]
    · simp [hn, Ne.symm hn, h.linked]
  · intro p
    rw [h.children_detach]
    exact (h.once p).filter _
  · intro i k hi
    rw [kind?_detach] at hi
    rw [attributes_detach]
    exact h.named i k hi

section Append

variable {parent child : Nat}

/-- The way up from a node that is not below `child` stays as it is. -/
lemma Ends.append_of_not_above (hchild : child < f.size) (h : f.Ends l)
    (hnot : ¬ f.Above child l) : (f.append parent child).Ends l := by
  induction h with
  | @top l hnone =>
    have hne : child ≠ l := by
      rintro rfl
      exact hnot .self
    exact .top (by rw [parent?_append hchild, if_neg hne, hnone])
  | @step l p hp _ ih =>
    have hne : child ≠ l := by
      rintro rfl
      exact hnot .self
    refine .step (by rw [parent?_append hchild, if_neg hne, hp]) (ih ?_)
    exact fun habove => hnot (.step hp habove)

/-- Below `child` the way up leads to `child`, then to the new parent and on from there. -/
lemma Ends.append (hs : f.Sound) (hchild : child < f.size) (hnot : ¬ f.Above child parent)
    (h : f.Ends l) : (f.append parent child).Ends l := by
  have hparent : (f.append parent child).Ends parent :=
    (hs.ends parent).append_of_not_above hchild hnot
  induction h with
  | @top l hnone =>
    by_cases hl : child = l
    · exact .step (by rw [parent?_append hchild, if_pos hl]) hparent
    · exact .top (by rw [parent?_append hchild, if_neg hl, hnone])
  | @step l p hp _ ih =>
    by_cases hl : child = l
    · exact .step (by rw [parent?_append hchild, if_pos hl]) hparent
    · exact .step (by rw [parent?_append hchild, if_neg hl, hp]) ih

lemma Sound.append (h : f.Sound) (hparent : parent < f.size) (hchild : child < f.size)
    (hroot : child ≠ rootId) (hnot : ¬ f.Above child parent) :
    (f.append parent child).Sound := by
  have hcut := h.detach child
  -- once cut off, the child is nobody's
  have hloose : ∀ p, child ∉ (f.detach child).children p := by
    intro p hmem
    have hp := (hcut.linked child p).2 hmem
    rw [parent?_detach, if_pos rfl] at hp
    cases hp
  refine ⟨by rw [kind?_append, h.root], ?_, ?_, ?_, ?_, ?_, ?_⟩
  · rw [parent?_append hchild, if_neg hroot, h.top]
  · intro i hi
    exact h.alone i (by rwa [kind?_append] at hi)
  · intro n p
    rw [parent?_append hchild, children_append hparent, List.mem_append, ← hcut.linked,
      parent?_detach]
    by_cases hn : child = n
    · by_cases hp : parent = p <;> simp [hn, hp]
    · have hlast : n ∉ if parent = p then [child] else [] := by
        split <;> simp [Ne.symm hn]
      simp only [if_neg hn, hlast, or_false]
  · intro p
    rw [children_append hparent]
    have hold := hcut.once p
    split
    · exact List.nodup_append'.2 ⟨hold, List.nodup_singleton _, by simpa using hloose p⟩
    · rwa [List.append_nil]
  · intro i
    exact (h.ends i).append h hchild hnot
  · intro i k hi
    rw [kind?_append] at hi
    rw [attributes_append]
    exact h.named i k hi

/-- Attaching is refused, or it moves a node that is neither the root nor above its new parent, so
the forest behind it is sound. -/
lemma Sound.attach (h : f.Sound) (hparent : parent < f.size) (hchild : child < f.size) :
    (f.edited (Edit.attach parent child)).Sound := by
  rw [edited, run_attach]
  by_cases hroot : child = rootId
  · rwa [if_pos hroot]
  · rw [if_neg hroot]
    by_cases habove : f.isAbove child parent = true
    · rwa [if_pos habove]
    · rw [if_neg habove]
      rw [h.isAbove_iff hparent] at habove
      exact h.append hparent hchild hroot habove

end Append

end Forest

end GrammarTree
