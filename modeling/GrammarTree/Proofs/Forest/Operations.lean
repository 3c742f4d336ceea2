/-
# What the operations of a forest do

A forest is seen through what it tells of a node: its kind, its attributes, its parent and its
children.  For each operation this file says once what becomes of these four, for every node; nothing
later looks into the way the nodes are stored.

* `create` makes one node and puts it behind the children of its parent.
* `detach` takes a node from the children of its parent.
* `append` does this and puts the node behind the children of another one.
* Attributes are changed at one node.
-/
import Mathlib.Tactic.ByContra
import GrammarTree.Forest

namespace GrammarTree

/-! ### Nodes by themselves -/

/-- A content has the attributes of its kind. -/
lemma Content.names_attributes (c : Content) :
    c.attributes.map Prod.fst = c.kind.attributeNames := by
  rw [attributes, List.map_fst_zip]
  exact Nat.le_of_eq c.length_values.symm

namespace Entry

variable (e : Entry)

@[simp] lemma kind_under (parent : Option Nat) : (e.under parent).kind = e.kind := rfl

@[simp] lemma parent_under (parent : Option Nat) : (e.under parent).parent = parent := rfl

@[simp] lemma children_under (parent : Option Nat) : (e.under parent).children = e.children := rfl

@[simp] lemma attributes_under (parent : Option Nat) :
    (e.under parent).attributes = e.attributes := rfl

@[simp] lemma kind_adopt (child : Nat) : (e.adopt child).kind = e.kind := rfl

@[simp] lemma parent_adopt (child : Nat) : (e.adopt child).parent = e.parent := rfl

@[simp] lemma children_adopt (child : Nat) : (e.adopt child).children = e.children ++ [child] := rfl

@[simp] lemma attributes_adopt (child : Nat) : (e.adopt child).attributes = e.attributes := rfl

@[simp] lemma kind_release (child : Nat) : (e.release child).kind = e.kind := rfl

@[simp] lemma parent_release (child : Nat) : (e.release child).parent = e.parent := rfl

@[simp] lemma children_release (child : Nat) :
    (e.release child).children = e.children.filter (· ≠ child) := rfl

@[simp] lemma attributes_release (child : Nat) : (e.release child).attributes = e.attributes := rfl

@[simp] lemma kind_setAt (index : Nat) (value : String) : (e.setAt index value).kind = e.kind := rfl

@[simp] lemma parent_setAt (index : Nat) (value : String) :
    (e.setAt index value).parent = e.parent := rfl

@[simp] lemma children_setAt (index : Nat) (value : String) :
    (e.setAt index value).children = e.children := rfl

/-- Replacing a text keeps the names of the attributes. -/
@[simp] lemma names_setAt (index : Nat) (value : String) :
    (e.setAt index value).attributes.map Prod.fst = e.attributes.map Prod.fst := by
  apply List.ext_getElem?
  intro i
  simp only [setAt, List.getElem?_map, List.getElem?_modify]
  split
  · cases e.attributes[i]? <;> simp
  · simp

end Entry

namespace Forest

variable {f : Forest} {id i n p : Nat} {c : Content} {parent : Option Nat} {g : Entry → Entry}

/-! ### Looking at a node -/

lemma node?_isSome_iff : (f.node? id).isSome ↔ id < f.size := by
  simp [node?, size]

lemma node?_of_le (h : f.size ≤ id) : f.node? id = none :=
  Array.getElem?_eq_none_iff.2 h

lemma parent?_of_le (h : f.size ≤ id) : f.parent? id = none := by
  rw [parent?, node?_of_le h, Option.bind_none]

lemma children_of_le (h : f.size ≤ id) : f.children id = [] := by
  rw [children, node?_of_le h, Option.map_none, Option.getD_none]

lemma lt_size_of_parent? (h : f.parent? n = some p) : n < f.size := by
  by_contra hle
  rw [parent?_of_le (Nat.le_of_not_lt hle)] at h
  cases h

lemma lt_size_of_mem_children (h : n ∈ f.children p) : p < f.size := by
  by_contra hle
  rw [children_of_le (Nat.le_of_not_lt hle)] at h
  cases h

lemma lt_size_of_kind? {k : Kind} (h : f.kind? id = some k) : id < f.size := by
  rw [← node?_isSome_iff]
  obtain ⟨e, he, -⟩ := Option.map_eq_some_iff.1 h
  rw [he]
  rfl

/-- Kind, parent, children and attributes are all that a forest knows of a node. -/
lemma node?_eq (f : Forest) (id : Nat) :
    f.node? id = (f.kind? id).map fun k => ⟨k, f.parent? id, f.children id, f.attributes id⟩ := by
  rw [kind?, parent?, children, attributes]
  cases f.node? id <;> rfl

/-- What a node is, is told by its kind and its attributes. -/
lemma content_eq (f : Forest) (id : Nat) :
    f.content id =
      ((f.kind? id).map fun k => Entry.content ⟨k, none, [], f.attributes id⟩).getD .group := by
  rw [content, kind?, attributes]
  cases f.node? id with
  | none => rfl
  | some e =>
    obtain ⟨k, parent, children, attributes⟩ := e
    cases k <;> rfl

/-! ### Changing a node -/

@[simp] lemma size_modify (f : Forest) (id : Nat) (g : Entry → Entry) :
    (f.modify id g).size = f.size := by
  simp [modify, size]

lemma node?_modify (f : Forest) (id : Nat) (g : Entry → Entry) (i : Nat) :
    (f.modify id g).node? i = if id = i then (f.node? i).map g else f.node? i := by
  simp [modify, node?, Array.getElem?_modify]

/-- What a change does not touch at a node, it does not touch in the forest. -/
lemma kind?_modify (h : ∀ e, (g e).kind = e.kind) (i : Nat) :
    (f.modify id g).kind? i = f.kind? i := by
  rw [kind?, node?_modify]
  split
  · simp [kind?, Function.comp_def, h]
  · rfl

lemma attributes_modify (h : ∀ e, (g e).attributes = e.attributes) (i : Nat) :
    (f.modify id g).attributes i = f.attributes i := by
  rw [attributes, node?_modify]
  split
  · simp [attributes, Function.comp_def, h]
  · rfl

lemma parent?_modify (h : ∀ e, (g e).parent = e.parent) (i : Nat) :
    (f.modify id g).parent? i = f.parent? i := by
  rw [parent?, node?_modify]
  split
  · cases hi : f.node? i <;> simp [parent?, hi, h]
  · rfl

lemma children_modify (h : ∀ e, (g e).children = e.children) (i : Nat) :
    (f.modify id g).children i = f.children i := by
  rw [children, node?_modify]
  split
  · simp [children, Function.comp_def, h]
  · rfl

lemma parent?_modify_under (f : Forest) (id : Nat) (parent : Option Nat) (i : Nat) :
    (f.modify id (Entry.under parent)).parent? i =
      if id = i ∧ i < f.size then parent else f.parent? i := by
  rw [parent?, node?_modify]
  by_cases hid : id = i
  · by_cases hi : i < f.size
    · obtain ⟨e, he⟩ := Option.isSome_iff_exists.1 (node?_isSome_iff.2 hi)
      simp [hid, hi, he, Entry.under]
    · have hnone : f.node? i = none := node?_of_le (Nat.le_of_not_lt hi)
      simp [hid, hi, hnone, parent?]
  · simp [hid, parent?]

lemma children_modify_adopt (f : Forest) (id child i : Nat) :
    (f.modify id (Entry.adopt child)).children i =
      if id = i ∧ i < f.size then f.children i ++ [child] else f.children i := by
  rw [children, node?_modify]
  by_cases hid : id = i
  · by_cases hi : i < f.size
    · obtain ⟨e, he⟩ := Option.isSome_iff_exists.1 (node?_isSome_iff.2 hi)
      simp [hid, hi, he, Entry.adopt, children]
    · have hnone : f.node? i = none := node?_of_le (Nat.le_of_not_lt hi)
      simp [hid, hi, hnone, children]
  · simp [hid, children]

lemma children_modify_release (f : Forest) (id child i : Nat) :
    (f.modify id (Entry.release child)).children i =
      if id = i then (f.children i).filter (· ≠ child) else f.children i := by
  rw [children, node?_modify]
  by_cases hid : id = i
  · cases hi : f.node? i <;> simp [hid, hi, Entry.release, children]
  · simp [hid, children]

lemma names_modify_setAt (f : Forest) (id index : Nat) (value : String) (i : Nat) :
    ((f.modify id (Entry.setAt index value)).attributes i).map Prod.fst =
      (f.attributes i).map Prod.fst := by
  rw [attributes, node?_modify]
  split
  · cases he : f.node? i <;> simp [attributes, he]
  · rfl

/-- Replacing a text by name replaces it at some index, or it is refused and nothing is replaced. -/
lemma run_setAttribute (f : Forest) (id : Nat) (name value : String) :
    (∃ index, (Edit.setAttribute id name value).run f =
      .ok () (f.modify id (Entry.setAt index value))) ∨
    ∃ e, (Edit.setAttribute id name value).run f = .error e f := by
  unfold Edit.setAttribute
  cases hnode : f.node? id with
  | none => exact Or.inr ⟨.missingAttribute .grammar name, by simp [hnode]⟩
  | some e =>
    cases hindex : e.index? name with
    | none => exact Or.inr ⟨.missingAttribute e.kind name, by simp [hnode, hindex]⟩
    | some index => exact Or.inl ⟨index, by simp [hnode, hindex]⟩

/-! ### Making a node -/

section Create

variable (hp : ∀ p, parent = some p → p < f.size)

include hp

lemma node?_create (i : Nat) :
    (f.create c parent).node? i =
      if i = f.size then some (Entry.ofContent c parent)
      else if parent = some i then (f.node? i).map (Entry.adopt f.size) else f.node? i := by
  have hpush : ∀ i, (⟨f.nodes.push (Entry.ofContent c parent)⟩ : Forest).node? i =
      if i = f.size then some (Entry.ofContent c parent) else f.node? i := by
    intro i
    show (f.nodes.push _)[i]? = _
    rw [Array.getElem?_push]
    rfl
  cases parent with
  | none => simp [create, hpush]
  | some p =>
    have hne : p ≠ f.size := Nat.ne_of_lt (hp p rfl)
    by_cases hi : i = f.size
    · have hpi : p ≠ i := by rw [hi]; exact hne
      simp [create, node?_modify, hpush, hi, hne]
    · simp [create, node?_modify, hpush, hi]

lemma size_create : (f.create c parent).size = f.size + 1 := by
  cases parent with
  | none => simp [create, size]
  | some p => simp [create, modify, size]

lemma kind?_create (i : Nat) :
    (f.create c parent).kind? i = if i = f.size then some c.kind else f.kind? i := by
  rw [kind?, node?_create hp]
  by_cases hi : i = f.size
  · simp [hi, Entry.ofContent]
  · by_cases hpar : parent = some i
    · simp [hi, hpar, kind?, Function.comp_def, Entry.adopt]
    · simp [hi, hpar, kind?]

lemma attributes_create (i : Nat) :
    (f.create c parent).attributes i = if i = f.size then c.attributes else f.attributes i := by
  rw [attributes, node?_create hp]
  by_cases hi : i = f.size
  · simp [hi, Entry.ofContent]
  · by_cases hpar : parent = some i
    · simp [hi, hpar, attributes, Function.comp_def, Entry.adopt]
    · simp [hi, hpar, attributes]

lemma parent?_create (i : Nat) :
    (f.create c parent).parent? i = if i = f.size then parent else f.parent? i := by
  rw [parent?, node?_create hp]
  by_cases hi : i = f.size
  · simp [hi, Entry.ofContent]
  · by_cases hpar : parent = some i
    · cases he : f.node? i <;> simp [hi, hpar, he, parent?, Entry.adopt]
    · simp [hi, hpar, parent?]

lemma children_create (i : Nat) :
    (f.create c parent).children i =
      f.children i ++ if parent = some i then [f.size] else [] := by
  rw [children, node?_create hp]
  by_cases hi : i = f.size
  · have hne : parent ≠ some i := fun h => Nat.ne_of_lt (hp i h) hi
    have hnone : f.node? f.size = none := node?_of_le (Nat.le_refl _)
    rw [hi] at hne
    simp [hi, hne, children, hnone, Entry.ofContent]
  · by_cases hpar : parent = some i
    · have hlt : i < f.size := hp i hpar
      obtain ⟨e, he⟩ := Option.isSome_iff_exists.1 (node?_isSome_iff.2 hlt)
      simp [hi, hpar, he, children, Entry.adopt]
    · simp [hi, hpar, children]

end Create

/-! ### Cutting a node off -/

@[simp] lemma size_detach (f : Forest) (id : Nat) : (f.detach id).size = f.size := by
  unfold detach
  split <;> simp

@[simp] lemma kind?_detach (f : Forest) (id i : Nat) : (f.detach id).kind? i = f.kind? i := by
  unfold detach
  split
  · rw [kind?_modify (by simp), kind?_modify (by simp)]
  · rfl

@[simp] lemma attributes_detach (f : Forest) (id i : Nat) :
    (f.detach id).attributes i = f.attributes i := by
  unfold detach
  split
  · rw [attributes_modify (by simp), attributes_modify (by simp)]
  · rfl

lemma parent?_detach (f : Forest) (id i : Nat) :
    (f.detach id).parent? i = if id = i then none else f.parent? i := by
  unfold detach
  split
  · rename_i p hp
    have hlt : id < f.size := lt_size_of_parent? hp
    rw [parent?_modify (by simp), parent?_modify_under]
    by_cases hid : id = i
    · rw [if_pos ⟨hid, hid ▸ hlt⟩, if_pos hid]
    · rw [if_neg fun h => hid h.1, if_neg hid]
  · rename_i hnone
    split
    · rename_i hid
      rw [← hid, hnone]
    · rfl

lemma children_detach (f : Forest) (id i : Nat) :
    (f.detach id).children i =
      if f.parent? id = some i then (f.children i).filter (· ≠ id) else f.children i := by
  unfold detach
  split
  · rename_i p hp
    rw [children_modify_release, children_modify (by simp), hp]
    simp
  · rename_i hnone
    simp [hnone]

/-! ### Moving a node -/

@[simp] lemma size_append (f : Forest) (parent child : Nat) :
    (f.append parent child).size = f.size := by
  simp [append]

@[simp] lemma kind?_append (f : Forest) (parent child i : Nat) :
    (f.append parent child).kind? i = f.kind? i := by
  rw [append, kind?_modify (by simp), kind?_modify (by simp), kind?_detach]

@[simp] lemma attributes_append (f : Forest) (parent child i : Nat) :
    (f.append parent child).attributes i = f.attributes i := by
  rw [append, attributes_modify (by simp), attributes_modify (by simp), attributes_detach]

lemma parent?_append {parent child : Nat} (hchild : child < f.size) (i : Nat) :
    (f.append parent child).parent? i = if child = i then some parent else f.parent? i := by
  rw [append, parent?_modify (by simp), parent?_modify_under, size_detach, parent?_detach]
  by_cases hi : child = i
  · rw [if_pos ⟨hi, hi ▸ hchild⟩, if_pos hi]
  · rw [if_neg fun h => hi h.1, if_neg hi, if_neg hi]

lemma children_append {parent child : Nat} (hparent : parent < f.size) (i : Nat) :
    (f.append parent child).children i =
      (f.detach child).children i ++ if parent = i then [child] else [] := by
  rw [append, children_modify_adopt, children_modify (by simp), size_modify, size_detach]
  by_cases hi : parent = i
  · rw [if_pos ⟨hi, hi ▸ hparent⟩, if_pos hi]
  · rw [if_neg fun h => hi h.1, if_neg hi, List.append_nil]

/-- Attaching a node moves it, or it is refused and nothing is moved. -/
lemma run_attach (f : Forest) (parent child : Nat) :
    (Edit.attach parent child).run f =
      if child = rootId then .error .rootAttachment f
      else if f.isAbove child parent then
        .error (.cyclicAttachment ((f.kind? parent).getD .grammar)
          ((f.kind? child).getD .grammar)) f
      else .ok () (f.append parent child) := by
  unfold Edit.attach
  by_cases hroot : child = rootId
  · simp [hroot]
  · by_cases habove : f.isAbove child parent = true
    · simp [hroot, habove]
    · simp [hroot, habove]

end Forest

end GrammarTree
