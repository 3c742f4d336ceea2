/-
# Forests as lists of trees

A growth is a tree of identities, each with what the node is.  A forest *consists of* some growths if
each of them stands in it, the topmost node of each is loose, and together they have every node of
the forest once.  The grammar is one of the growths, and the others are what has been made and not
yet been put anywhere.

Seen like this, an operation is a change of a list of trees: making a loose node puts a growth in
front, moving a loose node takes a growth from the list and hangs it below a node of another one.
A forest that consists of one growth has no loose nodes but the root, and its tree is this growth
(`Consists.tree_eq`, `Consists.perm_below`).
-/
import GrammarTree.Parse.Grow
import GrammarTree.Proofs.Forest.Hanging
import GrammarTree.Proofs.Forest.Reachable
import GrammarTree.Proofs.Walk

namespace GrammarTree

/-- A tree of identities with what the nodes are. -/
abbrev Growth := Tree (Nat × Content)

namespace Growth

/-- The identity of the topmost node. -/
def top (g : Growth) : Nat := g.label.1

/-- The tree without the identities. -/
def tree (g : Growth) : Tree Content := g.map Prod.snd

/-- The identities of all nodes of some growths. -/
def idsOf (gs : List Growth) : List Nat := (Tree.preorderOf gs).map (·.label.1)

/-- A growth by itself, or behind some others below a node. -/
def within : Option ((Nat × Content) × List Growth) → Growth → Growth
  | none, g => g
  | some (l, before), g => .node l (before ++ [g])

@[simp] lemma top_node (i : Nat) (c : Content) (gs : List Growth) : top (.node (i, c) gs) = i := rfl

@[simp] lemma tree_node (i : Nat) (c : Content) (gs : List Growth) :
    tree (.node (i, c) gs) = .node c (gs.map tree) := by
  rw [tree, Tree.map, Tree.mapAll_eq_map]
  rfl

@[simp] lemma tree_leaf (i : Nat) (c : Content) : tree (Tree.leaf (i, c)) = Tree.leaf c := rfl

@[simp] lemma idsOf_nil : idsOf [] = [] := by
  simp [idsOf]

@[simp] lemma idsOf_append (gs hs : List Growth) : idsOf (gs ++ hs) = idsOf gs ++ idsOf hs := by
  simp [idsOf, Tree.preorderOf_append]

lemma idsOf_cons (g : Growth) (gs : List Growth) : idsOf (g :: gs) = idsOf [g] ++ idsOf gs :=
  idsOf_append [g] gs

@[simp] lemma idsOf_node (i : Nat) (c : Content) (gs : List Growth) :
    idsOf [.node (i, c) gs] = i :: idsOf gs := by
  have hwalk : Tree.preorderOf [Tree.node (i, c) gs] = .node (i, c) gs :: Tree.preorderOf gs :=
    Tree.preorder_node (i, c) gs
  simp [idsOf, hwalk]

@[simp] lemma idsOf_leaf (i : Nat) (c : Content) : idsOf [Tree.leaf (i, c)] = [i] := by
  rw [Tree.leaf, idsOf_node, idsOf_nil]

lemma top_mem_idsOf (g : Growth) : top g ∈ idsOf [g] := by
  obtain ⟨⟨i, c⟩, gs⟩ := g
  simp

lemma idsOf_eq_flatMap (gs : List Growth) : idsOf gs = gs.flatMap fun g => idsOf [g] := by
  induction gs with
  | nil => simp
  | cons g gs ih => rw [idsOf_cons, List.flatMap_cons, ih]

lemma mem_idsOf {i : Nat} {gs : List Growth} : i ∈ idsOf gs ↔ ∃ g ∈ gs, i ∈ idsOf [g] := by
  induction gs with
  | nil => simp
  | cons g gs ih => rw [idsOf_cons, List.mem_append, ih, List.exists_mem_cons_iff]

lemma labels_map_fst (g : Growth) : (g.map Prod.fst).preorder.map (·.label) = idsOf [g] := by
  rw [Tree.preorder_map, List.map_map, idsOf]
  refine List.map_congr_left fun t _ => ?_
  obtain ⟨l, ts⟩ := t
  rfl

/-- There are as many identities as nodes of the trees. -/
lemma length_idsOf (gs : List Growth) : (idsOf gs).length = Tree.sizeAll (gs.map tree) := by
  have hmap : gs.map tree = gs.map (Tree.map Prod.snd) := rfl
  rw [hmap, ← Tree.length_preorderOf, Tree.preorderOf_map, List.length_map, idsOf, List.length_map]

lemma perm_idsOf {gs hs : List Growth} (h : gs.Perm hs) : (idsOf gs).Perm (idsOf hs) := by
  rw [idsOf, idsOf, Tree.preorderOf_eq_flatMap, Tree.preorderOf_eq_flatMap]
  exact (h.flatMap_right _).map _

end Growth

open Growth

namespace Forest

variable {f f' : Forest} {g : Growth} {gs hs ks : List Growth} {c d : Content} {i p u : Nat}
  {q : Option Nat} {z : Option ((Nat × Content) × List Growth)}

/-- Forests with the same nodes are equal. -/
lemma ext_node? (h : ∀ i, f.node? i = f'.node? i) : f = f' := by
  obtain ⟨nodes⟩ := f
  obtain ⟨nodes'⟩ := f'
  exact congrArg Forest.mk (Array.ext_getElem? h)

/-! ### Growths that stand in a forest -/

/-- The growth stands in the forest below the given parent. -/
inductive Stands (f : Forest) : Option Nat → Growth → Prop
  | node {q : Option Nat} {i : Nat} {c : Content} {gs : List Growth} :
      f.node? i = some ⟨c.kind, q, gs.map top, c.attributes⟩ →
      (∀ g ∈ gs, Stands f (some i) g) → Stands f q (.node (i, c) gs)

lemma Stands.parent? (h : f.Stands q g) : f.parent? (top g) = q := by
  cases h with
  | node hnode _ => rw [top_node, Forest.parent?, hnode, Option.bind_some]

lemma Stands.lt_size (h : f.Stands q g) : ∀ i ∈ idsOf [g], i < f.size := by
  induction h with
  | @node q j c gs hnode _ ih =>
    intro i hi
    rw [idsOf_node] at hi
    rcases List.mem_cons.1 hi with rfl | hi
    · exact node?_isSome_iff.1 (by rw [hnode]; rfl)
    · obtain ⟨g, hg, hi⟩ := mem_idsOf.1 hi
      exact ih g hg i hi

/-- A growth stands as long as none of its nodes is changed. -/
lemma Stands.congr (h : f.Stands q g) (heq : ∀ i ∈ idsOf [g], f'.node? i = f.node? i) :
    f'.Stands q g := by
  induction h with
  | @node q j c gs hnode _ ih =>
    rw [idsOf_node] at heq
    refine .node ((heq j (by simp)).trans hnode) ?_
    intro g hg
    refine ih g hg fun i hi => heq i ?_
    exact List.mem_cons_of_mem _ (mem_idsOf.2 ⟨g, hg, hi⟩)

/-- Above a node of a growth is another one of its nodes, or what the growth stands below. -/
lemma Stands.parent_mem (h : f.Stands q g) (hi : i ∈ idsOf [g]) (hp : f.parent? i = some p) :
    p ∈ idsOf [g] ∨ q = some p := by
  induction h with
  | @node q j c gs hnode _ ih =>
    rw [idsOf_node] at hi ⊢
    rcases List.mem_cons.1 hi with rfl | hi
    · rw [Forest.parent?, hnode, Option.bind_some] at hp
      exact Or.inr hp
    · obtain ⟨g, hg, hi⟩ := mem_idsOf.1 hi
      left
      rcases ih g hg hi with hmem | heq
      · exact List.mem_cons_of_mem _ (mem_idsOf.2 ⟨g, hg, hmem⟩)
      · cases heq
        exact List.mem_cons_self

lemma Stands.above_mem (h : f.Stands none g) (hi : i ∈ idsOf [g]) (hu : f.Above u i) :
    u ∈ idsOf [g] := by
  induction hu with
  | self => exact hi
  | step hp _ ih =>
    rcases h.parent_mem hi hp with hmem | hnone
    · exact ih hmem
    · cases hnone

/-! ### Hanging a loose growth below a node -/

/-- Moving a loose node changes this node and the one it is put below. -/
lemma node?_append (hloose : f.parent? u = none) (i : Nat) :
    (f.append p u).node? i =
      if p = i then (if u = i then (f.node? i).map (Entry.under (some p)) else f.node? i).map
        (Entry.adopt u)
      else if u = i then (f.node? i).map (Entry.under (some p)) else f.node? i := by
  have hdetach : f.detach u = f := by rw [detach, hloose]
  rw [append, hdetach, node?_modify, node?_modify]

lemma Stands.congr_append (h : f.Stands q g) (hloose : f.parent? u = none) (hp : p ∉ idsOf [g])
    (hu : u ∉ idsOf [g]) : (f.append p u).Stands q g := by
  refine h.congr fun i hi => ?_
  have hpi : p ≠ i := fun heq => hp (heq ▸ hi)
  have hui : u ≠ i := fun heq => hu (heq ▸ hi)
  rw [node?_append hloose, if_neg hpi, if_neg hui]

/-- A loose growth stands below its new parent. -/
lemma Stands.moved (h : f.Stands none g) (hnodup : (idsOf [g]).Nodup) (hp : p ∉ idsOf [g]) :
    (f.append p (top g)).Stands (some p) g := by
  have hloose := h.parent?
  cases h with
  | @node _ j c gs hnode hgs =>
    rw [idsOf_node] at hp hnodup
    obtain ⟨hpj, hpgs⟩ := List.ne_and_not_mem_of_not_mem_cons hp
    have hjgs := (List.nodup_cons.1 hnodup).1
    refine .node ?_ ?_
    · rw [node?_append hloose, if_neg hpj, top_node, if_pos rfl, hnode]
      rfl
    · intro k hk
      refine (hgs k hk).congr_append hloose (fun hmem => hpgs ?_) fun hmem => hjgs ?_
      · exact mem_idsOf.2 ⟨k, hk, hmem⟩
      · exact mem_idsOf.2 ⟨k, hk, hmem⟩

/-- A node with one more growth behind those below it. -/
lemma Stands.append (h : f.Stands q (.node (p, c) ks)) (hg : f.Stands none g)
    (hnodup : (idsOf [.node (p, c) ks, g]).Nodup) :
    (f.append p (top g)).Stands q (.node (p, c) (ks ++ [g])) := by
  have hloose := hg.parent?
  rw [idsOf_cons, idsOf_node, List.nodup_append'] at hnodup
  obtain ⟨hks, hone, hdisjoint⟩ := hnodup
  have hpks := (List.nodup_cons.1 hks).1
  have hgp : top g ≠ p := fun heq => hdisjoint List.mem_cons_self (heq ▸ top_mem_idsOf g)
  cases h with
  | node hnode hstand =>
    refine .node ?_ ?_
    · rw [node?_append hloose, if_pos rfl, if_neg hgp, hnode, List.map_append]
      rfl
    · intro k hk
      rcases List.mem_append.1 hk with hk | hk
      · refine (hstand k hk).congr_append hloose (fun hmem => hpks ?_) fun hmem => ?_
        · exact mem_idsOf.2 ⟨k, hk, hmem⟩
        · have hks : top g ∈ idsOf ks := mem_idsOf.2 ⟨k, hk, hmem⟩
          exact hdisjoint (List.mem_cons_of_mem _ hks) (top_mem_idsOf g)
      · cases List.mem_singleton.1 hk
        exact hg.moved hone fun hp => hdisjoint List.mem_cons_self hp

/-- The same for a node that is the last one below another node. -/
lemma Stands.append_within (h : f.Stands none (within z (.node (p, c) ks)))
    (hg : f.Stands none g) (hnodup : (idsOf [within z (.node (p, c) ks), g]).Nodup) :
    (f.append p (top g)).Stands none (within z (.node (p, c) (ks ++ [g]))) := by
  cases z with
  | none => exact h.append hg hnodup
  | some z =>
    obtain ⟨⟨j, d⟩, before⟩ := z
    have hloose := hg.parent?
    have hlist : idsOf [.node (j, d) (before ++ [.node (p, c) ks]), g] =
        j :: (idsOf before ++ idsOf [.node (p, c) ks, g]) := by
      rw [idsOf_cons, idsOf_node, idsOf_append, idsOf_cons (.node (p, c) ks) [g]]
      simp
    rw [within, hlist, List.nodup_cons, List.nodup_append'] at hnodup
    obtain ⟨hj, -, hinner, hdisjoint⟩ := hnodup
    have hp : p ∈ idsOf [.node (p, c) ks, g] := mem_idsOf.2 ⟨.node (p, c) ks, by simp⟩
    have hu : top g ∈ idsOf [.node (p, c) ks, g] := mem_idsOf.2 ⟨g, by simp, top_mem_idsOf g⟩
    have hpj : p ≠ j := fun heq => hj (heq ▸ List.mem_append_right _ hp)
    have huj : top g ≠ j := fun heq => hj (heq ▸ List.mem_append_right _ hu)
    cases h with
    | node hnode hstand =>
      refine .node ?_ ?_
      · rw [node?_append hloose, if_neg hpj, if_neg huj, hnode, List.map_append, List.map_append]
        rfl
      · intro k hk
        rcases List.mem_append.1 hk with hk | hk
        · have hkeep : ∀ i ∈ idsOf [.node (p, c) ks, g], i ∉ idsOf [k] := by
            intro i hi hmem
            exact hdisjoint (mem_idsOf.2 ⟨k, hk, hmem⟩) hi
          exact (hstand k (List.mem_append_left _ hk)).congr_append hloose (hkeep p hp)
            (hkeep _ hu)
        · cases List.mem_singleton.1 hk
          exact (hstand _ (by simp)).append hg hinner

/-! ### Forests that consist of growths -/

/-- The forest is made by operations, and it is these growths and nothing else. -/
structure Consists (f : Forest) (gs : List Growth) : Prop where
  reached : f.Reachable
  stands : ∀ g ∈ gs, f.Stands none g
  complete : (idsOf gs).Perm (List.range f.size)

lemma Consists.nodup (h : f.Consists gs) : (idsOf gs).Nodup :=
  h.complete.nodup_iff.2 List.nodup_range

lemma Consists.root_mem (h : f.Consists gs) : rootId ∈ idsOf gs := by
  rw [h.complete.mem_iff, List.mem_range]
  exact (sound_of_reachable h.reached).size_pos

/-- The order in which the growths are listed does not matter. -/
lemma Consists.perm (h : f.Consists gs) (hperm : gs.Perm hs) : f.Consists hs where
  reached := h.reached
  stands g hg := h.stands g (hperm.mem_iff.2 hg)
  complete := (perm_idsOf hperm).symm.trans h.complete

/-! ### Making a loose node -/

/-- A content is that of a new node, if it is no grammar. -/
lemma exists_ofKind (hc : c.kind ≠ .grammar) : ∃ label, Content.ofKind c.kind label = c := by
  cases c with
  | grammar => exact absurd rfl hc
  | rule v | identifier v | terminal v | comment v => exact ⟨v, rfl⟩
  | sequence | choice | optional | repetition | group | exception => exact ⟨"", rfl⟩

lemma Consists.create (h : f.Consists gs) (hc : c.kind ≠ .grammar) :
    (f.create c none).Consists (Tree.leaf (f.size, c) :: gs) := by
  have hnone : f.Offers none := nofun
  refine ⟨?_, ?_, ?_⟩
  · obtain ⟨label, hlabel⟩ := exists_ofKind hc
    have hreached := h.reached.change (c := .create c.kind label none) ⟨hc, hnone⟩ nofun
    rw [← hlabel]
    exact hreached
  · intro g hg
    rcases List.mem_cons.1 hg with rfl | hg
    · refine .node ?_ nofun
      rw [node?_create hnone, if_pos rfl]
      rfl
    · refine (h.stands g hg).congr fun i hi => ?_
      have hlt := (h.stands g hg).lt_size i hi
      rw [node?_create hnone, if_neg (Nat.ne_of_lt hlt), if_neg nofun]
  · rw [idsOf_cons, idsOf_leaf, size_create hnone, List.range_succ]
    exact (h.complete.cons f.size).trans (List.perm_append_singleton _ _).symm

/-! ### Moving a loose node -/

@[simp] lemma idsOf_within_append (z : Option ((Nat × Content) × List Growth)) (p : Nat)
    (c : Content) (ks hs : List Growth) :
    idsOf [within z (.node (p, c) (ks ++ hs))] =
      idsOf [within z (.node (p, c) ks)] ++ idsOf hs := by
  cases z with
  | none => simp [within]
  | some z =>
    obtain ⟨⟨j, d⟩, before⟩ := z
    simp [within]

lemma mem_idsOf_within (z : Option ((Nat × Content) × List Growth)) (p : Nat) (c : Content)
    (ks : List Growth) : p ∈ idsOf [within z (.node (p, c) ks)] := by
  cases z with
  | none => simp [within]
  | some z =>
    obtain ⟨⟨j, d⟩, before⟩ := z
    simp [within]

/-- A loose growth, unless it is the grammar, can be put below any node of another one. -/
lemma Consists.reachable_append {t : Growth} (h : f.Consists (t :: g :: gs))
    (hroot : rootId ∈ idsOf (t :: gs)) (hp : p ∈ idsOf [t]) :
    (f.append p (top g)).Reachable := by
  have hsound := sound_of_reachable h.reached
  have ht := h.stands t (by simp)
  have hg := h.stands g (by simp)
  have hplt : p < f.size := ht.lt_size p hp
  have hglt : top g < f.size := hg.lt_size _ (top_mem_idsOf g)
  have hnodup : (idsOf [g] ++ idsOf (t :: gs)).Nodup := by
    rw [← idsOf_cons]
    exact (h.perm (.swap g t gs)).nodup
  have hdisjoint := (List.nodup_append'.1 hnodup).2.2
  have hne : top g ≠ rootId := fun heq => hdisjoint (top_mem_idsOf g) (heq ▸ hroot)
  have hnot : ¬ f.isAbove (top g) p = true := by
    rw [hsound.isAbove_iff hplt]
    intro habove
    refine hdisjoint (top_mem_idsOf g) ?_
    rw [idsOf_cons]
    exact List.mem_append_left _ (ht.above_mem hp habove)
  have hreached := h.reached.change (c := .attach p (top g)) ⟨hplt, hglt⟩ nofun
  rwa [Change.result, Change.edit, edited, run_attach, if_neg hne, if_neg hnot] at hreached

lemma Consists.append (h : f.Consists (within z (.node (p, c) ks) :: g :: gs))
    (hroot : rootId ∈ idsOf (within z (.node (p, c) ks) :: gs)) :
    (f.append p (top g)).Consists (within z (.node (p, c) (ks ++ [g])) :: gs) := by
  have hg := h.stands g (by simp)
  have hnodup := h.nodup
  have hlist : idsOf (within z (.node (p, c) ks) :: g :: gs) =
      idsOf [within z (.node (p, c) ks), g] ++ idsOf gs := by
    rw [← idsOf_append]
    rfl
  rw [hlist, List.nodup_append'] at hnodup
  obtain ⟨hboth, -, hdisjoint⟩ := hnodup
  have hp : p ∈ idsOf [within z (.node (p, c) ks), g] :=
    mem_idsOf.2 ⟨within z (.node (p, c) ks), by simp, mem_idsOf_within z p c ks⟩
  have hu : top g ∈ idsOf [within z (.node (p, c) ks), g] :=
    mem_idsOf.2 ⟨g, by simp, top_mem_idsOf g⟩
  refine ⟨h.reachable_append hroot (mem_idsOf_within z p c ks), ?_, ?_⟩
  · intro k hk
    rcases List.mem_cons.1 hk with rfl | hk
    · exact (h.stands _ (by simp)).append_within hg hboth
    · have hkeep : ∀ i ∈ idsOf [within z (.node (p, c) ks), g], i ∉ idsOf [k] := by
        intro i hi hmem
        exact hdisjoint hi (mem_idsOf.2 ⟨k, hk, hmem⟩)
      exact (h.stands k (by simp [hk])).congr_append hg.parent? (hkeep p hp) (hkeep _ hu)
  · have hcomplete := h.complete
    rw [hlist, idsOf_cons] at hcomplete
    rw [idsOf_cons, idsOf_within_append, size_append]
    exact hcomplete

/-- Moving several loose nodes below another one. -/
lemma Consists.appendAll (h : f.Consists (within z (.node (p, c) ks) :: (hs ++ gs)))
    (hroot : rootId ∈ idsOf (within z (.node (p, c) ks) :: gs)) :
    (f.appendAll p (hs.map top)).Consists (within z (.node (p, c) (ks ++ hs)) :: gs) := by
  induction hs generalizing f ks with
  | nil => simpa [Forest.appendAll] using h
  | cons g hs ih =>
    have hroot' : rootId ∈ idsOf (within z (.node (p, c) ks) :: (hs ++ gs)) := by
      rw [idsOf_cons, List.mem_append] at hroot ⊢
      exact hroot.imp_right fun hmem => by rw [idsOf_append]; exact List.mem_append_right _ hmem
    have hstep := h.append hroot'
    have hroot'' : rootId ∈ idsOf (within z (.node (p, c) (ks ++ [g])) :: gs) := by
      rw [idsOf_cons, List.mem_append] at hroot ⊢
      exact hroot.imp_left fun hmem => by
        rw [idsOf_within_append]; exact List.mem_append_left _ hmem
    have hrest := ih hstep hroot''
    rw [List.append_assoc] at hrest
    exact hrest

/-! ### Making nodes below others -/

/-- A node made below another one is a loose node that is moved there. -/
lemma create_some (f : Forest) (d : Content) (hp : p < f.size) :
    f.create d (some p) = (f.create d none).append p f.size := by
  have hnone : f.Offers none := nofun
  have hsome : f.Offers (some p) := by
    rintro _ ⟨rfl⟩
    exact hp
  have hloose : (f.create d none).parent? f.size = none := by
    rw [parent?_create hnone, if_pos rfl]
  apply ext_node?
  intro i
  rw [node?_append hloose, node?_create hnone, node?_create hsome]
  by_cases hi : i = f.size
  · have hpi : p ≠ i := by omega
    rw [if_pos hi, if_neg hpi, if_pos hi.symm, if_pos hi]
    rfl
  · simp [hi, Ne.symm hi]

lemma Consists.create_below (h : f.Consists (within z (.node (p, c) ks) :: gs))
    (hd : d.kind ≠ .grammar) :
    (f.create d (some p)).Consists
      (within z (.node (p, c) (ks ++ [Tree.leaf (f.size, d)])) :: gs) := by
  have hp : p < f.size := (h.stands _ (by simp)).lt_size p (mem_idsOf_within z p c ks)
  have hloose := (h.create hd).perm (.swap _ _ _)
  rw [create_some f d hp]
  exact hloose.append h.root_mem

/-- Making several loose nodes. -/
lemma Consists.createAll {ds : List Content} (h : f.Consists gs)
    (hds : ∀ d ∈ ds, d.kind ≠ .grammar) :
    ∃ hs : List Growth, (f.createAll none ds).1 = hs.map top ∧
      hs.map Growth.tree = ds.map Tree.leaf ∧ (f.createAll none ds).2.Consists (hs ++ gs) := by
  induction ds generalizing f gs with
  | nil => exact ⟨[], rfl, rfl, h⟩
  | cons d ds ih =>
    obtain ⟨hd, hds⟩ := List.forall_mem_cons.1 hds
    obtain ⟨hs, hids, htrees, hrest⟩ := ih (h.create hd) hds
    refine ⟨Tree.leaf (f.size, d) :: hs, ?_, ?_, hrest.perm List.perm_middle⟩
    · show f.size :: ((f.create d none).createAll none ds).1 = _
      rw [hids]
      rfl
    · rw [List.map_cons, htrees, tree_leaf, List.map_cons]

/-- Making several nodes below another one. -/
lemma Consists.createAll_below {ds : List Content}
    (h : f.Consists (within z (.node (p, c) ks) :: gs)) (hds : ∀ d ∈ ds, d.kind ≠ .grammar) :
    ∃ hs : List Growth, hs.map Growth.tree = ds.map Tree.leaf ∧
      (f.createAll (some p) ds).2.Consists (within z (.node (p, c) (ks ++ hs)) :: gs) := by
  induction ds generalizing f ks with
  | nil => exact ⟨[], rfl, by rwa [List.append_nil]⟩
  | cons d ds ih =>
    obtain ⟨hd, hds⟩ := List.forall_mem_cons.1 hds
    obtain ⟨hs, htrees, hrest⟩ := ih (h.create_below hd) hds
    refine ⟨Tree.leaf (f.size, d) :: hs, ?_, ?_⟩
    · rw [List.map_cons, htrees, tree_leaf, List.map_cons]
    · rw [List.append_assoc] at hrest
      exact hrest

/-! ### The grammar -/

lemma consists_empty :
    Forest.empty.Consists [Tree.leaf (rootId, .grammar "" Content.defaultMeta)] := by
  refine ⟨.empty, ?_, ?_⟩
  · intro g hg
    cases List.mem_singleton.1 hg
    exact .node rfl nofun
  · rw [idsOf_leaf]
    rfl

/-- Another text at the topmost node. -/
lemma Consists.setAt {index : Nat} {value : String} (h : f.Consists [.node (p, c) ks])
    (hreached : (f.modify p (Entry.setAt index value)).Reachable) (hkind : c.kind = d.kind)
    (hattributes : (c.attributes.modify index fun (key, _) => (key, value)) = d.attributes) :
    (f.modify p (Entry.setAt index value)).Consists [.node (p, d) ks] := by
  have hnodup := h.nodup
  rw [idsOf_node, List.nodup_cons] at hnodup
  refine ⟨hreached, ?_, ?_⟩
  · intro g hg
    cases List.mem_singleton.1 hg
    cases h.stands (.node (p, c) ks) (by simp) with
    | node hnode hstand =>
      refine .node ?_ ?_
      · rw [node?_modify, if_pos rfl, hnode, ← hkind, ← hattributes]
        rfl
      · intro k hk
        refine (hstand k hk).congr fun i hi => ?_
        have hne : p ≠ i := fun heq => hnodup.1 (heq ▸ mem_idsOf.2 ⟨k, hk, hi⟩)
        rw [node?_modify, if_neg hne]
  · have hcomplete := h.complete
    rw [idsOf_node] at hcomplete
    rwa [idsOf_node, size_modify]

lemma Consists.setTitle {title about value : String}
    (h : f.Consists [.node (rootId, .grammar title about) ks]) :
    (f.setTitle value).Consists [.node (rootId, .grammar value about) ks] :=
  h.setAt (h.reached.change (c := .setTitle value) trivial nofun) rfl rfl

lemma Consists.setMeta {title about value : String}
    (h : f.Consists [.node (rootId, .grammar title about) ks]) :
    (f.setMeta value).Consists [.node (rootId, .grammar title value) ks] :=
  h.setAt (h.reached.change (c := .setMeta value) trivial nofun) rfl rfl

/-! ### Trees -/

lemma Stands.below_eq (hsound : f.Sound) (h : f.Stands q g) : f.below (top g) = g.map Prod.fst := by
  induction h with
  | @node q j c gs hnode hstand ih =>
    have hlt : j < f.size := node?_isSome_iff.1 (by rw [hnode]; rfl)
    have hchildren : f.children j = gs.map top := by rw [children, hnode]; rfl
    rw [top_node, hsound.below_eq hlt, hchildren, List.map_map, Tree.map, Tree.mapAll_eq_map]
    congr 1
    exact List.map_congr_left fun g hg => ih g hg

lemma content_of_node? (h : f.node? i = some ⟨c.kind, q, ks.map top, c.attributes⟩) :
    f.content i = c := by
  rw [content, h]
  cases c <;> rfl

lemma Stands.treeAt_eq (hsound : f.Sound) (h : f.Stands q g) : f.treeAt (top g) = g.tree := by
  induction h with
  | @node q j c gs hnode hstand ih =>
    have hlt : j < f.size := node?_isSome_iff.1 (by rw [hnode]; rfl)
    have hchildren : f.children j = gs.map top := by rw [children, hnode]; rfl
    rw [top_node, hsound.treeAt_eq hlt, hchildren, List.map_map, tree_node, content_of_node? hnode]
    congr 1
    exact List.map_congr_left fun g hg => ih g hg

/-- A forest that consists of one growth has the tree of this growth. -/
lemma Consists.tree_eq (h : f.Consists [g]) (hg : top g = rootId) : f.tree = g.tree := by
  have hsound := sound_of_reachable h.reached
  rw [Forest.tree, ← hg]
  exact (h.stands g (by simp)).treeAt_eq hsound

/-- In a forest that consists of one growth all nodes are met below the root, each of them once. -/
lemma Consists.perm_below (h : f.Consists [g]) (hg : top g = rootId) :
    ((f.below rootId).preorder.map (·.label)).Perm (List.range f.size) := by
  have hsound := sound_of_reachable h.reached
  have hbelow : f.below rootId = g.map Prod.fst := by
    rw [← hg]
    exact (h.stands g (by simp)).below_eq hsound
  rw [hbelow, labels_map_fst]
  exact h.complete

end Forest

end GrammarTree
