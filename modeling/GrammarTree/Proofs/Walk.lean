/-
# Walks over a tree

`Tree.preorder` works through a list of trees that wait.  What it lists for several trees is what it
lists for each of them, one after the other (`preorderOf_append`), so that the list can be followed
along the structure of a tree: a node comes first, then what is listed for its children
(`preorder_eq_cons`).

`Tree.depth` works through such a list as well and keeps the greatest level it has met.  This is the
greatest level among the rows of the tree, so that a node has one level more than there are below it
(`depth_node_le_iff`).
-/
import Mathlib.Tactic.Lemma
import GrammarTree.Tree

namespace GrammarTree.Tree

variable {α β : Type}

@[simp] lemma preorderOf_nil : preorderOf ([] : List (Tree α)) = [] := by
  rw [preorderOf]

lemma preorderOf_append (ts us : List (Tree α)) :
    preorderOf (ts ++ us) = preorderOf ts ++ preorderOf us := by
  -- along the walk, whose list of waiting trees changes at every node
  induction ts using preorderOf.induct with
  | case1 => simp
  | case2 a ts rest ih =>
    have hfirst : preorderOf (node a ts :: rest) = node a ts :: preorderOf (ts ++ rest) := by
      rw [preorderOf]
    have hboth : preorderOf (node a ts :: rest ++ us) =
        node a ts :: preorderOf (ts ++ rest ++ us) := by
      rw [List.cons_append, preorderOf, List.append_assoc]
    rw [hboth, hfirst, ih, List.cons_append]

lemma preorder_node (a : α) (ts : List (Tree α)) :
    preorder (node a ts) = node a ts :: preorderOf ts := by
  rw [preorder, preorderOf, List.append_nil]

lemma preorder_eq_cons (t : Tree α) : preorder t = t :: preorderOf t.children := by
  cases t with
  | node a ts => exact preorder_node a ts

lemma preorderOf_cons (t : Tree α) (ts : List (Tree α)) :
    preorderOf (t :: ts) = preorder t ++ preorderOf ts :=
  preorderOf_append [t] ts

lemma preorderOf_eq_flatMap (ts : List (Tree α)) : preorderOf ts = ts.flatMap preorder := by
  induction ts with
  | nil => simp
  | cons t ts ih => rw [preorderOf_cons, ih, List.flatMap_cons]

lemma mem_preorderOf {t : Tree α} {ts : List (Tree α)} :
    t ∈ preorderOf ts ↔ ∃ u ∈ ts, t ∈ preorder u := by
  rw [preorderOf_eq_flatMap, List.mem_flatMap]

@[simp] lemma preorder_leaf (a : α) : preorder (leaf a) = [leaf a] := by
  rw [leaf, preorder_node, preorderOf_nil]

/-- Other labels do not change the way. -/
lemma preorderOf_map (f : α → β) (ts : List (Tree α)) :
    preorderOf (ts.map (map f)) = (preorderOf ts).map (map f) := by
  induction ts using preorderOf.induct with
  | case1 => simp
  | case2 a ts rest ih =>
    rw [preorderOf, List.map_cons, map, mapAll_eq_map, preorderOf, ← List.map_append, ih,
      List.map_cons, map, mapAll_eq_map]

lemma preorder_map (f : α → β) (t : Tree α) : preorder (t.map f) = t.preorder.map (map f) :=
  preorderOf_map f [t]

/-! ### Numbers of nodes -/

lemma length_preorderOf (ts : List (Tree α)) : (preorderOf ts).length = sizeAll ts := by
  induction ts using preorderOf.induct with
  | case1 => simp [sizeAll]
  | case2 a ts rest ih =>
    rw [preorderOf, List.length_cons, ih, sizeAll_append, sizeAll, size, Nat.add_right_comm]

lemma length_preorder (t : Tree α) : t.preorder.length = t.size :=
  length_preorderOf [t]

lemma size_map (f : α → β) (t : Tree α) : (t.map f).size = t.size := by
  rw [← length_preorder, preorder_map, List.length_map, length_preorder]

lemma size_le_sizeAll {t : Tree α} {ts : List (Tree α)} (h : t ∈ ts) : t.size ≤ sizeAll ts := by
  obtain ⟨before, after, rfl⟩ := List.append_of_mem h
  rw [sizeAll_append, sizeAll]
  omega

/-! ### Levels -/

mutual

/-- Where the topmost node is one level further down, so is every node. -/
lemma rows_succ (level : Nat) :
    ∀ t : Tree α, t.rows (level + 1) = (t.rows level).map fun r => (r.1 + 1, r.2)
  | node a ts => by rw [rows, rows, rowsAll_succ, List.map_cons]

lemma rowsAll_succ (level : Nat) :
    ∀ ts : List (Tree α), rowsAll (level + 1) ts = (rowsAll level ts).map fun r => (r.1 + 1, r.2)
  | [] => rfl
  | t :: ts => by rw [rowsAll, rowsAll, rows_succ, rowsAll_succ, List.map_append]

end

lemma forall_mem_rowsAll {level : Nat} {P : Nat × α → Prop} {ts : List (Tree α)} :
    (∀ r ∈ rowsAll level ts, P r) ↔ ∀ t ∈ ts, ∀ r ∈ t.rows level, P r := by
  induction ts with
  | nil => simp [rowsAll]
  | cons t ts ih => rw [rowsAll, List.forall_mem_append, ih, List.forall_mem_cons]

mutual

/-- The rows are those of the nodes in reading order. -/
lemma map_snd_rows (level : Nat) :
    ∀ t : Tree α, (t.rows level).map Prod.snd = t.preorder.map label
  | node a ts => by rw [rows, preorder_node, List.map_cons, List.map_cons, map_snd_rowsAll]; rfl

lemma map_snd_rowsAll (level : Nat) :
    ∀ ts : List (Tree α), (rowsAll level ts).map Prod.snd = (preorderOf ts).map label
  | [] => by rw [rowsAll, preorderOf_nil]; rfl
  | t :: ts => by
    rw [rowsAll, preorderOf_cons, List.map_append, List.map_append, map_snd_rows, map_snd_rowsAll]

end

mutual

/-- Other labels do not change the levels. -/
lemma rows_map (f : α → β) (level : Nat) :
    ∀ t : Tree α, (t.map f).rows level = (t.rows level).map fun r => (r.1, f r.2)
  | node a ts => by rw [map, rows, rows, rowsAll_mapAll, List.map_cons]

lemma rowsAll_mapAll (f : α → β) (level : Nat) :
    ∀ ts : List (Tree α), rowsAll level (mapAll f ts) = (rowsAll level ts).map fun r => (r.1, f r.2)
  | [] => rfl
  | t :: ts => by rw [mapAll, rowsAll, rowsAll, rows_map, rowsAll_mapAll, List.map_append]

end

/-- The first row of some trees is at their level. -/
lemma fst_of_head_rowsAll {level : Nat} {r : Nat × α} {ts : List (Tree α)}
    (h : (rowsAll level ts).head? = some r) : r.1 = level := by
  cases ts with
  | nil => cases h
  | cons t ts =>
    obtain ⟨a, us⟩ := t
    cases h
    rfl

/-- No row below a node at some level comes next: the next one is at that level or above it. -/
def Closes (level : Nat) (rs : List (Nat × α)) : Prop := ∀ r ∈ rs.head?, r.1 ≤ level

lemma closes_nil (level : Nat) : Closes level ([] : List (Nat × α)) := nofun

lemma Closes.rowsAll_append {level : Nat} {rs : List (Nat × α)} (h : Closes level rs)
    (ts : List (Tree α)) : Closes (level + 1) (rowsAll (level + 1) ts ++ rs) := by
  intro r hr
  cases hts : rowsAll (level + 1) ts with
  | nil =>
    rw [hts, List.nil_append] at hr
    exact Nat.le_succ_of_le (h r hr)
  | cons first rest =>
    rw [hts] at hr
    cases hr
    exact Nat.le_of_eq (fst_of_head_rowsAll (congrArg List.head? hts))

mutual

/-- The rows of a tree are told from what follows, if this closes the tree. -/
lemma rows_append_inj : ∀ {t u : Tree α} {level : Nat} {rs rs' : List (Nat × α)},
    Closes level rs → Closes level rs' → t.rows level ++ rs = u.rows level ++ rs' →
      t = u ∧ rs = rs'
  | node a ts, node b us, level, rs, rs', hrs, hrs', h => by
    rw [rows, rows, List.cons_append, List.cons_append, List.cons.injEq, Prod.mk.injEq] at h
    obtain ⟨⟨-, rfl⟩, hbelow⟩ := h
    obtain ⟨rfl, rfl⟩ := rowsAll_append_inj hrs hrs' hbelow
    exact ⟨rfl, rfl⟩

lemma rowsAll_append_inj : ∀ {ts us : List (Tree α)} {level : Nat} {rs rs' : List (Nat × α)},
    Closes level rs → Closes level rs' →
      rowsAll (level + 1) ts ++ rs = rowsAll (level + 1) us ++ rs' → ts = us ∧ rs = rs'
  | [], [], level, rs, rs', hrs, hrs', h => ⟨rfl, h⟩
  | [], node b us :: vs, level, rs, rs', hrs, hrs', h => by
    exfalso
    change rs = _ at h
    have hle := hrs (level + 1, b) (by rw [h]; rfl)
    omega
  | node a ts :: vs, [], level, rs, rs', hrs, hrs', h => by
    exfalso
    change _ = rs' at h
    have hle := hrs' (level + 1, a) (by rw [← h]; rfl)
    omega
  | t :: ts, u :: us, level, rs, rs', hrs, hrs', h => by
    rw [rowsAll, rowsAll, List.append_assoc, List.append_assoc] at h
    obtain ⟨rfl, hrest⟩ := rows_append_inj (hrs.rowsAll_append ts) (hrs'.rowsAll_append us) h
    obtain ⟨rfl, rfl⟩ := rowsAll_append_inj hrs hrs' hrest
    exact ⟨rfl, rfl⟩

end

/-- The levels and labels of its nodes in reading order tell a tree. -/
lemma rows_injective (level : Nat) : Function.Injective (rows level : Tree α → List (Nat × α)) := by
  intro t u h
  have hrows : t.rows level ++ [] = u.rows level ++ [] := by rw [h]
  exact (rows_append_inj (closes_nil level) (closes_nil level) hrows).1

/-- The greatest level is met among the rows. -/
lemma deepest_le_iff {best n : Nat} {ws : List (Tree α × Nat)} :
    deepest best ws ≤ n ↔ best ≤ n ∧ ∀ w ∈ ws, ∀ r ∈ w.1.rows w.2, r.1 ≤ n := by
  induction best, ws using deepest.induct with
  | case1 best => simp [deepest]
  | case2 best a ts level rest ih =>
    rw [deepest, ih, Nat.max_le, List.forall_mem_append, List.forall_mem_cons, rows,
      List.forall_mem_cons, forall_mem_rowsAll, atLevel, List.forall_mem_map]
    simp only [and_assoc]

lemma depth_le_iff {n : Nat} {t : Tree α} : t.depth ≤ n ↔ ∀ r ∈ t.rows 1, r.1 ≤ n := by
  rw [depth, deepest_le_iff, List.forall_mem_singleton]
  exact and_iff_right n.zero_le

/-- A node has one level more than there are below it. -/
lemma depth_node_le_iff {n : Nat} {a : α} {ts : List (Tree α)} :
    (node a ts).depth ≤ n + 1 ↔ ∀ t ∈ ts, t.depth ≤ n := by
  rw [depth_le_iff, rows, List.forall_mem_cons, forall_mem_rowsAll]
  simp only [rows_succ, List.forall_mem_map, depth_le_iff, Nat.add_le_add_iff_right]
  exact and_iff_right (Nat.succ_pos n)

lemma depth_pos (t : Tree α) : 0 < t.depth := by
  cases t with
  | node a ts =>
    have hfirst : (1, a) ∈ (node a ts).rows 1 := by
      rw [rows]
      exact List.mem_cons_self
    exact depth_le_iff.1 (Nat.le_refl _) (1, a) hfirst

lemma depth_lt_of_mem {a : α} {t : Tree α} {ts : List (Tree α)} (h : t ∈ ts) :
    t.depth < (node a ts).depth := by
  obtain ⟨n, hn⟩ := Nat.exists_eq_succ_of_ne_zero (Nat.ne_of_gt (depth_pos (node a ts)))
  rw [hn]
  exact Nat.lt_succ_of_le (depth_node_le_iff.1 (Nat.le_of_eq hn) t h)

lemma foldr_max_le_iff {n : Nat} {ns : List Nat} : ns.foldr max 0 ≤ n ↔ ∀ m ∈ ns, m ≤ n := by
  induction ns with
  | nil => simp
  | cons m ns ih => rw [List.foldr_cons, Nat.max_le, ih, List.forall_mem_cons]

/-- The number of levels is one more than the greatest number of levels below. -/
lemma depth_node (a : α) (ts : List (Tree α)) :
    (node a ts).depth = (ts.map depth).foldr max 0 + 1 := by
  have hle : ∀ n, (node a ts).depth ≤ n + 1 ↔ (ts.map depth).foldr max 0 ≤ n := by
    intro n
    rw [depth_node_le_iff, foldr_max_le_iff, List.forall_mem_map]
  obtain ⟨n, hn⟩ := Nat.exists_eq_succ_of_ne_zero (Nat.ne_of_gt (depth_pos (node a ts)))
  refine Nat.le_antisymm ((hle _).2 (Nat.le_refl _)) ?_
  rw [hn]
  exact Nat.succ_le_succ ((hle n).1 (Nat.le_of_eq hn))

end GrammarTree.Tree
