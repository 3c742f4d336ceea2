/-
# Ways down a tree

A way leads down from the topmost node by child indexes; `Tree.descend` follows it.  `Tree.ways` lists
the ways to all nodes along the structure of the tree.  A way that ends early comes before those that
go on from there, and of two ways that part the one with the smaller index comes first
(`pairwise_ways`).  This is the order in which the nodes are read: the ways lead to what `preorder`
lists (`map_descend_ways`).
-/
import GrammarTree.Proofs.Walk

namespace GrammarTree.Tree

variable {α : Type} {t u : Tree α} {ts us : List (Tree α)} {i index : Nat} {way : List Nat}

mutual

/-- The ways to all nodes of a tree, in reading order. -/
def ways : Tree α → List (List Nat)
  | node _ ts => [] :: waysAll 0 ts

/-- The ways that go on in one of some children, the first of which has the given index. -/
def waysAll (index : Nat) : List (Tree α) → List (List Nat)
  | [] => []
  | t :: ts => t.ways.map (index :: ·) ++ waysAll (index + 1) ts

end

/-! ### Following a way -/

lemma descend_cons (h : t.children[i]? = some u) (way : List Nat) :
    t.descend (i :: way) = u.descend way := by
  rw [descend, h]

lemma descend_cons_eq_ok_iff : t.descend (i :: way) = .ok u ↔
    ∃ child, t.children[i]? = some child ∧ child.descend way = .ok u := by
  rw [descend]
  cases t.children[i]? with
  | none => simp
  | some child => simp

/-! ### The order of ways -/

lemma nil_mem_ways (t : Tree α) : [] ∈ t.ways := by
  cases t with
  | node a ts =>
    rw [ways]
    exact List.mem_cons_self

lemma mem_waysAll : way ∈ waysAll index ts ↔
    ∃ i t rest, ts[i]? = some t ∧ rest ∈ t.ways ∧ way = (index + i) :: rest := by
  induction ts generalizing index with
  | nil => simp [waysAll]
  | cons t ts ih =>
    rw [waysAll, List.mem_append, List.mem_map, ih]
    constructor
    · rintro (⟨rest, hrest, rfl⟩ | ⟨i, u, rest, hu, hrest, rfl⟩)
      · exact ⟨0, t, rest, rfl, hrest, rfl⟩
      · refine ⟨i + 1, u, rest, hu, hrest, ?_⟩
        rw [Nat.add_right_comm, Nat.add_assoc]
    · rintro ⟨i, u, rest, hu, hrest, rfl⟩
      cases i with
      | zero =>
        obtain rfl := Option.some.inj hu
        exact Or.inl ⟨rest, hrest, rfl⟩
      | succ i =>
        refine Or.inr ⟨i, u, rest, hu, hrest, ?_⟩
        rw [Nat.add_right_comm, Nat.add_assoc]

/-- The ways are those that lead to a node. -/
lemma mem_ways : way ∈ t.ways ↔ ∃ u, t.descend way = .ok u := by
  induction way generalizing t with
  | nil => exact iff_of_true t.nil_mem_ways ⟨t, rfl⟩
  | cons i way ih =>
    cases t with
    | node a ts =>
      simp only [descend_cons_eq_ok_iff, children_node]
      rw [ways, List.mem_cons, or_iff_right (List.cons_ne_nil i way), mem_waysAll]
      constructor
      · rintro ⟨j, child, rest, hchild, hrest, heq⟩
        rw [Nat.zero_add] at heq
        obtain ⟨rfl, rfl⟩ := List.cons.inj heq
        obtain ⟨u, hu⟩ := ih.1 hrest
        exact ⟨u, child, hchild, hu⟩
      · rintro ⟨u, child, hchild, hu⟩
        exact ⟨i, child, way, hchild, ih.2 ⟨u, hu⟩, by rw [Nat.zero_add]⟩

mutual

lemma pairwise_ways : ∀ t : Tree α, t.ways.Pairwise (· < ·)
  | node a ts => by
    rw [ways, List.pairwise_cons]
    refine ⟨?_, pairwise_waysAll 0 ts⟩
    intro way hway
    obtain ⟨i, t, rest, -, -, rfl⟩ := mem_waysAll.1 hway
    exact List.nil_lt_cons _ _

lemma pairwise_waysAll (index : Nat) : ∀ ts : List (Tree α), (waysAll index ts).Pairwise (· < ·)
  | [] => List.Pairwise.nil
  | t :: ts => by
    rw [waysAll, List.pairwise_append]
    refine ⟨?_, pairwise_waysAll (index + 1) ts, ?_⟩
    · refine (pairwise_ways t).map _ fun way way' h => ?_
      exact List.cons_lt_cons_iff.2 (Or.inr ⟨rfl, h⟩)
    · -- the two ways part at once
      intro way hway way' hway'
      obtain ⟨rest, -, rfl⟩ := List.mem_map.1 hway
      obtain ⟨i, u, rest', -, -, rfl⟩ := mem_waysAll.1 hway'
      refine List.cons_lt_cons_iff.2 (Or.inl ?_)
      omega

end

lemma nodup_ways (t : Tree α) : t.ways.Nodup := by
  refine t.pairwise_ways.imp ?_
  rintro way _ h rfl
  exact List.lt_irrefl way h

/-! ### The nodes that ways lead to -/

/-- The children from an index on are the child there and those after it. -/
lemma getElem?_of_drop {index : Nat} (h : ts.drop index = u :: us) :
    ts[index]? = some u ∧ ts.drop (index + 1) = us := by
  constructor
  · rw [← List.head?_drop, h, List.head?_cons]
  · rw [← List.drop_drop, h, List.drop_one, List.tail_cons]

mutual

/-- The ways lead to the nodes in reading order. -/
lemma map_descend_ways : ∀ t : Tree α, t.ways.map t.descend = t.preorder.map .ok
  | node a ts => by
    have hchildren : (node a ts).children.drop 0 = ts := rfl
    rw [ways, preorder_node, List.map_cons, List.map_cons, map_descend_waysAll hchildren]
    rfl

lemma map_descend_waysAll {t : Tree α} : ∀ {index : Nat} {ts : List (Tree α)},
    t.children.drop index = ts → (waysAll index ts).map t.descend = (preorderOf ts).map .ok
  | index, [], _ => by rw [waysAll, preorderOf_nil, List.map_nil, List.map_nil]
  | index, u :: us, h => by
    obtain ⟨hu, hus⟩ := getElem?_of_drop h
    rw [waysAll, preorderOf_cons, List.map_append, List.map_append, map_descend_waysAll hus,
      ← map_descend_ways u, List.map_map]
    congr 1
    exact List.map_congr_left fun way _ => descend_cons hu way

end

/-- There are as many ways as nodes. -/
lemma length_ways (t : Tree α) : t.ways.length = t.preorder.length := by
  have hlength := congrArg List.length t.map_descend_ways
  rwa [List.length_map, List.length_map] at hlength

mutual

/-- A node is as many levels down as the way to it is long. -/
lemma map_fst_rows (level : Nat) :
    ∀ t : Tree α, (t.rows level).map Prod.fst = t.ways.map fun way => level + way.length
  | node a ts => by rw [rows, ways, List.map_cons, List.map_cons, map_fst_rowsAll level 0]; rfl

lemma map_fst_rowsAll (level : Nat) : ∀ (index : Nat) (ts : List (Tree α)),
    (rowsAll (level + 1) ts).map Prod.fst =
      (waysAll index ts).map fun way => level + way.length
  | index, [] => rfl
  | index, t :: ts => by
    rw [rowsAll, waysAll, List.map_append, List.map_append, map_fst_rows,
      map_fst_rowsAll level (index + 1), List.map_map]
    congr 1
    refine List.map_congr_left fun way _ => ?_
    rw [Function.comp_apply, List.length_cons, Nat.add_right_comm, Nat.add_assoc]

end

/-- The rows of a tree by the ways to its nodes. -/
lemma rows_eq_zip (t : Tree α) :
    t.rows 0 = (t.ways.zip t.preorder).map fun p => (p.1.length, p.2.label) := by
  have hlevels : (t.rows 0).map Prod.fst = t.ways.map List.length := by
    simp only [map_fst_rows, Nat.zero_add]
  calc t.rows 0 = ((t.rows 0).map Prod.fst).zip ((t.rows 0).map Prod.snd) :=
        List.zip_of_prod rfl rfl
    _ = (t.ways.map List.length).zip (t.preorder.map label) := by rw [hlevels, map_snd_rows]
    _ = (t.ways.zip t.preorder).map fun p => (p.1.length, p.2.label) := List.zip_map ..

end GrammarTree.Tree
