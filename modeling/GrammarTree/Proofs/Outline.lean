/-
# The lines of an outline

An outline has one line for each row of the tree, whatever has been written before: the walk goes one
level down for the children and comes back to the level that it started at (`accept_visitor`).  So a
writer can go from one tree on to the next.

Texts with line breaks do not make a line longer, since both characters of a line break are escaped.
The outline can be cut at its line breaks then.  The spaces in front of a bracket tell the level, if
there are any for each level, and the letters behind it tell the kind; and the levels and kinds in
reading order are those of a single tree.
-/
import GrammarTree.Proofs.Equivalence
import GrammarTree.Proofs.Lines
import GrammarTree.Proofs.Way
import GrammarTree.Rendering.Outline

namespace GrammarTree

namespace Outline

variable {k : Nat} {c : Content}

/-! ### Lines -/

/-- What stands in a line behind the name of the kind. -/
def remainder (c : Content) : String :=
  String.join (c.attributes.map fun (name, value) => " " ++ name ++ "='" ++ escape value ++ "'") ++
    "]"

/-- The line of a node at some level, up to its line feed. -/
def row (k : Nat) (r : Nat × Content) : String :=
  spaces (r.1 * k) ++ "[" ++ r.2.kind.name ++ remainder r.2

lemma spaces_append_line (k : Nat) (r : Nat × Content) :
    spaces (r.1 * k) ++ line r.2 = row k r ++ "\n" := by
  simp only [line, row, remainder, String.append_assoc]
  rfl

lemma feed_not_mem_escape (s : String) : '\n' ∉ (escape s).toList := by
  rw [escape, String.toList_join, List.flatMap_map, List.mem_flatMap]
  rintro ⟨a, -, ha⟩
  split at ha
  · revert ha
    decide
  · split at ha
    · revert ha
      decide
    · rename_i hne
      rw [String.toList_singleton, List.mem_singleton] at ha
      exact hne ha.symm

/-- No name of an attribute has a line feed in it. -/
lemma feed_not_mem_of_attributes {name value : String} (h : (name, value) ∈ c.attributes) :
    '\n' ∉ name.toList := by
  have hall : ∀ k : Kind, ∀ name ∈ k.attributeNames, '\n' ∉ name.toList := by
    intro k
    cases k <;> decide
  exact hall c.kind name (List.of_mem_zip h).1

lemma feed_not_mem_remainder (c : Content) : '\n' ∉ (remainder c).toList := by
  rw [remainder, String.toList_append, List.mem_append, String.toList_join, List.flatMap_map,
    List.mem_flatMap]
  rintro (⟨⟨name, value⟩, hmem, h⟩ | h)
  · simp only [String.toList_append, List.mem_append] at h
    rcases h with (((h | h) | h) | h) | h
    · revert h; decide
    · exact feed_not_mem_of_attributes hmem h
    · revert h; decide
    · exact feed_not_mem_escape value h
    · revert h; decide
  · revert h
    decide

lemma feed_not_mem_row (k : Nat) (r : Nat × Content) : '\n' ∉ (row k r).toList := by
  simp only [row, spaces, String.toList_append, String.toList_ofList, List.mem_append]
  rintro (((h | h) | h) | h)
  · exact absurd (List.eq_of_mem_replicate h) (by decide)
  · revert h; decide
  · exact absurd (r.2.kind.isLower_of_mem_name '\n' h) (by decide)
  · exact feed_not_mem_remainder r.2 h

/-- Behind the name of a kind there is no letter. -/
lemma exists_remainder (c : Content) :
    ∃ b bs, (remainder c).toList = b :: bs ∧ b.isLower = false := by
  cases hattributes : c.attributes with
  | nil => exact ⟨']', [], by rw [remainder, hattributes]; rfl, rfl⟩
  | cons entry entries => exact ⟨' ', _, by rw [remainder, hattributes]; simp; rfl, rfl⟩

/-- If levels are indented at all, a line tells the level and the kind. -/
lemma row_inj (hk : 0 < k) {r s : Nat × Content} (h : (row k r).toList = (row k s).toList) :
    (r.1, r.2.kind) = (s.1, s.2.kind) := by
  have htext : ∀ r : Nat × Content, (row k r).toList =
      List.replicate (r.1 * k) ' ' ++ '[' :: (r.2.kind.name.toList ++ (remainder r.2).toList) := by
    simp [row, spaces]
  rw [htext, htext] at h
  -- the spaces end at the bracket, and the name at the first character that is no letter
  obtain ⟨hlevel, -, hnames⟩ := replicate_append_cons_inj (by decide) (by decide) h
  obtain ⟨a, as, ha, halower⟩ := exists_remainder r.2
  obtain ⟨b, bs, hb, hblower⟩ := exists_remainder s.2
  rw [ha, hb] at hnames
  obtain ⟨hkind, -⟩ := Kind.name_append_inj halower hblower hnames
  rw [Nat.eq_of_mul_eq_mul_right hk hlevel, hkind]

/-! ### Lines of many nodes -/

/-- The lines of some rows. -/
def text (k : Nat) (rs : List (Nat × Content)) : String :=
  String.join (rs.map fun r => row k r ++ "\n")

lemma text_nil (k : Nat) : text k [] = "" := rfl

lemma text_cons (k : Nat) (r : Nat × Content) (rs : List (Nat × Content)) :
    text k (r :: rs) = row k r ++ "\n" ++ text k rs :=
  String.join_cons

lemma text_append (k : Nat) (rs ss : List (Nat × Content)) :
    text k (rs ++ ss) = text k rs ++ text k ss := by
  rw [text, List.map_append, String.join_append]
  rfl

/-- Equal lines are those of equal levels and kinds. -/
lemma text_inj (hk : 0 < k) {rs ss : List (Nat × Content)} (h : text k rs = text k ss) :
    (rs.map fun r => (r.1, r.2.kind)) = ss.map fun s => (s.1, s.2.kind) := by
  have htext : ∀ rs, text k rs = String.join ((rs.map (row k)).map (· ++ "\n")) := by
    simp [text, Function.comp_def]
  rw [htext, htext] at h
  exact map_eq_of_join_lines_eq (feed_not_mem_row k) (feed_not_mem_row k)
    (fun r s hrow => row_inj hk (congrArg String.toList hrow)) h

/-! ### The walk -/

mutual

/-- The lines of a tree are written behind what is there, and the level is as before. -/
lemma accept_visitor (k : Nat) : ∀ (t : Node) (w : Writer),
    (visitor k).accept t w = ⟨w.text ++ text k (t.rows w.level), w.level⟩
  | .node c ts, w => by
    have hwalk : (visitor k).accept (.node c ts) w =
        (visitor k).leave c (Visitor.runAll ((visitor k).acceptEach ts)
          ⟨w.text ++ (spaces (w.level * k) ++ line c), w.level + 1⟩) := rfl
    rw [hwalk, runAll_visitor k ts, spaces_append_line k (w.level, c), String.append_assoc,
      ← text_cons]
    rfl

lemma runAll_visitor (k : Nat) : ∀ (ts : List Node) (w : Writer),
    Visitor.runAll ((visitor k).acceptEach ts) w =
      ⟨w.text ++ text k (Tree.rowsAll w.level ts), w.level⟩
  | [], w => by
    rw [Tree.rowsAll, text_nil, String.append_empty]
    rfl
  | t :: ts, w => by
    have hwalk : Visitor.runAll ((visitor k).acceptEach (t :: ts)) w =
        Visitor.runAll ((visitor k).acceptEach ts) ((visitor k).accept t w) := rfl
    rw [hwalk, accept_visitor k t, runAll_visitor k ts, String.append_assoc, ← text_append,
      Tree.rowsAll]

end

lemma render_eq (t : Node) (k : Nat) : render t k = text k (t.rows 0) := by
  rw [render, Writer.add, accept_visitor]
  exact String.empty_append

/-- A writer that has been handed some trees has their outlines behind what it had before. -/
lemma text_foldl_add (k : Nat) (ts : List Node) {w : Writer} (hw : w.level = 0) :
    (ts.foldl (fun w t => w.add k t) w).text = w.text ++ String.join (ts.map (render · k)) := by
  induction ts generalizing w with
  | nil => exact String.append_empty.symm
  | cons t ts ih =>
    have hlevel : (w.add k t).level = 0 := by rw [Writer.add, accept_visitor, hw]
    rw [List.foldl_cons, ih hlevel, Writer.add, accept_visitor, hw, ← render_eq, List.map_cons,
      String.join_cons, String.append_assoc]

/-! ### The theorem -/

/-- The outline of a tree has one line for each node in reading order, in which nothing but the end
is a line feed; a way leads to the node, and for each step of it there is the indentation, in front of
a bracket and the name of the kind.  A writer that is handed trees one after the other holds what
their outlines are together.  If levels are indented at all, trees with the same outline have the same
kinds in the same places. -/
theorem outline_has_line_per_node (k : Nat) :
    (∀ t : Node, render t k = String.join ((t.ways.zip t.preorder).map fun (way, u) =>
        spaces (way.length * k) ++ "[" ++ u.label.kind.name ++ remainder u.label ++ "\n")) ∧
    (∀ t : Node, t.ways.map t.descend = t.preorder.map .ok) ∧
    (∀ (n : Nat) (c : Content),
      '\n' ∉ (spaces n ++ "[" ++ c.kind.name ++ remainder c).toList) ∧
    (∀ ts : List Node, (ts.foldl (fun w t => Writer.add w k t) Writer.empty).text =
      String.join (ts.map (render · k))) ∧
    (0 < k → ∀ t u : Node, render t k = render u k → t.map (·.kind) = u.map (·.kind)) := by
  refine ⟨fun t => ?_, fun t => t.map_descend_ways, fun n c => ?_, fun ts => ?_, ?_⟩
  · rw [render_eq, text, t.rows_eq_zip, List.map_map]
    rfl
  · have hrow := feed_not_mem_row 1 (n, c)
    rwa [row, Nat.mul_one] at hrow
  · rw [text_foldl_add k ts (w := Writer.empty) rfl]
    exact String.empty_append
  · intro hk t u h
    rw [render_eq, render_eq] at h
    have hrows := text_inj hk h
    rw [← Tree.rows_map, ← Tree.rows_map] at hrows
    exact Tree.rows_injective 0 hrows

/-- The outline does not tell a line break from the two characters that it is written with, but the
kinds are the same. -/
theorem outline_has_line_per_node_with_feed :
    ∃ t u : Node, t ≠ u ∧ render t 2 = "[rule name='a']\n  [terminal value='\\n']\n" ∧
      render t 2 = render u 2 ∧ t.map (·.kind) = u.map (·.kind) := by
  obtain ⟨t, u, hne, htext, heq⟩ : ∃ t u : Node, t ≠ u ∧
      render t 2 = "[rule name='a']\n  [terminal value='\\n']\n" ∧ render t 2 = render u 2 :=
    ⟨.node (.rule "a") [Tree.leaf (.terminal "\n")],
      .node (.rule "a") [Tree.leaf (.terminal "\\n")],
      by decide, by decide +kernel, by decide +kernel⟩
  obtain ⟨-, -, -, -, hkinds⟩ := outline_has_line_per_node 2
  exact ⟨t, u, hne, htext, heq, hkinds (by decide) t u heq⟩

end Outline

end GrammarTree
