/-
# The lines of a drawing

A drawing has a line for each node in reading order.  In front of its icon there are two characters
for each step of the way to the node: for a step before the last one a stroke, if more children
follow behind the node that it leads to, and blanks otherwise; and for the last step a tee or a
corner.  The drawing hands the characters down from node to node.  `guide` says what they are for a
node by itself.

None of these characters begins an icon, and so the icon tells where they end.  Their number tells
the level of the node, and the icon tells its kind.  What the labels are does not matter for this,
and neither does the width at which they are cut, as long as no label breaks its line.
-/
import Mathlib.Data.List.Infix
import GrammarTree.Proofs.Equivalence
import GrammarTree.Proofs.Lines
import GrammarTree.Proofs.Way
import GrammarTree.Rendering.Drawing

namespace GrammarTree

namespace Drawing

variable {t s : Node} {width i j : Nat} {way before : List Nat}

/-! ### What stands in front of an icon -/

/-- Whether a way leads to the last child of a node. -/
def isLast (t : Node) (way : List Nat) : Bool :=
  match way.getLast?, t.descend way.dropLast with
  | some i, .ok s => i + 1 == s.children.length
  | _, _ => false

/-- What stands in front of the icon of the node that a way leads to. -/
def guide (t : Node) : List Nat → String
  | [] => ""
  | i :: way =>
    String.join ((i :: way).dropLast.inits.tail.map fun p => if isLast t p then "  " else "│ ") ++
      if isLast t (i :: way) then "└─ " else "├─ "

/-- The last step of a way is drawn as a connector, and those before it with the nodes that they
lead to. -/
lemma guide_concat (t : Node) (before : List Nat) (i : Nat) : guide t (before ++ [i]) =
    String.join (before.inits.tail.map fun p => if isLast t p then "  " else "│ ") ++
      if isLast t (before ++ [i]) then "└─ " else "├─ " := by
  obtain ⟨j, way, hway⟩ := List.exists_cons_of_ne_nil (List.concat_ne_nil i before)
  rw [hway, guide, ← hway, List.dropLast_concat]

lemma isLast_concat (h : t.descend before = .ok s) :
    isLast t (before ++ [i]) = (i + 1 == s.children.length) := by
  simp [isLast, h]

lemma isLast_singleton (t : Node) (i : Nat) : isLast t [i] = (i + 1 == t.children.length) :=
  rfl

lemma isLast_cons (hs : t.children[i]? = some s) (j : Nat) (way : List Nat) :
    isLast t (i :: j :: way) = isLast s (j :: way) := by
  rw [isLast, isLast, List.getLast?_cons_cons, List.dropLast_cons_cons, Tree.descend_cons hs]

lemma guide_singleton (t : Node) (i : Nat) :
    guide t [i] = connector (i + 1 == t.children.length) ++ " " := by
  rw [guide, isLast_singleton]
  cases i + 1 == t.children.length <;> rfl

/-- A step before the last one puts its two characters in front. -/
lemma guide_cons (hs : t.children[i]? = some s) (hne : way ≠ []) :
    guide t (i :: way) = continuation (i + 1 == t.children.length) ++ guide s way := by
  obtain ⟨j, rest, rfl⟩ := List.exists_cons_of_ne_nil hne
  have hbelow : ∀ p ∈ (j :: rest).dropLast.inits.tail, isLast t (i :: p) = isLast s p := by
    intro p hp
    cases hw : (j :: rest).dropLast with
    | nil => simp [hw] at hp
    | cons k w =>
      rw [hw, List.inits_cons, List.tail_cons] at hp
      obtain ⟨q, -, rfl⟩ := List.mem_map.1 hp
      exact isLast_cons hs k q
  have hways : (i :: j :: rest).dropLast.inits.tail =
      [i] :: (j :: rest).dropLast.inits.tail.map (i :: ·) := by
    rw [List.dropLast_cons_cons, List.inits_cons, List.tail_cons]
    cases (j :: rest).dropLast <;> simp
  have hfirst : (if isLast t [i] then "  " else "│ ") =
      continuation (i + 1 == t.children.length) := by rw [isLast_singleton, continuation]
  rw [guide, hways, List.map_cons, String.join_cons, hfirst, List.map_map, isLast_cons hs, guide,
    String.append_assoc]
  congr 3
  exact List.map_congr_left fun p hp => by rw [Function.comp_apply, hbelow p hp]

/-! ### The lines -/

/-- The label of a node as it is shown. -/
def shown (width : Nat) (u : Node) : String :=
  String.ofList (cut width (caption u.label u.children.length))

/-- The line of the node that a way leads to, up to its line feed. -/
def row (width : Nat) (t : Node) (p : List Nat × Node) : String :=
  guide t p.1 ++ icon p.2.label.kind ++ " " ++ shown width p.2

lemma guide_append_entry (width : Nat) (t : Node) (way : List Nat) (c : Content)
    (us : List Node) :
    guide t way ++ entry width c us.length = row width t (way, .node c us) ++ "\n" := by
  simp only [entry, row, shown, String.append_assoc]
  rfl

mutual

/-- The lines of a child, with the way to it in front of the ways from there on. -/
lemma branch_eq (width : Nat) : ∀ (u : Node) {t : Node} {i : Nat} (lead : String),
    t.children[i]? = some u → branch width lead (i + 1 == t.children.length) u =
      String.join (((u.ways.map (i :: ·)).zip u.preorder).map fun p =>
        lead ++ (row width t p ++ "\n"))
  | .node c us, t, i, lead, hu => by
    have hus : (Tree.node c us).children.drop 0 = us := rfl
    rw [branch, branches_eq width _ hus, Tree.ways, Tree.preorder_node, List.map_cons,
      List.zip_cons_cons, List.map_cons, String.join_cons, ← guide_append_entry, guide_singleton,
      List.zip_map_left, List.map_map]
    congr 1
    · simp only [String.append_assoc]
    · congr 1
      refine List.map_congr_left fun p hp => ?_
      have hne : p.1 ≠ [] := by
        obtain ⟨j, v, rest, -, -, heq⟩ := Tree.mem_waysAll.1 (List.of_mem_zip hp).1
        rw [heq]
        exact List.cons_ne_nil _ _
      simp only [Function.comp_apply, Prod.map, row, guide_cons hu hne, String.append_assoc, id]

/-- The lines of the children from an index on. -/
lemma branches_eq (width : Nat) {t : Node} : ∀ {i : Nat} {ts : List Node} (lead : String),
    t.children.drop i = ts → branches width lead ts =
      String.join (((Tree.waysAll i ts).zip (Tree.preorderOf ts)).map fun p =>
        lead ++ (row width t p ++ "\n"))
  | i, [], lead, _ => by
    rw [branches, Tree.waysAll]
    rfl
  | i, u :: us, lead, h => by
    obtain ⟨hu, hus⟩ := Tree.getElem?_of_drop h
    have hempty : us.isEmpty = (i + 1 == t.children.length) := by
      obtain ⟨hlt, -⟩ := List.getElem?_eq_some_iff.1 hu
      rw [← hus, Bool.eq_iff_iff, List.isEmpty_iff, List.drop_eq_nil_iff, beq_iff_eq]
      omega
    have hlength : (u.ways.map (i :: ·)).length = u.preorder.length := by
      rw [List.length_map, Tree.length_ways]
    rw [branches, hempty, branch_eq width u lead hu, branches_eq width lead hus, Tree.waysAll,
      Tree.preorderOf_cons, List.zip_append hlength, List.map_append, String.join_append]

end

/-- The drawing of a tree has the rows of its nodes as lines. -/
lemma render_eq (t : Node) (width : Nat) : render t width =
    String.join (((t.ways.zip t.preorder).map (row width t)).map (· ++ "\n")) := by
  cases t with
  | node c ts =>
    have hts : (Tree.node c ts).children.drop 0 = ts := rfl
    rw [render, Tree.ways, Tree.preorder_node, List.zip_cons_cons, List.map_cons, List.map_cons,
      String.join_cons, ← guide_append_entry, List.map_map, Tree.children_node,
      branches_eq width "" hts]
    simp only [guide, String.empty_append]
    rfl

/-! ### Within a line -/

/-- What a line may have in front of its icon. -/
def strokes : List Char := [' ', '│', '├', '└', '─']

lemma mem_strokes_of_mem_guide : ∀ a ∈ (guide t way).toList, a ∈ strokes := by
  have hinner : ∀ b : Bool, (if b then "  " else "│ ").toList ⊆ strokes := by decide
  have hlast : ∀ b : Bool, (if b then "└─ " else "├─ ").toList ⊆ strokes := by decide
  cases way with
  | nil => exact nofun
  | cons i way =>
    intro a ha
    rw [guide, String.toList_append, List.mem_append, String.toList_join, List.flatMap_map,
      List.mem_flatMap] at ha
    rcases ha with ⟨p, -, ha⟩ | ha
    · exact hinner _ ha
    · exact hlast _ ha

/-- How much stands in front of an icon tells the level of its node. -/
lemma length_guide (t : Node) (i : Nat) (way : List Nat) :
    (guide t (i :: way)).toList.length = 2 * way.length + 3 := by
  have hinner : ∀ b : Bool, (if b then "  " else "│ ").toList.length = 2 := by decide
  have hlast : ∀ b : Bool, (if b then "└─ " else "├─ ").toList.length = 3 := by decide
  have hjoin : ∀ ps : List (List Nat),
      (String.join (ps.map fun p => if isLast t p then "  " else "│ ")).toList.length =
        2 * ps.length := by
    intro ps
    induction ps with
    | nil => rfl
    | cons p ps ih =>
      rw [List.map_cons, String.join_cons, String.toList_append, List.length_append, hinner, ih,
        List.length_cons]
      omega
  have hways : (i :: way).dropLast.inits.tail.length = way.length := by simp
  rw [guide, String.toList_append, List.length_append, hjoin, hlast, hways]

lemma length_eq_of_guide_eq {other : List Nat} (h : guide t way = guide s other) :
    way.length = other.length := by
  have hnil : ∀ u : Node, (guide u []).toList.length = 0 := fun _ => rfl
  have hlength := congrArg (fun text => text.toList.length) h
  cases way <;> cases other <;>
    simp only [length_guide, hnil, List.length_cons, List.length_nil] at hlength ⊢ <;> omega

/-- An icon begins with a character that stands in front of no icon. -/
lemma exists_icon (k : Kind) : ∃ a as, (icon k).toList = a :: as ∧ a ∉ strokes := by
  cases k <;> exact ⟨_, _, rfl, by decide⟩

/-- Icons are told apart by their first characters. -/
lemma icon_head_inj : ∀ {k l : Kind}, (icon k).toList.head? = (icon l).toList.head? → k = l := by
  intro k l
  cases k <;> cases l <;> decide

/-- A line tells the level and the kind of its node. -/
lemma row_inj {other : Nat} {p q : List Nat × Node} (h : row width t p = row other s q) :
    p.1.length = q.1.length ∧ p.2.label.kind = q.2.label.kind := by
  have htext : ∀ {w : Nat} {u : Node} {r : List Nat × Node}, (row w u r).toList =
      (guide u r.1).toList ++ ((icon r.2.label.kind).toList ++ ' ' :: (shown w r.2).toList) := by
    simp [row]
  obtain ⟨a, as, ha, hastrokes⟩ := exists_icon p.2.label.kind
  obtain ⟨b, bs, hb, hbstrokes⟩ := exists_icon q.2.label.kind
  have hlists := congrArg String.toList h
  rw [htext, htext, ha, hb, List.cons_append, List.cons_append] at hlists
  obtain ⟨hguides, rfl, -⟩ := append_cons_inj_of_class (p := (· ∈ strokes))
    mem_strokes_of_mem_guide mem_strokes_of_mem_guide hastrokes hbstrokes hlists
  refine ⟨length_eq_of_guide_eq (String.toList_inj.1 hguides), icon_head_inj ?_⟩
  rw [ha, hb, List.head?_cons, List.head?_cons]

/-! ### Labels -/

lemma length_shown_le (width : Nat) (u : Node) : (shown width u).length ≤ width + 1 := by
  rw [shown, String.length_ofList, cut]
  split
  · rw [List.length_append, List.length_take, List.length_singleton]
    omega
  · omega

lemma feed_notMem_caption (c : Content) (n : Nat) : '\n' ∉ caption c n := by
  have hcount : ∀ text : String, '\n' ∉ text.toList → '\n' ∉ (toString n ++ text).toList := by
    intro text htext
    rw [String.toList_append, List.mem_append, not_or]
    exact ⟨fun h => absurd (isDigit_of_mem_toString h) (by decide), htext⟩
  unfold caption
  split
  · exact hcount _ (by decide)
  · exact hcount _ (by decide)
  · decide
  · rw [List.mem_map]
    rintro ⟨a, -, ha⟩
    split at ha
    · cases ha
    · rename_i hne
      exact hne ha

lemma feed_notMem_shown (width : Nat) (u : Node) : '\n' ∉ (shown width u).toList := by
  have hcaption := feed_notMem_caption u.label u.children.length
  rw [shown, String.toList_ofList, cut]
  split
  · rw [List.mem_append, not_or]
    exact ⟨fun h => hcaption (List.mem_of_mem_take h), by decide⟩
  · exact hcaption

lemma feed_notMem_row (width : Nat) (t : Node) (p : List Nat × Node) :
    '\n' ∉ (row width t p).toList := by
  simp only [row, String.toList_append, List.mem_append]
  rintro (((h | h) | h) | h)
  · exact absurd (mem_strokes_of_mem_guide _ h) (by decide)
  · revert h
    cases p.2.label.kind <;> decide
  · revert h
    decide
  · exact feed_notMem_shown width p.2 h

/-! ### The theorem -/

/-- The drawings of two trees, at whichever widths, are the same only if the trees have the same
kinds in the same places. -/
lemma map_kind_eq_of_render_eq {u : Node} {other : Nat} (h : render t width = render u other) :
    t.map (·.kind) = u.map (·.kind) := by
  rw [render_eq, render_eq] at h
  have hlevels : (t.ways.zip t.preorder).map (fun p => (p.1.length, p.2.label.kind)) =
      (u.ways.zip u.preorder).map fun p => (p.1.length, p.2.label.kind) :=
    map_eq_of_join_lines_eq (feed_notMem_row width t) (feed_notMem_row other u)
      (fun p q hpq => Prod.ext_iff.2 (row_inj hpq)) h
  refine Tree.rows_injective 0 ?_
  rw [Tree.rows_map, Tree.rows_map, Tree.rows_eq_zip, Tree.rows_eq_zip, List.map_map, List.map_map]
  exact hlevels

/-- The drawing of a tree has one line for each node in reading order, in which nothing but the end
is a line feed.  Nothing stands in front of the icon of the topmost node.  In front of any other
icon there are two characters for each node in between, blanks if it is a last child and a stroke
with a blank otherwise, and then the connector of the node itself.  Behind the icon there are at
most `width + 1` characters of a label.  Trees with the same drawing, also at different widths, have
the same kinds in the same places. -/
theorem drawing_has_line_per_node (t : Node) (width : Nat) :
    render t width = String.join ((t.ways.zip t.preorder).map fun (way, u) =>
      guide t way ++ icon u.label.kind ++ " " ++ shown width u ++ "\n") ∧
    t.ways.map t.descend = t.preorder.map .ok ∧
    guide t [] = "" ∧
    (∀ before i s, t.descend before = .ok s →
      guide t (before ++ [i]) =
        String.join (before.inits.tail.map fun p => if isLast t p then "  " else "│ ") ++
          (if isLast t (before ++ [i]) then "└─ " else "├─ ") ∧
      (isLast t (before ++ [i]) = true ↔ i + 1 = s.children.length)) ∧
    (∀ u, (shown width u).length ≤ width + 1) ∧
    (∀ way (u : Node),
      '\n' ∉ (guide t way ++ icon u.label.kind ++ " " ++ shown width u).toList) ∧
    ∀ (u : Node) (other : Nat), render t width = render u other →
      t.map (·.kind) = u.map (·.kind) := by
  refine ⟨?_, t.map_descend_ways, rfl, ?_, length_shown_le width, ?_,
    fun u other => map_kind_eq_of_render_eq⟩
  · rw [render_eq, List.map_map]
    rfl
  · intro before i s hs
    exact ⟨guide_concat t before i, by rw [isLast_concat hs, beq_iff_eq]⟩
  · exact fun way u => feed_notMem_row width t (way, u)

/-- Labels that are cut may be drawn like labels that are not, but the kinds are the same. -/
theorem drawing_has_line_per_node_cut :
    ∃ t u : Node, t ≠ u ∧
      render t 1 = "⧉ G…\n├─ ≔ a…\n│ └─ ◦ c…\n└─ ※ d\n" ∧ render t 1 = render u 2 ∧
      t.map (·.kind) = u.map (·.kind) := by
  obtain ⟨t, u, hne, htext, heq⟩ : ∃ t u : Node, t ≠ u ∧
      render t 1 = "⧉ G…\n├─ ≔ a…\n│ └─ ◦ c…\n└─ ※ d\n" ∧ render t 1 = render u 2 :=
    ⟨.node (.grammar "Gx" "") [.node (.rule "ab") [Tree.leaf (.identifier "cd")],
        Tree.leaf (.comment "d")],
      .node (.grammar "G…" "") [.node (.rule "a…") [Tree.leaf (.identifier "c…")],
        Tree.leaf (.comment "d")],
      by decide, by decide +kernel, by decide +kernel⟩
  obtain ⟨-, -, -, -, -, -, hkinds⟩ := drawing_has_line_per_node t 1
  exact ⟨t, u, hne, htext, heq, hkinds u 2 heq⟩

end Drawing

end GrammarTree
