/-
# The shape of parsed trees

What the nodes of a parsed tree have below them, comments included.  A comment may stand anywhere
among the children of a node that is no leaf, except that an exception begins and ends with its two
parts and a rule begins with its name.  Apart from the comments, the children of a node are as
`Content.Holds` says; it speaks of the *parts* of a node, the children that are no comments.

Every node that was made for a parsed text is met below the root (`grow_eq` says that there are no
loose ones).
-/
import Mathlib.Control.Monad.Basic
import GrammarTree.Proofs.Parse.Growing
import GrammarTree.Proofs.Parse.Soundness
import GrammarTree.Proofs.WellShaped

namespace GrammarTree

open Parse

/-! ### The conditions -/

/-- The nodes that are no comments. -/
def parts (ts : List Node) : List Node := ts.filter fun t => t.label.kind ≠ .comment

/-- What the children of a node are like. -/
def Content.Holds : Content → List Node → Prop
  | .grammar _ _, ts => ∀ t ∈ ts, t.label.kind = .rule ∨ t.label.kind = .comment
  | .rule name, ts =>
    ∃ rest, ts = Tree.leaf (.identifier name) :: rest ∧ (parts rest).length = 1
  | .sequence, ts =>
    2 ≤ (parts ts).length ∧
      ∀ t ∈ parts ts, t.label.kind ≠ .sequence ∧ t.label.kind ≠ .choice
  | .choice, ts => 2 ≤ (parts ts).length ∧ ∀ t ∈ parts ts, t.label.kind ≠ .choice
  | .exception, ts =>
    ∃ l between r, ts = l :: between ++ [r] ∧ parts ts = [l, r] ∧
      (l.label.kind ≠ .sequence ∧ l.label.kind ≠ .choice) ∧
      r.label.kind ≠ .exception ∧ r.label.kind ≠ .sequence ∧ r.label.kind ≠ .choice
  | .group, ts | .optional, ts | .repetition, ts => (parts ts).length = 1
  | .identifier _, ts | .terminal _, ts | .comment _, ts => ts = []

/-- Some nodes and all below them are in shape, and no rule is among them. -/
def Inner (ts : List Node) : Prop :=
  ∀ t ∈ Tree.preorderOf ts, t.label.Holds t.children ∧ t.label.kind ≠ .rule

variable {ts : List Node} {c : Content}

@[simp] lemma parts_nil : parts [] = [] := rfl

@[simp] lemma parts_append (ts us : List Node) : parts (ts ++ us) = parts ts ++ parts us :=
  List.filter_append ts us

lemma parts_cons {t : Node} (h : t.label.kind ≠ .comment) (ts : List Node) :
    parts (t :: ts) = t :: parts ts :=
  List.filter_cons_of_pos (by simpa using h)

@[simp] lemma parts_commentNodes (ds : List String) : parts (commentNodes ds) = [] := by
  induction ds with
  | nil => rfl
  | cons d ds ih => exact ih

@[simp] lemma inner_nil : Inner [] := by
  simp [Inner]

lemma inner_append {ts us : List Node} : Inner (ts ++ us) ↔ Inner ts ∧ Inner us := by
  simp only [Inner, Tree.preorderOf_append, List.forall_mem_append]

lemma inner_cons {t : Node} : Inner (t :: ts) ↔ Inner [t] ∧ Inner ts := by
  rw [← inner_append, List.singleton_append]

lemma inner_node : Inner [.node c ts] ↔ (c.Holds ts ∧ c.kind ≠ .rule) ∧ Inner ts := by
  have hwalk : Tree.preorderOf [Tree.node c ts] = .node c ts :: Tree.preorderOf ts :=
    Tree.preorder_node c ts
  rw [Inner, hwalk, List.forall_mem_cons]
  rfl

@[simp] lemma inner_commentNodes (ds : List String) : Inner (commentNodes ds) := by
  induction ds with
  | nil => exact inner_nil
  | cons d ds ih => exact inner_cons.2 ⟨inner_node.2 ⟨⟨rfl, nofun⟩, inner_nil⟩, ih⟩

/-! ### Sequences and choices -/

/-- A name, a quoted text, an enclosure or an exception. -/
def IsTermKind (k : Kind) : Prop := k = .exception ∨ k.isOperand = true

lemma IsTermKind.ne {k : Kind} (h : IsTermKind k) :
    k ≠ .comment ∧ k ≠ .sequence ∧ k ≠ .choice := by
  rcases h with rfl | h
  · simp
  · refine ⟨?_, ?_, ?_⟩ <;> (rintro rfl; cases h)

/-- The items of a sequence with `n` terms. -/
structure AreItems (n : Nat) (items : List Node) : Prop where
  inner : Inner items
  count : (parts items).length = n
  terms : ∀ t ∈ parts items, IsTermKind t.label.kind

/-- The nodes of an alternative: one of them is no comment, and this one is no choice. -/
structure IsAlternative (ts : List Node) : Prop where
  inner : Inner ts
  single : ∃ t, parts ts = [t] ∧ t.label.kind ≠ .choice

lemma AreItems.comments {n : Nat} {items : List Node} (h : AreItems n items) (ds : List String) :
    AreItems n (commentNodes ds ++ items) := by
  have hparts : parts (commentNodes ds ++ items) = parts items := by simp
  refine ⟨inner_append.2 ⟨inner_commentNodes ds, h.inner⟩, ?_, ?_⟩
  · rw [hparts, h.count]
  · rw [hparts]
    exact h.terms

/-- A term in front of other items. -/
lemma AreItems.cons {n : Nat} {items : List Node} {t : Node} (h : AreItems n items)
    (ht : Inner [t]) (hkind : IsTermKind t.label.kind) : AreItems (n + 1) (t :: items) := by
  have hparts : parts (t :: items) = t :: parts items := parts_cons hkind.ne.1 items
  refine ⟨inner_cons.2 ⟨ht, h.inner⟩, ?_, ?_⟩
  · rw [hparts, List.length_cons, h.count]
  · rw [hparts]
    exact List.forall_mem_cons.2 ⟨hkind, h.terms⟩

lemma areItems_comments (ds : List String) : AreItems 0 (commentNodes ds) := by
  refine ⟨inner_commentNodes ds, ?_, ?_⟩ <;> simp

/-- A single term is its own alternative, and more of them are put below a sequence. -/
lemma AreItems.isAlternative {n : Nat} {items : List Node} (h : AreItems n items) (hn : 1 ≤ n) :
    IsAlternative (joinTerms n items) := by
  unfold joinTerms
  split
  · rename_i hone
    have hcount := h.count
    rw [hone, List.length_eq_one_iff] at hcount
    obtain ⟨t, ht⟩ := hcount
    refine ⟨h.inner, t, ht, ?_⟩
    exact (h.terms t (by simp [ht])).ne.2.2
  · rename_i hmore
    have htwo : 2 ≤ (parts items).length := by
      rw [h.count]
      omega
    have hholds : Content.sequence.Holds items := by
      refine ⟨htwo, fun t ht => ?_⟩
      exact (h.terms t ht).ne.2
    exact ⟨inner_node.2 ⟨⟨hholds, nofun⟩, h.inner⟩, .node .sequence items, rfl, nofun⟩

/-- Alternatives side by side have a part each. -/
lemma parts_flatten {alts : List (List Node)} (h : ∀ alt ∈ alts, IsAlternative alt) :
    (parts alts.flatten).length = alts.length ∧
      ∀ t ∈ parts alts.flatten, t.label.kind ≠ .choice := by
  induction alts with
  | nil => simp
  | cons alt alts ih =>
    obtain ⟨halt, halts⟩ := List.forall_mem_cons.1 h
    obtain ⟨hlength, hkinds⟩ := ih halts
    obtain ⟨t, ht, hkind⟩ := halt.single
    rw [List.flatten_cons, parts_append, ht]
    refine ⟨?_, ?_⟩
    · rw [List.length_append, hlength, List.length_singleton, List.length_cons]
      omega
    · exact List.forall_mem_cons.2 ⟨hkind, hkinds⟩

lemma inner_flatten {alts : List (List Node)} (h : ∀ alt ∈ alts, IsAlternative alt) :
    Inner alts.flatten := by
  induction alts with
  | nil => exact inner_nil
  | cons alt alts ih =>
    obtain ⟨halt, halts⟩ := List.forall_mem_cons.1 h
    exact inner_append.2 ⟨halt.inner, ih halts⟩

/-- Alternatives are put together to a single part. -/
lemma inner_joinAlternatives {alts : List (List Node)} (hne : alts ≠ [])
    (h : ∀ alt ∈ alts, IsAlternative alt) :
    Inner (joinAlternatives alts) ∧ (parts (joinAlternatives alts)).length = 1 := by
  unfold joinAlternatives
  split
  · exact absurd rfl hne
  · rename_i items
    obtain ⟨hinner, t, ht, -⟩ := h items (by simp)
    exact ⟨hinner, by rw [ht, List.length_singleton]⟩
  · rename_i hmany
    obtain ⟨hlength, hkinds⟩ := parts_flatten h
    have htwo : 2 ≤ alts.length := by
      match alts with
      | [] => exact absurd rfl hne
      | [items] => exact absurd rfl (hmany items)
      | _ :: _ :: _ => simp
    have hholds : Content.choice.Holds alts.flatten := ⟨by rw [hlength]; exact htwo, hkinds⟩
    exact ⟨inner_node.2 ⟨⟨hholds, nofun⟩, inner_flatten h⟩, rfl⟩

/-! ### Phrases -/

/-- What is built from a phrase is in shape. -/
def Shaped : {x : Nonterminal} → Phrase x → Prop
  | .factor, f => Inner [f.build] ∧ f.build.label.kind.isOperand = true
  | .term _, t => Inner [t.build] ∧ IsTermKind t.build.label.kind
  | .sequence, q => AreItems q.build.1 q.build.2 ∧ 1 ≤ q.build.1
  | .expression, e => ∀ ds, e.build (commentNodes ds) ≠ [] ∧
    ∀ alt ∈ e.build (commentNodes ds), IsAlternative alt

lemma Shaped.expression {e : Phrase .expression} (h : Shaped e) (ds : List String) :
    Inner (joinAlternatives (e.build (commentNodes ds))) ∧
      (parts (joinAlternatives (e.build (commentNodes ds)))).length = 1 :=
  inner_joinAlternatives (h ds).1 (h ds).2

lemma Shaped.alternative {q : Phrase .sequence} (h : Shaped q) (ds : List String) :
    IsAlternative (joinTerms q.build.1 (commentNodes ds ++ q.build.2)) :=
  (h.1.comments ds).isAlternative h.2

/-- An exception between two factors or an exception and a factor. -/
lemma shaped_except {i : Nat} {l : Phrase (.term i)} {r : Phrase .factor} (hl : Shaped l)
    (hr : Shaped r) (ds es : List String) : Shaped (.except l ds es r) := by
  obtain ⟨hlinner, hlkind⟩ := hl
  obtain ⟨hrinner, hrkind⟩ := hr
  have hrterm : IsTermKind r.build.label.kind := Or.inr hrkind
  have hrne : r.build.label.kind ≠ .exception := by
    intro heq
    rw [heq] at hrkind
    cases hrkind
  have hparts : parts (l.build :: commentNodes (ds ++ es) ++ [r.build]) = [l.build, r.build] := by
    rw [List.cons_append, parts_cons hlkind.ne.1, parts_append, parts_commentNodes,
      parts_cons hrterm.ne.1]
    rfl
  refine ⟨inner_node.2 ⟨⟨?_, nofun⟩, ?_⟩, Or.inl rfl⟩
  · exact ⟨l.build, commentNodes (ds ++ es), r.build, rfl, hparts, hlkind.ne.2, hrne, hrterm.ne.2⟩
  · rw [List.cons_append, inner_cons, inner_append]
    exact ⟨hlinner, inner_commentNodes _, hrinner⟩

/-- A term in front of more terms, with comments between them. -/
lemma shaped_cons {i : Nat} {t : Phrase (.term i)} {q : Phrase .sequence} (ht : Shaped t)
    (hq : Shaped q) (ds : List String) :
    AreItems (q.build.1 + 1) (t.build :: (commentNodes ds ++ q.build.2)) :=
  (hq.1.comments ds).cons ht.1 ht.2

/-- Every phrase is built in shape. -/
lemma shaped {x : Nonterminal} (p : Phrase x) : Shaped p := by
  induction p with
  | name t => exact ⟨inner_node.2 ⟨⟨rfl, nofun⟩, inner_nil⟩, rfl⟩
  | quoted t => exact ⟨inner_node.2 ⟨⟨rfl, nofun⟩, inner_nil⟩, rfl⟩
  | enclosed b ds e ih =>
    obtain ⟨hinner, hone⟩ := Shaped.expression ih ds
    cases b with
    | group => exact ⟨inner_node.2 ⟨⟨hone, nofun⟩, hinner⟩, rfl⟩
    | optional => exact ⟨inner_node.2 ⟨⟨hone, nofun⟩, hinner⟩, rfl⟩
    | repetition => exact ⟨inner_node.2 ⟨⟨hone, nofun⟩, hinner⟩, rfl⟩
  | factor f ih => exact ⟨ih.1, Or.inr ih.2⟩
  | except l ds es r ihl ihr => exact shaped_except ihl ihr ds es
  | last t ds ih => exact ⟨(areItems_comments ds).cons ih.1 ih.2, Nat.le_refl 1⟩
  | comma t ds es r iht ihr => exact ⟨shaped_cons iht ihr (ds ++ es), Nat.le_add_left 1 _⟩
  | beside t ds r iht ihr => exact ⟨shaped_cons iht ihr ds, Nat.le_add_left 1 _⟩
  | single q ih =>
    intro ds
    refine ⟨List.cons_ne_nil _ _, ?_⟩
    intro alt halt
    cases List.mem_singleton.1 halt
    exact Shaped.alternative ih ds
  | choice q ds r ihq ihr =>
    intro ds'
    refine ⟨List.cons_ne_nil _ _, ?_⟩
    exact List.forall_mem_cons.2 ⟨Shaped.alternative ihq ds', (ihr ds).2⟩

/-! ### Rules and grammars -/

/-- A rule is in shape, and so is all below it. -/
lemma holds_rule (r : RulePhrase) :
    r.node.label.Holds r.node.children ∧ Inner r.node.children := by
  obtain ⟨hinner, hone⟩ := (shaped r.body).expression []
  refine ⟨⟨commentNodes (r.before ++ r.after) ++ joinAlternatives (r.body.build []), rfl, ?_⟩, ?_⟩
  · rw [parts_append, parts_commentNodes, List.nil_append]
    exact hone
  · have hname : Inner [Tree.leaf (.identifier r.name)] :=
      inner_node.2 ⟨⟨rfl, nofun⟩, inner_nil⟩
    exact inner_cons.2 ⟨hname, inner_append.2 ⟨inner_commentNodes _, hinner⟩⟩

/-- A comment or a rule. -/
def IsTopmost (t : Node) : Prop :=
  (∃ d, t = Tree.leaf (.comment d)) ∨ ∃ r : RulePhrase, t = r.node

lemma cases_of_mem_commentNodes {ds : List String} {t : Node} (h : t ∈ commentNodes ds) :
    ∃ d, t = Tree.leaf (.comment d) := by
  obtain ⟨d, -, rfl⟩ := List.mem_map.1 h
  exact ⟨d, rfl⟩

lemma RulePhrase.cases_of_mem_nodes {rs : List RulePhrase} {t : Node}
    (h : t ∈ rs.flatMap (·.nodes)) :
    (∃ d, t = Tree.leaf (.comment d)) ∨ ∃ r ∈ rs, t = r.node := by
  obtain ⟨r, hr, ht⟩ := List.mem_flatMap.1 h
  rcases List.mem_append.1 ht with ht | ht
  · exact Or.inl (cases_of_mem_commentNodes ht)
  · exact Or.inr ⟨r, hr, List.mem_singleton.1 ht⟩

/-- The nodes below the root of a grammar are comments and those of its rules. -/
lemma GrammarPhrase.cases_of_mem_children (g : GrammarPhrase) {t : Node}
    (h : t ∈ g.node.children) :
    (∃ d, t = Tree.leaf (.comment d)) ∨ ∃ r ∈ g.rules, t = r.node := by
  have hbody : ∀ u ∈ g.bodyNodes,
      (∃ d, u = Tree.leaf (.comment d)) ∨ ∃ r ∈ g.rules, u = r.node := by
    intro u hu
    unfold GrammarPhrase.bodyNodes at hu
    split at hu
    · exact RulePhrase.cases_of_mem_nodes hu
    · simp only [List.mem_append] at hu
      rcases hu with ((hu | hu) | hu) | hu
      · exact Or.inl (cases_of_mem_commentNodes hu)
      · exact RulePhrase.cases_of_mem_nodes hu
      · exact Or.inl (cases_of_mem_commentNodes hu)
      · exact Or.inl (cases_of_mem_commentNodes hu)
  rcases List.mem_append.1 h with h | h
  · rcases List.mem_append.1 h with h | h
    · exact Or.inl (cases_of_mem_commentNodes h)
    · exact hbody t h
  · exact Or.inl (cases_of_mem_commentNodes h)

lemma isTopmost_of_mem {g : GrammarPhrase} {t : Node} (h : t ∈ g.node.children) : IsTopmost t := by
  rcases g.cases_of_mem_children h with hcomment | ⟨r, -, ht⟩
  · exact Or.inl hcomment
  · exact Or.inr ⟨r, ht⟩

lemma IsTopmost.holds {t : Node} (h : IsTopmost t) :
    (t.label.kind = .rule ∨ t.label.kind = .comment) ∧ t.label.Holds t.children ∧
      Inner t.children := by
  rcases h with ⟨d, rfl⟩ | ⟨r, rfl⟩
  · exact ⟨Or.inr rfl, rfl, inner_nil⟩
  · exact ⟨Or.inl rfl, holds_rule r⟩

/-- Every node of a grammar is in shape, and below the nodes that hang from the root there are no
rules. -/
lemma holds_grammar (g : GrammarPhrase) :
    (∀ t ∈ g.node.children, ∀ u ∈ Tree.preorderOf t.children, u.label.kind ≠ .rule) ∧
      ∀ t ∈ g.node.preorder, t.label.Holds t.children := by
  refine ⟨?_, ?_⟩
  · intro t ht u hu
    obtain ⟨-, -, hinner⟩ := (isTopmost_of_mem ht).holds
    exact (hinner u hu).2
  · intro t ht
    rw [Tree.preorder_eq_cons, List.mem_cons, Tree.mem_preorderOf] at ht
    rcases ht with rfl | ⟨u, hu, ht⟩
    · exact fun u hu => (isTopmost_of_mem hu).holds.1
    · obtain ⟨-, hholds, hinner⟩ := (isTopmost_of_mem hu).holds
      rw [Tree.preorder_eq_cons, List.mem_cons] at ht
      rcases ht with rfl | ht
      · exact hholds
      · exact (hinner t ht).1

/-! ### The theorem -/

/-- A parsed text grows to a forest with the parsed tree, in which every node is met below the root;
the root is a grammar with rules and comments below it, and rules stand nowhere else; and every node
has below it what its kind asks for. -/
theorem shape_of_parse {source : String} {tree : Node} (h : parse source = .ok tree) :
    (∃ f : Forest, grow source = some (.ok f) ∧ f.tree = tree ∧
      f.size = (f.below Forest.rootId).preorder.length ∧
      ∀ id < f.size, id ∈ (f.below Forest.rootId).preorder.map (·.label)) ∧
    tree.label.kind = .grammar ∧
    (∀ t ∈ tree.children, ∀ u ∈ Tree.preorderOf t.children, u.label.kind ≠ .rule) ∧
    ∀ t ∈ tree.preorder, t.label.Holds t.children := by
  obtain ⟨f, hgrow, htree, hperm⟩ := exists_forest_perm_of_parse h
  obtain ⟨g, -, rfl, -⟩ := exists_phrase_of_grammar h
  refine ⟨⟨f, hgrow, htree, ?_, fun id hid => ?_⟩, rfl, holds_grammar g⟩
  · have hlength := hperm.length_eq
    rw [List.length_map, List.length_range] at hlength
    exact hlength.symm
  · exact hperm.mem_iff.2 (List.mem_range.2 hid)

/-- A rule with comments before an exception of an exception, within it and between two terms. -/
theorem shape_of_commented_rule :
    ∃ tree f, parse "a = (*1*) b - (*2*) c - d | e (*3*) f;" = .ok tree ∧
      grow "a = (*1*) b - (*2*) c - d | e (*3*) f;" = some (.ok f) ∧ f.tree = tree ∧
      f.size = (f.below Forest.rootId).preorder.length ∧
      (∀ t ∈ tree.preorder, t.label.Holds t.children) ∧
      tree.preorder.map (·.label) =
        [.grammar "" Content.defaultMeta, .rule "a", .identifier "a", .comment "1", .choice,
          .exception, .exception, .identifier "b", .comment "2", .identifier "c", .identifier "d",
          .sequence, .identifier "e", .comment "3", .identifier "f"] := by
  have hparse : parse "a = (*1*) b - (*2*) c - d | e (*3*) f;" =
      .ok (.node (.grammar "" Content.defaultMeta) [.node (.rule "a") [
        Tree.leaf (.identifier "a"), Tree.leaf (.comment "1"), .node .choice [
          .node .exception [
            .node .exception [Tree.leaf (.identifier "b"), Tree.leaf (.comment "2"),
              Tree.leaf (.identifier "c")],
            Tree.leaf (.identifier "d")],
          .node .sequence [Tree.leaf (.identifier "e"), Tree.leaf (.comment "3"),
            Tree.leaf (.identifier "f")]]]]) := by decide +kernel
  obtain ⟨⟨f, hgrow, htree, hsize, -⟩, -, -, hholds⟩ := shape_of_parse hparse
  exact ⟨_, f, hparse, hgrow, htree, hsize, hholds, by decide +kernel⟩

end GrammarTree
