/-
# How many levels a parsed tree has

The parser calls itself for each construct that it finds open, and so do all walks over a tree for
each level.  The number of open constructs is limited by `maxNesting`; the number of levels that
follows from this is not linear in it.

A factor that needs `n + 1` constructs open at a time is at most an enclosure with a choice in it, a
sequence in the choice, and in the sequence a chain of exceptions.  The chain has `n` of them at
most, each of which adds a level, and it begins with a factor that needs `n` constructs.  So the
greatest number of levels satisfies the recurrence `levelLimit_succ`, and it is a square in the
number of constructs.

The limit is reached by a grammar in which everything is as it is said here (`depth_thicketGrammar`).
-/
import GrammarTree.Proofs.Nesting
import GrammarTree.Proofs.RoundTrip
import GrammarTree.Proofs.Walk

namespace GrammarTree

open Parse

/-! ### The limit -/

/-- The greatest number of levels of a factor that needs so many constructs open at a time. -/
def levelLimit (need : Nat) : Nat := overhangLimit need + 2 * need + 1

lemma levelLimit_succ (need : Nat) : levelLimit (need + 1) = levelLimit need + need + 3 := by
  rw [levelLimit, levelLimit, overhangLimit_succ]
  omega

lemma levelLimit_mono {m n : Nat} (h : m ≤ n) : levelLimit m ≤ levelLimit n := by
  have hoverhangs := overhangLimit_mono h
  rw [levelLimit, levelLimit]
  omega

lemma levelLimit_pos (need : Nat) : 0 < levelLimit need := Nat.succ_pos _

/-! ### Nodes -/

section Nodes

variable {n : Nat} {t : Node} {ts : List Node}

lemma depth_leaf (c : Content) : (Tree.leaf c).depth = 1 := by
  have hle : (Tree.leaf c).depth ≤ 1 := Tree.depth_node_le_iff.2 nofun
  exact Nat.le_antisymm hle (Tree.depth_pos _)

lemma depth_commentNodes {ds : List String} (hn : 0 < n) : ∀ t ∈ commentNodes ds, t.depth ≤ n := by
  intro t ht
  obtain ⟨d, -, rfl⟩ := List.mem_map.1 ht
  rw [depth_leaf]
  exact hn

lemma depth_joinTerms (terms : Nat) (h : ∀ t ∈ ts, t.depth ≤ n) :
    ∀ t ∈ joinTerms terms ts, t.depth ≤ n + 1 := by
  unfold joinTerms
  split
  · exact fun t ht => Nat.le_succ_of_le (h t ht)
  · intro t ht
    cases List.mem_singleton.1 ht
    exact Tree.depth_node_le_iff.2 h

lemma depth_joinAlternatives {alts : List (List Node)} (h : ∀ alt ∈ alts, ∀ t ∈ alt, t.depth ≤ n) :
    ∀ t ∈ joinAlternatives alts, t.depth ≤ n + 1 := by
  unfold joinAlternatives
  split
  · intro t ht
    cases ht
  · rename_i items
    exact fun t ht => Nat.le_succ_of_le (h items (by simp) t ht)
  · intro t ht
    cases List.mem_singleton.1 ht
    refine Tree.depth_node_le_iff.2 fun u hu => ?_
    obtain ⟨alt, halt, hu⟩ := List.mem_flatten.1 hu
    exact h alt halt u hu

end Nodes

/-! ### Phrases -/

/-- What is built from a phrase has no more levels than its need allows. -/
def Levelled : {x : Nonterminal} → Phrase x → Prop
  | .factor, f => f.build.depth ≤ levelLimit f.need
  | .term n, t => n ≤ t.need ∧ t.build.depth ≤ n + levelLimit t.need
  | .sequence, q => ∀ t ∈ q.build.2, t.depth ≤ q.need + levelLimit q.need
  | .expression, e => ∀ ds, ∀ alt ∈ e.build (commentNodes ds), ∀ t ∈ alt,
    t.depth ≤ e.need + levelLimit e.need + 1

lemma Levelled.depth_term {i : Nat} {p : Phrase (.term i)} (h : Levelled p) :
    p.build.depth ≤ p.need + levelLimit p.need := by
  have hlength : i ≤ p.need := h.1
  have hdepth : p.build.depth ≤ i + levelLimit p.need := h.2
  omega

/-- A term in front of more terms, with comments between them. -/
lemma levelled_cons {i : Nat} {p : Phrase (.term i)} {q : Phrase .sequence} (hp : Levelled p)
    (hq : Levelled q) (ds : List String) :
    ∀ t ∈ p.build :: (commentNodes ds ++ q.build.2),
      t.depth ≤ max p.need q.need + levelLimit (max p.need q.need) := by
  have hleft := levelLimit_mono (Nat.le_max_left p.need q.need)
  have hright := levelLimit_mono (Nat.le_max_right p.need q.need)
  have hpos := levelLimit_pos (max p.need q.need)
  refine List.forall_mem_cons.2 ⟨?_, List.forall_mem_append.2 ⟨?_, ?_⟩⟩
  · have hterm := hp.depth_term
    omega
  · exact depth_commentNodes (by omega)
  · intro t ht
    have hrest := hq t ht
    omega

/-- The items of an alternative with the comments in front of it. -/
lemma Levelled.alternative {q : Phrase .sequence} (h : Levelled q) (ds : List String) :
    ∀ t ∈ joinTerms q.build.1 (commentNodes ds ++ q.build.2),
      t.depth ≤ q.need + levelLimit q.need + 1 := by
  have hpos := levelLimit_pos q.need
  exact depth_joinTerms _ (List.forall_mem_append.2 ⟨depth_commentNodes (by omega), h⟩)

lemma levelled {x : Nonterminal} (p : Phrase x) : Levelled p := by
  induction p with
  | name t => exact (depth_leaf _).trans_le (levelLimit_pos 0)
  | quoted t => exact (depth_leaf _).trans_le (levelLimit_pos 0)
  | enclosed b ds e ih =>
    show (Tree.node b.content _).depth ≤ levelLimit (1 + e.need)
    rw [Nat.add_comm, levelLimit_succ]
    refine Tree.depth_node_le_iff.2 fun t ht => ?_
    have hbody := depth_joinAlternatives (ih ds) t ht
    omega
  | factor f ih =>
    have hfactor : f.build.depth ≤ levelLimit f.need := ih
    exact ⟨Nat.zero_le _, by rwa [Nat.zero_add]⟩
  | @except i l ds es r ihl ihr =>
    -- the part in front is a chain with one exception less, the part behind is a factor
    obtain ⟨hlength, hleft⟩ := ihl
    have hright : r.build.depth ≤ levelLimit r.need := ihr
    have hmono : levelLimit l.need ≤ levelLimit (max l.need (i + 1 + r.need)) :=
      levelLimit_mono (Nat.le_max_left _ _)
    have hmono' : levelLimit r.need ≤ levelLimit (max l.need (i + 1 + r.need)) :=
      levelLimit_mono (by omega)
    have hpos := levelLimit_pos (max l.need (i + 1 + r.need))
    refine ⟨?_, ?_⟩
    · show i + 1 ≤ max l.need (i + 1 + r.need)
      omega
    · show (Tree.node Content.exception _).depth ≤
        i + 1 + levelLimit (max l.need (i + 1 + r.need))
      rw [Nat.add_right_comm]
      refine Tree.depth_node_le_iff.2 (List.forall_mem_append.2 ⟨List.forall_mem_cons.2
        ⟨?_, depth_commentNodes (by omega)⟩, List.forall_mem_singleton.2 ?_⟩)
      · omega
      · omega
  | last t ds ih =>
    have hpos : 0 < t.need + levelLimit t.need := Nat.add_pos_right _ (levelLimit_pos _)
    exact List.forall_mem_cons.2 ⟨Levelled.depth_term ih, depth_commentNodes hpos⟩
  | comma t ds es r iht ihr => exact levelled_cons iht ihr (ds ++ es)
  | beside t ds r iht ihr => exact levelled_cons iht ihr ds
  | single q ih => exact fun ds => List.forall_mem_singleton.2 (Levelled.alternative ih ds)
  | choice q ds r ihq ihr =>
    intro ds'
    have hleft := levelLimit_mono (Nat.le_max_left q.need r.need)
    have hright := levelLimit_mono (Nat.le_max_right q.need r.need)
    refine List.forall_mem_cons.2 ⟨fun t ht => ?_, fun alt halt t ht => ?_⟩
    · have halternative := Levelled.alternative ihq ds' t ht
      show t.depth ≤ max q.need r.need + levelLimit (max q.need r.need) + 1
      omega
    · have hothers := ihr ds alt halt t ht
      show t.depth ≤ max q.need r.need + levelLimit (max q.need r.need) + 1
      omega

/-! ### Rules and grammars -/

lemma depth_rule {r : RulePhrase} (h : r.Fits) :
    r.node.depth ≤ maxNesting + levelLimit maxNesting + 3 := by
  have hneed : r.body.need ≤ maxNesting := h
  have hmono := levelLimit_mono hneed
  refine Tree.depth_node_le_iff.2 (List.forall_mem_append.2 ⟨List.forall_mem_cons.2
    ⟨?_, depth_commentNodes (by omega)⟩, fun t ht => ?_⟩)
  · rw [depth_leaf]
    omega
  · have hbody := depth_joinAlternatives (levelled r.body []) t ht
    omega

lemma depth_grammar {g : GrammarPhrase} (h : g.Fits) :
    g.node.depth ≤ maxNesting + levelLimit maxNesting + 4 := by
  refine Tree.depth_node_le_iff.2 fun t ht => ?_
  rcases g.cases_of_mem_children ht with ⟨d, rfl⟩ | ⟨r, hr, rfl⟩
  · rw [depth_leaf]
    omega
  · exact depth_rule (h r hr)

/-! ### A grammar with as many levels as there can be -/

/-- An expression from which a name is excluded so many times. -/
def excepted (t : Node) : Nat → Node
  | 0 => t
  | k + 1 => .node .exception [excepted t k, Tree.leaf (.identifier "c")]

/-- A choice of a sequence that begins with an expression. -/
def embedded (t : Node) : Node :=
  .node .choice [.node .sequence [t, Tree.leaf (.identifier "c")], Tree.leaf (.identifier "c")]

/-- A name within groups; in each of them are a choice, a sequence and as many exceptions as the
groups around it leave room for. -/
def thicket : Nat → Node
  | 0 => Tree.leaf (.identifier "b")
  | n + 1 => .node .group [embedded (excepted (thicket n) n)]

/-- The grammar of a rule with such an expression. -/
def thicketGrammar : Node :=
  .node (.grammar "" "") [.node (.rule "a")
    [Tree.leaf (.identifier "a"), embedded (excepted (thicket maxNesting) maxNesting)]]

section Thicket

variable {t : Node} (k n : Nat)

/-- A node of which the first part has the most levels. -/
lemma depth_node_cons {c : Content} {us : List Node} (h : ∀ u ∈ us, u.depth ≤ t.depth) :
    (Tree.node c (t :: us)).depth = t.depth + 1 := by
  refine Nat.le_antisymm ?_ (Tree.depth_lt_of_mem List.mem_cons_self)
  exact Tree.depth_node_le_iff.2 (List.forall_mem_cons.2 ⟨Nat.le_refl _, h⟩)

lemma depth_node_pair (c : Content) (v : String) :
    (Tree.node c [t, Tree.leaf (.identifier v)]).depth = t.depth + 1 := by
  refine depth_node_cons (List.forall_mem_singleton.2 ?_)
  rw [depth_leaf]
  exact t.depth_pos

lemma depth_excepted : (excepted t k).depth = t.depth + k := by
  induction k with
  | zero => rfl
  | succ k ih => rw [excepted, depth_node_pair, ih, Nat.add_assoc]

lemma depth_embedded : (embedded t).depth = t.depth + 2 := by
  rw [embedded, depth_node_pair, depth_node_pair]

lemma depth_thicket : (thicket n).depth = levelLimit n := by
  induction n with
  | zero => exact depth_leaf _
  | succ n ih =>
    rw [thicket, depth_node_cons (List.forall_mem_nil _), depth_embedded, depth_excepted, ih,
      levelLimit_succ]

lemma le_depth_thicketGrammar :
    maxNesting + levelLimit maxNesting + 4 ≤ thicketGrammar.depth := by
  have hbody : (embedded (excepted (thicket maxNesting) maxNesting)).depth =
      levelLimit maxNesting + maxNesting + 2 := by
    rw [depth_embedded, depth_excepted, depth_thicket]
  have hrule : (embedded (excepted (thicket maxNesting) maxNesting)).depth <
      (Tree.node (Content.rule "a") [Tree.leaf (.identifier "a"),
        embedded (excepted (thicket maxNesting) maxNesting)]).depth :=
    Tree.depth_lt_of_mem (by simp)
  have hgrammar : (Tree.node (Content.rule "a") [Tree.leaf (.identifier "a"),
      embedded (excepted (thicket maxNesting) maxNesting)]).depth < thicketGrammar.depth :=
    Tree.depth_lt_of_mem List.mem_cons_self
  omega

lemma chain_excepted : Node.chain (excepted t k) = Node.chain t + k := by
  induction k with
  | zero => rfl
  | succ k ih => rw [excepted, Node.chain, ih, Nat.add_assoc]

lemma need_excepted (h : Node.chain t = 0) : Node.need (excepted t k) = max (Node.need t) k := by
  induction k with
  | zero => exact (Nat.max_zero _).symm
  | succ k ih =>
    have hleaf : Node.need (Tree.leaf (.identifier "c")) = 0 := rfl
    rw [excepted, Node.need, ih, chain_excepted, h, hleaf]
    omega

lemma need_embedded : Node.need (embedded t) = Node.need t := by
  have hleaf : Node.need (Tree.leaf (.identifier "c")) = 0 := rfl
  simp [embedded, Node.need, Node.needAll, hleaf]

lemma chain_thicket : Node.chain (thicket n) = 0 := by
  cases n <;> rfl

lemma need_thicket : Node.need (thicket n) = n := by
  induction n with
  | zero => rfl
  | succ n ih =>
    rw [thicket, Node.need, Node.needAll, Node.needAll, need_embedded,
      need_excepted n (chain_thicket n), ih]
    omega

lemma isOperand_thicket : (thicket n).label.kind.isOperand = true := by
  cases n <;> rfl

lemma kind_excepted (h : t.label.kind.isOperand = true) :
    (excepted t k).label.kind = .exception ∨ (excepted t k).label.kind.isOperand = true := by
  cases k with
  | zero => exact Or.inr h
  | succ k => exact Or.inl rfl

lemma isExpression_pair {c : Content} (h : IsExpression t)
    (htakes : c.Takes [t, Tree.leaf (.identifier "c")]) :
    IsExpression (.node c [t, Tree.leaf (.identifier "c")]) :=
  .node htakes (List.forall_mem_cons.2 ⟨h, List.forall_mem_singleton.2 (by decide)⟩)

lemma isExpression_excepted (h : IsExpression t) (hkind : t.label.kind.isOperand = true) :
    IsExpression (excepted t k) := by
  induction k with
  | zero => exact h
  | succ k ih => exact isExpression_pair ih ⟨kind_excepted k hkind, rfl⟩

lemma isExpression_embedded (h : IsExpression t)
    (hkind : t.label.kind = .exception ∨ t.label.kind.isOperand = true) :
    IsExpression (embedded t) := by
  have hne : t.label.kind ≠ .sequence ∧ t.label.kind ≠ .choice := by
    revert hkind
    cases t.label.kind <;> decide
  have hsequence : IsExpression (.node .sequence [t, Tree.leaf (.identifier "c")]) := by
    refine isExpression_pair h ⟨Nat.le_refl 2, List.forall_mem_cons.2 ⟨hne, ?_⟩⟩
    decide
  refine isExpression_pair hsequence ⟨Nat.le_refl 2, List.forall_mem_cons.2 ⟨?_, ?_⟩⟩
  · exact nofun
  · decide

lemma isExpression_thicket : IsExpression (thicket n) := by
  induction n with
  | zero => exact (by decide : IsExpression (Tree.leaf (.identifier "b")))
  | succ n ih =>
    have hbody := isExpression_embedded (isExpression_excepted n ih (isOperand_thicket n))
      (kind_excepted n (isOperand_thicket n))
    exact .node trivial (List.forall_mem_singleton.2 hbody)

lemma wellShaped_thicketGrammar : WellShaped thicketGrammar := by
  have hneed : Node.need (embedded (excepted (thicket maxNesting) maxNesting)) ≤ maxNesting := by
    rw [need_embedded, need_excepted _ (chain_thicket _), need_thicket, Nat.max_self]
  have hbody := isExpression_embedded
    (isExpression_excepted maxNesting (isExpression_thicket maxNesting)
      (isOperand_thicket maxNesting))
    (kind_excepted maxNesting (isOperand_thicket maxNesting))
  refine ⟨by decide, by decide, List.forall_mem_singleton.2 ⟨rfl, by decide, hbody, hneed⟩⟩

end Thicket

/-- A well-shaped tree can be written down. -/
lemma WellShaped.exists_source {t : Node} (h : WellShaped t) :
    ∃ source, parse source = .ok t := by
  obtain ⟨ls, hls⟩ := exists_spells h.printable
  obtain ⟨g, hfit, rfl, hwords⟩ := h.exists_phrase
  exact ⟨spell ls, parse_spell hfit (by rw [hwords, hls.words]) (hls.spellable h.printable)⟩

/-! ### The theorem -/

/-- A parsed tree has at most as many levels as this polynomial in the limit for open constructs
says. -/
theorem depth_le_of_parse {source : String} {tree : Node} (h : parse source = .ok tree) :
    tree.depth ≤ maxNesting * (maxNesting + 1) / 2 + 3 * maxNesting + 5 ∧
      maxNesting * (maxNesting + 1) / 2 + 3 * maxNesting + 5 = 8645 := by
  obtain ⟨g, hfit, rfl, -⟩ := exists_phrase_of_grammar h
  have hdepth := depth_grammar hfit
  rw [levelLimit, overhangLimit] at hdepth
  refine ⟨?_, by decide⟩
  omega

/-- The bound is the number of levels of a parsed tree. -/
theorem depth_le_of_parse_thicket :
    ∃ source, parse source = .ok thicketGrammar ∧ thicketGrammar.depth ≤ 8645 ∧
      thicketGrammar.depth = 8645 := by
  obtain ⟨source, hparse⟩ := wellShaped_thicketGrammar.exists_source
  obtain ⟨hle, heq⟩ := depth_le_of_parse hparse
  have hge := le_depth_thicketGrammar
  rw [levelLimit, overhangLimit] at hge
  exact ⟨source, hparse, by omega, by omega⟩

end GrammarTree
