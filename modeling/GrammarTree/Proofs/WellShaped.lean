/-
# Well-shaped trees

Which trees are the trees of grammars, comments aside.  The conditions speak of a node and its
children only:

* the root has rules below it, and rules stand nowhere else;
* a rule has below it its name and one expression;
* a sequence has two or more parts, none of which is a sequence or a choice;
* a choice has two or more parts, none of which is a choice;
* an exception has two parts, of which only the first can be an exception again;
* a group, an option and a repetition have one part;
* names and quoted texts have no parts, and they can be written down.

The last condition is about a tree as a whole: it limits the number of enclosures and exceptions
that have to be open at a time when the tree is read (`Node.need`).

Such a tree is built from a phrase that has the words of the tree (`WellShaped.exists_phrase`).
-/
import GrammarTree.Proofs.Spelling
import GrammarTree.Proofs.TreeWords

namespace GrammarTree

open Parse

/-! ### The conditions -/

/-- A name, a quoted text or an enclosure. -/
def Kind.isOperand : Kind → Bool
  | identifier | terminal | group | optional | repetition => true
  | _ => false

/-- Whether a text lacks one of the two quotes. -/
def Quotable (v : String) : Prop := Quote.double.char ∉ v.toList ∨ Quote.single.char ∉ v.toList

/-- What the children of a node of an expression have to be like. -/
def Content.Takes : Content → List Node → Prop
  | .identifier v, [] => IsName v.toList
  | .terminal v, [] => Quotable v
  | .sequence, ts =>
    2 ≤ ts.length ∧ ∀ t ∈ ts, t.label.kind ≠ .sequence ∧ t.label.kind ≠ .choice
  | .choice, ts => 2 ≤ ts.length ∧ ∀ t ∈ ts, t.label.kind ≠ .choice
  | .exception, [l, r] =>
    (l.label.kind = .exception ∨ l.label.kind.isOperand = true) ∧ r.label.kind.isOperand = true
  | .group, [_] | .optional, [_] | .repetition, [_] => True
  | _, _ => False

/-- A well-shaped expression. -/
inductive IsExpression : Node → Prop
  | node {c : Content} {ts : List Node} :
      c.Takes ts → (∀ t ∈ ts, IsExpression t) → IsExpression (.node c ts)

namespace Node

/-- The number of exceptions that a tree begins with. -/
def chain : Node → Nat
  | .node .exception (l :: _) => chain l + 1
  | _ => 0

mutual

/-- The number of constructs that have to be open at a time when an expression is read. -/
def need : Node → Nat
  | .node .exception [l, r] => max (need l) (chain l + 1 + need r)
  | .node .group ts | .node .optional ts | .node .repetition ts => 1 + needAll ts
  | .node _ ts => needAll ts

/-- The greatest need of some expressions. -/
def needAll : List Node → Nat
  | [] => 0
  | t :: ts => max (need t) (needAll ts)

end

end Node

/-- A well-shaped rule. -/
def IsRuleNode : Node → Prop
  | .node (.rule v) [name, body] =>
    name = Tree.leaf (.identifier v) ∧ IsName v.toList ∧ IsExpression body ∧
      Node.need body ≤ maxNesting
  | _ => False

/-- A well-shaped tree. -/
def WellShaped : Node → Prop
  | .node (.grammar title about) rules =>
    Quotable title ∧ Quotable about ∧ ∀ t ∈ rules, IsRuleNode t
  | _ => False

/-! ### The conditions can be checked -/

instance (v : String) : Decidable (Quotable v) := inferInstanceAs (Decidable (_ ∨ _))

instance : (c : Content) → (ts : List Node) → Decidable (c.Takes ts)
  | .identifier v, [] => inferInstanceAs (Decidable (IsName v.toList))
  | .terminal v, [] => inferInstanceAs (Decidable (Quotable v))
  | .sequence, ts =>
    inferInstanceAs (Decidable (2 ≤ ts.length ∧ ∀ t ∈ ts, _ ≠ Kind.sequence ∧ _ ≠ Kind.choice))
  | .choice, ts => inferInstanceAs (Decidable (2 ≤ ts.length ∧ ∀ t ∈ ts, _ ≠ Kind.choice))
  | .exception, [_, _] => inferInstanceAs (Decidable ((_ ∨ _) ∧ _))
  | .group, [_] | .optional, [_] | .repetition, [_] => isTrue trivial
  | .identifier _, _ :: _ | .terminal _, _ :: _ | .exception, [] | .exception, [_]
  | .exception, _ :: _ :: _ :: _ | .group, [] | .group, _ :: _ :: _ | .optional, []
  | .optional, _ :: _ :: _ | .repetition, [] | .repetition, _ :: _ :: _ | .grammar _ _, _
  | .rule _, _ | .comment _, _ => isFalse id

mutual

/-- Whether an expression is well-shaped. -/
def decIsExpression : (t : Node) → Decidable (IsExpression t)
  | .node c ts =>
    match (inferInstance : Decidable (c.Takes ts)), decAllIsExpression ts with
    | isTrue h, isTrue h' => isTrue (.node h h')
    | isFalse h, _ => isFalse fun | .node h' _ => h h'
    | _, isFalse h => isFalse fun | .node _ h' => h h'

/-- Whether some expressions are well-shaped. -/
def decAllIsExpression : (ts : List Node) → Decidable (∀ t ∈ ts, IsExpression t)
  | [] => isTrue nofun
  | t :: ts =>
    match decIsExpression t, decAllIsExpression ts with
    | isTrue h, isTrue h' => isTrue (List.forall_mem_cons.2 ⟨h, h'⟩)
    | isFalse h, _ => isFalse fun h' => h (List.forall_mem_cons.1 h').1
    | _, isFalse h => isFalse fun h' => h (List.forall_mem_cons.1 h').2

end

instance : DecidablePred IsExpression := decIsExpression

instance : DecidablePred IsRuleNode
  | .node (.rule _) [_, _] => inferInstanceAs (Decidable (_ ∧ _ ∧ _ ∧ _))
  | .node (.rule _) [] | .node (.rule _) [_] | .node (.rule _) (_ :: _ :: _ :: _)
  | .node (.grammar _ _) _ | .node (.identifier _) _ | .node (.terminal _) _
  | .node (.comment _) _ | .node .sequence _ | .node .choice _ | .node .optional _
  | .node .repetition _ | .node .group _ | .node .exception _ => isFalse id

instance : DecidablePred WellShaped
  | .node (.grammar _ _) rules =>
    inferInstanceAs (Decidable (_ ∧ _ ∧ ∀ t ∈ rules, IsRuleNode t))
  | .node (.rule _) _ | .node (.identifier _) _ | .node (.terminal _) _ | .node (.comment _) _
  | .node .sequence _ | .node .choice _ | .node .optional _ | .node .repetition _ | .node .group _
  | .node .exception _ => isFalse id

/-! ### Induction on the kinds of expressions -/

/-- What holds of an expression if it holds of its parts, told by the kinds of expressions. -/
@[elab_as_elim]
lemma IsExpression.byKind {P : Node → Prop}
    (identifier : ∀ v : String, IsName v.toList → P (Tree.leaf (.identifier v)))
    (terminal : ∀ v : String, Quotable v → P (Tree.leaf (.terminal v)))
    (sequence : ∀ ts : List Node, 2 ≤ ts.length →
      (∀ t ∈ ts, t.label.kind ≠ .sequence ∧ t.label.kind ≠ .choice) → (∀ t ∈ ts, P t) →
      P (.node .sequence ts))
    (choice : ∀ ts : List Node, 2 ≤ ts.length → (∀ t ∈ ts, t.label.kind ≠ .choice) →
      (∀ t ∈ ts, P t) → P (.node .choice ts))
    (exception : ∀ l r : Node, l.label.kind = .exception ∨ l.label.kind.isOperand = true →
      r.label.kind.isOperand = true → P l → P r → P (.node .exception [l, r]))
    (enclosure : ∀ (b : Enclosure) (t : Node), P t → P (.node b.content [t]))
    {t : Node} (h : IsExpression t) : P t := by
  induction h with
  | @node c ts htakes _ ih =>
    unfold Content.Takes at htakes
    split at htakes
    · exact identifier _ htakes
    · exact terminal _ htakes
    · exact sequence _ htakes.1 htakes.2 ih
    · exact choice _ htakes.1 htakes.2 ih
    · exact exception _ _ htakes.1 htakes.2 (ih _ (by simp)) (ih _ (by simp))
    · exact enclosure .group _ (ih _ (by simp))
    · exact enclosure .optional _ (ih _ (by simp))
    · exact enclosure .repetition _ (ih _ (by simp))
    · cases htakes

/-! ### Phrases for expressions -/

/-- The comma that is written between the parts of a sequence. -/
def commaSep : List Word := [.symbol .comma]

/-- Whether a phrase has the words and the need of a tree. -/
structure Tells {x : Nonterminal} (p : Phrase x) (t : Node) : Prop where
  words : p.words = Node.words commaSep t
  need : p.need = Node.need t

/-- For a tree there are phrases of all nonterminals that its kind allows. -/
structure Told (t : Node) : Prop where
  factor : t.label.kind.isOperand = true → ∃ f : Phrase .factor, f.build = t ∧ Tells f t
  term : t.label.kind ≠ .sequence → t.label.kind ≠ .choice →
    ∃ p : Phrase (.term (Node.chain t)), p.build = t ∧ Tells p t
  sequence : t.label.kind ≠ .choice →
    ∃ q : Phrase .sequence, joinTerms q.build.1 q.build.2 = [t] ∧ Tells q t
  expression : ∃ e : Phrase .expression, joinAlternatives (e.build []) = [t] ∧ Tells e t

/-- A sequence is an expression. -/
lemma told_expression {t : Node}
    (h : ∃ q : Phrase .sequence, joinTerms q.build.1 q.build.2 = [t] ∧ Tells q t) :
    ∃ e : Phrase .expression, joinAlternatives (e.build []) = [t] ∧ Tells e t := by
  obtain ⟨q, hq, htells⟩ := h
  exact ⟨.single q, hq, htells.words, htells.need⟩

/-- A term is a sequence. -/
lemma told_sequence {t : Node} {i : Nat} (h : ∃ p : Phrase (.term i), p.build = t ∧ Tells p t) :
    ∃ q : Phrase .sequence, joinTerms q.build.1 q.build.2 = [t] ∧ Tells q t := by
  obtain ⟨p, hp, htells⟩ := h
  refine ⟨.last p [], ?_, ?_, htells.need⟩
  · simp [Phrase.build, joinTerms, hp]
  · simp [Phrase.words, htells.words]

lemma told_of_factor {t : Node} (hchain : Node.chain t = 0)
    (h : ∃ f : Phrase .factor, f.build = t ∧ Tells f t) : Told t := by
  obtain ⟨f, hf, htells⟩ := h
  have hterm : ∃ p : Phrase (.term (Node.chain t)), p.build = t ∧ Tells p t := by
    rw [hchain]
    exact ⟨.factor f, hf, htells.words, htells.need⟩
  exact ⟨fun _ => ⟨f, hf, htells⟩, fun _ _ => hterm, fun _ => told_sequence hterm,
    told_expression (told_sequence hterm)⟩

lemma told_identifier (v : String) : Told (Tree.leaf (.identifier v)) :=
  told_of_factor rfl ⟨.name v, rfl, rfl, rfl⟩

lemma told_terminal (v : String) : Told (Tree.leaf (.terminal v)) :=
  told_of_factor rfl ⟨.quoted v, rfl, rfl, rfl⟩

lemma told_enclosure (b : Enclosure) {t : Node} (h : Told t) : Told (.node b.content [t]) := by
  obtain ⟨e, he, htells⟩ := h.expression
  refine told_of_factor (by cases b <;> rfl) ⟨.enclosed b [] e, ?_, ?_, ?_⟩
  · simp [Phrase.build, he]
  · rw [Node.words_enclosure, ← htells.words]
    simp [Phrase.words]
  · have hneed : Node.need (.node b.content [t]) = 1 + max (Node.need t) 0 := by
      cases b <;> rfl
    rw [hneed, Phrase.need, htells.need, Nat.max_zero]

lemma told_exception {l r : Node} (hl : l.label.kind = .exception ∨ l.label.kind.isOperand = true)
    (hr : r.label.kind.isOperand = true) (ihl : Told l) (ihr : Told r) :
    Told (.node .exception [l, r]) := by
  have hseq : l.label.kind ≠ .sequence := by
    intro h
    rw [h] at hl
    rcases hl with hl | hl <;> cases hl
  have hchoice : l.label.kind ≠ .choice := by
    intro h
    rw [h] at hl
    rcases hl with hl | hl <;> cases hl
  obtain ⟨p, hp, hptells⟩ := ihl.term hseq hchoice
  obtain ⟨f, hf, hftells⟩ := ihr.factor hr
  have hterm : ∃ q : Phrase (.term (Node.chain (.node .exception [l, r]))),
      q.build = .node .exception [l, r] ∧ Tells q (.node .exception [l, r]) := by
    refine ⟨.except p [] [] f, ?_, ?_, ?_⟩
    · simp [Phrase.build, hp, hf]
    · rw [Node.words_node]
      simp [Phrase.words, Content.assemble, hptells.words, hftells.words]
    · show max p.need (Node.chain l + 1 + f.need) = _
      rw [hptells.need, hftells.need, Node.need]
  exact ⟨by rintro ⟨⟩, fun _ _ => hterm, fun _ => told_sequence hterm,
    told_expression (told_sequence hterm)⟩

/-- Terms are written one after the other with commas between them. -/
lemma exists_sequence {ts : List Node} (hne : ts ≠ [])
    (h : ∀ t ∈ ts, ∃ p : Phrase (.term (Node.chain t)), p.build = t ∧ Tells p t) :
    ∃ q : Phrase .sequence, q.build = (ts.length, ts) ∧
      q.words = commaSep.intercalate (ts.map (Node.words commaSep)) ∧
      q.need = Node.needAll ts := by
  induction ts with
  | nil => exact absurd rfl hne
  | cons t ts ih =>
    obtain ⟨p, hp, htells⟩ := h t (by simp)
    cases ts with
    | nil =>
      refine ⟨.last p [], ?_, ?_, ?_⟩
      · simp [Phrase.build, hp]
      · simp [Phrase.words, htells.words]
      · simp [Phrase.need, Node.needAll, htells.need]
    | cons u us =>
      obtain ⟨q, hq, hwords, hneed⟩ := ih (by simp) fun v hv => h v (List.mem_cons_of_mem t hv)
      refine ⟨.comma p [] [] q, ?_, ?_, ?_⟩
      · simp [Phrase.build, hp, hq]
      · simp [Phrase.words, htells.words, hwords, commaSep]
      · rw [Phrase.need, htells.need, hneed]
        rfl

/-- Sequences are written one after the other with bars between them. -/
lemma exists_expression {ts : List Node} (hne : ts ≠ [])
    (h : ∀ t ∈ ts, ∃ q : Phrase .sequence, joinTerms q.build.1 q.build.2 = [t] ∧ Tells q t) :
    ∃ e : Phrase .expression, e.build [] = ts.map ([·]) ∧
      e.words = [.symbol .pipe].intercalate (ts.map (Node.words commaSep)) ∧
      e.need = Node.needAll ts := by
  induction ts with
  | nil => exact absurd rfl hne
  | cons t ts ih =>
    obtain ⟨q, hq, htells⟩ := h t (by simp)
    cases ts with
    | nil =>
      refine ⟨.single q, ?_, ?_, ?_⟩
      · simp [Phrase.build, hq]
      · simp [Phrase.words, htells.words]
      · simp [Phrase.need, Node.needAll, htells.need]
    | cons u us =>
      obtain ⟨e, he, hwords, hneed⟩ := ih (by simp) fun v hv => h v (List.mem_cons_of_mem t hv)
      refine ⟨.choice q [] e, ?_, ?_, ?_⟩
      · simp [Phrase.build, hq, he]
      · simp [Phrase.words, htells.words, hwords]
      · rw [Phrase.need, htells.need, hneed]
        rfl

lemma told_sequenceNode {ts : List Node} (hlength : 2 ≤ ts.length)
    (hkind : ∀ t ∈ ts, t.label.kind ≠ .sequence ∧ t.label.kind ≠ .choice)
    (ih : ∀ t ∈ ts, Told t) : Told (.node .sequence ts) := by
  have hne : ts ≠ [] := by
    rintro rfl
    cases hlength
  obtain ⟨q, hq, hwords, hneed⟩ :=
    exists_sequence hne fun t ht => (ih t ht).term (hkind t ht).1 (hkind t ht).2
  have hsequence : ∃ q : Phrase .sequence,
      joinTerms q.build.1 q.build.2 = [.node .sequence ts] ∧ Tells q (.node .sequence ts) := by
    refine ⟨q, ?_, ?_, hneed⟩
    · rw [hq, joinTerms, if_neg]
      show ts.length ≠ 1
      omega
    · rw [hwords, Node.words_node, Content.assemble]
  exact ⟨by rintro ⟨⟩, fun h => absurd rfl h, fun _ => hsequence, told_expression hsequence⟩

lemma told_choiceNode {ts : List Node} (hlength : 2 ≤ ts.length)
    (hkind : ∀ t ∈ ts, t.label.kind ≠ .choice) (ih : ∀ t ∈ ts, Told t) :
    Told (.node .choice ts) := by
  obtain ⟨t, u, us, rfl⟩ : ∃ t u us, ts = t :: u :: us := by
    obtain ⟨t, ts, rfl⟩ := List.exists_cons_of_length_pos (Nat.lt_of_succ_lt hlength)
    obtain ⟨u, us, rfl⟩ := List.exists_cons_of_length_pos (Nat.lt_of_succ_lt_succ hlength)
    exact ⟨t, u, us, rfl⟩
  have hne : t :: u :: us ≠ [] := by simp
  obtain ⟨e, he, hwords, hneed⟩ :=
    exists_expression hne fun v hv => (ih v hv).sequence (hkind v hv)
  refine ⟨by rintro ⟨⟩, fun _ h => absurd rfl h, fun h => absurd rfl h, e, ?_, ?_, hneed⟩
  · rw [he]
    show [Tree.node Content.choice ((t :: u :: us).map ([·])).flatten] = _
    rw [← List.flatMap_def, List.flatMap_singleton']
  · rw [hwords, Node.words_node, Content.assemble]

/-- For every well-shaped expression there are the phrases that its kind allows. -/
lemma IsExpression.told {t : Node} (h : IsExpression t) : Told t := by
  refine IsExpression.byKind ?_ ?_ ?_ ?_ ?_ ?_ h
  · exact fun v _ => told_identifier v
  · exact fun v _ => told_terminal v
  · exact fun ts => told_sequenceNode
  · exact fun ts => told_choiceNode
  · exact fun l r => told_exception
  · exact fun b t => told_enclosure b

/-! ### Rules and grammars -/

/-- A well-shaped rule has a name and an expression. -/
lemma IsRuleNode.exists_parts {t : Node} (h : IsRuleNode t) :
    ∃ v body, t = .node (.rule v) [Tree.leaf (.identifier v), body] ∧ IsName v.toList ∧
      IsExpression body ∧ Node.need body ≤ maxNesting := by
  unfold IsRuleNode at h
  split at h
  · rename_i v name body
    obtain ⟨rfl, hname, hbody, hneed⟩ := h
    exact ⟨v, body, rfl, hname, hbody, hneed⟩
  · cases h

lemma IsRuleNode.exists_phrase {t : Node} (h : IsRuleNode t) :
    ∃ r : RulePhrase, r.Fits ∧ r.nodes = [t] ∧ r.words = Node.words commaSep t := by
  obtain ⟨v, body, rfl, -, hbody, hneed⟩ := h.exists_parts
  obtain ⟨e, he, htells⟩ := hbody.told.expression
  refine ⟨⟨[], v, [], .equals, [], e, .semicolon, rfl, rfl⟩, ?_, ?_, ?_⟩
  · show e.need ≤ maxNesting
    rwa [htells.need]
  · simp [RulePhrase.nodes, RulePhrase.node, he]
  · rw [Node.words_rule]
    simp [RulePhrase.words, htells.words]

lemma exists_phrases_of_nodes {ts : List Node} (h : ∀ t ∈ ts, IsRuleNode t) :
    ∃ rs : List RulePhrase, (∀ r ∈ rs, r.Fits) ∧ rs.flatMap (·.nodes) = ts ∧
      rs.flatMap (·.words) = (ts.map (Node.words commaSep)).flatten := by
  induction ts with
  | nil => exact ⟨[], by simp, rfl, rfl⟩
  | cons t ts ih =>
    obtain ⟨r, hfit, hnodes, hwords⟩ := (h t (by simp)).exists_phrase
    obtain ⟨rs, hfits, hnodes', hwords'⟩ := ih fun u hu => h u (List.mem_cons_of_mem t hu)
    refine ⟨r :: rs, ?_, by simp [hnodes, hnodes'], by simp [hwords, hwords']⟩
    simpa using ⟨hfit, hfits⟩

/-- The words of a whole tree: the title, the rules in a frame and the meta text. -/
def Node.printed : Node → List Word
  | .node (.grammar title about) rules =>
    .quoted title :: .symbol .openBrace :: words commaSep (.node (.grammar title about) rules) ++
      [.symbol .closeBrace, .quoted about]
  | t => words commaSep t

/-- A well-shaped tree has a title, a meta text and rules. -/
lemma WellShaped.exists_parts {t : Node} (h : WellShaped t) :
    ∃ title about rules, t = .node (.grammar title about) rules ∧ Quotable title ∧
      Quotable about ∧ ∀ r ∈ rules, IsRuleNode r := by
  unfold WellShaped at h
  split at h
  · exact ⟨_, _, _, rfl, h⟩
  · cases h

/-- A well-shaped tree is the tree of a phrase with its words. -/
lemma WellShaped.exists_phrase {t : Node} (h : WellShaped t) :
    ∃ g : GrammarPhrase, g.Fits ∧ g.node = t ∧ g.words = Node.printed t ++ [.finish] := by
  obtain ⟨title, about, rules, rfl, -, -, hrules⟩ := h.exists_parts
  obtain ⟨rs, hfits, hnodes, hwords⟩ := exists_phrases_of_nodes hrules
  refine ⟨⟨some ⟨[], title⟩, some ⟨[], [], some ⟨[], about⟩⟩, rs, []⟩, hfits, ?_, ?_⟩
  · simp [GrammarPhrase.node, GrammarPhrase.bodyNodes, GrammarPhrase.titleText,
      GrammarPhrase.aboutText, QuotedPhrase.leadingOf, hnodes]
  · rw [Node.printed, Node.words_grammar, ← hwords]
    simp [GrammarPhrase.words, GrammarPhrase.bodyWords, QuotedPhrase.wordsOf]

/-! ### The words can be written -/

/-- Whether a word can stand in a text. -/
def Word.Printable : Word → Prop
  | name v => IsName v.toList
  | quoted v => Quotable v
  | symbol _ => True
  | _ => False

lemma exists_of_mem_intercalate {α : Type} {sep : List α} {parts : List (List α)} {a : α}
    (h : a ∈ sep.intercalate parts) : a ∈ sep ∨ ∃ p ∈ parts, a ∈ p := by
  induction parts with
  | nil => cases h
  | cons p parts ih =>
    cases parts with
    | nil =>
      rw [List.intercalate_singleton] at h
      exact Or.inr ⟨p, by simp, h⟩
    | cons q parts =>
      rw [List.intercalate_cons_cons, List.append_assoc, List.mem_append, List.mem_append] at h
      rcases h with h | h | h
      · exact Or.inr ⟨p, by simp, h⟩
      · exact Or.inl h
      · rcases ih h with h | ⟨r, hr, h⟩
        · exact Or.inl h
        · exact Or.inr ⟨r, List.mem_cons_of_mem p hr, h⟩

lemma printable_intercalate {y : Symbol} {parts : List (List Word)}
    (h : ∀ p ∈ parts, ∀ w ∈ p, w.Printable) :
    ∀ w ∈ [Word.symbol y].intercalate parts, w.Printable := by
  intro w hw
  rcases exists_of_mem_intercalate hw with hw | ⟨p, hp, hw⟩
  · rw [List.mem_singleton.1 hw]
    trivial
  · exact h p hp w hw

lemma printable_enclosure (b : Enclosure) {t : Node}
    (h : ∀ w ∈ Node.words commaSep t, w.Printable) :
    ∀ w ∈ Node.words commaSep (.node b.content [t]), w.Printable := by
  intro w hw
  rw [Node.words_enclosure] at hw
  simp only [List.cons_append, List.mem_cons, List.mem_append, List.not_mem_nil, or_false] at hw
  rcases hw with rfl | hw | rfl
  · trivial
  · exact h w hw
  · trivial

lemma IsExpression.printable {t : Node} (h : IsExpression t) :
    ∀ w ∈ Node.words commaSep t, w.Printable := by
  refine IsExpression.byKind ?_ ?_ ?_ ?_ ?_ ?_ h
  · intro v hv w hw
    rw [List.mem_singleton.1 hw]
    exact hv
  · intro v hv w hw
    rw [List.mem_singleton.1 hw]
    exact hv
  · intro ts _ _ ih
    rw [Node.words_node]
    exact printable_intercalate (List.forall_mem_map.2 ih)
  · intro ts _ _ ih
    rw [Node.words_node]
    exact printable_intercalate (List.forall_mem_map.2 ih)
  · intro l r _ _ ihl ihr w hw
    rw [Node.words_node] at hw
    rcases List.mem_append.1 hw with hw | hw
    · exact ihl w hw
    · rcases List.mem_cons.1 hw with rfl | hw
      · trivial
      · exact ihr w hw
  · exact fun b t => printable_enclosure b

lemma IsRuleNode.printable {t : Node} (h : IsRuleNode t) :
    ∀ w ∈ Node.words commaSep t, w.Printable := by
  obtain ⟨v, body, rfl, hname, hbody, -⟩ := h.exists_parts
  intro w hw
  rw [Node.words_rule] at hw
  simp only [List.cons_append, List.mem_cons, List.mem_append, List.not_mem_nil, or_false] at hw
  rcases hw with rfl | rfl | hw | rfl
  · exact hname
  · trivial
  · exact hbody.printable w hw
  · trivial

/-- Every word of a well-shaped tree can stand in a text. -/
lemma WellShaped.printable {t : Node} (h : WellShaped t) : ∀ w ∈ Node.printed t, w.Printable := by
  obtain ⟨title, about, rules, rfl, htitle, habout, hrules⟩ := h.exists_parts
  intro w hw
  rw [Node.printed, Node.words_grammar] at hw
  simp only [List.cons_append, List.mem_cons, List.mem_append, List.mem_flatten, List.mem_map,
    List.not_mem_nil, or_false] at hw
  rcases hw with rfl | rfl | ⟨p, ⟨r, hr, rfl⟩, hw⟩ | rfl | rfl
  · exact htitle
  · trivial
  · exact (hrules r hr).printable w hw
  · trivial
  · exact habout

end GrammarTree
