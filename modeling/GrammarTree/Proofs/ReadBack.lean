/-
# A parsed tree reads as its source

The tree of a text, written down as words, gives the tokens of the text again.  Only what the
notation leaves to taste is lost: comments and commas, which of the definition symbols and which of
the terminators was written, and the frame.  The title and the meta text are found in the root.

The parts of a text are told apart by `Layout.of`.  It goes by the tokens alone: a leading quoted
text is the title, a brace behind it opens the frame, and the last closing brace closes the frame.
-/
import Mathlib.Control.Monad.Basic
import GrammarTree.Proofs.Parse.Growing
import GrammarTree.Proofs.Parse.Soundness
import GrammarTree.Proofs.TreeWords

namespace GrammarTree

open Parse Node

/-! ### Words in standard notation -/

/-- A word as it is written in standard notation.  Comments and commas are left out. -/
def Word.standard : Word → Option Word
  | comment _ => none
  | symbol .comma => none
  | symbol y =>
    some (symbol (if y.isDefinition then .equals else if y.isTerminator then .semicolon else y))
  | w => some w

/-- Some words in standard notation. -/
def standard (ws : List Word) : List Word := ws.filterMap Word.standard

@[simp] lemma standard_nil : standard [] = [] := rfl

@[simp] lemma standard_append (vs ws : List Word) :
    standard (vs ++ ws) = standard vs ++ standard ws :=
  List.filterMap_append

@[simp] lemma standard_comments (ds : List String) : standard (Word.comments ds) = [] := by
  simp [standard, Word.comments, Word.standard]

@[simp] lemma standard_name (v : String) (ws : List Word) :
    standard (.name v :: ws) = .name v :: standard ws := rfl

@[simp] lemma standard_quoted (v : String) (ws : List Word) :
    standard (.quoted v :: ws) = .quoted v :: standard ws := rfl

@[simp] lemma standard_comma (ws : List Word) : standard (.symbol .comma :: ws) = standard ws := rfl

@[simp] lemma standard_pipe (ws : List Word) :
    standard (.symbol .pipe :: ws) = .symbol .pipe :: standard ws := rfl

@[simp] lemma standard_minus (ws : List Word) :
    standard (.symbol .minus :: ws) = .symbol .minus :: standard ws := rfl

@[simp] lemma standard_opening (b : Enclosure) (ws : List Word) :
    standard (.symbol b.opening :: ws) = .symbol b.opening :: standard ws := by
  cases b <;> rfl

@[simp] lemma standard_closing (b : Enclosure) (ws : List Word) :
    standard (.symbol b.closing :: ws) = .symbol b.closing :: standard ws := by
  cases b <;> rfl

lemma standard_of_isDefinition {y : Symbol} (h : y.isDefinition = true) (ws : List Word) :
    standard (.symbol y :: ws) = .symbol .equals :: standard ws := by
  cases y with
  | equals => rfl
  | colon => rfl
  | colonEquals => rfl
  | _ => cases h

lemma standard_of_isTerminator {y : Symbol} (h : y.isTerminator = true) (ws : List Word) :
    standard (.symbol y :: ws) = .symbol .semicolon :: standard ws := by
  cases y with
  | semicolon => rfl
  | period => rfl
  | _ => cases h

/-! ### Phrases -/

/-- The items of a sequence with `k` terms are, without comments, one node with the words of all
terms. -/
lemma words_joinTerms {k : Nat} {items ns : List Node} (hitems : uncommentedAll items = ns)
    (hk : ns.length = k) :
    ∃ n, uncommentedAll (joinTerms k items) = [n] ∧
      n.words [] = (ns.map (words [])).flatten := by
  unfold joinTerms
  split
  · rename_i hone
    obtain ⟨n, rfl⟩ := List.length_eq_one_iff.1 (hk.trans hone)
    exact ⟨n, hitems, by simp⟩
  · refine ⟨.node .sequence ns, ?_, ?_⟩
    · rw [uncommentedAll_node (c := .sequence) (by simp [Content.kind]), hitems]
      rfl
    · rw [words_node, Content.assemble, intercalate_nil_left]

/-- The items of alternatives are, without comments, one node with the words of all alternatives. -/
lemma words_joinAlternatives {alternatives : List (List Node)} {ns : List Node}
    (h : alternatives.map uncommentedAll = ns.map ([·])) (hne : ns ≠ []) :
    ∃ n, uncommentedAll (joinAlternatives alternatives) = [n] ∧
      n.words [] = [.symbol .pipe].intercalate (ns.map (words [])) := by
  cases alternatives with
  | nil =>
    rw [List.map_nil, eq_comm, List.map_eq_nil_iff] at h
    exact absurd h hne
  | cons a rest =>
    cases rest with
    | nil =>
      obtain ⟨n, rfl⟩ : ∃ n, ns = [n] := by
        rw [← List.length_eq_one_iff]
        simpa using (congrArg List.length h).symm
      refine ⟨n, ?_, by simp⟩
      simpa [joinAlternatives] using h
    | cons b rest =>
      refine ⟨.node .choice ns, ?_, by rw [words_node, Content.assemble]⟩
      have hflat : uncommentedAll (a :: b :: rest).flatten = ns := by
        rw [uncommentedAll_flatten, h, ← List.flatMap_def, List.flatMap_singleton']
      have hjoin : joinAlternatives (a :: b :: rest) =
          [.node .choice (a :: b :: rest).flatten] := rfl
      rw [hjoin, uncommentedAll_node (c := .choice) (by simp [Content.kind]), hflat]
      rfl

/-- What is built from a phrase has, without comments, the words of the phrase in standard
notation. -/
def ReadsBack : {x : Nonterminal} → Phrase x → Prop
  | .factor, f => (f.build : Node).label.kind ≠ .comment ∧
    (uncommented f.build).words [] = standard f.words
  | .term _, t => (t.build : Node).label.kind ≠ .comment ∧
    (uncommented t.build).words [] = standard t.words
  | .sequence, q => ∃ ns : List Node, uncommentedAll q.build.2 = ns ∧ ns.length = q.build.1 ∧
    (ns.map (words [])).flatten = standard q.words
  | .expression, e => ∀ lead : List Node, uncommentedAll lead = [] →
    ∃ ns : List Node, (e.build lead).map uncommentedAll = ns.map ([·]) ∧ ns ≠ [] ∧
      [.symbol .pipe].intercalate (ns.map (words [])) = standard e.words

/-- The nodes of an expression that reads back are, without comments, one node. -/
lemma ReadsBack.exists_node {e : Phrase .expression} (h : ReadsBack e) {lead : List Node}
    (hlead : uncommentedAll lead = []) :
    ∃ n, uncommentedAll (joinAlternatives (e.build lead)) = [n] ∧
      n.words [] = standard e.words := by
  obtain ⟨ns, hns, hne, hwords⟩ := h lead hlead
  obtain ⟨n, hn, hnwords⟩ := words_joinAlternatives hns hne
  exact ⟨n, hn, hnwords.trans hwords⟩

lemma readsBack_enclosed (b : Enclosure) (ds : List String) {e : Phrase .expression}
    (ih : ReadsBack e) : ReadsBack (.enclosed b ds e) := by
  obtain ⟨n, hn, hwords⟩ := ih.exists_node (uncommentedAll_commentNodes ds)
  refine ⟨by cases b <;> rintro ⟨⟩, ?_⟩
  rw [Phrase.build, uncommented, hn, words_enclosure, hwords]
  simp [Phrase.words]

lemma readsBack_except {i : Nat} {l : Phrase (.term i)} (ds es : List String)
    {r : Phrase .factor} (ihl : ReadsBack l) (ihr : ReadsBack r) :
    ReadsBack (.except l ds es r) := by
  obtain ⟨hlkind, hl⟩ := ihl
  obtain ⟨hrkind, hr⟩ := ihr
  refine ⟨by rintro ⟨⟩, ?_⟩
  have hchildren : uncommentedAll (l.build :: commentNodes (ds ++ es) ++ [r.build]) =
      [uncommented l.build, uncommented r.build] := by
    rw [List.cons_append, uncommentedAll_cons hlkind, uncommentedAll_append,
      uncommentedAll_commentNodes, uncommentedAll_cons hrkind]
    rfl
  rw [Phrase.build, uncommented, hchildren, words_node]
  simp [Content.assemble, hl, hr, Phrase.words]

/-- A term in front of more terms, with comments between them. -/
lemma readsBack_cons {i : Nat} {t : Phrase (.term i)} {r : Phrase .sequence} (iht : ReadsBack t)
    (ihr : ReadsBack r) (ds : List String) :
    ∃ ns : List Node, uncommentedAll (t.build :: (commentNodes ds ++ r.build.2)) = ns ∧
      ns.length = r.build.1 + 1 ∧
      (ns.map (words [])).flatten = standard t.words ++ standard r.words := by
  obtain ⟨htkind, ht⟩ := iht
  obtain ⟨ns, hns, hlength, hwords⟩ := ihr
  refine ⟨uncommented t.build :: ns, ?_, by simp [hlength], by simp [ht, hwords]⟩
  rw [uncommentedAll_cons htkind, uncommentedAll_append, uncommentedAll_commentNodes, hns]
  rfl

/-- A sequence as the only or the first alternative. -/
lemma ReadsBack.exists_join {q : Phrase .sequence} (h : ReadsBack q) {lead : List Node}
    (hlead : uncommentedAll lead = []) :
    ∃ n, uncommentedAll (joinTerms q.build.1 (lead ++ q.build.2)) = [n] ∧
      n.words [] = standard q.words := by
  obtain ⟨ns, hns, hlength, hwords⟩ := h
  have hitems : uncommentedAll (lead ++ q.build.2) = ns := by
    rw [uncommentedAll_append, hlead, hns]
    rfl
  obtain ⟨n, hn, hnwords⟩ := words_joinTerms hitems hlength
  exact ⟨n, hn, hnwords.trans hwords⟩

/-- Every phrase reads back. -/
lemma readsBack {x : Nonterminal} (p : Phrase x) : ReadsBack p := by
  induction p with
  | name t => exact ⟨by rintro ⟨⟩, rfl⟩
  | quoted t => exact ⟨by rintro ⟨⟩, rfl⟩
  | enclosed b ds e ih => exact readsBack_enclosed b ds ih
  | factor f ih => exact ih
  | except l ds es r ihl ihr => exact readsBack_except ds es ihl ihr
  | last t ds ih =>
    obtain ⟨htkind, ht⟩ := ih
    refine ⟨[uncommented t.build], ?_, rfl, by simp [ht, Phrase.words]⟩
    rw [Phrase.build, uncommentedAll_cons htkind, uncommentedAll_commentNodes]
  | comma t ds es r iht ihr =>
    obtain ⟨ns, hns, hlength, hwords⟩ := readsBack_cons iht ihr (ds ++ es)
    exact ⟨ns, hns, hlength, by simp [hwords, Phrase.words]⟩
  | beside t ds r iht ihr =>
    obtain ⟨ns, hns, hlength, hwords⟩ := readsBack_cons iht ihr ds
    exact ⟨ns, hns, hlength, by simp [hwords, Phrase.words]⟩
  | single q ih =>
    intro lead hlead
    obtain ⟨n, hn, hwords⟩ := ih.exists_join hlead
    exact ⟨[n], by simp [Phrase.build, hn], by simp, by simp [hwords, Phrase.words]⟩
  | choice q ds r ihq ihr =>
    intro lead hlead
    obtain ⟨n, hn, hwords⟩ := ihq.exists_join hlead
    obtain ⟨ns, hns, hne, hrest⟩ := ihr _ (uncommentedAll_commentNodes ds)
    refine ⟨n :: ns, by simp [Phrase.build, hn, hns], by simp, ?_⟩
    rw [List.map_cons, List.intercalate_cons_of_ne_nil (by simpa using hne), hrest, hwords]
    simp [Phrase.words]

/-! ### Rules and grammars -/

lemma exists_node_of_rule (r : RulePhrase) :
    ∃ n, uncommentedAll r.nodes = [n] ∧ n.words [] = standard r.words := by
  obtain ⟨n, hn, hwords⟩ := (readsBack r.body).exists_node uncommentedAll_nil
  refine ⟨.node (.rule r.name) [Tree.leaf (.identifier r.name), n], ?_, ?_⟩
  · have hname : uncommentedAll (Tree.leaf (.identifier r.name) ::
        commentNodes (r.before ++ r.after) ++ joinAlternatives (r.body.build [])) =
        [Tree.leaf (.identifier r.name), n] := by
      rw [List.cons_append, Tree.leaf,
        uncommentedAll_node (c := .identifier r.name) (by simp [Content.kind]),
        uncommentedAll_append, uncommentedAll_commentNodes, hn]
      rfl
    rw [RulePhrase.nodes, RulePhrase.node, uncommentedAll_append, uncommentedAll_commentNodes,
      uncommentedAll_node (c := .rule r.name) (by simp [Content.kind]), hname]
    rfl
  · rw [words_rule, hwords]
    simp [RulePhrase.words, standard_of_isDefinition r.isDefinition,
      standard_of_isTerminator r.isTerminator]

lemma words_of_rules (rs : List RulePhrase) :
    ((uncommentedAll (rs.flatMap (·.nodes))).map (words [])).flatten =
      standard (rs.flatMap (·.words)) := by
  induction rs with
  | nil => rfl
  | cons r rs ih =>
    obtain ⟨n, hn, hwords⟩ := exists_node_of_rule r
    simp [hn, hwords, ih]

/-- The tree of a grammar phrase has, without comments, the words of its rules in standard
notation. -/
lemma words_of_grammar (g : GrammarPhrase) :
    (uncommented g.node).words [] = standard (g.rules.flatMap (·.words)) := by
  have hbody : uncommentedAll g.bodyNodes = uncommentedAll (g.rules.flatMap (·.nodes)) := by
    unfold GrammarPhrase.bodyNodes
    cases g.frame with
    | none => rfl
    | some f => simp
  rw [GrammarPhrase.node, uncommented, words_grammar, ← words_of_rules]
  simp [hbody]

/-! ### The parts of a text -/

/-- Words up to the last one that is `w`. -/
def beforeLast (w : Word) (ws : List Word) : List Word :=
  (ws.reverse.dropWhile (· ≠ w)).tail.reverse

/-- Words behind the last one that is `w`. -/
def behindLast (w : Word) (ws : List Word) : List Word :=
  (ws.reverse.takeWhile (· ≠ w)).reverse

lemma last_append {w : Word} (vs : List Word) {ws : List Word} (h : w ∉ ws) :
    beforeLast w (vs ++ w :: ws) = vs ∧ behindLast w (vs ++ w :: ws) = ws := by
  have hrev : (vs ++ w :: ws).reverse = ws.reverse ++ w :: vs.reverse := by simp
  have hws : ∀ v ∈ ws.reverse, decide (v ≠ w) = true := by
    intro v hv
    rw [decide_eq_true_iff]
    rintro rfl
    exact h (List.mem_reverse.1 hv)
  constructor
  · rw [beforeLast, hrev, List.dropWhile_append_of_pos hws]
    simp
  · rw [behindLast, hrev, List.takeWhile_append_of_pos hws]
    simp

/-- The text of a quoted text at the front, and what follows it. -/
def leadingQuoted : List Word → Option String × List Word
  | .quoted t :: ws => (some t, ws)
  | ws => (none, ws)

/-- The parts of a text. -/
structure Layout where
  /-- The title. -/
  title : Option String
  /-- The words of the rules. -/
  rules : List Word
  /-- The meta text. -/
  about : Option String

/-- The parts of a text, given its words without comments and with the end of the input.  A quoted
text at the front is the title.  If a brace follows, the rules stand between it and the last closing
brace, and a quoted text behind that is the meta text. -/
def Layout.of (ws : List Word) : Layout :=
  match leadingQuoted ws with
  | (title, .symbol .openBrace :: vs) =>
    ⟨title, beforeLast (.symbol .closeBrace) vs,
      (leadingQuoted (behindLast (.symbol .closeBrace) vs)).1⟩
  | (title, vs) => ⟨title, vs.dropLast, none⟩

/-- Words without comments. -/
def bare (ws : List Word) : List Word := ws.filter (·.kind ≠ .comment)

@[simp] lemma bare_nil : bare [] = [] := rfl

@[simp] lemma bare_bare (ws : List Word) : bare (bare ws) = bare ws := by
  simp [bare]

@[simp] lemma bare_append (vs ws : List Word) : bare (vs ++ ws) = bare vs ++ bare ws :=
  List.filter_append vs ws

@[simp] lemma bare_comments (ds : List String) : bare (Word.comments ds) = [] := by
  simp [bare, Word.comments, Word.kind]

lemma bare_cons {w : Word} (h : w.kind ≠ .comment) (ws : List Word) :
    bare (w :: ws) = w :: bare ws := by
  simp [bare, h]

@[simp] lemma bare_symbol (y : Symbol) (ws : List Word) :
    bare (.symbol y :: ws) = .symbol y :: bare ws := rfl

lemma map_word_significant (ts : List Token) :
    (Token.significant ts).map Token.word = bare (ts.map Token.word) := by
  simp [Token.significant, bare, List.filter_map, Function.comp_def]

lemma standard_bare (ws : List Word) : standard (bare ws) = standard ws := by
  induction ws with
  | nil => rfl
  | cons w ws ih =>
    by_cases hw : w.kind = .comment
    · cases w with
      | comment t => exact ih
      | _ => cases hw
    · rw [bare_cons hw, standard, List.filterMap_cons, ← standard, ih]
      rfl

lemma bare_wordsOf (q : Option QuotedPhrase) :
    bare (QuotedPhrase.wordsOf q) = (q.map fun r => Word.quoted r.text).toList := by
  cases q with
  | none => rfl
  | some q =>
    rw [QuotedPhrase.wordsOf, bare_append, bare_comments]
    rfl

/-- A quoted text that may be absent is found in front of something else. -/
lemma leadingQuoted_wordsOf (q : Option QuotedPhrase) {w : Word} (hw : w.kind ≠ .terminal)
    (ws : List Word) :
    leadingQuoted (bare (QuotedPhrase.wordsOf q) ++ w :: ws) = (q.map (·.text), w :: ws) := by
  rw [bare_wordsOf]
  cases q with
  | none =>
    cases w with
    | quoted t => exact absurd rfl hw
    | _ => rfl
  | some q => rfl

/-- The rules begin with a name, and behind them comes the end. -/
lemma exists_first_of_rules (rs : List RulePhrase) :
    ∃ w ws, bare (rs.flatMap (·.words)) ++ [.finish] = w :: ws ∧ w.kind ≠ .terminal ∧
      w ≠ .symbol .openBrace := by
  cases rs with
  | nil => exact ⟨.finish, [], rfl, by simp, by simp⟩
  | cons r rs =>
    refine ⟨.name r.name, ?_⟩
    simp [RulePhrase.words, bare_cons (w := .name r.name) (by simp), Word.kind]

/-- The parts of a text are those of the phrase that it spells. -/
lemma layout_of_grammar (g : GrammarPhrase) :
    Layout.of (bare g.words) = ⟨g.title.map (·.text), bare (g.rules.flatMap (·.words)),
      (g.frame.bind (·.about)).map (·.text)⟩ := by
  have hfinish : bare [.finish] = [.finish] := rfl
  cases hframe : g.frame with
  | none =>
    obtain ⟨w, ws, hrest, hw, hopen⟩ := exists_first_of_rules g.rules
    have hwords : bare g.words = bare (QuotedPhrase.wordsOf g.title) ++ w :: ws := by
      rw [← hrest]
      simp [GrammarPhrase.words, GrammarPhrase.bodyWords, hframe, hfinish]
    have hlast : (w :: ws).dropLast = bare (g.rules.flatMap (·.words)) := by
      rw [← hrest]
      simp
    -- the first word of the rules is no opening brace
    rw [hwords, Layout.of, leadingQuoted_wordsOf g.title hw]
    split
    · rename_i heq
      cases heq
      exact absurd rfl hopen
    · rename_i heq
      cases heq
      rw [hlast]
      rfl
  | some f =>
    have hwords : bare g.words = bare (QuotedPhrase.wordsOf g.title) ++ .symbol .openBrace ::
        (bare (g.rules.flatMap (·.words)) ++ .symbol .closeBrace ::
          (bare (QuotedPhrase.wordsOf f.about) ++ [.finish])) := by
      simp [GrammarPhrase.words, GrammarPhrase.bodyWords, hframe, hfinish]
    -- no brace follows the one that closes the frame, which is thus the last
    have hnotin : Word.symbol .closeBrace ∉ bare (QuotedPhrase.wordsOf f.about) ++ [.finish] := by
      rw [bare_wordsOf]
      cases f.about <;> simp
    obtain ⟨hbefore, hbehind⟩ := last_append (bare (g.rules.flatMap (·.words))) hnotin
    rw [hwords, Layout.of, leadingQuoted_wordsOf g.title (w := .symbol .openBrace) (by simp)]
    dsimp only
    rw [hbefore, hbehind, leadingQuoted_wordsOf f.about (w := .finish) (by simp)]
    rfl

/-! ### The theorem -/

/-- The parts of a text, given its tokens. -/
def Layout.ofTokens (tokens : List Token) : Layout :=
  Layout.of ((Token.significant tokens).map Token.word)

/-- The tree of a text, which is that of the forest that the text grows to, has without comments the
words of the rules of the text in standard notation, and the title and the meta text of the text.  A
word says the kind and the text of a token. -/
theorem tree_reads_back {source : String} {tree : Node} (h : parse source = .ok tree) :
    (∃ f : Forest, grow source = some (.ok f) ∧ f.tree = tree ∧ f.size = tree.preorder.length) ∧
    ∃ tokens, tokenize source = .ok tokens ∧
      (∀ t ∈ tokens, t.word.kind = t.kind ∧ t.word.text = t.text) ∧
      (uncommented tree).words [] = standard (Layout.ofTokens tokens).rules ∧
      tree.label = .grammar ((Layout.ofTokens tokens).title.getD "")
        ((Layout.ofTokens tokens).about.getD Content.defaultMeta) := by
  refine ⟨exists_forest_of_parse h, ?_⟩
  obtain ⟨g, -, rfl, hfault, hwords⟩ := exists_phrase_of_grammar h
  refine ⟨_, tokenize_eq_ok_iff.2 ⟨hfault, rfl⟩, ?_, ?_⟩
  · intro t ht
    exact ⟨Token.kind_word t, (Stream.text_of_mem_tokens ht).symm⟩
  · rw [Layout.ofTokens, map_word_significant, hwords, layout_of_grammar]
    refine ⟨?_, rfl⟩
    rw [words_of_grammar, standard_bare]

/-- A framed grammar with a comment, a comma and a choice, and how it reads back. -/
theorem framed_grammar_reads_back :
    ∃ tree tokens f, parse "'t' \x7b a : b, 'c' (* d *) | [e] - f. \x7d 'm'" = .ok tree ∧
      grow "'t' \x7b a : b, 'c' (* d *) | [e] - f. \x7d 'm'" = some (.ok f) ∧ f.tree = tree ∧
      tokenize "'t' \x7b a : b, 'c' (* d *) | [e] - f. \x7d 'm'" = .ok tokens ∧
      tree.label = .grammar "t" "m" ∧
      (uncommented tree).words [] = standard (Layout.ofTokens tokens).rules ∧
      standard (Layout.ofTokens tokens).rules =
        [.name "a", .symbol .equals, .name "b", .quoted "c", .symbol .pipe, .symbol .openBracket,
          .name "e", .symbol .closeBracket, .symbol .minus, .name "f", .symbol .semicolon] := by
  have hparse : parse "'t' \x7b a : b, 'c' (* d *) | [e] - f. \x7d 'm'" =
      .ok (.node (.grammar "t" "m") [.node (.rule "a") [Tree.leaf (.identifier "a"),
        .node .choice [
          .node .sequence [Tree.leaf (.identifier "b"), Tree.leaf (.terminal "c"),
            Tree.leaf (.comment " d ")],
          .node .exception [.node .optional [Tree.leaf (.identifier "e")],
            Tree.leaf (.identifier "f")]]]]) := by decide +kernel
  obtain ⟨⟨f, hgrow, htree, -⟩, tokens, htokens, -, hwords, -⟩ := tree_reads_back hparse
  refine ⟨_, tokens, f, hparse, hgrow, htree, htokens, rfl, hwords, ?_⟩
  rw [← hwords]
  decide

end GrammarTree
