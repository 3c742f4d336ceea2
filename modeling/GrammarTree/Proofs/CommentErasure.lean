/-
# Comments do not matter to the parser

A text with one space in the place of each of its comments is parsed exactly if the text is.  Its
tree is the tree of the text without the comments in it, and where the one is refused, the other is
refused for the same reason.

What is parsed is traced through phrases.  Taking the comments out of a phrase takes them out of
its words and out of what is built from it (`Uncomments`), and the phrase needs as many open
constructs as before.  What is refused goes by the kinds of the tokens alone.  Of two streams with
the same words, comments left out, neither can be refused for a token further on than the other, for
the tokens in front of that token begin a sentence (`exists_unexpected_of_bare`).
-/
import GrammarTree.Proofs.Acceptance
import GrammarTree.Proofs.Blanking
import GrammarTree.Proofs.Parse.Growing
import GrammarTree.Proofs.ReadBack

namespace GrammarTree

open Parse Node

/-! ### Phrases without comments -/

/-- A phrase without its comments. -/
def Phrase.uncommented : {x : Nonterminal} → Phrase x → Phrase x
  | _, name t => name t
  | _, quoted t => quoted t
  | _, enclosed b _ e => enclosed b [] e.uncommented
  | _, factor f => factor f.uncommented
  | _, except l _ _ r => except l.uncommented [] [] r.uncommented
  | _, last t _ => last t.uncommented []
  | _, comma t _ _ r => comma t.uncommented [] [] r.uncommented
  | _, beside t _ r => beside t.uncommented [] r.uncommented
  | _, single s => single s.uncommented
  | _, choice s _ r => choice s.uncommented [] r.uncommented

lemma Phrase.words_uncommented {x : Nonterminal} (p : Phrase x) :
    p.uncommented.words = bare p.words := by
  induction p with
  | name t => rfl
  | quoted t => rfl
  | enclosed b ds e ih => simp [uncommented, words, ih]
  | factor f ih => exact ih
  | except l ds es r ihl ihr => simp [uncommented, words, ihl, ihr]
  | last t ds ih => simp [uncommented, words, ih]
  | comma t ds es r iht ihr => simp [uncommented, words, iht, ihr]
  | beside t ds r iht ihr => simp [uncommented, words, iht, ihr]
  | single s ih => exact ih
  | choice s ds r ihs ihr => simp [uncommented, words, ihs, ihr]

lemma Phrase.need_uncommented {x : Nonterminal} (p : Phrase x) : p.uncommented.need = p.need := by
  induction p with
  | name t => rfl
  | quoted t => rfl
  | enclosed b ds e ih => simp [uncommented, need, ih]
  | factor f ih => exact ih
  | except l ds es r ihl ihr => simp [uncommented, need, ihl, ihr]
  | last t ds ih => exact ih
  | comma t ds es r iht ihr => simp [uncommented, need, iht, ihr]
  | beside t ds r iht ihr => simp [uncommented, need, iht, ihr]
  | single s ih => exact ih
  | choice s ds r ihs ihr => simp [uncommented, need, ihs, ihr]

/-! ### What is built from them -/

lemma uncommentedAll_joinTerms (k : Nat) (items : List Node) :
    uncommentedAll (joinTerms k items) = joinTerms k (uncommentedAll items) := by
  unfold joinTerms
  split
  · rfl
  · rw [uncommentedAll_node (c := .sequence) (by simp [Content.kind])]
    rfl

lemma uncommentedAll_joinAlternatives (alternatives : List (List Node)) :
    uncommentedAll (joinAlternatives alternatives) =
      joinAlternatives (alternatives.map uncommentedAll) := by
  cases alternatives with
  | nil => rfl
  | cons a rest =>
    cases rest with
    | nil => rfl
    | cons b rest =>
      have hjoin : joinAlternatives (a :: b :: rest) =
          [.node .choice (a :: b :: rest).flatten] := rfl
      rw [hjoin, uncommentedAll_node (c := .choice) (by simp [Content.kind]),
        uncommentedAll_flatten]
      rfl

/-- What is built from a phrase without comments is what is built from the phrase, without
comments. -/
def Uncomments : {x : Nonterminal} → Phrase x → Prop
  | .factor, f => (f.build : Node).label.kind ≠ .comment ∧
    f.uncommented.build = uncommented f.build
  | .term _, t => (t.build : Node).label.kind ≠ .comment ∧
    t.uncommented.build = uncommented t.build
  | .sequence, q => q.uncommented.build = (q.build.1, uncommentedAll q.build.2)
  | .expression, e => ∀ lead : List Node,
    e.uncommented.build (uncommentedAll lead) = (e.build lead).map uncommentedAll

/-- The nodes of an expression. -/
lemma Uncomments.joinAlternatives {e : Phrase .expression} (h : Uncomments e) {lead : List Node}
    (hlead : uncommentedAll lead = []) :
    Parse.joinAlternatives (e.uncommented.build []) =
      uncommentedAll (Parse.joinAlternatives (e.build lead)) := by
  rw [uncommentedAll_joinAlternatives, ← h lead, hlead]

lemma uncomments_enclosed (b : Enclosure) (ds : List String) {e : Phrase .expression}
    (ih : Uncomments e) : Uncomments (.enclosed b ds e) := by
  refine ⟨by cases b <;> rintro ⟨⟩, ?_⟩
  have hbody := ih.joinAlternatives (uncommentedAll_commentNodes ds)
  rw [Phrase.uncommented, Phrase.build, Phrase.build, Node.uncommented, commentNodes_nil, hbody]

lemma uncomments_except {i : Nat} {l : Phrase (.term i)} (ds es : List String)
    {r : Phrase .factor} (ihl : Uncomments l) (ihr : Uncomments r) :
    Uncomments (.except l ds es r) := by
  obtain ⟨hlkind, hl⟩ := ihl
  obtain ⟨hrkind, hr⟩ := ihr
  refine ⟨by rintro ⟨⟩, ?_⟩
  have hchildren : uncommentedAll (l.build :: commentNodes (ds ++ es) ++ [r.build]) =
      [l.uncommented.build, r.uncommented.build] := by
    rw [List.cons_append, uncommentedAll_cons hlkind, uncommentedAll_append,
      uncommentedAll_commentNodes, uncommentedAll_cons hrkind, hl, hr]
    rfl
  rw [Phrase.uncommented, Phrase.build, Phrase.build, Node.uncommented, hchildren]
  rfl

/-- A term in front of more terms, with comments between them. -/
lemma uncomments_cons {i : Nat} {t : Phrase (.term i)} {r : Phrase .sequence} (iht : Uncomments t)
    (ihr : Uncomments r) (ds : List String) :
    (r.uncommented.build.1 + 1, t.uncommented.build :: (commentNodes [] ++ r.uncommented.build.2)) =
      (r.build.1 + 1, uncommentedAll (t.build :: (commentNodes ds ++ r.build.2))) := by
  obtain ⟨htkind, ht⟩ := iht
  have hr : r.uncommented.build = (r.build.1, uncommentedAll r.build.2) := ihr
  rw [uncommentedAll_cons htkind, uncommentedAll_append, uncommentedAll_commentNodes, hr, ht]
  rfl

/-- A sequence as the only or the first alternative. -/
lemma Uncomments.joinTerms {q : Phrase .sequence} (h : Uncomments q) (lead : List Node) :
    Parse.joinTerms q.uncommented.build.1 (uncommentedAll lead ++ q.uncommented.build.2) =
      uncommentedAll (Parse.joinTerms q.build.1 (lead ++ q.build.2)) := by
  have hq : q.uncommented.build = (q.build.1, uncommentedAll q.build.2) := h
  rw [uncommentedAll_joinTerms, uncommentedAll_append, hq]

/-- Comments can be taken out of every phrase. -/
lemma uncomments {x : Nonterminal} (p : Phrase x) : Uncomments p := by
  induction p with
  | name t => exact ⟨by rintro ⟨⟩, rfl⟩
  | quoted t => exact ⟨by rintro ⟨⟩, rfl⟩
  | enclosed b ds e ih => exact uncomments_enclosed b ds ih
  | factor f ih => exact ih
  | except l ds es r ihl ihr => exact uncomments_except ds es ihl ihr
  | last t ds ih =>
    obtain ⟨htkind, ht⟩ := ih
    rw [Uncomments, Phrase.build, Phrase.uncommented, Phrase.build, uncommentedAll_cons htkind,
      uncommentedAll_commentNodes, ht]
    rfl
  | comma t ds es r iht ihr => exact uncomments_cons iht ihr (ds ++ es)
  | beside t ds r iht ihr => exact uncomments_cons iht ihr ds
  | single q ih =>
    intro lead
    rw [Phrase.uncommented, Phrase.build, Phrase.build]
    dsimp only
    rw [ih.joinTerms]
    rfl
  | choice q ds r ihq ihr =>
    intro lead
    have hr := ihr (commentNodes ds)
    rw [uncommentedAll_commentNodes] at hr
    rw [Phrase.uncommented, Phrase.build, Phrase.build]
    dsimp only
    rw [ihq.joinTerms, commentNodes_nil, hr]
    rfl

/-! ### Rules and grammars -/

/-- A rule without its comments. -/
def RulePhrase.uncommented (r : RulePhrase) : RulePhrase :=
  { r with leading := [], before := [], after := [], body := r.body.uncommented }

/-- A quoted text without the comments in front of it. -/
def QuotedPhrase.uncommented (q : QuotedPhrase) : QuotedPhrase := { q with leading := [] }

/-- A frame without the comments in it. -/
def Frame.uncommented (f : Frame) : Frame := ⟨[], [], f.about.map QuotedPhrase.uncommented⟩

/-- A grammar without its comments. -/
def GrammarPhrase.uncommented (g : GrammarPhrase) : GrammarPhrase :=
  ⟨g.title.map QuotedPhrase.uncommented, g.frame.map Frame.uncommented,
    g.rules.map RulePhrase.uncommented, []⟩

lemma QuotedPhrase.wordsOf_uncommented (q : Option QuotedPhrase) :
    wordsOf (q.map uncommented) = bare (wordsOf q) := by
  rw [bare_wordsOf]
  cases q <;> rfl

lemma QuotedPhrase.leadingOf_uncommented (q : Option QuotedPhrase) :
    leadingOf (q.map uncommented) = [] := by
  cases q <;> rfl

lemma RulePhrase.words_uncommented (r : RulePhrase) : r.uncommented.words = bare r.words := by
  have hname : ∀ ws, bare (.name r.name :: ws) = .name r.name :: bare ws := fun _ => rfl
  have hend : bare [.symbol r.terminator] = [.symbol r.terminator] := rfl
  simp [words, uncommented, Phrase.words_uncommented, hname, hend]

lemma RulePhrase.nodes_uncommented (r : RulePhrase) :
    r.uncommented.nodes = uncommentedAll r.nodes := by
  have hbody := (uncomments r.body).joinAlternatives uncommentedAll_nil
  have hchildren : uncommentedAll (Tree.leaf (.identifier r.name) ::
      commentNodes (r.before ++ r.after) ++ joinAlternatives (r.body.build [])) =
      Tree.leaf (.identifier r.name) :: joinAlternatives (r.body.uncommented.build []) := by
    rw [List.cons_append, Tree.leaf,
      uncommentedAll_node (c := .identifier r.name) (by simp [Content.kind]),
      uncommentedAll_append, uncommentedAll_commentNodes, hbody]
    rfl
  rw [nodes, nodes, node, node, uncommentedAll_append, uncommentedAll_commentNodes,
    uncommentedAll_node (c := .rule r.name) (by simp [Content.kind]), hchildren]
  rfl

lemma RulePhrase.words_of_uncommented (rs : List RulePhrase) :
    (rs.map uncommented).flatMap (·.words) = bare (rs.flatMap (·.words)) := by
  induction rs with
  | nil => rfl
  | cons r rs ih => simp [ih, words_uncommented]

lemma RulePhrase.nodes_of_uncommented (rs : List RulePhrase) :
    (rs.map uncommented).flatMap (·.nodes) = uncommentedAll (rs.flatMap (·.nodes)) := by
  induction rs with
  | nil => rfl
  | cons r rs ih => simp [ih, nodes_uncommented]

namespace GrammarPhrase

lemma words_uncommented (g : GrammarPhrase) : g.uncommented.words = bare g.words := by
  have hfinish : bare [.finish] = [.finish] := rfl
  have hrules := RulePhrase.words_of_uncommented g.rules
  have htitle := QuotedPhrase.wordsOf_uncommented g.title
  unfold words bodyWords uncommented
  cases g.frame with
  | none => simp [htitle, hrules, hfinish]
  | some f =>
    have habout := QuotedPhrase.wordsOf_uncommented f.about
    simp [Frame.uncommented, htitle, hrules, habout, hfinish]

lemma node_uncommented (g : GrammarPhrase) : g.uncommented.node = Node.uncommented g.node := by
  have hrules := RulePhrase.nodes_of_uncommented g.rules
  have htitle := QuotedPhrase.leadingOf_uncommented g.title
  have hlabel : g.uncommented.titleText = g.titleText ∧ g.uncommented.aboutText = g.aboutText := by
    unfold titleText aboutText uncommented
    cases g.title <;> rcases g.frame with _ | ⟨_, _, _ | _⟩ <;> exact ⟨rfl, rfl⟩
  have hbody : g.uncommented.bodyNodes = uncommentedAll g.bodyNodes := by
    unfold bodyNodes uncommented
    cases g.frame with
    | none => exact hrules
    | some f =>
      have habout := QuotedPhrase.leadingOf_uncommented f.about
      simp [Frame.uncommented, hrules, habout]
  rw [node, node, Node.uncommented, hlabel.1, hlabel.2, hbody]
  simp [uncommented, htitle]

lemma Fits.uncommented {g : GrammarPhrase} (h : g.Fits) : g.uncommented.Fits := by
  intro r hr
  obtain ⟨r, hmem, rfl⟩ := List.mem_map.1 hr
  have hneed : r.uncommented.body.need = r.body.need := Phrase.need_uncommented r.body
  rw [RulePhrase.Fits, hneed]
  exact h r hmem

end GrammarPhrase

/-! ### What is parsed -/

/-- A stream with the words of one that is parsed, comments left out, is parsed. -/
lemma grammar_of_bare {stream other : Stream} {tree : Node} (h : grammar stream = .ok tree)
    (hwords : other.tokens.map Token.word = bare (stream.tokens.map Token.word)) :
    grammar other = .ok (uncommented tree) := by
  obtain ⟨g, hfit, rfl, -, hg⟩ := exists_phrase_of_grammar h
  rw [← g.node_uncommented]
  apply grammar_of_words g.uncommented hfit.uncommented
  rw [hwords, hg, g.words_uncommented]

/-! ### What is refused -/

/-- What begins a sentence does not go on past a kind at which everything is refused. -/
lemma length_le_of_refused {us us' ls ls' : List TokenKind} {k k' : TokenKind}
    {expected : Expected} (h : us ++ k :: ls = us' ++ k' :: ls') (hbegins : BeginsSentence us)
    (hrefused : ∀ other : Stream, us' ++ [k'] <+: (Token.significant other.tokens).map (·.kind) →
      ∃ found, grammar other = .error (.unexpected expected found)) : us.length ≤ us'.length := by
  rcases Nat.lt_or_ge us'.length us.length with hlt | hle
  · have hus : us <+: us' ++ k' :: ls' := by
      rw [← h]
      exact List.prefix_append _ _
    have hus' : us' ++ [k'] <+: us' ++ k' :: ls' := ⟨ls', by simp⟩
    have hlength : (us' ++ [k']).length ≤ us.length := by
      rw [List.length_append]
      exact hlt
    have hprefix := List.prefix_of_prefix_length_le hus' hus hlength
    exact absurd hprefix (not_prefix_of_refused hbegins hrefused)
  · exact hle

/-- Messages describe a token by its word. -/
lemma Token.describe_eq {t u : Token} (h : t.word = u.word) : t.describe = u.describe := by
  have hkind : t.kind = u.kind := by rw [← Token.kind_word, ← Token.kind_word, h]
  unfold describe
  rw [← hkind]
  split
  · rename_i hk
    rw [word_of_identifier hk, word_of_identifier (hkind ▸ hk)] at h
    rw [Word.name.inj h]
  · rename_i hk
    rw [word_of_terminal hk, word_of_terminal (hkind ▸ hk)] at h
    rw [Word.quoted.inj h]
  · rfl
  · rfl
  · rfl

/-- A stream with the words of one that is refused for a token, comments left out, is refused for a
token with the same word, the same being expected. -/
lemma exists_unexpected_of_bare {stream other : Stream} {expected : Expected} {found : Token}
    (h : grammar stream = .error (.unexpected expected found))
    (hwords : (Token.significant other.tokens).map Token.word =
      (Token.significant stream.tokens).map Token.word) :
    ∃ found', grammar other = .error (.unexpected expected found') ∧ found'.word = found.word := by
  have hkinds : (Token.significant other.tokens).map (·.kind) =
      (Token.significant stream.tokens).map (·.kind) := by
    simpa [Function.comp_def] using congrArg (List.map Word.kind) hwords
  obtain ⟨us, later, hup, hbegins, hrefused⟩ := exists_of_unexpected h
  have hbegun : (us ++ [found]).map (·.kind) <+:
      (Token.significant other.tokens).map (·.kind) := by
    rw [hkinds, hup]
    exact ⟨later.map (·.kind), by simp⟩
  obtain ⟨found', hfound'⟩ := hrefused other hbegun
  obtain ⟨us', later', hup', hbegins', hrefused'⟩ := exists_of_unexpected hfound'
  simp only [hup, hup', List.map_append, List.map_cons, List.map_nil] at *
  -- neither stream is refused further on than the other
  have hle : us.length ≤ us'.length := by
    simpa using length_le_of_refused hkinds.symm hbegins hrefused'
  have hge : us'.length ≤ us.length := by
    simpa using length_le_of_refused hkinds hbegins' hrefused
  obtain ⟨-, hrest⟩ := List.append_inj hwords (by simpa using Nat.le_antisymm hge hle)
  exact ⟨found', hfound', (List.cons.inj hrest).1⟩

/-! ### The words of a text without comments -/

/-- The words of lexemes, comments left out, are those of the lexemes that are no comments. -/
lemma bare_map_word (ls : List Lexeme) :
    bare (ls.map Lexeme.word) =
      (ls.filter fun l => !(Piece.lexeme l).isComment).map Lexeme.word := by
  rw [bare, List.filter_map]
  congr 1
  refine List.filter_congr fun l _ => ?_
  cases l <;> rfl

/-- A text without faults has, with a space in the place of each comment, the words of the text,
comments left out. -/
lemma words_withoutComments {source : String} (h : (Stream.ofSource source).fault? = none) :
    (Stream.ofSource (withoutComments source)).tokens.map Token.word =
      bare ((Stream.ofSource source).tokens.map Token.word) := by
  obtain ⟨ls, hls⟩ := Stream.exists_lexemes h
  have hpieces := pieces_withoutComments fun s => exists_lexeme_of_mem hls
  rw [hls, List.filter_map] at hpieces
  have hfinish : bare [.finish] = [.finish] := rfl
  rw [Stream.ofSource, Stream.ofSource, words_ofSegments _ hpieces, words_ofSegments _ hls,
    bare_append, hfinish, bare_map_word]
  rfl

/-- A text without faults that is refused is refused, with a space in the place of each comment, for
the same reason. -/
lemma exists_unexpected_of_withoutComments {source : String} {e : SyntaxError}
    (hfault : (Stream.ofSource source).fault? = none) (h : parse source = .error e) :
    ∃ expected found found', e = .unexpected expected found ∧
      parse (withoutComments source) = .error (.unexpected expected found') ∧
      found'.describe = found.describe := by
  cases e with
  | scan f =>
    rw [fault?_of_grammar h] at hfault
    cases hfault
  | unexpected expected found =>
    have hsignificant : (Token.significant (Stream.ofSource (withoutComments source)).tokens).map
        Token.word = (Token.significant (Stream.ofSource source).tokens).map Token.word := by
      rw [map_word_significant, map_word_significant, words_withoutComments hfault, bare_bare]
    obtain ⟨found', hfound', hword⟩ := exists_unexpected_of_bare h hsignificant
    exact ⟨expected, found, found', rfl, hfound', Token.describe_eq hword⟩

/-! ### The theorem -/

/-- If a text has no faults, then with one space in the place of each of its comments it is parsed
exactly if the text is.  Its tree is that of the text without the comments in it.  Where the one is
refused, the other is refused for the same reason.  All this is so, too, for the forests that the two
texts grow to. -/
theorem parse_withoutComments {source : String} {tokens : List Token}
    (h : tokenize source = .ok tokens) :
    ((∃ tree, parse source = .ok tree) ↔ ∃ tree, parse (withoutComments source) = .ok tree) ∧
    (∀ tree, parse source = .ok tree →
      parse (withoutComments source) = .ok (uncommented tree) ∧
      ∃ f g : Forest, grow source = some (.ok f) ∧ f.tree = tree ∧
        grow (withoutComments source) = some (.ok g) ∧ g.tree = uncommented tree) ∧
    ∀ e, parse source = .error e → grow source = some (.error e) ∧
      ∃ expected found found', e = .unexpected expected found ∧
        parse (withoutComments source) = .error (.unexpected expected found') ∧
        grow (withoutComments source) = some (.error (.unexpected expected found')) ∧
        found'.describe = found.describe := by
  obtain ⟨hfault, -⟩ := tokenize_eq_ok_iff.1 h
  have hok : ∀ tree, parse source = .ok tree →
      parse (withoutComments source) = .ok (uncommented tree) :=
    fun tree htree => grammar_of_bare htree (words_withoutComments hfault)
  refine ⟨⟨?_, ?_⟩, fun tree htree => ⟨hok tree htree, ?_⟩, fun e he => ⟨grow_of_error he, ?_⟩⟩
  · rintro ⟨tree, htree⟩
    exact ⟨_, hok tree htree⟩
  · rintro ⟨tree, htree⟩
    cases hparse : parse source with
    | ok tree => exact ⟨tree, rfl⟩
    | error e =>
      obtain ⟨expected, found, found', -, hrefused, -⟩ :=
        exists_unexpected_of_withoutComments hfault hparse
      rw [htree] at hrefused
      cases hrefused
  · obtain ⟨f, hf, hftree, -⟩ := exists_forest_of_parse htree
    obtain ⟨g, hg, hgtree, -⟩ := exists_forest_of_parse (hok tree htree)
    exact ⟨f, g, hf, hftree, hg, hgtree⟩
  · obtain ⟨expected, found, found', heq, hrefused, hdescribe⟩ :=
      exists_unexpected_of_withoutComments hfault he
    exact ⟨expected, found, found', heq, hrefused, grow_of_error hrefused, hdescribe⟩

/-- A rule with a comment between any two of its tokens, and a rule that is refused behind a
comment. -/
theorem parse_withoutComments_of_rules :
    withoutComments "a(*1*)=(*2*)b(*3*),(*4*)c(*5*);" = "a = b , c ;" ∧
    parse "a = b , c ;" = .ok (.node (.grammar "" Content.defaultMeta)
      [.node (.rule "a") [Tree.leaf (.identifier "a"), .node .sequence
        [Tree.leaf (.identifier "b"), Tree.leaf (.identifier "c")]]]) ∧
    withoutComments "a=(*1*);" = "a= ;" ∧
    ∃ found, parse "a= ;" = .error (.unexpected .expression found) ∧ found.describe = "';'" := by
  have hrule : withoutComments "a(*1*)=(*2*)b(*3*),(*4*)c(*5*);" = "a = b , c ;" := by
    decide +kernel
  have htokens : tokenize "a(*1*)=(*2*)b(*3*),(*4*)c(*5*);" = .ok _ :=
    tokenize_eq_ok_iff.2 ⟨by decide +kernel, rfl⟩
  have hparse : parse "a(*1*)=(*2*)b(*3*),(*4*)c(*5*);" =
      .ok (.node (.grammar "" Content.defaultMeta) [.node (.rule "a") [Tree.leaf (.identifier "a"),
        Tree.leaf (.comment "1"), Tree.leaf (.comment "2"), .node .sequence
          [Tree.leaf (.identifier "b"), Tree.leaf (.comment "3"), Tree.leaf (.comment "4"),
            Tree.leaf (.identifier "c"), Tree.leaf (.comment "5")]]]) := by
    decide +kernel
  have hrefused : withoutComments "a=(*1*);" = "a= ;" := by decide +kernel
  have htokens' : tokenize "a=(*1*);" = .ok _ := tokenize_eq_ok_iff.2 ⟨by decide +kernel, rfl⟩
  have hparse' : parse "a=(*1*);" =
      .error (.unexpected .expression ⟨.symbol .semicolon, ";", ⟨1, 8⟩⟩) := by
    decide +kernel
  obtain ⟨-, hok, -⟩ := parse_withoutComments htokens
  obtain ⟨-, -, herror⟩ := parse_withoutComments htokens'
  obtain ⟨htree, -⟩ := hok _ hparse
  rw [hrule] at htree
  obtain ⟨-, expected, found, found', heq, hfound', -, hdescribe⟩ := herror _ hparse'
  cases heq
  rw [hrefused] at hfound'
  exact ⟨hrule, htree, hrefused, found', hfound', hdescribe⟩

end GrammarTree
