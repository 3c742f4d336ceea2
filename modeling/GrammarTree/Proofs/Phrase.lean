/-
# Phrases

A phrase is what the parser reads for a nonterminal: a derivation with the texts of its names and
quoted texts, and with the comments in the places where they stand.  Three things are read off a
phrase:

* its `words`, which are the input it was read from;
* its `need`, the number of constructs that have to be open at a time while it is read;
* what is built from it (`Phrase.build`, `RulePhrase.node`, `GrammarPhrase.node`).

Comments in front of a phrase do not belong to it, except where this is said.  The comments behind
its last term belong to a sequence.

That parsing a text is the same as finding the grammar phrase whose words the text has is the
subject of `GrammarTree.Proofs.Parse`; here phrases are only related to derivations
(`Phrase.derives`, `Derives.exists_phrase`).
-/
import GrammarTree.Parse
import GrammarTree.Proofs.Derivation
import GrammarTree.Proofs.Word

namespace GrammarTree

open Parse Word

/-- Nodes for some comments. -/
def commentNodes (texts : List String) : List Node := texts.map fun t => Tree.leaf (.comment t)

@[simp] lemma commentNodes_nil : commentNodes [] = [] := rfl

@[simp] lemma commentNodes_append (ds es : List String) :
    commentNodes (ds ++ es) = commentNodes ds ++ commentNodes es := by
  simp [commentNodes]

/-- What is read for a nonterminal. -/
inductive Phrase : Nonterminal → Type
  | name (text : String) : Phrase .factor
  | quoted (text : String) : Phrase .factor
  /-- An enclosure with comments behind its opening symbol. -/
  | enclosed (b : Enclosure) (leading : List String) (body : Phrase .expression) : Phrase .factor
  | factor (f : Phrase .factor) : Phrase (.term 0)
  /-- An exception with comments before and after the minus. -/
  | except {i : Nat} (left : Phrase (.term i)) (before after : List String)
      (right : Phrase .factor) : Phrase (.term (i + 1))
  /-- The last term of a sequence with comments behind it. -/
  | last {i : Nat} (t : Phrase (.term i)) (trailing : List String) : Phrase .sequence
  /-- A term and more terms, with comments before and after the comma between them. -/
  | comma {i : Nat} (t : Phrase (.term i)) (before after : List String)
      (rest : Phrase .sequence) : Phrase .sequence
  /-- A term and more terms, with comments but no comma between them. -/
  | beside {i : Nat} (t : Phrase (.term i)) (between : List String) (rest : Phrase .sequence) :
      Phrase .sequence
  | single (s : Phrase .sequence) : Phrase .expression
  /-- A sequence and more sequences, with comments behind the bar between them. -/
  | choice (s : Phrase .sequence) (after : List String) (rest : Phrase .expression) :
      Phrase .expression

namespace Phrase

variable {x : Nonterminal}

/-- The words of a phrase. -/
def words : {x : Nonterminal} → Phrase x → List Word
  | _, name t => [.name t]
  | _, quoted t => [.quoted t]
  | _, enclosed b ds e =>
    .symbol b.opening :: comments ds ++ e.words ++ [.symbol b.closing]
  | _, factor f => f.words
  | _, except l ds es r => l.words ++ comments ds ++ .symbol .minus :: comments es ++ r.words
  | _, last t ds => t.words ++ comments ds
  | _, comma t ds es r => t.words ++ comments ds ++ .symbol .comma :: comments es ++ r.words
  | _, beside t ds r => t.words ++ comments ds ++ r.words
  | _, single s => s.words
  | _, choice s ds r => s.words ++ .symbol .pipe :: comments ds ++ r.words

/-- The number of constructs that have to be open at a time. -/
def need : {x : Nonterminal} → Phrase x → Nat
  | _, name _ => 0
  | _, quoted _ => 0
  | _, enclosed _ _ e => 1 + e.need
  | _, factor f => f.need
  | .term (i + 1), except l _ _ r => max l.need (i + 1 + r.need)
  | _, last t _ => t.need
  | _, comma t _ _ r => max t.need r.need
  | _, beside t _ r => max t.need r.need
  | _, single s => s.need
  | _, choice s _ r => max s.need r.need

/-- What is built for a nonterminal: a node for factors and terms, the number of terms with all items
for a sequence, and for an expression the items of its alternatives, given the comment nodes in front
of it. -/
@[reducible] def Built : Nonterminal → Type
  | .expression => List Node → List (List Node)
  | .sequence => Nat × List Node
  | .term _ => Node
  | .factor => Node

/-- What is built from a phrase. -/
def build : {x : Nonterminal} → Phrase x → Built x
  | _, name t => Tree.leaf (.identifier t)
  | _, quoted t => Tree.leaf (.terminal t)
  | _, enclosed b ds e => Tree.node b.content (joinAlternatives (e.build (commentNodes ds)))
  | _, factor f => f.build
  | _, except l ds es r => Tree.node .exception (l.build :: commentNodes (ds ++ es) ++ [r.build])
  | _, last t ds => (1, t.build :: commentNodes ds)
  | _, comma t ds es r => (r.build.1 + 1, t.build :: (commentNodes (ds ++ es) ++ r.build.2))
  | _, beside t ds r => (r.build.1 + 1, t.build :: (commentNodes ds ++ r.build.2))
  | _, single s => fun lead => [joinTerms s.build.1 (lead ++ s.build.2)]
  | _, choice s ds r => fun lead =>
    joinTerms s.build.1 (lead ++ s.build.2) :: r.build (commentNodes ds)

/-- A phrase is a derivation. -/
lemma derives (p : Phrase x) : Derives x p.need (kinds p.words) := by
  induction p with
  | name t => exact .identifier
  | quoted t => exact .terminal
  | enclosed b ds e ih => simpa [words, need] using Derives.enclosed b ih
  | factor f ih => exact .factor ih
  | except l ds es r ihl ihr => simpa [words, need] using Derives.except ihl ihr
  | last t ds ih => simpa [words, need] using Derives.term ih
  | comma t ds es r iht ihr => simpa [words, need] using Derives.comma iht ihr
  | beside t ds r iht ihr => simpa [words, need] using Derives.beside iht ihr
  | single s ih => exact .sequence ih
  | choice s ds r ihs ihr => simpa [words, need] using Derives.choice ihs ihr

end Phrase

/-- A word of a given kind. -/
def Word.sample : TokenKind → Word
  | .identifier => .name "a"
  | .terminal => .quoted ""
  | .comment => .comment ""
  | .endOfInput => .finish
  | .symbol y => .symbol y

@[simp] lemma Word.kind_sample (k : TokenKind) : (sample k).kind = k := by cases k <;> rfl

/-- Every derivation is that of a phrase without comments, with the same texts everywhere. -/
lemma Derives.exists_phrase {x : Nonterminal} {n : Nat} {ks : List TokenKind}
    (h : Derives x n ks) : ∃ p : Phrase x, p.need = n ∧ p.words = ks.map sample := by
  induction h with
  | identifier => exact ⟨.name "a", rfl, rfl⟩
  | terminal => exact ⟨.quoted "", rfl, rfl⟩
  | enclosed b _ ih =>
    obtain ⟨e, rfl, he⟩ := ih
    exact ⟨.enclosed b [] e, rfl, by simp [Phrase.words, he, sample]⟩
  | factor _ ih =>
    obtain ⟨f, rfl, hf⟩ := ih
    exact ⟨.factor f, rfl, hf⟩
  | except _ _ ihl ihr =>
    obtain ⟨l, rfl, hl⟩ := ihl
    obtain ⟨r, rfl, hr⟩ := ihr
    exact ⟨.except l [] [] r, rfl, by simp [Phrase.words, hl, hr, sample]⟩
  | term _ ih =>
    obtain ⟨t, rfl, ht⟩ := ih
    exact ⟨.last t [], rfl, by simp [Phrase.words, ht]⟩
  | comma _ _ iht ihr =>
    obtain ⟨t, rfl, ht⟩ := iht
    obtain ⟨r, rfl, hr⟩ := ihr
    exact ⟨.comma t [] [] r, rfl, by simp [Phrase.words, ht, hr, sample]⟩
  | beside _ _ iht ihr =>
    obtain ⟨t, rfl, ht⟩ := iht
    obtain ⟨r, rfl, hr⟩ := ihr
    exact ⟨.beside t [] r, rfl, by simp [Phrase.words, ht, hr]⟩
  | sequence _ ih =>
    obtain ⟨s, rfl, hs⟩ := ih
    exact ⟨.single s, rfl, hs⟩
  | choice _ _ ihs ihr =>
    obtain ⟨s, rfl, hs⟩ := ihs
    obtain ⟨r, rfl, hr⟩ := ihr
    exact ⟨.choice s [] r, rfl, by simp [Phrase.words, hs, hr, sample]⟩

/-! ### Rules and grammars -/

/-- What is read for a rule, with the comments in front of it. -/
structure RulePhrase where
  /-- The comments in front of the rule. -/
  leading : List String
  /-- The name of the rule. -/
  name : String
  /-- The comments between the name and the definition symbol. -/
  before : List String
  /-- The definition symbol. -/
  definition : Symbol
  /-- The comments behind the definition symbol. -/
  after : List String
  /-- The expression. -/
  body : Phrase .expression
  /-- The symbol at the end. -/
  terminator : Symbol
  isDefinition : definition.isDefinition = true
  isTerminator : terminator.isTerminator = true

namespace RulePhrase

/-- The words of a rule and the comments in front of it. -/
def words (r : RulePhrase) : List Word :=
  comments r.leading ++ .name r.name :: comments r.before ++ .symbol r.definition ::
    comments r.after ++ r.body.words ++ [.symbol r.terminator]

/-- The node of a rule. -/
def node (r : RulePhrase) : Node :=
  .node (.rule r.name) (Tree.leaf (.identifier r.name) :: commentNodes (r.before ++ r.after) ++
    joinAlternatives (r.body.build []))

/-- The nodes of a rule and the comments in front of it. -/
def nodes (r : RulePhrase) : List Node := commentNodes r.leading ++ [r.node]

/-- Whether a rule can be read within the limit for open constructs. -/
def Fits (r : RulePhrase) : Prop := r.body.need ≤ maxNesting

lemma isRule {r : RulePhrase} (h : r.Fits) : IsRule (kinds r.words) := by
  simpa [words] using IsRule.mk r.isDefinition r.body.derives h r.isTerminator

end RulePhrase

/-- A quoted text with comments in front of it. -/
structure QuotedPhrase where
  /-- The comments in front of it. -/
  leading : List String
  /-- What stands between the quotes. -/
  text : String

/-- The words of a quoted text that may be absent. -/
def QuotedPhrase.wordsOf : Option QuotedPhrase → List Word
  | none => []
  | some q => comments q.leading ++ [.quoted q.text]

/-- The comments in front of a quoted text that may be absent. -/
def QuotedPhrase.leadingOf : Option QuotedPhrase → List String
  | none => []
  | some q => q.leading

lemma QuotedPhrase.isOptionalTerminal (q : Option QuotedPhrase) :
    IsOptionalTerminal (kinds (wordsOf q)) := by
  cases q with
  | none => exact .absent
  | some q => simpa [wordsOf] using IsOptionalTerminal.present

/-- The braces around the rules of a grammar, and the meta text behind them. -/
structure Frame where
  /-- The comments in front of the opening brace. -/
  opening : List String
  /-- The comments in front of the closing brace. -/
  closing : List String
  /-- The meta text. -/
  about : Option QuotedPhrase

/-- What is read for a whole grammar. -/
structure GrammarPhrase where
  /-- The title. -/
  title : Option QuotedPhrase
  /-- The frame around the rules, if there is one. -/
  frame : Option Frame
  /-- The rules. -/
  rules : List RulePhrase
  /-- The comments in front of the end of the input. -/
  trailing : List String

namespace GrammarPhrase

/-- The words between the title and the last comments. -/
def bodyWords (g : GrammarPhrase) : List Word :=
  match g.frame with
  | none => g.rules.flatMap (·.words)
  | some f =>
    comments f.opening ++ .symbol .openBrace :: g.rules.flatMap (·.words) ++
      comments f.closing ++ .symbol .closeBrace :: QuotedPhrase.wordsOf f.about

/-- The words of a grammar, the end of the input being the last. -/
def words (g : GrammarPhrase) : List Word :=
  QuotedPhrase.wordsOf g.title ++ g.bodyWords ++ comments g.trailing ++ [.finish]

/-- The nodes between those of the comments in front of the title and the last comments. -/
def bodyNodes (g : GrammarPhrase) : List Node :=
  match g.frame with
  | none => g.rules.flatMap (·.nodes)
  | some f =>
    commentNodes f.opening ++ g.rules.flatMap (·.nodes) ++ commentNodes f.closing ++
      commentNodes (QuotedPhrase.leadingOf f.about)

/-- The text of the title. -/
def titleText (g : GrammarPhrase) : String := (g.title.map (·.text)).getD ""

/-- The meta text. -/
def aboutText (g : GrammarPhrase) : String :=
  ((g.frame.bind (·.about)).map (·.text)).getD Content.defaultMeta

/-- The tree of a grammar. -/
def node (g : GrammarPhrase) : Node :=
  .node (.grammar g.titleText g.aboutText)
    (commentNodes (QuotedPhrase.leadingOf g.title) ++ g.bodyNodes ++ commentNodes g.trailing)

/-- Whether a grammar can be read within the limit for open constructs. -/
def Fits (g : GrammarPhrase) : Prop := ∀ r ∈ g.rules, r.Fits

lemma areRules {rules : List RulePhrase} (h : ∀ r ∈ rules, r.Fits) :
    AreRules (kinds (rules.flatMap (·.words))) := by
  induction rules with
  | nil => exact .nil
  | cons r rules ih =>
    have hr := RulePhrase.isRule (h r (by simp))
    have hrules := ih fun r' hr' => h r' (by simp [hr'])
    simpa using AreRules.cons hr hrules

/-- The words of a grammar phrase are a sentence. -/
lemma isSentence {g : GrammarPhrase} (h : g.Fits) : IsSentence (kinds g.words) := by
  have htitle := QuotedPhrase.isOptionalTerminal g.title
  have hrules := areRules h
  cases hf : g.frame with
  | none => simpa [words, bodyWords, hf] using IsSentence.plain htitle hrules
  | some f =>
    have habout := QuotedPhrase.isOptionalTerminal f.about
    simpa [words, bodyWords, hf] using IsSentence.framed htitle hrules habout

end GrammarPhrase

lemma IsRule.exists_phrase {ks : List TokenKind} (h : IsRule ks) :
    ∃ r : RulePhrase, r.Fits ∧ r.words = ks.map sample := by
  obtain ⟨hy, he, hn, hz⟩ := h
  obtain ⟨e, rfl, hw⟩ := he.exists_phrase
  exact ⟨⟨[], "a", [], _, [], e, _, hy, hz⟩, hn, by simp [RulePhrase.words, hw, sample]⟩

lemma AreRules.exists_phrases {ks : List TokenKind} (h : AreRules ks) :
    ∃ rules : List RulePhrase, (∀ r ∈ rules, r.Fits) ∧
      rules.flatMap (·.words) = ks.map sample := by
  induction h with
  | nil => exact ⟨[], by simp, rfl⟩
  | cons hr _ ih =>
    obtain ⟨r, hfit, hw⟩ := hr.exists_phrase
    obtain ⟨rules, hfits, hws⟩ := ih
    refine ⟨r :: rules, ?_, by simp [hw, hws]⟩
    simpa using ⟨hfit, hfits⟩

lemma IsOptionalTerminal.exists_phrase {ks : List TokenKind} (h : IsOptionalTerminal ks) :
    ∃ q : Option QuotedPhrase, QuotedPhrase.wordsOf q = ks.map sample := by
  cases h with
  | absent => exact ⟨none, rfl⟩
  | present => exact ⟨some ⟨[], ""⟩, rfl⟩

/-- Every sentence is that of a grammar phrase without comments, with the same texts everywhere. -/
lemma IsSentence.exists_phrase {ks : List TokenKind} (h : IsSentence ks) :
    ∃ g : GrammarPhrase, g.Fits ∧ g.words = ks.map sample := by
  cases h with
  | framed ht hr ha =>
    obtain ⟨title, ht⟩ := ht.exists_phrase
    obtain ⟨rules, hfits, hr⟩ := hr.exists_phrases
    obtain ⟨about, ha⟩ := ha.exists_phrase
    refine ⟨⟨title, some ⟨[], [], about⟩, rules, []⟩, hfits, ?_⟩
    simp [GrammarPhrase.words, GrammarPhrase.bodyWords, ht, hr, ha, sample]
  | plain ht hr =>
    obtain ⟨title, ht⟩ := ht.exists_phrase
    obtain ⟨rules, hfits, hr⟩ := hr.exists_phrases
    refine ⟨⟨title, none, rules, []⟩, hfits, ?_⟩
    simp [GrammarPhrase.words, GrammarPhrase.bodyWords, ht, hr, sample]

end GrammarTree
