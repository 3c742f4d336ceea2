/-
# Ways to write the same grammar

The notation leaves some things to taste: which of the definition symbols stands behind the name of
a rule, which of the terminators ends it, and whether a comma stands between two terms.  Words are a
`Variant` of others if they differ from them in nothing else, and add no commas.  A text that differs
from a parsed one in this way has the same tree, with the comments where they were.

This is traced through phrases.  A variant of the words of a phrase is what another phrase reads as,
one from which the same is built (`hasVariants`).  The only phrase that changes its form is a
sequence that loses a comma; the comments on both sides of the comma then stand between the terms.

Blanks and the kind of quotes do not even show in the words (`words_of_requoted`).
-/
import GrammarTree.Proofs.Parse.Completeness
import GrammarTree.Proofs.Parse.Growing
import GrammarTree.Proofs.Spelling
import GrammarTree.Snapshot

namespace GrammarTree

open Parse Word

/-! ### Variants of words -/

/-- `Variant vs ws`: the words `ws` are `vs` with other definition symbols and terminators in the
place of some, and with some commas left out. -/
inductive Variant : List Word → List Word → Prop
  | nil : Variant [] []
  | same {vs ws : List Word} (w : Word) (h : Variant vs ws) : Variant (w :: vs) (w :: ws)
  | definition {vs ws : List Word} {y z : Symbol} (hy : y.isDefinition = true)
      (hz : z.isDefinition = true) (h : Variant vs ws) :
      Variant (.symbol y :: vs) (.symbol z :: ws)
  | terminator {vs ws : List Word} {y z : Symbol} (hy : y.isTerminator = true)
      (hz : z.isTerminator = true) (h : Variant vs ws) :
      Variant (.symbol y :: vs) (.symbol z :: ws)
  | comma {vs ws : List Word} (h : Variant vs ws) : Variant (.symbol .comma :: vs) ws

/-- Whether a word is the same in all variants. -/
def Word.IsFixed : Word → Prop
  | symbol y => y.isDefinition = false ∧ y.isTerminator = false ∧ y ≠ .comma
  | _ => True

lemma Word.isFixed_opening (b : Enclosure) : (Word.symbol b.opening).IsFixed := by
  cases b <;> exact ⟨rfl, rfl, by simp [Enclosure.opening]⟩

lemma Word.isFixed_closing (b : Enclosure) : (Word.symbol b.closing).IsFixed := by
  cases b <;> exact ⟨rfl, rfl, by simp [Enclosure.closing]⟩

namespace Variant

variable {us vs ws : List Word} {w : Word}

lemma refl (ws : List Word) : Variant ws ws := by
  induction ws with
  | nil => exact .nil
  | cons w ws ih => exact .same w ih

lemma of_nil (h : Variant [] ws) : ws = [] := by
  cases h
  rfl

lemma of_fixed (hw : w.IsFixed) (h : Variant (w :: vs) ws) :
    ∃ ws', ws = w :: ws' ∧ Variant vs ws' := by
  cases h with
  | same _ h => exact ⟨_, rfl, h⟩
  | definition hy => exact absurd hw.1 (by simp [hy])
  | terminator hy => exact absurd hw.2.1 (by simp [hy])
  | comma => exact absurd rfl hw.2.2

lemma of_definition {y : Symbol} (hy : y.isDefinition = true) (h : Variant (.symbol y :: vs) ws) :
    ∃ z ws', z.isDefinition = true ∧ ws = .symbol z :: ws' ∧ Variant vs ws' := by
  cases h with
  | same _ h => exact ⟨y, _, hy, rfl, h⟩
  | definition _ hz h => exact ⟨_, _, hz, rfl, h⟩
  | terminator hy' => cases y <;> cases hy <;> cases hy'
  | comma => cases hy

lemma of_terminator {y : Symbol} (hy : y.isTerminator = true) (h : Variant (.symbol y :: vs) ws) :
    ∃ z ws', z.isTerminator = true ∧ ws = .symbol z :: ws' ∧ Variant vs ws' := by
  cases h with
  | same _ h => exact ⟨y, _, hy, rfl, h⟩
  | definition hy' => cases y <;> cases hy <;> cases hy'
  | terminator _ hz h => exact ⟨_, _, hz, rfl, h⟩
  | comma => cases hy

lemma of_comma (h : Variant (.symbol .comma :: vs) ws) :
    Variant vs ws ∨ ∃ ws', ws = .symbol .comma :: ws' ∧ Variant vs ws' := by
  cases h with
  | same _ h => exact Or.inr ⟨_, rfl, h⟩
  | definition hy => cases hy
  | terminator hy => cases hy
  | comma h => exact Or.inl h

lemma of_append (h : Variant (us ++ vs) ws) :
    ∃ us' vs', ws = us' ++ vs' ∧ Variant us us' ∧ Variant vs vs' := by
  induction us generalizing ws with
  | nil => exact ⟨[], ws, rfl, .nil, h⟩
  | cons u us ih =>
    rw [List.cons_append] at h
    cases h with
    | same _ h =>
      obtain ⟨us', vs', rfl, hus, hvs⟩ := ih h
      exact ⟨u :: us', vs', rfl, .same u hus, hvs⟩
    | definition hy hz h =>
      obtain ⟨us', vs', rfl, hus, hvs⟩ := ih h
      exact ⟨_ :: us', vs', rfl, .definition hy hz hus, hvs⟩
    | terminator hy hz h =>
      obtain ⟨us', vs', rfl, hus, hvs⟩ := ih h
      exact ⟨_ :: us', vs', rfl, .terminator hy hz hus, hvs⟩
    | comma h =>
      obtain ⟨us', vs', rfl, hus, hvs⟩ := ih h
      exact ⟨us', vs', rfl, .comma hus, hvs⟩

/-- Comments stay. -/
lemma of_comments {ds : List String} (h : Variant (comments ds) ws) : ws = comments ds := by
  induction ds generalizing ws with
  | nil => exact h.of_nil
  | cons d ds ih =>
    obtain ⟨ws', rfl, h₁⟩ := h.of_fixed (w := .comment d) trivial
    rw [ih h₁]
    rfl

/-- Comments in front of other words stay. -/
lemma of_comments_append {ds : List String} (h : Variant (comments ds ++ vs) ws) :
    ∃ ws', ws = comments ds ++ ws' ∧ Variant vs ws' := by
  obtain ⟨cs, ws', rfl, hcs, h₁⟩ := h.of_append
  exact ⟨ws', by rw [hcs.of_comments], h₁⟩

/-- A last word stays. -/
lemma of_last (hw : w.IsFixed) (h : Variant [w] ws) : ws = [w] := by
  obtain ⟨ws', rfl, h₁⟩ := h.of_fixed hw
  rw [h₁.of_nil]

end Variant

/-! ### Phrases -/

/-- Every variant of the words of a phrase is read as a phrase from which the same is built, and
which needs as many open constructs. -/
def HasVariants {x : Nonterminal} (p : Phrase x) : Prop :=
  ∀ ws, Variant p.words ws → ∃ q : Phrase x, q.words = ws ∧ q.build = p.build ∧ q.need = p.need

lemma hasVariants_enclosed (b : Enclosure) (ds : List String) {e : Phrase .expression}
    (ih : HasVariants e) : HasVariants (.enclosed b ds e) := by
  intro ws h
  simp only [Phrase.words, List.append_assoc, List.cons_append] at h
  obtain ⟨ws, rfl, h₁⟩ := h.of_fixed (isFixed_opening b)
  obtain ⟨ws, rfl, h₂⟩ := h₁.of_comments_append
  obtain ⟨es, zs, rfl, he, hz⟩ := h₂.of_append
  obtain ⟨e', rfl, hbuild, hneed⟩ := ih es he
  rw [hz.of_last (isFixed_closing b)]
  refine ⟨.enclosed b ds e', by simp [Phrase.words], ?_, ?_⟩
  · rw [Phrase.build, Phrase.build, hbuild]
  · rw [Phrase.need, Phrase.need, hneed]

lemma hasVariants_except {i : Nat} {l : Phrase (.term i)} (ds es : List String)
    {r : Phrase .factor} (ihl : HasVariants l) (ihr : HasVariants r) :
    HasVariants (.except l ds es r) := by
  intro ws h
  simp only [Phrase.words, List.append_assoc, List.cons_append] at h
  obtain ⟨ls, ws, rfl, hl, h₁⟩ := h.of_append
  obtain ⟨ws, rfl, h₂⟩ := h₁.of_comments_append
  obtain ⟨ws, rfl, h₃⟩ := h₂.of_fixed (w := .symbol .minus) ⟨rfl, rfl, by simp⟩
  obtain ⟨rs, rfl, hr⟩ := h₃.of_comments_append
  obtain ⟨l', rfl, hlbuild, hlneed⟩ := ihl ls hl
  obtain ⟨r', rfl, hrbuild, hrneed⟩ := ihr rs hr
  refine ⟨.except l' ds es r', by simp [Phrase.words], ?_, ?_⟩
  · rw [Phrase.build, Phrase.build, hlbuild, hrbuild]
  · rw [Phrase.need, Phrase.need, hlneed, hrneed]

lemma hasVariants_last {i : Nat} {t : Phrase (.term i)} (ds : List String) (ih : HasVariants t) :
    HasVariants (.last t ds) := by
  intro ws h
  rw [Phrase.words] at h
  obtain ⟨ts, cs, rfl, ht, hcs⟩ := h.of_append
  obtain ⟨t', rfl, hbuild, hneed⟩ := ih ts ht
  rw [hcs.of_comments]
  refine ⟨.last t' ds, rfl, ?_, hneed⟩
  rw [Phrase.build, Phrase.build, hbuild]

/-- Where the comma is left out, the comments on both sides of it come together. -/
lemma hasVariants_comma {i : Nat} {t : Phrase (.term i)} (ds es : List String)
    {r : Phrase .sequence} (iht : HasVariants t) (ihr : HasVariants r) :
    HasVariants (.comma t ds es r) := by
  intro ws h
  simp only [Phrase.words, List.append_assoc, List.cons_append] at h
  obtain ⟨ts, ws, rfl, ht, h₁⟩ := h.of_append
  obtain ⟨t', rfl, htbuild, htneed⟩ := iht ts ht
  obtain ⟨ws, rfl, h₂⟩ := h₁.of_comments_append
  rcases h₂.of_comma with h₃ | ⟨ws, rfl, h₃⟩
  · obtain ⟨rs, rfl, hr⟩ := h₃.of_comments_append
    obtain ⟨r', rfl, hrbuild, hrneed⟩ := ihr rs hr
    refine ⟨.beside t' (ds ++ es) r', by simp [Phrase.words], ?_, ?_⟩
    · rw [Phrase.build, Phrase.build, htbuild, hrbuild]
    · rw [Phrase.need, Phrase.need, htneed, hrneed]
  · obtain ⟨rs, rfl, hr⟩ := h₃.of_comments_append
    obtain ⟨r', rfl, hrbuild, hrneed⟩ := ihr rs hr
    refine ⟨.comma t' ds es r', by simp [Phrase.words], ?_, ?_⟩
    · rw [Phrase.build, Phrase.build, htbuild, hrbuild]
    · rw [Phrase.need, Phrase.need, htneed, hrneed]

lemma hasVariants_beside {i : Nat} {t : Phrase (.term i)} (ds : List String)
    {r : Phrase .sequence} (iht : HasVariants t) (ihr : HasVariants r) :
    HasVariants (.beside t ds r) := by
  intro ws h
  simp only [Phrase.words, List.append_assoc] at h
  obtain ⟨ts, ws, rfl, ht, h₁⟩ := h.of_append
  obtain ⟨rs, rfl, hr⟩ := h₁.of_comments_append
  obtain ⟨t', rfl, htbuild, htneed⟩ := iht ts ht
  obtain ⟨r', rfl, hrbuild, hrneed⟩ := ihr rs hr
  refine ⟨.beside t' ds r', by simp [Phrase.words], ?_, ?_⟩
  · rw [Phrase.build, Phrase.build, htbuild, hrbuild]
  · rw [Phrase.need, Phrase.need, htneed, hrneed]

lemma hasVariants_choice {s : Phrase .sequence} (ds : List String) {r : Phrase .expression}
    (ihs : HasVariants s) (ihr : HasVariants r) : HasVariants (.choice s ds r) := by
  intro ws h
  simp only [Phrase.words, List.append_assoc, List.cons_append] at h
  obtain ⟨ss, ws, rfl, hs, h₁⟩ := h.of_append
  obtain ⟨ws, rfl, h₂⟩ := h₁.of_fixed (w := .symbol .pipe) ⟨rfl, rfl, by simp⟩
  obtain ⟨rs, rfl, hr⟩ := h₂.of_comments_append
  obtain ⟨s', rfl, hsbuild, hsneed⟩ := ihs ss hs
  obtain ⟨r', rfl, hrbuild, hrneed⟩ := ihr rs hr
  refine ⟨.choice s' ds r', by simp [Phrase.words], ?_, ?_⟩
  · rw [Phrase.build, Phrase.build, hsbuild, hrbuild]
  · rw [Phrase.need, Phrase.need, hsneed, hrneed]

/-- Every phrase has all its variants. -/
lemma hasVariants {x : Nonterminal} (p : Phrase x) : HasVariants p := by
  induction p with
  | name t =>
    intro ws h
    exact ⟨.name t, (h.of_last (w := .name t) trivial).symm, rfl, rfl⟩
  | quoted t =>
    intro ws h
    exact ⟨.quoted t, (h.of_last (w := .quoted t) trivial).symm, rfl, rfl⟩
  | enclosed b ds e ih => exact hasVariants_enclosed b ds ih
  | factor f ih =>
    intro ws h
    obtain ⟨f', hwords, hbuild, hneed⟩ := ih ws h
    exact ⟨.factor f', hwords, hbuild, hneed⟩
  | except l ds es r ihl ihr => exact hasVariants_except ds es ihl ihr
  | last t ds ih => exact hasVariants_last ds ih
  | comma t ds es r iht ihr => exact hasVariants_comma ds es iht ihr
  | beside t ds r iht ihr => exact hasVariants_beside ds iht ihr
  | single s ih =>
    intro ws h
    obtain ⟨s', hwords, hbuild, hneed⟩ := ih ws h
    refine ⟨.single s', hwords, ?_, hneed⟩
    rw [Phrase.build, Phrase.build, hbuild]
  | choice s ds r ihs ihr => exact hasVariants_choice ds ihs ihr

/-! ### Rules and grammars -/

lemma RulePhrase.exists_variant (r : RulePhrase) {ws : List Word} (h : Variant r.words ws) :
    ∃ r' : RulePhrase, r'.words = ws ∧ r'.nodes = r.nodes ∧ (r.Fits → r'.Fits) := by
  simp only [words, List.append_assoc, List.cons_append] at h
  obtain ⟨ws, rfl, h₁⟩ := h.of_comments_append
  obtain ⟨ws, rfl, h₂⟩ := h₁.of_fixed (w := .name r.name) trivial
  obtain ⟨ws, rfl, h₃⟩ := h₂.of_comments_append
  obtain ⟨y, ws, hy, rfl, h₄⟩ := h₃.of_definition r.isDefinition
  obtain ⟨ws, rfl, h₅⟩ := h₄.of_comments_append
  obtain ⟨es, zs, rfl, he, hend⟩ := h₅.of_append
  obtain ⟨e, rfl, hbuild, hneed⟩ := hasVariants r.body es he
  obtain ⟨z, zs, hz, rfl, hnil⟩ := hend.of_terminator r.isTerminator
  rw [hnil.of_nil]
  refine ⟨⟨r.leading, r.name, r.before, y, r.after, e, z, hy, hz⟩, by simp [words], ?_, ?_⟩
  · rw [nodes, nodes, node, node, hbuild]
  · intro hfit
    rwa [Fits, hneed]

lemma RulePhrase.exists_variants {rs : List RulePhrase} {ws : List Word}
    (h : Variant (rs.flatMap (·.words)) ws) (hfits : ∀ r ∈ rs, r.Fits) :
    ∃ rs' : List RulePhrase, rs'.flatMap (·.words) = ws ∧
      rs'.flatMap (·.nodes) = rs.flatMap (·.nodes) ∧ ∀ r ∈ rs', r.Fits := by
  induction rs generalizing ws with
  | nil => exact ⟨[], h.of_nil.symm, rfl, by simp⟩
  | cons r rs ih =>
    rw [List.flatMap_cons] at h
    obtain ⟨us, vs, rfl, hr, hrs⟩ := h.of_append
    obtain ⟨r', rfl, hnode, hfit⟩ := r.exists_variant hr
    obtain ⟨rs', rfl, hnodes, hfits'⟩ := ih hrs fun q hq => hfits q (by simp [hq])
    refine ⟨r' :: rs', rfl, by simp [hnode, hnodes], ?_⟩
    simpa using ⟨hfit (hfits r (by simp)), hfits'⟩

/-- A quoted text that may be absent stays. -/
lemma QuotedPhrase.wordsOf_variant {q : Option QuotedPhrase} {ws : List Word}
    (h : Variant (wordsOf q) ws) : ws = wordsOf q := by
  cases q with
  | none => exact h.of_nil
  | some q =>
    obtain ⟨ws, rfl, h₁⟩ := h.of_comments_append
    rw [h₁.of_last (w := .quoted q.text) trivial]
    rfl

namespace GrammarPhrase

/-- The part of a grammar between the title and the last comments. -/
lemma exists_rules_of_variant (g : GrammarPhrase) (hfit : g.Fits) {ws : List Word}
    (h : Variant g.bodyWords ws) :
    ∃ rs : List RulePhrase, bodyWords { g with rules := rs } = ws ∧
      bodyNodes { g with rules := rs } = g.bodyNodes ∧ ∀ r ∈ rs, r.Fits := by
  unfold bodyWords bodyNodes at *
  cases hframe : g.frame with
  | none =>
    rw [hframe] at h
    exact RulePhrase.exists_variants h hfit
  | some f =>
    rw [hframe] at h
    simp only [List.append_assoc, List.cons_append] at h
    obtain ⟨ws, rfl, h₁⟩ := h.of_comments_append
    obtain ⟨ws, rfl, h₂⟩ := h₁.of_fixed (w := .symbol .openBrace) ⟨rfl, rfl, by simp⟩
    obtain ⟨us, ws, rfl, hrules, h₃⟩ := h₂.of_append
    obtain ⟨ws, rfl, h₄⟩ := h₃.of_comments_append
    obtain ⟨ws, rfl, h₅⟩ := h₄.of_fixed (w := .symbol .closeBrace) ⟨rfl, rfl, by simp⟩
    obtain ⟨rs, rfl, hnodes, hfits⟩ := RulePhrase.exists_variants hrules hfit
    rw [QuotedPhrase.wordsOf_variant h₅]
    exact ⟨rs, by simp, by simp [hnodes], hfits⟩

/-- A variant of the words of a grammar is read as a grammar with the same tree. -/
lemma exists_variant (g : GrammarPhrase) (hfit : g.Fits) {ws : List Word}
    (h : Variant g.words ws) :
    ∃ g' : GrammarPhrase, g'.Fits ∧ g'.words = ws ∧ g'.node = g.node := by
  rw [words, List.append_assoc, List.append_assoc] at h
  obtain ⟨ts, ws, rfl, htitle, h₁⟩ := h.of_append
  obtain ⟨us, ws, rfl, hbody, h₂⟩ := h₁.of_append
  obtain ⟨ws, rfl, h₃⟩ := h₂.of_comments_append
  obtain ⟨rs, rfl, hnodes, hfits⟩ := g.exists_rules_of_variant hfit hbody
  rw [QuotedPhrase.wordsOf_variant htitle, h₃.of_last (w := .finish) trivial]
  refine ⟨{ g with rules := rs }, hfits, by simp [words], ?_⟩
  rw [node, node, hnodes]
  rfl

end GrammarPhrase

/-- A stream with a variant of the words of one that is parsed is parsed to the same tree. -/
lemma grammar_of_variant {stream other : Stream} {tree : Node} (h : grammar stream = .ok tree)
    (hwords : Variant (stream.tokens.map Token.word) (other.tokens.map Token.word)) :
    grammar other = .ok tree := by
  obtain ⟨g, hfit, rfl, -, hg⟩ := exists_phrase_of_grammar h
  rw [hg] at hwords
  obtain ⟨g', hfit', hwords', hnode⟩ := g.exists_variant hfit hwords
  rw [← hnode]
  exact grammar_of_words g' hfit' hwords'.symm

/-! ### Blanks and quotes -/

/-- A piece with double quotes in the place of the quotes around a text. -/
def Piece.requoted : Piece → Piece
  | lexeme (.quoted _ content) => lexeme (.quoted .double content)
  | p => p

lemma Piece.exists_lexeme_of_requoted {l : Lexeme} {p : Piece}
    (h : (lexeme l).requoted = p.requoted) : ∃ m : Lexeme, p = .lexeme m ∧ m.word = l.word := by
  match p with
  | .fault f => cases l <;> cases h
  | .lexeme m =>
    refine ⟨m, rfl, ?_⟩
    cases l <;> cases m <;> cases h <;> rfl

lemma exists_lexemes_of_requoted {segs others : List Segment} {ls : List Lexeme}
    (h : segs.map (·.piece.requoted) = others.map (·.piece.requoted))
    (hls : segs.map (·.piece) = ls.map .lexeme) :
    ∃ ms : List Lexeme, others.map (·.piece) = ms.map .lexeme ∧
      ms.map Lexeme.word = ls.map Lexeme.word := by
  induction segs generalizing others ls with
  | nil =>
    rw [List.map_nil, eq_comm, List.map_eq_nil_iff] at h hls
    exact ⟨[], by rw [h]; rfl, by rw [hls]⟩
  | cons s segs ih =>
    obtain ⟨l, ls, rfl, hl, hls⟩ := List.map_eq_cons_iff.1 hls.symm
    obtain ⟨t, others, rfl, ht, hothers⟩ := List.map_eq_cons_iff.1 h.symm
    have hst : (Piece.lexeme l).requoted = t.piece.requoted := by rw [hl, ht]
    obtain ⟨m, hm, hword⟩ := Piece.exists_lexeme_of_requoted hst
    obtain ⟨ms, hms, hwords⟩ := ih hothers.symm hls.symm
    exact ⟨m :: ms, by simp [hm, hms], by simp [hword, hwords]⟩

/-- Texts without faults whose pieces differ in nothing but the quotes have the same words. -/
lemma words_of_requoted {source other : String} (hfault : (Stream.ofSource source).fault? = none)
    (h : (segments source).map (·.piece.requoted) = (segments other).map (·.piece.requoted)) :
    (Stream.ofSource other).tokens.map Token.word =
      (Stream.ofSource source).tokens.map Token.word := by
  obtain ⟨ls, hls⟩ := Stream.exists_lexemes hfault
  obtain ⟨ms, hms, hwords⟩ := exists_lexemes_of_requoted h hls
  rw [Stream.ofSource, Stream.ofSource, words_ofSegments _ hms, words_ofSegments _ hls, hwords]

/-! ### The theorem -/

/-- Two texts are parsed to a tree, and grow to forests that hold this tree and are of the same
size. -/
def ParsedAlike (tree : Node) (source other : String) : Prop :=
  parse source = .ok tree ∧ parse other = .ok tree ∧
    ∃ f f', grow source = some (.ok f) ∧ grow other = some (.ok f') ∧ f.tree = tree ∧
      f'.tree = tree ∧ f'.size = f.size ∧ Snapshot.ofTree f'.tree = Snapshot.ofTree f.tree

lemma parsedAlike_of_parse {source other : String} {tree : Node} (h : parse source = .ok tree)
    (h' : parse other = .ok tree) : ParsedAlike tree source other := by
  obtain ⟨f, hgrow, htree, hsize⟩ := exists_forest_of_parse h
  obtain ⟨f', hgrow', htree', hsize'⟩ := exists_forest_of_parse h'
  exact ⟨h, h', f, f', hgrow, hgrow', htree, htree', hsize'.trans hsize.symm, by rw [htree, htree']⟩

/-- A text whose words are a variant of those of a parsed text is parsed to the same tree.  In
particular this is so if its pieces differ from those of the parsed text in nothing but the quotes,
whatever blanks stand between them. -/
theorem parse_variant {source : String} {tree : Node} (h : parse source = .ok tree)
    (other : String) :
    (∀ tokens tokens', tokenize source = .ok tokens → tokenize other = .ok tokens' →
      Variant (tokens.map Token.word) (tokens'.map Token.word) → ParsedAlike tree source other) ∧
    ((segments source).map (·.piece.requoted) = (segments other).map (·.piece.requoted) →
      ParsedAlike tree source other) := by
  constructor
  · intro tokens tokens' htokens htokens' hvariant
    obtain ⟨-, rfl⟩ := tokenize_eq_ok_iff.1 htokens
    obtain ⟨-, rfl⟩ := tokenize_eq_ok_iff.1 htokens'
    exact parsedAlike_of_parse h (grammar_of_variant h hvariant)
  · intro hpieces
    obtain ⟨g, -, -, hfault, -⟩ := exists_phrase_of_grammar h
    have hvariant : Variant ((Stream.ofSource source).tokens.map Token.word)
        ((Stream.ofSource other).tokens.map Token.word) := by
      rw [words_of_requoted hfault hpieces]
      exact .refl _
    exact parsedAlike_of_parse h (grammar_of_variant h hvariant)

/-- A comma between comments that is left out, and other blanks and quotes. -/
theorem parse_variant_of_sequence :
    ∃ tree, tree = .node (.grammar "" Content.defaultMeta) [.node (.rule "a") [
        Tree.leaf (.identifier "a"), .node .sequence [Tree.leaf (.terminal "b"),
          Tree.leaf (.comment "1"), Tree.leaf (.comment "2"), Tree.leaf (.identifier "c")]]] ∧
      ParsedAlike tree "a = 'b' (*1*), (*2*) c;" "a : 'b' (*1*) (*2*) c." ∧
      ParsedAlike tree "a = 'b' (*1*), (*2*) c;" "a=\"b\"(*1*),\n(*2*)c ;" := by
  obtain ⟨tree, hparse, htree⟩ : ∃ tree, parse "a = 'b' (*1*), (*2*) c;" = .ok tree ∧
      tree = .node (.grammar "" Content.defaultMeta) [.node (.rule "a") [
        Tree.leaf (.identifier "a"), .node .sequence [Tree.leaf (.terminal "b"),
          Tree.leaf (.comment "1"), Tree.leaf (.comment "2"), Tree.leaf (.identifier "c")]]] :=
    ⟨_, by decide +kernel, rfl⟩
  have htokens : tokenize "a = 'b' (*1*), (*2*) c;" = .ok _ :=
    tokenize_eq_ok_iff.2 ⟨by decide +kernel, rfl⟩
  have htokens' : tokenize "a : 'b' (*1*) (*2*) c." = .ok _ :=
    tokenize_eq_ok_iff.2 ⟨by decide +kernel, rfl⟩
  have hwords : (Stream.ofSource "a = 'b' (*1*), (*2*) c;").tokens.map Token.word =
      [.name "a", .symbol .equals, .quoted "b", .comment "1", .symbol .comma, .comment "2",
        .name "c", .symbol .semicolon, .finish] := by
    decide +kernel
  have hwords' : (Stream.ofSource "a : 'b' (*1*) (*2*) c.").tokens.map Token.word =
      [.name "a", .symbol .colon, .quoted "b", .comment "1", .comment "2", .name "c",
        .symbol .period, .finish] := by
    decide +kernel
  refine ⟨tree, htree, (parse_variant hparse _).1 _ _ htokens htokens' ?_, ?_⟩
  · rw [hwords, hwords']
    exact .same _ <| .definition rfl rfl <| .same _ <| .same _ <| .comma <| .same _ <| .same _ <|
      .terminator rfl rfl <| .same _ .nil
  · exact (parse_variant hparse _).2 (by decide +kernel)

end GrammarTree
