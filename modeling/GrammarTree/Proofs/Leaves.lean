/-
# The leaves of a parsed tree

The names, quoted texts and comments in a parsed tree, read from left to right, are those of the text
in the order in which they stand there.  None is lost, none occurs twice, and none is moved past
another one.  Only the title and the meta text are no nodes, and so they are left out of the tokens
(`Token.inner`): the title is the first token that is no comment, if it is a quoted text, and in a
grammar with a frame the meta text is the last one before the end of the input, if it is one.

The proof goes by phrases.  What is built from a phrase has the leaves of the phrase's words, where
an expression also gets the comments in front of it (`keeps`).
-/
import Mathlib.Control.Monad.Basic
import GrammarTree.Proofs.Parse.Growing
import GrammarTree.Proofs.Parse.Soundness
import GrammarTree.Proofs.Walk

namespace GrammarTree

open Parse

/-! ### Leaves of trees, of tokens and of words -/

/-- The kind of the token that a leaf comes from, and the leaf's text. -/
def Content.leaf? : Content → Option (TokenKind × String)
  | .identifier v => some (.identifier, v)
  | .terminal v => some (.terminal, v)
  | .comment v => some (.comment, v)
  | _ => none

/-- The kind and the text of a token that becomes a leaf. -/
def Token.leaf? (t : Token) : Option (TokenKind × String) :=
  match t.kind with
  | .identifier | .terminal | .comment => some (t.kind, t.text)
  | _ => none

/-- The kind and the text of a word that becomes a leaf. -/
def Word.leaf? : Word → Option (TokenKind × String)
  | name v => some (.identifier, v)
  | quoted v => some (.terminal, v)
  | comment v => some (.comment, v)
  | _ => none

lemma Token.leaf?_eq (t : Token) : t.leaf? = t.word.leaf? := by
  cases hk : t.kind <;> simp [leaf?, word, hk, Word.leaf?]

/-- The leaves of some trees in reading order. -/
def leavesOf (ts : List Node) : List (TokenKind × String) :=
  (Tree.preorderOf ts).filterMap (·.label.leaf?)

/-- The leaves that some words become. -/
def wordLeaves (ws : List Word) : List (TokenKind × String) := ws.filterMap Word.leaf?

@[simp] lemma leavesOf_nil : leavesOf [] = [] := by
  simp [leavesOf]

@[simp] lemma leavesOf_append (ts us : List Node) :
    leavesOf (ts ++ us) = leavesOf ts ++ leavesOf us := by
  simp [leavesOf, Tree.preorderOf_append]

lemma leavesOf_cons (t : Node) (ts : List Node) :
    leavesOf (t :: ts) = leavesOf [t] ++ leavesOf ts :=
  leavesOf_append [t] ts

/-- A node that is no leaf has the leaves of its children. -/
lemma leavesOf_node {c : Content} (h : c.leaf? = none) (ts : List Node) :
    leavesOf [.node c ts] = leavesOf ts := by
  have hwalk : Tree.preorderOf [.node c ts] = .node c ts :: Tree.preorderOf ts :=
    Tree.preorder_node c ts
  simp [leavesOf, hwalk, h]

lemma leavesOf_leaf {c : Content} {l : TokenKind × String} (h : c.leaf? = some l) :
    leavesOf [Tree.leaf c] = [l] := by
  have hwalk : Tree.preorderOf [Tree.leaf c] = [Tree.leaf c] := Tree.preorder_leaf c
  have hlabel : (Tree.leaf c).label = c := rfl
  simp [leavesOf, hwalk, hlabel, h]

@[simp] lemma wordLeaves_append (vs ws : List Word) :
    wordLeaves (vs ++ ws) = wordLeaves vs ++ wordLeaves ws :=
  List.filterMap_append

@[simp] lemma wordLeaves_nil : wordLeaves [] = [] := rfl

@[simp] lemma wordLeaves_symbol (y : Symbol) (ws : List Word) :
    wordLeaves (.symbol y :: ws) = wordLeaves ws := rfl

@[simp] lemma wordLeaves_name (v : String) (ws : List Word) :
    wordLeaves (.name v :: ws) = (.identifier, v) :: wordLeaves ws := rfl

@[simp] lemma wordLeaves_quoted (v : String) (ws : List Word) :
    wordLeaves (.quoted v :: ws) = (.terminal, v) :: wordLeaves ws := rfl

@[simp] lemma wordLeaves_finish : wordLeaves [.finish] = [] := rfl

/-- Comment nodes and the words of these comments have the same leaves. -/
@[simp] lemma leavesOf_commentNodes (ds : List String) :
    leavesOf (commentNodes ds) = wordLeaves (Word.comments ds) := by
  induction ds with
  | nil => simp
  | cons d ds ih =>
    have hcons : commentNodes (d :: ds) = Tree.leaf (.comment d) :: commentNodes ds := rfl
    rw [hcons, leavesOf_cons, ih, leavesOf_leaf (c := .comment d) rfl]
    rfl

/-! ### Phrases -/

/-- Putting the items of a sequence together keeps the leaves. -/
lemma leavesOf_joinTerms (n : Nat) (items : List Node) :
    leavesOf (joinTerms n items) = leavesOf items := by
  unfold joinTerms
  split
  · rfl
  · exact leavesOf_node rfl items

/-- Putting alternatives together keeps the leaves. -/
lemma leavesOf_joinAlternatives (alternatives : List (List Node)) :
    leavesOf (joinAlternatives alternatives) = leavesOf alternatives.flatten := by
  unfold joinAlternatives
  split
  · rfl
  · simp
  · exact leavesOf_node rfl _

/-- What is built from a phrase has the leaves of its words. -/
def Keeps : {x : Nonterminal} → Phrase x → Prop
  | .factor, f => leavesOf [f.build] = wordLeaves f.words
  | .term _, t => leavesOf [t.build] = wordLeaves t.words
  | .sequence, q => leavesOf q.build.2 = wordLeaves q.words
  | .expression, e => ∀ lead : List Node,
    leavesOf (e.build lead).flatten = leavesOf lead ++ wordLeaves e.words

/-- A term in front of more terms, with comments between them. -/
lemma keeps_cons {i : Nat} {t : Phrase (.term i)} {q : Phrase .sequence} (iht : Keeps t)
    (ihq : Keeps q) (ds : List String) :
    leavesOf (t.build :: (commentNodes ds ++ q.build.2)) =
      wordLeaves t.words ++ wordLeaves (Word.comments ds) ++ wordLeaves q.words := by
  have ht : leavesOf [t.build] = wordLeaves t.words := iht
  have hq : leavesOf q.build.2 = wordLeaves q.words := ihq
  rw [leavesOf_cons, ht, leavesOf_append, leavesOf_commentNodes, hq, List.append_assoc]

/-- A sequence as the only or the first alternative. -/
lemma Keeps.join {q : Phrase .sequence} (h : Keeps q) (lead : List Node) :
    leavesOf (joinTerms q.build.1 (lead ++ q.build.2)) =
      leavesOf lead ++ wordLeaves q.words := by
  have hq : leavesOf q.build.2 = wordLeaves q.words := h
  rw [leavesOf_joinTerms, leavesOf_append, hq]

/-- Every phrase keeps its leaves. -/
lemma keeps {x : Nonterminal} (p : Phrase x) : Keeps p := by
  induction p with
  | name t => exact leavesOf_leaf (c := .identifier t) rfl
  | quoted t => exact leavesOf_leaf (c := .terminal t) rfl
  | enclosed b ds e ih =>
    have hcontent : b.content.leaf? = none := by cases b <;> rfl
    show leavesOf [.node b.content (joinAlternatives (e.build (commentNodes ds)))] = _
    rw [leavesOf_node hcontent, leavesOf_joinAlternatives, ih]
    simp [Phrase.words]
  | factor f ih => exact ih
  | except l ds es r ihl ihr =>
    have hl : leavesOf [l.build] = wordLeaves l.words := ihl
    have hr : leavesOf [r.build] = wordLeaves r.words := ihr
    show leavesOf [.node .exception (l.build :: commentNodes (ds ++ es) ++ [r.build])] = _
    rw [leavesOf_node rfl, leavesOf_append, leavesOf_cons, hl, hr]
    simp [Phrase.words]
  | last t ds ih =>
    have ht : leavesOf [t.build] = wordLeaves t.words := ih
    show leavesOf (t.build :: commentNodes ds) = _
    rw [leavesOf_cons, ht]
    simp [Phrase.words]
  | comma t ds es r iht ihr =>
    have hcons := keeps_cons iht ihr (ds ++ es)
    show leavesOf (t.build :: (commentNodes (ds ++ es) ++ r.build.2)) = _
    rw [hcons]
    simp [Phrase.words]
  | beside t ds r iht ihr =>
    have hcons := keeps_cons iht ihr ds
    show leavesOf (t.build :: (commentNodes ds ++ r.build.2)) = _
    rw [hcons]
    simp [Phrase.words]
  | single q ih =>
    intro lead
    have hjoin := ih.join lead
    show leavesOf [joinTerms q.build.1 (lead ++ q.build.2)].flatten = _
    rw [List.flatten_singleton, hjoin]
    rfl
  | choice q ds r ihq ihr =>
    intro lead
    have hjoin := ihq.join lead
    have hrest := ihr (commentNodes ds)
    show leavesOf (joinTerms q.build.1 (lead ++ q.build.2) ::
      r.build (commentNodes ds)).flatten = _
    rw [List.flatten_cons, leavesOf_append, hjoin, hrest]
    simp [Phrase.words]

/-! ### Rules and grammars -/

/-- The nodes of a rule and of the comments in front of it have the leaves of the rule's words. -/
lemma leavesOf_rule (r : RulePhrase) : leavesOf r.nodes = wordLeaves r.words := by
  have hbody := keeps r.body []
  have hname : leavesOf [Tree.leaf (.identifier r.name)] = [(.identifier, r.name)] :=
    leavesOf_leaf (c := .identifier r.name) rfl
  rw [RulePhrase.nodes, leavesOf_append, RulePhrase.node, leavesOf_node rfl, leavesOf_append,
    leavesOf_cons, hname, leavesOf_joinAlternatives, hbody]
  simp [RulePhrase.words]

lemma leavesOf_rules (rs : List RulePhrase) :
    leavesOf (rs.flatMap (·.nodes)) = wordLeaves (rs.flatMap (·.words)) := by
  induction rs with
  | nil => simp
  | cons r rs ih =>
    rw [List.flatMap_cons, List.flatMap_cons, leavesOf_append, leavesOf_rule, ih,
      wordLeaves_append]

/-! ### Leaving out the title and the meta text -/

section Inner

variable {α : Type} (kind : α → TokenKind)

/-- A list without its first element that is no comment, if this is a quoted text. -/
def dropQuoted : List α → List α
  | [] => []
  | a :: as =>
    match kind a with
    | .comment => a :: dropQuoted as
    | .terminal => as
    | _ => a :: as

/-- Whether the first element that is no comment is an opening brace. -/
def isFramed (as : List α) : Bool :=
  match as.find? (kind · ≠ .comment) with
  | some a => kind a = .symbol .openBrace
  | none => false

/-- What stands between the title and the meta text, which are quoted texts; there is a meta text
only behind a frame.  The last element is the end of the input. -/
def innerOf (as : List α) : List α :=
  let rest := (dropQuoted kind as).dropLast
  if isFramed kind rest then (dropQuoted kind rest.reverse).reverse else rest

end Inner

/-- Tokens without the title and the meta text. -/
def Token.inner (tokens : List Token) : List Token := innerOf Token.kind tokens

section Inner

variable {α β : Type} {kind : α → TokenKind} {kind' : β → TokenKind} {f : α → β}

lemma dropQuoted_map (h : ∀ a, kind' (f a) = kind a) (as : List α) :
    dropQuoted kind' (as.map f) = (dropQuoted kind as).map f := by
  induction as with
  | nil => rfl
  | cons a as ih =>
    rw [List.map_cons, dropQuoted, dropQuoted, h, ih]
    split <;> rfl

lemma isFramed_map (h : ∀ a, kind' (f a) = kind a) (as : List α) :
    isFramed kind' (as.map f) = isFramed kind as := by
  have hp : (fun b => decide (kind' b ≠ .comment)) ∘ f = fun a => decide (kind a ≠ .comment) := by
    funext a
    simp [h]
  unfold isFramed
  rw [List.find?_map, hp]
  cases as.find? fun a => decide (kind a ≠ .comment) with
  | none => rfl
  | some a => simp [h]

lemma innerOf_map (h : ∀ a, kind' (f a) = kind a) (as : List α) :
    innerOf kind' (as.map f) = (innerOf kind as).map f := by
  have hrest : (dropQuoted kind' (as.map f)).dropLast = (dropQuoted kind as).dropLast.map f := by
    rw [dropQuoted_map h, List.map_dropLast]
  unfold innerOf
  dsimp only
  rw [hrest, isFramed_map h, ← List.map_reverse, dropQuoted_map h, ← List.map_reverse]
  split <;> rfl

end Inner

/-- Comments are passed over. -/
lemma dropQuoted_comments (ds : List String) (ws : List Word) :
    dropQuoted Word.kind (Word.comments ds ++ ws) =
      Word.comments ds ++ dropQuoted Word.kind ws := by
  induction ds with
  | nil => rfl
  | cons d ds ih => simp [dropQuoted, ih]

lemma dropQuoted_of_kind {w : Word} (hcomment : w.kind ≠ .comment) (hquoted : w.kind ≠ .terminal)
    (ws : List Word) : dropQuoted Word.kind (w :: ws) = w :: ws := by
  rw [dropQuoted]
  split
  · exact absurd ‹_› hcomment
  · exact absurd ‹_› hquoted
  · rfl

/-- In front of something else, a quoted text that may be absent is dropped, and the comments before
it are kept. -/
lemma dropLast_dropQuoted (q : Option QuotedPhrase) {w : Word} (hcomment : w.kind ≠ .comment)
    (hquoted : w.kind ≠ .terminal) {ds : List String} {vs ws : List Word}
    (h : vs ++ [.finish] = Word.comments ds ++ w :: ws) :
    (dropQuoted Word.kind (QuotedPhrase.wordsOf q ++ vs ++ [.finish])).dropLast =
      Word.comments (QuotedPhrase.leadingOf q) ++ vs := by
  have hdrop : dropQuoted Word.kind (QuotedPhrase.wordsOf q ++ vs ++ [.finish]) =
      Word.comments (QuotedPhrase.leadingOf q) ++ vs ++ [.finish] := by
    rw [List.append_assoc, List.append_assoc]
    cases q with
    | none =>
      rw [QuotedPhrase.wordsOf, QuotedPhrase.leadingOf, List.nil_append, h, dropQuoted_comments,
        dropQuoted_of_kind hcomment hquoted]
      rfl
    | some q =>
      rw [QuotedPhrase.wordsOf, QuotedPhrase.leadingOf, List.append_assoc, dropQuoted_comments]
      rfl
  rw [hdrop, List.dropLast_concat]

lemma reverse_comments (ds : List String) :
    (Word.comments ds).reverse = Word.comments ds.reverse := by
  simp [Word.comments]

/-- The same for a quoted text that is met from behind. -/
lemma dropQuoted_reverse (q : Option QuotedPhrase) {w : Word} (hcomment : w.kind ≠ .comment)
    (hquoted : w.kind ≠ .terminal) (ds : List String) (vs : List Word) :
    (dropQuoted Word.kind
        (vs ++ w :: QuotedPhrase.wordsOf q ++ Word.comments ds).reverse).reverse =
      vs ++ w :: Word.comments (QuotedPhrase.leadingOf q) ++ Word.comments ds := by
  have hreverse : (vs ++ w :: QuotedPhrase.wordsOf q ++ Word.comments ds).reverse =
      Word.comments ds.reverse ++ ((QuotedPhrase.wordsOf q).reverse ++ w :: vs.reverse) := by
    simp [reverse_comments]
  rw [hreverse, dropQuoted_comments]
  cases q with
  | none =>
    rw [QuotedPhrase.wordsOf, List.reverse_nil, List.nil_append,
      dropQuoted_of_kind hcomment hquoted]
    simp [reverse_comments, QuotedPhrase.leadingOf]
  | some q =>
    have hdrop : dropQuoted Word.kind
        ((QuotedPhrase.wordsOf (some q)).reverse ++ w :: vs.reverse) =
          (Word.comments q.leading).reverse ++ w :: vs.reverse := by
      simp [QuotedPhrase.wordsOf, dropQuoted]
    rw [hdrop]
    simp [reverse_comments, QuotedPhrase.leadingOf]

lemma isFramed_comments (ds : List String) {w : Word} (h : w.kind ≠ .comment) (ws : List Word) :
    isFramed Word.kind (Word.comments ds ++ w :: ws) = decide (w.kind = .symbol .openBrace) := by
  have hfind : (Word.comments ds ++ w :: ws).find? (·.kind ≠ .comment) = some w := by
    induction ds with
    | nil => simp [h]
    | cons d ds ih => simpa using ih
  rw [isFramed, hfind]

lemma isFramed_only_comments (ds : List String) :
    isFramed Word.kind (Word.comments ds) = false := by
  have hfind : (Word.comments ds).find? (·.kind ≠ .comment) = none := by
    simp [Word.comments]
  rw [isFramed, hfind]

/-- A rule begins with its name, behind the comments in front of it. -/
lemma exists_words_of_rule (r : RulePhrase) :
    ∃ ws, r.words = Word.comments r.leading ++ .name r.name :: ws := by
  refine ⟨Word.comments r.before ++ .symbol r.definition :: Word.comments r.after ++
    r.body.words ++ [.symbol r.terminator], ?_⟩
  simp [RulePhrase.words]

/-- Without a frame the rules begin with a name, or there are only comments. -/
lemma innerOf_bare {g : GrammarPhrase} (hframe : g.frame = none) :
    innerOf Word.kind g.words = Word.comments (QuotedPhrase.leadingOf g.title) ++
      (g.rules.flatMap (·.words) ++ Word.comments g.trailing) := by
  have hwords : g.words = QuotedPhrase.wordsOf g.title ++
      (g.rules.flatMap (·.words) ++ Word.comments g.trailing) ++ [.finish] := by
    simp [GrammarPhrase.words, GrammarPhrase.bodyWords, hframe]
  unfold innerOf
  dsimp only
  rw [hwords]
  cases g.rules with
  | nil =>
    have hnot := isFramed_only_comments (QuotedPhrase.leadingOf g.title ++ g.trailing)
    rw [Word.comments_append] at hnot
    rw [List.flatMap_nil, List.nil_append,
      dropLast_dropQuoted g.title (w := .finish) (by simp) (by simp) rfl, hnot]
    rfl
  | cons r rs =>
    obtain ⟨ws, hr⟩ := exists_words_of_rule r
    have hfirst : (r :: rs).flatMap (·.words) ++ Word.comments g.trailing =
        Word.comments r.leading ++
          .name r.name :: (ws ++ rs.flatMap (·.words) ++ Word.comments g.trailing) := by
      simp [hr]
    have hnot := isFramed_comments (QuotedPhrase.leadingOf g.title ++ r.leading)
      (w := .name r.name) (by simp) (ws ++ rs.flatMap (·.words) ++ Word.comments g.trailing)
    rw [Word.comments_append, List.append_assoc] at hnot
    rw [hfirst, dropLast_dropQuoted g.title (w := .name r.name) (by simp) (by simp)
      (List.append_assoc _ _ _), hnot]
    rfl

/-- With a frame everything is kept but the two quoted texts. -/
lemma innerOf_framed {g : GrammarPhrase} {f : Frame} (hframe : g.frame = some f) :
    innerOf Word.kind g.words = Word.comments (QuotedPhrase.leadingOf g.title) ++
      (Word.comments f.opening ++ .symbol .openBrace ::
        (g.rules.flatMap (·.words) ++ Word.comments f.closing)) ++
      .symbol .closeBrace :: Word.comments (QuotedPhrase.leadingOf f.about) ++
        Word.comments g.trailing := by
  -- what stands behind the opening brace
  obtain ⟨vs, hvs⟩ : ∃ vs, vs = g.rules.flatMap (·.words) ++ Word.comments f.closing ++
      .symbol .closeBrace :: QuotedPhrase.wordsOf f.about ++ Word.comments g.trailing := ⟨_, rfl⟩
  have hwords : g.words = QuotedPhrase.wordsOf g.title ++
      (Word.comments f.opening ++ .symbol .openBrace :: vs) ++ [.finish] := by
    simp [GrammarPhrase.words, GrammarPhrase.bodyWords, hframe, hvs]
  have hrest : (dropQuoted Word.kind g.words).dropLast =
      Word.comments (QuotedPhrase.leadingOf g.title) ++
        (Word.comments f.opening ++ .symbol .openBrace :: vs) := by
    rw [hwords, dropLast_dropQuoted g.title (w := .symbol .openBrace) (by simp) (by simp)
      (List.append_assoc _ _ _)]
  have hyes : isFramed Word.kind (Word.comments (QuotedPhrase.leadingOf g.title) ++
      (Word.comments f.opening ++ .symbol .openBrace :: vs)) = true := by
    rw [← List.append_assoc, ← Word.comments_append, isFramed_comments _ (by simp)]
    rfl
  have hbehind : Word.comments (QuotedPhrase.leadingOf g.title) ++
      (Word.comments f.opening ++ .symbol .openBrace :: vs) =
        Word.comments (QuotedPhrase.leadingOf g.title) ++ (Word.comments f.opening ++
          .symbol .openBrace :: (g.rules.flatMap (·.words) ++ Word.comments f.closing)) ++
        .symbol .closeBrace :: QuotedPhrase.wordsOf f.about ++ Word.comments g.trailing := by
    simp [hvs]
  unfold innerOf
  dsimp only
  rw [hrest, hyes, if_pos rfl, hbehind,
    dropQuoted_reverse f.about (w := .symbol .closeBrace) (by simp) (by simp)]

/-- The tree of a grammar phrase has the leaves of its words without title and meta text. -/
lemma leavesOf_grammar (g : GrammarPhrase) :
    leavesOf [g.node] = wordLeaves (innerOf Word.kind g.words) := by
  rw [GrammarPhrase.node, leavesOf_node rfl, GrammarPhrase.bodyNodes]
  cases hframe : g.frame with
  | none => simp [innerOf_bare hframe, leavesOf_rules]
  | some f => simp [innerOf_framed hframe, leavesOf_rules]

/-! ### The theorem -/

/-- The names, quoted texts and comments among the nodes of a parsed tree, from the root on in
reading order, are those of the text in the order of its tokens, the title and the meta text left
out.  The tree is that of the forest that the text grows to. -/
theorem leaves_of_parse {source : String} {tree : Node} (h : parse source = .ok tree) :
    (∃ f : Forest, grow source = some (.ok f) ∧ f.tree = tree ∧ f.size = tree.preorder.length) ∧
    ∃ tokens, tokenize source = .ok tokens ∧
      tree.preorder.filterMap (·.label.leaf?) = (Token.inner tokens).filterMap Token.leaf? := by
  refine ⟨exists_forest_of_parse h, ?_⟩
  obtain ⟨g, -, rfl, hfault, hwords⟩ := exists_phrase_of_grammar h
  refine ⟨_, tokenize_eq_ok_iff.2 ⟨hfault, rfl⟩, ?_⟩
  have hinner : (Token.inner (Stream.ofSource source).tokens).map Token.word =
      innerOf Word.kind g.words := by
    rw [Token.inner, ← innerOf_map Token.kind_word, hwords]
  calc g.node.preorder.filterMap (·.label.leaf?)
      = wordLeaves (innerOf Word.kind g.words) := leavesOf_grammar g
    _ = ((Token.inner (Stream.ofSource source).tokens).map Token.word).filterMap Word.leaf? := by
      rw [hinner]
      rfl
    _ = (Token.inner (Stream.ofSource source).tokens).filterMap Token.leaf? := by
      rw [List.filterMap_map]
      exact congrArg (List.filterMap · _) (funext fun t => (Token.leaf?_eq t).symm)

/-- A framed grammar with comments in many places, and its leaves. -/
theorem leaves_of_framed_grammar :
    ∃ tree tokens f,
      parse "(*1*) 't' \x7b (*2*) a = b, (c (*3*)) | 'd' - (*4*) e; \x7d 'm' (*5*)" = .ok tree ∧
      grow "(*1*) 't' \x7b (*2*) a = b, (c (*3*)) | 'd' - (*4*) e; \x7d 'm' (*5*)" =
        some (.ok f) ∧ f.tree = tree ∧
      tokenize "(*1*) 't' \x7b (*2*) a = b, (c (*3*)) | 'd' - (*4*) e; \x7d 'm' (*5*)" =
        .ok tokens ∧
      tree.preorder.filterMap (·.label.leaf?) = (Token.inner tokens).filterMap Token.leaf? ∧
      tree.preorder.filterMap (·.label.leaf?) =
        [(.comment, "1"), (.comment, "2"), (.identifier, "a"), (.identifier, "b"),
          (.identifier, "c"), (.comment, "3"), (.terminal, "d"), (.comment, "4"),
          (.identifier, "e"), (.comment, "5")] := by
  have hparse :
      parse "(*1*) 't' \x7b (*2*) a = b, (c (*3*)) | 'd' - (*4*) e; \x7d 'm' (*5*)" =
      .ok (.node (.grammar "t" "m") [Tree.leaf (.comment "1"), Tree.leaf (.comment "2"),
        .node (.rule "a") [Tree.leaf (.identifier "a"),
          .node .choice [
            .node .sequence [Tree.leaf (.identifier "b"),
              .node .group [Tree.leaf (.identifier "c"), Tree.leaf (.comment "3")]],
            .node .exception [Tree.leaf (.terminal "d"), Tree.leaf (.comment "4"),
              Tree.leaf (.identifier "e")]]],
        Tree.leaf (.comment "5")]) := by decide +kernel
  obtain ⟨⟨f, hgrow, htree, -⟩, tokens, htokens, hleaves⟩ := leaves_of_parse hparse
  exact ⟨_, tokens, f, hparse, hgrow, htree, htokens, hleaves, by decide +kernel⟩

end GrammarTree
