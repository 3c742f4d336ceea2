/-
# Putting grammars one behind the other

A line feed between two texts keeps them apart: no name goes on behind it, and it makes no symbol
longer.  So if neither text has a fault, the two together have the words of the first and then the
words of the second (`words_append`).

Two grammars without frames, of which the second has no title, make up one grammar in this way.  The
comments in front of the end of the first then stand in front of the first rule of the second, or of
the end of the whole text if there is none (`GrammarPhrase.join`).  Either way they come to lie below
the root, between what comes from the first grammar and what comes from the second.
-/
import GrammarTree.Proofs.Blanking
import GrammarTree.Proofs.Parse.Completeness
import GrammarTree.Proofs.Parse.Growing
import GrammarTree.Proofs.Spelling
import GrammarTree.Snapshot

namespace GrammarTree

open Parse Word

/-! ### Pieces on both sides of a blank -/

/-- The pieces of a text do not depend on where it starts. -/
lemma map_piece_segmentsFrom (offset start : Nat) (cs : List Char) :
    (segmentsFrom offset cs).map (·.piece) = (segmentsFrom start cs).map (·.piece) := by
  fun_induction segmentsFrom offset cs generalizing start with
  | case1 offset => rw [segmentsFrom]
  | case2 offset c cs hc ih => rw [segmentsFrom, if_pos hc, ih]
  | case3 offset c cs hc ih =>
    rw [segmentsFrom, if_neg hc, List.map_cons, List.map_cons, ih]

/-- A blank cuts a text in two, if there is no fault in front of it. -/
lemma map_piece_append {b : Char} (hb : isBlank b = true) {offset : Nat} {cs : List Char}
    (h : ∀ s ∈ segmentsFrom offset cs, ∃ l, s.piece = .lexeme l) (start : Nat) (ds : List Char) :
    (segmentsFrom start (cs ++ b :: ds)).map (·.piece) =
      (segmentsFrom offset cs).map (·.piece) ++ (segmentsFrom 0 ds).map (·.piece) := by
  fun_induction segmentsFrom offset cs generalizing start with
  | case1 offset =>
    rw [List.nil_append, segmentsFrom, if_pos hb]
    exact map_piece_segmentsFrom _ 0 ds
  | case2 offset c cs hc ih => rw [List.cons_append, segmentsFrom, if_pos hc, ih h]
  | case3 offset c cs hc ih =>
    rw [Bool.not_eq_true] at hc
    rcases hread : Piece.read c cs with ⟨p, rest⟩
    rw [hread] at h ih
    obtain ⟨l, hl⟩ := h _ (List.mem_cons_self ..)
    have hl' : p = .lexeme l := hl
    subst hl'
    obtain ⟨hchars, hstands⟩ := (Piece.read_eq_iff hc).1 hread
    -- the piece is read again, since the blank does not make it longer
    have hagain : Piece.read c (cs ++ b :: ds) = (.lexeme l, rest ++ b :: ds) := by
      rw [Piece.read_eq_iff hc, ← List.append_assoc, hchars]
      exact ⟨rfl, Lexeme.StandsBefore.append_blank hb hstands ds⟩
    have hrest := ih fun s hs => h s (List.mem_cons_of_mem _ hs)
    rw [List.cons_append, segmentsFrom_cons hc hagain, List.map_cons, hrest]
    rfl

/-- Two texts without faults have, with a line feed between them, the words of both. -/
lemma words_append {source other : String} (h : (Stream.ofSource source).fault? = none)
    (h' : (Stream.ofSource other).fault? = none) :
    (Stream.ofSource (source ++ "\n" ++ other)).tokens.map Token.word =
      ((Stream.ofSource source).tokens.map Token.word).dropLast ++
        (Stream.ofSource other).tokens.map Token.word := by
  obtain ⟨ls, hls⟩ := Stream.exists_lexemes h
  obtain ⟨ms, hms⟩ := Stream.exists_lexemes h'
  have hpieces : (segments (source ++ "\n" ++ other)).map (·.piece) =
      (ls ++ ms).map Piece.lexeme := by
    have htext : (source ++ "\n" ++ other).toList = source.toList ++ '\n' :: other.toList := by
      simp
    rw [segments, htext, map_piece_append rfl (fun s => exists_lexeme_of_mem hls),
      List.map_append, ← hls, ← hms]
    rfl
  rw [Stream.ofSource, Stream.ofSource, Stream.ofSource, words_ofSegments _ hpieces,
    words_ofSegments _ hls, words_ofSegments _ hms, List.dropLast_concat, List.map_append,
    List.append_assoc]

/-! ### Grammars -/

/-- Whether the tokens of a text begin with an opening brace, or have one behind the title; comments
do not count. -/
def Framed (tokens : List Token) : Prop :=
  ∃ rest, (Token.significant tokens).map (·.kind) = .symbol .openBrace :: rest ∨
    (Token.significant tokens).map (·.kind) = .terminal :: .symbol .openBrace :: rest

namespace GrammarPhrase

/-- A grammar with the rules of another one behind its own.  The comments at its end stand in front
of the first of these rules, or in front of the end if there is none. -/
def join (g h : GrammarPhrase) : GrammarPhrase :=
  match h.rules with
  | [] => { g with trailing := g.trailing ++ h.trailing }
  | r :: rs =>
    { g with
      rules := g.rules ++ { r with leading := g.trailing ++ r.leading } :: rs
      trailing := h.trailing }

variable {g h : GrammarPhrase}

/-- The kinds of the words of a grammar with a frame. -/
lemma exists_kinds_of_frame {f : Frame} (hf : g.frame = some f) :
    ∃ rest, kinds g.words = .symbol .openBrace :: rest ∨
      kinds g.words = .terminal :: .symbol .openBrace :: rest := by
  rw [words, bodyWords, hf]
  cases g.title with
  | none => simp [QuotedPhrase.wordsOf]
  | some q => simp [QuotedPhrase.wordsOf]

/-- The kinds of the words of a grammar with a title. -/
lemma exists_kinds_of_title {q : QuotedPhrase} (hq : g.title = some q) :
    ∃ rest, kinds g.words = .terminal :: rest := by
  simp [words, hq, QuotedPhrase.wordsOf]

lemma Fits.join (hg : g.Fits) (hh : h.Fits) : (g.join h).Fits := by
  unfold GrammarPhrase.join
  split
  · exact hg
  · rename_i r rs hrules
    intro p hp
    rcases List.mem_append.1 hp with hp | hp
    · exact hg p hp
    · rcases List.mem_cons.1 hp with rfl | hp
      · have hr : r.Fits := hh r (by simp [hrules])
        exact hr
      · exact hh p (by simp [hrules, hp])

/-- Without frames and a second title, the words are those of both grammars. -/
lemma words_join (hg : g.frame = none) (hh : h.frame = none) (htitle : h.title = none) :
    (g.join h).words = g.words.dropLast ++ h.words := by
  have hfirst : g.words.dropLast =
      QuotedPhrase.wordsOf g.title ++ g.rules.flatMap (·.words) ++ comments g.trailing := by
    rw [words, bodyWords, hg, List.dropLast_concat]
  have hsecond : h.words = h.rules.flatMap (·.words) ++ comments h.trailing ++ [.finish] := by
    rw [words, bodyWords, hh, htitle]
    rfl
  rw [hfirst, hsecond]
  unfold join
  split
  · rename_i hrules
    simp [words, bodyWords, hg, hrules]
  · rename_i r rs hrules
    simp [words, bodyWords, hg, hrules, RulePhrase.words]

/-- Without frames and a second title, the nodes below the root are those of both grammars. -/
lemma node_join (hg : g.frame = none) (hh : h.frame = none) (htitle : h.title = none) :
    (g.join h).node = .node (.grammar g.titleText Content.defaultMeta)
      (g.node.children ++ h.node.children) := by
  have hsecond : h.node.children = h.rules.flatMap (·.nodes) ++ commentNodes h.trailing := by
    rw [node, Tree.children_node, bodyNodes, hh, htitle]
    rfl
  rw [hsecond]
  unfold join
  split
  · rename_i hrules
    simp [node, bodyNodes, titleText, aboutText, hg, hrules]
  · rename_i r rs hrules
    simp [node, bodyNodes, titleText, aboutText, hg, hrules, RulePhrase.nodes, RulePhrase.node]

end GrammarPhrase

/-! ### The theorem -/

/-- If two texts are parsed, of which the first has no frame and the second begins with neither a
quoted text nor an opening brace, then they are parsed with a line feed between them.  The root has
the title of the first text and the default meta text.  Below it is what is below the root of the
first tree, and then what is below the root of the second. -/
theorem parse_concatenated {source other : String} {tree tree' : Node} {tokens tokens' : List Token}
    (h : parse source = .ok tree) (htokens : tokenize source = .ok tokens)
    (hframe : ¬ Framed tokens)
    (h' : parse other = .ok tree') (htokens' : tokenize other = .ok tokens')
    (hfirst : ∀ t ∈ (Token.significant tokens').head?,
      t.kind ≠ .terminal ∧ t.kind ≠ .symbol .openBrace) :
    ∃ title joined f, tree.label = .grammar title Content.defaultMeta ∧
      parse (source ++ "\n" ++ other) = .ok joined ∧
      grow (source ++ "\n" ++ other) = some (.ok f) ∧ f.tree = joined ∧
      joined.label = .grammar title Content.defaultMeta ∧
      joined.children.map Snapshot.ofTree =
        tree.children.map Snapshot.ofTree ++ tree'.children.map Snapshot.ofTree := by
  obtain ⟨g, hfit, rfl, hfault, hwords⟩ := exists_phrase_of_grammar h
  obtain ⟨k, hfit', rfl, hfault', hwords'⟩ := exists_phrase_of_grammar h'
  obtain ⟨-, rfl⟩ := tokenize_eq_ok_iff.1 htokens
  obtain ⟨-, rfl⟩ := tokenize_eq_ok_iff.1 htokens'
  have hkinds : (Token.significant _).map (·.kind) = kinds g.words := hwords ▸ kinds_significant _
  have hkinds' : (Token.significant _).map (·.kind) = kinds k.words := hwords' ▸ kinds_significant _
  have hbare : g.frame = none := by
    rw [Option.eq_none_iff_forall_ne_some]
    intro f hf
    obtain ⟨rest, hrest⟩ := GrammarPhrase.exists_kinds_of_frame hf
    rw [← hkinds] at hrest
    exact hframe ⟨rest, hrest⟩
  have hne : ∀ rest, (Token.significant (Stream.ofSource other).tokens).map (·.kind) ≠
      .terminal :: rest := by
    intro rest hrest
    obtain ⟨t, ts, hts, hterminal, -⟩ := List.map_eq_cons_iff.1 hrest
    exact (hfirst t (by simp [hts])).1 hterminal
  have htitle : k.title = none := by
    rw [Option.eq_none_iff_forall_ne_some]
    intro q hq
    obtain ⟨rest, hrest⟩ := GrammarPhrase.exists_kinds_of_title hq
    exact hne rest (hkinds'.trans hrest)
  have hbare' : k.frame = none := by
    rw [Option.eq_none_iff_forall_ne_some]
    intro f hf
    obtain ⟨rest, hrest | hrest⟩ := GrammarPhrase.exists_kinds_of_frame hf
    · obtain ⟨t, ts, hts, hbrace, -⟩ := List.map_eq_cons_iff.1 (hkinds'.trans hrest)
      exact (hfirst t (by simp [hts])).2 hbrace
    · exact hne _ (hkinds'.trans hrest)
  have hlabel : g.node.label = .grammar g.titleText Content.defaultMeta := by
    rw [GrammarPhrase.node, Tree.label_node, GrammarPhrase.aboutText, hbare]
    rfl
  have hjoined : parse (source ++ "\n" ++ other) = .ok (g.join k).node := by
    refine grammar_of_words (g.join k) (hfit.join hfit') ?_
    rw [words_append hfault hfault', hwords, hwords', GrammarPhrase.words_join hbare hbare' htitle]
  obtain ⟨f, hgrow, htree, -⟩ := exists_forest_of_parse hjoined
  rw [GrammarPhrase.node_join hbare hbare' htitle] at hjoined htree
  refine ⟨g.titleText, _, f, hlabel, hjoined, hgrow, htree, rfl, ?_⟩
  rw [Tree.children_node, List.map_append]

/-- A grammar with a title and a comment at its end, and one that begins with a comment. -/
theorem parse_concatenated_of_rules :
    ∃ tree tree' joined, parse "'t' a = (b) - c; (*1*)" = .ok tree ∧
      parse "(*2*) d = 'e';" = .ok tree' ∧
      parse ("'t' a = (b) - c; (*1*)" ++ "\n" ++ "(*2*) d = 'e';") = .ok joined ∧
      joined.label = .grammar "t" Content.defaultMeta ∧
      joined.children.map Snapshot.ofTree =
        tree.children.map Snapshot.ofTree ++ tree'.children.map Snapshot.ofTree ∧
      tree.children.map (·.label) = [.rule "a", .comment "1"] ∧
      tree'.children.map (·.label) = [.comment "2", .rule "d"] := by
  have hparse : parse "'t' a = (b) - c; (*1*)" =
      .ok (.node (.grammar "t" Content.defaultMeta) [
        .node (.rule "a") [Tree.leaf (.identifier "a"), .node .exception [
          .node .group [Tree.leaf (.identifier "b")], Tree.leaf (.identifier "c")]],
        Tree.leaf (.comment "1")]) := by
    decide +kernel
  have hparse' : parse "(*2*) d = 'e';" =
      .ok (.node (.grammar "" Content.defaultMeta) [Tree.leaf (.comment "2"),
        .node (.rule "d") [Tree.leaf (.identifier "d"), Tree.leaf (.terminal "e")]]) := by
    decide +kernel
  have htokens : tokenize "'t' a = (b) - c; (*1*)" = .ok _ :=
    tokenize_eq_ok_iff.2 ⟨by decide +kernel, rfl⟩
  have htokens' : tokenize "(*2*) d = 'e';" = .ok _ :=
    tokenize_eq_ok_iff.2 ⟨by decide +kernel, rfl⟩
  have hframe : ¬ Framed (Stream.ofSource "'t' a = (b) - c; (*1*)").tokens := by
    have hkinds : (Token.significant (Stream.ofSource "'t' a = (b) - c; (*1*)").tokens).map
        (·.kind) = [.terminal, .identifier, .symbol .equals, .symbol .openParen, .identifier,
          .symbol .closeParen, .symbol .minus, .identifier, .symbol .semicolon, .endOfInput] := by
      decide +kernel
    rintro ⟨rest, hrest⟩
    simp [hkinds] at hrest
  have hfirst : ∀ t ∈ (Token.significant (Stream.ofSource "(*2*) d = 'e';").tokens).head?,
      t.kind ≠ .terminal ∧ t.kind ≠ .symbol .openBrace := by
    decide +kernel
  obtain ⟨title, joined, -, hlabel, hjoined, -, -, htop, hchildren⟩ :=
    parse_concatenated hparse htokens hframe hparse' htokens' hfirst
  cases hlabel
  exact ⟨_, _, joined, hparse, hparse', hjoined, htop, hchildren, rfl, rfl⟩

end GrammarTree
