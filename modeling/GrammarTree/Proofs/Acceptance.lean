/-
# What the parser accepts

A text is parsed exactly if it can be cut into tokens and the kinds of its tokens, comments left out,
are a sentence of the grammar.

That what is parsed is a sentence is read off the phrase that was parsed.  The other direction rests
on two facts.  A sentence can be written down as a text that is parsed
(`IsSentence.exists_source`), and a complaint about a token depends only on the kinds of the tokens
up to it (`exists_of_unexpected`): a text with the same kinds of tokens would be refused as well.
-/
import GrammarTree.Proofs.Parse.Completeness
import GrammarTree.Proofs.Parse.Viability
import GrammarTree.Proofs.Spelling

namespace GrammarTree

open Parse

/-- A grammar phrase whose words are spelled is parsed. -/
lemma parse_spell {g : GrammarPhrase} (hfit : g.Fits) {ls : List Lexeme}
    (hwords : g.words = ls.map Lexeme.word ++ [.finish]) (hls : ∀ l ∈ ls, l.Spellable) :
    parse (spell ls) = .ok g.node := by
  apply grammar_of_words g hfit
  rw [words_spell hls, hwords]

/-! ### Sentences can be written down -/

/-- Whether a sentence can have tokens of a kind in front of its end. -/
def TokenKind.Inner (k : TokenKind) : Prop := k ≠ .comment ∧ k ≠ .endOfInput

lemma TokenKind.inner_identifier : Inner .identifier := ⟨by simp, by simp⟩

lemma TokenKind.inner_terminal : Inner .terminal := ⟨by simp, by simp⟩

lemma TokenKind.inner_symbol (y : Symbol) : Inner (.symbol y) := ⟨by simp, by simp⟩

open TokenKind in
lemma Derives.inner {x : Nonterminal} {n : Nat} {ks : List TokenKind} (h : Derives x n ks) :
    ∀ k ∈ ks, k.Inner := by
  induction h with
  | identifier => simpa using inner_identifier
  | terminal => simpa using inner_terminal
  | enclosed b _ ih =>
    intro k hk
    simp only [List.cons_append, List.mem_cons, List.mem_append, List.not_mem_nil, or_false] at hk
    rcases hk with rfl | hk | rfl
    · exact inner_symbol _
    · exact ih k hk
    · exact inner_symbol _
  | factor _ ih | term _ ih | sequence _ ih => exact ih
  | except _ _ ihl ihr | comma _ _ ihl ihr | choice _ _ ihl ihr =>
    intro k hk
    simp only [List.mem_append, List.mem_cons] at hk
    rcases hk with hk | rfl | hk
    · exact ihl k hk
    · exact inner_symbol _
    · exact ihr k hk
  | beside _ _ ihl ihr =>
    intro k hk
    rcases List.mem_append.1 hk with hk | hk
    · exact ihl k hk
    · exact ihr k hk

open TokenKind in
lemma AreRules.inner {ks : List TokenKind} (h : AreRules ks) : ∀ k ∈ ks, k.Inner := by
  induction h with
  | nil => simp
  | cons hr _ ih =>
    intro k hk
    rcases List.mem_append.1 hk with hk | hk
    · obtain ⟨_, he, _, _⟩ := hr
      simp only [List.cons_append, List.mem_cons, List.mem_append, List.not_mem_nil,
        or_false] at hk
      rcases hk with rfl | rfl | hk | rfl
      · exact inner_identifier
      · exact inner_symbol _
      · exact he.inner k hk
      · exact inner_symbol _
    · exact ih k hk

lemma IsOptionalTerminal.inner {ks : List TokenKind} (h : IsOptionalTerminal ks) :
    ∀ k ∈ ks, k.Inner := by
  cases h with
  | absent => simp
  | present => simpa using TokenKind.inner_terminal

/-- The end of the input is the last token of a sentence, and only that. -/
lemma IsSentence.exists_inner {ks : List TokenKind} (h : IsSentence ks) :
    ∃ ls, ks = ls ++ [.endOfInput] ∧ ∀ k ∈ ls, k.Inner := by
  cases h with
  | framed ht hr ha =>
    refine ⟨_, rfl, ?_⟩
    intro k hk
    simp only [List.cons_append, List.append_assoc, List.mem_append, List.mem_cons] at hk
    rcases hk with hk | rfl | hk | rfl | hk
    · exact ht.inner k hk
    · exact TokenKind.inner_symbol _
    · exact hr.inner k hk
    · exact TokenKind.inner_symbol _
    · exact ha.inner k hk
  | plain ht hr =>
    refine ⟨_, rfl, ?_⟩
    intro k hk
    rcases List.mem_append.1 hk with hk | hk
    · exact ht.inner k hk
    · exact hr.inner k hk

/-- A lexeme for tokens of a kind. -/
def Lexeme.sample : TokenKind → Lexeme
  | .terminal => .quoted .double []
  | .symbol y => .symbol y
  | _ => .name ['a']

lemma TokenKind.Inner.spellable {k : TokenKind} (h : k.Inner) :
    (Lexeme.sample k).Spellable ∧ (Lexeme.sample k).word = Word.sample k := by
  cases k with
  | identifier => exact ⟨⟨rfl, by simp⟩, rfl⟩
  | terminal => exact ⟨List.not_mem_nil, rfl⟩
  | comment => exact absurd rfl h.1
  | endOfInput => exact absurd rfl h.2
  | symbol y => exact ⟨trivial, rfl⟩

/-- Every sentence is that of a text that is parsed. -/
lemma IsSentence.exists_source {ks : List TokenKind} (h : IsSentence ks) :
    ∃ source tree, parse source = .ok tree ∧
      (Token.significant (Stream.ofSource source).tokens).map (·.kind) = ks := by
  obtain ⟨g, hfit, hwords⟩ := h.exists_phrase
  obtain ⟨ls, hls, hinner⟩ := h.exists_inner
  have hspell : ∀ l ∈ ls.map Lexeme.sample, l.Spellable := by
    intro l hl
    obtain ⟨k, hk, rfl⟩ := List.mem_map.1 hl
    exact (hinner k hk).spellable.1
  have hsample : (ls.map Lexeme.sample).map Lexeme.word = ls.map Word.sample := by
    rw [List.map_map]
    exact List.map_congr_left fun k hk => (hinner k hk).spellable.2
  have hfinish : g.words = (ls.map Lexeme.sample).map Lexeme.word ++ [.finish] := by
    rw [hsample, hwords, hls, List.map_append]
    rfl
  have hcomment : ∀ k ∈ ks, k ≠ .comment := by
    intro k hk
    rw [hls] at hk
    rcases List.mem_append.1 hk with hk | hk
    · exact (hinner k hk).1
    · rw [List.mem_singleton.1 hk]
      simp
  refine ⟨_, _, parse_spell hfit hfinish hspell, ?_⟩
  rw [kinds_significant, words_spell hspell, ← hfinish, hwords]
  simpa [Word.kinds, Function.comp_def] using hcomment

/-! ### Acceptance -/

/-- Kinds that begin no stream but refused ones do not begin a sentence. -/
lemma not_prefix_of_refused {ks ls : List TokenKind} {expected : Expected}
    (hbegins : BeginsSentence ls)
    (hrefused : ∀ other : Stream, ks <+: (Token.significant other.tokens).map (·.kind) →
      ∃ found, grammar other = .error (.unexpected expected found)) : ¬ ks <+: ls := by
  intro hks
  obtain ⟨later, hsentence⟩ := hbegins
  obtain ⟨source, tree, hparse, hkinds⟩ := hsentence.exists_source
  have hprefix : ks <+: (Token.significant (Stream.ofSource source).tokens).map (·.kind) := by
    rw [hkinds]
    exact hks.trans (List.prefix_append ls later)
  obtain ⟨found, hfound⟩ := hrefused _ hprefix
  rw [parse, hfound] at hparse
  cases hparse

/-- A text whose tokens are those of a sentence is not refused. -/
lemma exists_parse_of_isSentence {source : String} {tokens : List Token}
    (htokens : tokenize source = .ok tokens)
    (h : IsSentence ((Token.significant tokens).map (·.kind))) :
    ∃ tree, parse source = .ok tree := by
  obtain ⟨hfault, rfl⟩ := tokenize_eq_ok_iff.1 htokens
  cases hparse : parse source with
  | ok tree => exact ⟨tree, rfl⟩
  | error e =>
    exfalso
    cases e with
    | scan f =>
      rw [fault?_of_grammar hparse] at hfault
      cases hfault
    | unexpected expected tok =>
      -- a text of the same kinds would be refused as well
      obtain ⟨us, later, hup, -, hrefused⟩ := exists_of_unexpected hparse
      have hbegins : BeginsSentence ((us ++ tok :: later).map (·.kind)) :=
        ⟨[], by rwa [List.append_nil, ← hup]⟩
      exact not_prefix_of_refused hbegins hrefused ⟨later.map (·.kind), by simp⟩

/-- A text is parsed exactly if it can be cut into tokens whose kinds, comments left out, are a
sentence in which no expression needs more than `maxNesting`. -/
theorem parse_succeeds_iff (source : String) :
    (∃ tree, parse source = .ok tree) ↔
      ∃ tokens, tokenize source = .ok tokens ∧
        IsSentence ((Token.significant tokens).map (·.kind)) := by
  constructor
  · rintro ⟨tree, h⟩
    obtain ⟨g, hfit, -, hfault, hwords⟩ := exists_phrase_of_grammar h
    refine ⟨_, tokenize_eq_ok_iff.2 ⟨hfault, rfl⟩, ?_⟩
    rw [kinds_significant, hwords]
    exact GrammarPhrase.isSentence hfit
  · rintro ⟨tokens, htokens, h⟩
    exact exists_parse_of_isSentence htokens h

end GrammarTree
