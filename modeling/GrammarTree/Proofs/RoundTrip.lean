/-
# Printing a tree and parsing it

A well-shaped tree is printed as the title, the rules in a frame and the meta text, with a space
between two tokens.  Each quoted text may stand between either quote, as long as it does not contain
that quote; the choice is free for each of them.  Parsing the print gives the tree back.
-/
import GrammarTree.Difference
import GrammarTree.Proofs.Acceptance
import GrammarTree.Proofs.Parse.Growing
import GrammarTree.Proofs.WellShaped

namespace GrammarTree

open Parse

/-! ### Lexemes for words -/

/-- The lexemes `ls` write the words `ws`, each quoted text between a quote that it does not
contain. -/
structure Spells (ls : List Lexeme) (ws : List Word) : Prop where
  words : ls.map Lexeme.word = ws
  quotes : ∀ q content, .quoted q content ∈ ls → q.char ∉ content

/-- Lexemes that write printable words can be read again. -/
lemma Spells.spellable {ls : List Lexeme} {ws : List Word} (h : Spells ls ws)
    (hws : ∀ w ∈ ws, w.Printable) : ∀ l ∈ ls, l.Spellable := by
  intro l hl
  have hword : l.word.Printable := by
    apply hws
    rw [← h.words]
    exact List.mem_map_of_mem hl
  cases l with
  | name cs =>
    have hname : IsName (String.ofList cs).toList := hword
    rwa [String.toList_ofList] at hname
  | quoted q content => exact h.quotes q content hl
  | comment content => cases hword
  | symbol y => trivial

/-- Printable words can be written. -/
lemma exists_spells {ws : List Word} (hws : ∀ w ∈ ws, w.Printable) : ∃ ls, Spells ls ws := by
  induction ws with
  | nil => exact ⟨[], rfl, by simp⟩
  | cons w ws ih =>
    obtain ⟨ls, hwords, hquotes⟩ := ih fun v hv => hws v (List.mem_cons_of_mem w hv)
    have hw := hws w (by simp)
    obtain ⟨l, hl, hquote⟩ : ∃ l : Lexeme, l.word = w ∧
        ∀ q content, l = .quoted q content → q.char ∉ content := by
      cases w with
      | name v => exact ⟨.name v.toList, by simp [Lexeme.word], by simp⟩
      | quoted v =>
        -- one of the two quotes does not occur in the text
        obtain ⟨q, hq⟩ : ∃ q : Quote, q.char ∉ v.toList := by
          rcases hw with hw | hw
          · exact ⟨.double, hw⟩
          · exact ⟨.single, hw⟩
        refine ⟨.quoted q v.toList, by simp [Lexeme.word], ?_⟩
        rintro q' content ⟨⟩
        exact hq
      | symbol y => exact ⟨.symbol y, rfl, by simp⟩
      | comment v => cases hw
      | finish => cases hw
    refine ⟨l :: ls, by rw [List.map_cons, hl, hwords], ?_⟩
    intro q content hmem
    rcases List.mem_cons.1 hmem with heq | hmem
    · exact hquote q content heq.symm
    · exact hquotes q content hmem

/-! ### A tree does not differ from itself -/

namespace Difference

lemma ofAttributes_self (k : Kind) (placeA placeB : String) (attributes : List (String × String)) :
    ofAttributes k placeA placeB attributes attributes = [] := by
  induction attributes with
  | nil => rfl
  | cons a attributes ih => rw [ofAttributes, if_pos rfl, ih]

mutual

lemma between_self (placeA placeB : String) : ∀ t, between placeA placeB t t = []
  | .node a ts => by
    rw [between, if_pos rfl, ofAttributes_self, if_pos rfl, betweenAll_self]
    rfl

lemma betweenAll_self (placeA placeB : String) (index : Nat) :
    ∀ ts, betweenAll placeA placeB index ts ts = []
  | [] => rfl
  | t :: ts => by
    rw [betweenAll, between_self, betweenAll_self]
    rfl

end

end Difference

lemma differences_self (t : Node) : differences t t = [] := Difference.between_self _ _ t

/-! ### The theorem -/

/-- A well-shaped tree can be printed, and however its quoted texts are quoted, the print is parsed
to that tree and grows to a forest with it. -/
theorem parse_printed {t : Node} (h : WellShaped t) :
    (∃ ls, Spells ls (Node.printed t)) ∧
      ∀ ls, Spells ls (Node.printed t) →
        ∃ tree f, parse (spell ls) = .ok tree ∧ tree = t ∧ differences tree t = [] ∧
          grow (spell ls) = some (.ok f) ∧ f.tree = tree ∧ f.size = tree.preorder.length := by
  refine ⟨exists_spells h.printable, ?_⟩
  intro ls hls
  obtain ⟨g, hfit, hnode, hwords⟩ := h.exists_phrase
  have hparse : parse (spell ls) = .ok g.node :=
    parse_spell hfit (by rw [hwords, hls.words]) (hls.spellable h.printable)
  obtain ⟨f, hgrow⟩ := exists_forest_of_parse hparse
  refine ⟨g.node, f, hparse, hnode, ?_, hgrow⟩
  rw [hnode]
  exact differences_self t

/-- A grammar with one rule, in which a single quote stands between double quotes. -/
theorem parse_printed_rule :
    ∃ tree, parse "'t' \x7b a = b , [ \"'\" ] | c - d ; \x7d 'm'" = .ok tree ∧
      tree = .node (.grammar "t" "m") [.node (.rule "a") [Tree.leaf (.identifier "a"),
        .node .choice [
          .node .sequence [Tree.leaf (.identifier "b"),
            .node .optional [Tree.leaf (.terminal "'")]],
          .node .exception [Tree.leaf (.identifier "c"), Tree.leaf (.identifier "d")]]]] := by
  have hshape : WellShaped (.node (.grammar "t" "m") [.node (.rule "a") [
      Tree.leaf (.identifier "a"), .node .choice [
        .node .sequence [Tree.leaf (.identifier "b"), .node .optional [Tree.leaf (.terminal "'")]],
        .node .exception [Tree.leaf (.identifier "c"), Tree.leaf (.identifier "d")]]]]) := by
    decide
  have hquotes : ∀ q content, Lexeme.quoted q content ∈ [Lexeme.quoted .single ['t'],
      .symbol .openBrace, .name ['a'], .symbol .equals, .name ['b'], .symbol .comma,
      .symbol .openBracket, .quoted .double ['\''], .symbol .closeBracket, .symbol .pipe,
      .name ['c'], .symbol .minus, .name ['d'], .symbol .semicolon, .symbol .closeBrace,
      .quoted .single ['m']] → q.char ∉ content := by
    intro q content h
    simp only [List.mem_cons, List.not_mem_nil, Lexeme.quoted.injEq, reduceCtorEq, or_false,
      false_or] at h
    rcases h with ⟨rfl, rfl⟩ | ⟨rfl, rfl⟩ | ⟨rfl, rfl⟩ <;> decide
  obtain ⟨tree, -, hparse, htree, -⟩ := (parse_printed hshape).2 _ ⟨by decide, hquotes⟩
  exact ⟨tree, hparse, htree⟩

end GrammarTree
