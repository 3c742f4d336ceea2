/-
# The grammar of grammars

The kinds of the tokens that make up a grammar, by productions:

* `Syntax := [ Terminal ] ( '{' { Rule } '}' [ Terminal ] | { Rule } ) EndOfInput`
* `Rule := Identifier ( '=' | ':' | ':==' ) Expression ( ';' | '.' )`
* `Expression := Sequence { '|' Sequence }`
* `Sequence := Term { [ ',' ] Term }`
* `Term := Factor { '-' Factor }`
* `Factor := Identifier | Terminal | '(' Expression ')' | '[' Expression ']' | '{' Expression '}'`

A derivation comes with its *need*, the number of constructs that have to be open at a time while it
is read: an enclosure needs one more than what it encloses, and in `F₀ - F₁ - … - Fₙ` the factor `Fᵢ`
stands within `i` exceptions.  A sentence has rules whose expressions need at most `maxNesting`.

Nothing here speaks of texts, of comments or of the way a sentence is read.
-/
import Mathlib.Tactic.Lemma
import GrammarTree.Parse.State

namespace GrammarTree

/-- The three ways to enclose an expression. -/
inductive Enclosure where
  | group
  | optional
  | repetition
deriving DecidableEq, Repr

namespace Enclosure

/-- The symbol that opens an enclosure. -/
def opening : Enclosure → Symbol
  | group => .openParen
  | optional => .openBracket
  | repetition => .openBrace

/-- The symbol that closes an enclosure. -/
def closing : Enclosure → Symbol
  | group => .closeParen
  | optional => .closeBracket
  | repetition => .closeBrace

/-- What the node of an enclosure is. -/
def content : Enclosure → Content
  | group => .group
  | optional => .optional
  | repetition => .repetition

lemma isOpening_opening (b : Enclosure) : b.opening.isOpening = true := by cases b <;> rfl

/-- Only enclosures have opening symbols. -/
lemma exists_opening {y : Symbol} (h : y.isOpening = true) : ∃ b : Enclosure, y = b.opening := by
  cases y with
  | openParen => exact ⟨group, rfl⟩
  | openBracket => exact ⟨optional, rfl⟩
  | openBrace => exact ⟨repetition, rfl⟩
  | _ => cases h

end Enclosure

/-- A token that can open a term is a name, a quoted text or the opening symbol of an enclosure. -/
lemma Token.startsTerm_cases {t : Token} (h : t.startsTerm = true) :
    t.kind = .identifier ∨ t.kind = .terminal ∨ ∃ b : Enclosure, t.kind = .symbol b.opening := by
  unfold startsTerm at h
  split at h
  · exact Or.inl ‹_›
  · exact Or.inr (Or.inl ‹_›)
  · rename_i y hy
    obtain ⟨b, rfl⟩ := Enclosure.exists_opening h
    exact Or.inr (Or.inr ⟨b, hy⟩)
  · cases h

/-- The nonterminals below the rules.  A term is told by the number of its exceptions. -/
inductive Nonterminal where
  | expression
  | sequence
  | term (exceptions : Nat)
  | factor
deriving DecidableEq, Repr

/-- `Derives x n ks`: the kinds `ks` can be derived from the nonterminal `x`, with the need `n`. -/
inductive Derives : Nonterminal → Nat → List TokenKind → Prop
  | identifier : Derives .factor 0 [.identifier]
  | terminal : Derives .factor 0 [.terminal]
  | enclosed (b : Enclosure) {n : Nat} {ks : List TokenKind} :
      Derives .expression n ks →
      Derives .factor (1 + n) (.symbol b.opening :: ks ++ [.symbol b.closing])
  | factor {n : Nat} {ks : List TokenKind} : Derives .factor n ks → Derives (.term 0) n ks
  | except {i m n : Nat} {ks ls : List TokenKind} :
      Derives (.term i) m ks → Derives .factor n ls →
      Derives (.term (i + 1)) (max m (i + 1 + n)) (ks ++ .symbol .minus :: ls)
  | term {i n : Nat} {ks : List TokenKind} : Derives (.term i) n ks → Derives .sequence n ks
  | comma {i m n : Nat} {ks ls : List TokenKind} :
      Derives (.term i) m ks → Derives .sequence n ls →
      Derives .sequence (max m n) (ks ++ .symbol .comma :: ls)
  | beside {i m n : Nat} {ks ls : List TokenKind} :
      Derives (.term i) m ks → Derives .sequence n ls → Derives .sequence (max m n) (ks ++ ls)
  | sequence {n : Nat} {ks : List TokenKind} : Derives .sequence n ks → Derives .expression n ks
  | choice {m n : Nat} {ks ls : List TokenKind} :
      Derives .sequence m ks → Derives .expression n ls →
      Derives .expression (max m n) (ks ++ .symbol .pipe :: ls)

/-- A rule whose expression needs at most `maxNesting`. -/
inductive IsRule : List TokenKind → Prop
  | mk {y z : Symbol} {n : Nat} {ks : List TokenKind} :
      y.isDefinition = true → Derives .expression n ks → n ≤ maxNesting → z.isTerminator = true →
      IsRule (.identifier :: .symbol y :: ks ++ [.symbol z])

/-- Any number of rules. -/
inductive AreRules : List TokenKind → Prop
  | nil : AreRules []
  | cons {ks ls : List TokenKind} : IsRule ks → AreRules ls → AreRules (ks ++ ls)

/-- A terminal or nothing. -/
inductive IsOptionalTerminal : List TokenKind → Prop
  | absent : IsOptionalTerminal []
  | present : IsOptionalTerminal [.terminal]

/-- The sentences of the grammar in which every expression needs at most `maxNesting`. -/
inductive IsSentence : List TokenKind → Prop
  | framed {title rules about : List TokenKind} :
      IsOptionalTerminal title → AreRules rules → IsOptionalTerminal about →
      IsSentence (title ++ .symbol .openBrace :: rules ++ .symbol .closeBrace :: about ++
        [.endOfInput])
  | plain {title rules : List TokenKind} :
      IsOptionalTerminal title → AreRules rules → IsSentence (title ++ rules ++ [.endOfInput])

end GrammarTree
