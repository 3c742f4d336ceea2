/-
# Parsing expressions

The part of the parser below the rules, one function for each production:

* an expression is one or more sequences with `|` between them;
* a sequence is one or more terms, with or without a comma between two of them;
* a term is a factor, or an exception `a - b`, where `a - b - c` is `(a - b) - c`;
* a factor is a name, a quoted text, or an expression in brackets.

A choice or a sequence of a single part is that part.  Comments come along in the lists of nodes
that the functions return, each at its place.
-/
import GrammarTree.Parse.State

namespace GrammarTree.Parse

/-- The alternatives of an expression as its nodes: those of a single alternative, or a choice. -/
def joinAlternatives : List (List Node) → List Node
  | [] => []
  | [items] => items
  | alternatives => [.node .choice alternatives.flatten]

/-- The items of a sequence with `n` terms as its nodes: the items themselves, or a sequence. -/
def joinTerms (n : Nat) (items : List Node) : List Node :=
  if n = 1 then items else [.node .sequence items]

mutual

/-- An expression. -/
def expression (s : State) : Parsed (List Node) s := do
  let ⟨(found, s₁), h₁⟩ ← alternatives s
  return ⟨(joinAlternatives found, s₁), h₁⟩
termination_by s.pending * 8 + 6

/-- One or more sequences with `|` between them. -/
def alternatives (s : State) : Parsed (List (List Node)) s := do
  let ⟨(items, s₁), h₁⟩ ← sequence s
  if hp : s₁.current.isSymbol .pipe then
    let ⟨s₂, h₂⟩ ← pass s₁ (isFinish_of_isSymbol hp)
    let ⟨(others, s₃), h₃⟩ ← alternatives s₂
    return ⟨(items :: others, s₃), by grind⟩
  else
    return ⟨([items], s₁), h₁⟩
termination_by s.pending * 8 + 5
decreasing_by all_goals grind

/-- A sequence. -/
def sequence (s : State) : Parsed (List Node) s := do
  let ⟨((n, items), s₁), h₁⟩ ← terms s
  return ⟨(joinTerms n items, s₁), h₁⟩
termination_by s.pending * 8 + 4

/-- The terms of a sequence with the comments around them, and the number of terms. -/
def terms (s : State) : Parsed (Nat × List Node) s := do
  let ⟨(first, s₁), h₁⟩ ← term s.placed
  if hc : s₁.current.isSymbol .comma then
    let ⟨s₂, h₂⟩ ← pass s₁ (isFinish_of_isSymbol hc)
    let ⟨((n, items), s₃), h₃⟩ ← terms s₂
    return ⟨((n + 1, s.commentNodes ++ first :: items), s₃), by grind [State.pending_placed]⟩
  else if s₁.current.startsTerm then
    let ⟨((n, items), s₂), h₂⟩ ← terms s₁
    return ⟨((n + 1, s.commentNodes ++ first :: items), s₂), by grind [State.pending_placed]⟩
  else
    return ⟨((1, s.commentNodes ++ first :: s₁.commentNodes), s₁.placed),
      by grind [State.pending_placed]⟩
termination_by s.pending * 8 + 3
decreasing_by all_goals grind [State.pending_placed]

/-- A term. -/
def term (s : State) : Parsed Node s := do
  let ⟨(first, s₁), h₁⟩ ← factor s
  let ⟨(found, s₂), h₂⟩ ← exceptions first 0 s₁
  return ⟨(found, s₂), by grind⟩
termination_by s.pending * 8 + 2
decreasing_by all_goals grind

/-- What is excluded from `left`, which is built from `chained` exceptions already; each of them
counts as open until the last one is read. -/
def exceptions (left : Node) (chained : Nat) (s : State) :
    Except SyntaxError { r : Node × State // r.2.pending ≤ s.pending } := do
  if hm : s.current.isSymbol .minus then
    let ⟨s₁, h₁, hc⟩ ← enter s
    let ⟨s₂, h₂⟩ ← pass s₁ (by rw [hc]; exact isFinish_of_isSymbol hm)
    let ⟨(right, s₃), h₃⟩ ← factor s₂.placed
    let ⟨(found, s₄), h₄⟩ ←
      exceptions (.node .exception (left :: s₂.commentNodes ++ [right])) (chained + 1) s₃
    return ⟨(found, s₄), by grind [State.pending_placed]⟩
  else
    return ⟨(left, s.ascend chained), by simp⟩
termination_by s.pending * 8 + 7
decreasing_by all_goals grind [State.pending_placed]

/-- A factor. -/
def factor (s : State) : Parsed Node s := do
  match h : s.current.kind with
  | .identifier =>
    let ⟨s₁, h₁⟩ ← pass s (State.isFinish_of_name h)
    return ⟨(Tree.leaf (.identifier s.current.text), s₁), h₁⟩
  | .terminal =>
    let ⟨s₁, h₁⟩ ← pass s (isFinish_of_kind h nofun)
    return ⟨(Tree.leaf (.terminal s.current.text), s₁), h₁⟩
  | .symbol .openParen => enclosed .group .closeParen s (isFinish_of_kind h nofun)
  | .symbol .openBracket => enclosed .optional .closeBracket s (isFinish_of_kind h nofun)
  | .symbol .openBrace => enclosed .repetition .closeBrace s (isFinish_of_kind h nofun)
  | _ => throw (s.unexpected .term)
termination_by s.pending * 8 + 1

/-- A node with the expression between the current bracket and the one that closes it. -/
def enclosed (content : Content) (close : Symbol) (s : State) (h : s.current.isFinish = false) :
    Parsed Node s := do
  let ⟨s₁, h₁, hc⟩ ← enter s
  let ⟨s₂, h₂⟩ ← pass s₁ (by rw [hc]; exact h)
  if s₂.current.startsTerm then
    let ⟨(items, s₃), h₃⟩ ← expression s₂
    if hx : s₃.current.isSymbol close then
      let ⟨s₄, h₄⟩ ← pass s₃.placed (isFinish_of_isSymbol hx)
      return ⟨(.node content (items ++ s₃.commentNodes), s₄.ascend 1),
        by grind [State.pending_placed, State.pending_ascend]⟩
    else
      throw (s₃.unexpected (.symbol close))
  else
    throw (s₂.unexpected .expression)
termination_by s.pending * 8
decreasing_by all_goals grind

end

end GrammarTree.Parse
