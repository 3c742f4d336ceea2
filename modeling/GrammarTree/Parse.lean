/-
# Parsing grammars

A grammar is a list of rules, and may be framed: an opening brace before the rules, a closing brace
behind them, and then, if wanted, a quoted meta text.  In front of everything there may be a quoted
title.  `parse` turns a text into the tree of the grammar it holds.
-/
import GrammarTree.Parse.Expression

namespace GrammarTree

namespace Parse

/-- A rule: its name, a definition symbol, an expression and a terminator.  The first child of its
node is the name; then come the expression and the comments around it. -/
def rule (s : State) (h : s.current.kind = .identifier) : Parsed Node s := do
  let ⟨s₁, h₁⟩ ← pass s (State.isFinish_of_name h)
  match hk : s₁.current.kind with
  | .symbol y =>
    if y.isDefinition then
      let ⟨s₂, h₂⟩ ← pass s₁ (State.isFinish_of_symbol hk)
      if s₂.current.startsTerm then
        let ⟨(items, s₃), h₃⟩ ← expression s₂.placed
        match hz : s₃.current.kind with
        | .symbol z =>
          if z.isTerminator then
            let ⟨s₄, h₄⟩ ← pass s₃.placed (isFinish_of_kind hz nofun)
            let name := s.current.text
            return ⟨(.node (.rule name)
                (Tree.leaf (.identifier name) :: s₂.commentNodes ++ items ++ s₃.commentNodes),
              s₄), Nat.lt_trans h₄ (Nat.lt_trans h₃ (Nat.lt_trans h₂ h₁))⟩
          else throw (s₃.unexpected .terminator)
        | _ => throw (s₃.unexpected .terminator)
      else throw (s₂.unexpected .expression)
    else throw (s₁.unexpected .definition)
  | _ => throw (s₁.unexpected .definition)

/-- All rules from here on with the comments before each of them. -/
def rules (s : State) : Except SyntaxError (List Node × State) := do
  if h : s.current.kind = .identifier then
    let ⟨(found, s₁), _⟩ ← rule s.placed h
    let (others, s₂) ← rules s₁
    return (s.commentNodes ++ found :: others, s₂)
  else
    return ([], s)
termination_by s.pending
decreasing_by grind [State.pending_placed]

/-- A quoted text, if one stands here. -/
def quoted? (s : State) : Except SyntaxError (Option String × State) := do
  if s.current.kind = .terminal then
    return (some s.current.text, ← s.advance)
  else
    return (none, s)

/-- Moves past a symbol that has to stand here. -/
def expect (y : Symbol) (s : State) : Except SyntaxError State :=
  if s.current.isSymbol y then s.advance else .error (s.unexpected (.symbol y))

/-- The rules and the comments of a grammar up to the end of the input, and its meta text. -/
def body (s : State) : Except SyntaxError (List Node × Option String) := do
  let framed := s.current.isSymbol .openBrace
  let s₁ ← if framed then s.advance else pure s
  let (items, s₂) ← rules s₁
  if framed then
    let s₃ ← expect .closeBrace s₂.placed
    let (about, s₄) ← quoted? s₃
    if s₄.current.isFinish then
      return (items ++ s₂.commentNodes ++ s₄.commentNodes, about)
    else throw (s₄.unexpected .endOfInput)
  else
    if s₂.current.isFinish then return (items ++ s₂.commentNodes, none)
    else throw (s₂.unexpected .rule)

/-- The tree of the grammar that a token stream holds. -/
def grammar (stream : Stream) : Except SyntaxError Node := do
  let s ← State.start stream
  let (title, s₁) ← quoted? s
  let (items, about) ← body s₁
  return .node (.grammar (title.getD "") (about.getD Content.defaultMeta)) items

end Parse

/-- The tree of the grammar that a text holds. -/
def parse (source : String) : Except SyntaxError Node := Parse.grammar (Stream.ofSource source)

end GrammarTree
