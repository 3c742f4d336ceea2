/-
# Parsing into a forest

The parser as it makes its nodes.  A production makes the nodes below a rule loose and hands their
identities back; whoever asked for them puts them below a node of its own, once it is known whether
such a node is needed: a sequence or a choice is made only if it has more than one part.  The
comments that were put aside become nodes right before the next construct and once more at the end.

The productions are those of `Parse.grammar`, which puts trees together instead.  Each part of the
parser works on the state of the parse and on the forest, and it may fail.  Productions call each
other up to a limit, at which the parse is given up.  The limit that `grow` sets, a multiple of the
number of tokens, is not reached.
-/
import GrammarTree.Forest
import GrammarTree.Parse.State

namespace GrammarTree

namespace Forest

/-- Makes several nodes one after the other, and tells their identities. -/
def createAll (f : Forest) (parent : Option Nat) : List Content → List Nat × Forest
  | [] => ([], f)
  | c :: cs =>
    let (ids, g) := (f.create c parent).createAll parent cs
    (f.size :: ids, g)

/-- Moves several nodes behind the children of another one. -/
def appendAll (f : Forest) (parent : Nat) (ids : List Nat) : Forest :=
  ids.foldl (fun g id => g.append parent id) f

end Forest

namespace Parse

/-- Where a parse into a forest stands. -/
structure Site where
  /-- Where the parse stands in the text. -/
  state : State
  /-- The nodes made so far. -/
  forest : Forest

/-- A part of the parser. -/
abbrev Grower := StateT Site (ExceptT SyntaxError Option)

namespace Grow

/-! ### Steps -/

/-- The current token. -/
def current : Grower Token := do return (← get).state.current

/-- Complains about the current token. -/
def refuse {α : Type} (expected : Expected) : Grower α := do
  throw ((← get).state.unexpected expected)

/-- Changes the state of the parse. -/
def move (step : State → Except SyntaxError State) : Grower Unit := do
  let site ← get
  match step site.state with
  | .ok s => set { site with state := s }
  | .error e => throw e

/-- Changes the forest. -/
def change (step : Forest → Forest) : Grower Unit :=
  modify fun site => { site with forest := step site.forest }

/-- Makes a node. -/
def make (c : Content) (parent : Option Nat) : Grower Nat := do
  let site ← get
  change (·.create c parent)
  return site.forest.size

/-- Makes nodes for the comments that were put aside. -/
def makeComments (parent : Option Nat) : Grower (List Nat) := do
  let site ← get
  let (ids, forest) :=
    site.forest.createAll parent (site.state.comments.map fun t => .comment t.text)
  set ({ state := site.state.placed, forest := forest } : Site)
  return ids

/-- Moves past a symbol that has to stand here. -/
def expect (y : Symbol) : Grower Unit := do
  if (← current).isSymbol y then move State.advance else refuse (.symbol y)

/-- The nodes of some alternatives: those of a single alternative, or a choice. -/
def join (alternatives : List (List Nat)) : Grower (List Nat) :=
  match alternatives with
  | [] => return []
  | [items] => return items
  | alternatives => do
    let choice ← make .choice none
    change (·.appendAll choice alternatives.flatten)
    return [choice]

/-- The parse is given up. -/
def giveUp {α : Type} : Grower α := fun _ => (none : Option (Except SyntaxError (α × Site)))

/-! ### Productions -/

mutual

/-- An expression. -/
def expression : Nat → Grower (List Nat)
  | 0 => giveUp
  | limit + 1 => do
    let found ← alternatives limit
    join found

/-- One or more sequences with `|` between them. -/
def alternatives : Nat → Grower (List (List Nat))
  | 0 => giveUp
  | limit + 1 => do
    let items ← sequence limit
    if (← current).isSymbol .pipe then
      move State.advance
      let others ← alternatives limit
      return items :: others
    else
      return [items]

/-- A sequence. -/
def sequence : Nat → Grower (List Nat)
  | 0 => giveUp
  | limit + 1 => do
    let (n, items) ← terms limit
    if n = 1 then return items
    else
      let node ← make .sequence none
      change (·.appendAll node items)
      return [node]

/-- The terms of a sequence with the comments around them, and the number of terms. -/
def terms : Nat → Grower (Nat × List Nat)
  | 0 => giveUp
  | limit + 1 => do
    let before ← makeComments none
    let first ← term limit
    if (← current).isSymbol .comma then
      move State.advance
      let (n, items) ← terms limit
      return (n + 1, before ++ first :: items)
    else if (← current).startsTerm then
      let (n, items) ← terms limit
      return (n + 1, before ++ first :: items)
    else
      let behind ← makeComments none
      return (1, before ++ first :: behind)

/-- A term. -/
def term : Nat → Grower Nat
  | 0 => giveUp
  | limit + 1 => do
    let first ← factor limit
    exceptions limit first 0

/-- What is excluded from the node `left`, which is built from `chained` exceptions already. -/
def exceptions : Nat → Nat → Nat → Grower Nat
  | 0, _, _ => giveUp
  | limit + 1, left, chained => do
    if (← current).isSymbol .minus then
      move State.descend
      let node ← make .exception none
      change (·.append node left)
      move State.advance
      let between ← makeComments none
      change (·.appendAll node between)
      let right ← factor limit
      change (·.append node right)
      exceptions limit node (chained + 1)
    else
      move fun s => .ok (s.ascend chained)
      return left

/-- A factor. -/
def factor : Nat → Grower Nat
  | 0 => giveUp
  | limit + 1 => do
    let token ← current
    match token.kind with
    | .identifier =>
      move State.advance
      make (.identifier token.text) none
    | .terminal =>
      move State.advance
      make (.terminal token.text) none
    | .symbol .openParen =>
      let node ← make .group none
      enclosed limit node .closeParen
    | .symbol .openBracket =>
      let node ← make .optional none
      enclosed limit node .closeBracket
    | .symbol .openBrace =>
      let node ← make .repetition none
      enclosed limit node .closeBrace
    | _ => refuse .term

/-- Fills a node with the expression between the current bracket and the one that closes it. -/
def enclosed : Nat → Nat → Symbol → Grower Nat
  | 0, _, _ => giveUp
  | limit + 1, node, close => do
    move State.descend
    move State.advance
    if (← current).startsTerm then
      let items ← expression limit
      change (·.appendAll node items)
      let _ ← makeComments (some node)
      expect close
      move fun s => .ok (s.ascend 1)
      return node
    else refuse .expression

end

/-- A rule below the root: its name, a definition symbol, an expression and a terminator. -/
def rule (limit : Nat) : Grower Unit := do
  let name := (← current).text
  move State.advance
  let node ← make (.rule name) (some Forest.rootId)
  let _ ← make (.identifier name) (some node)
  match (← current).kind with
  | .symbol y =>
    if y.isDefinition then
      move State.advance
      if (← current).startsTerm then
        let _ ← makeComments (some node)
        let items ← expression limit
        change (·.appendAll node items)
        let _ ← makeComments (some node)
        match (← current).kind with
        | .symbol z => if z.isTerminator then move State.advance else refuse .terminator
        | _ => refuse .terminator
      else refuse .expression
    else refuse .definition
  | _ => refuse .definition

/-- All rules from here on with the comments before each of them. -/
def rules : Nat → Grower Unit
  | 0 => giveUp
  | limit + 1 => do
    if (← current).kind = .identifier then
      let _ ← makeComments (some Forest.rootId)
      rule limit
      rules limit

/-- A quoted text, if one stands here, is put into the forest. -/
def quoted (put : Forest → String → Forest) : Grower Unit := do
  let token ← current
  if token.kind = .terminal then
    move State.advance
    change (put · token.text)

/-- The end of the input behind the last comments. -/
def finish (expected : Expected) : Grower Unit := do
  let _ ← makeComments (some Forest.rootId)
  if !(← current).isFinish then refuse expected

/-- The rules and the comments of a grammar up to the end of the input, and its meta text. -/
def body (limit : Nat) : Grower Unit := do
  if (← current).isSymbol .openBrace then
    move State.advance
    rules limit
    let _ ← makeComments (some Forest.rootId)
    expect .closeBrace
    quoted Forest.setMeta
    finish .endOfInput
  else
    rules limit
    finish .rule

/-- A grammar from its title to the end of the input. -/
def grammar (limit : Nat) : Grower Unit := do
  quoted Forest.setTitle
  body limit

end Grow

end Parse

/-- The forest of the grammar that a text holds. -/
def grow (source : String) : Option (Except SyntaxError Forest) :=
  match Parse.State.start (Stream.ofSource source) with
  | .ok s =>
    (((Parse.Grow.grammar (s.pending * 8 + 8)).run ⟨s, .empty⟩).run).map (·.map (·.2.forest))
  | .error e => some (.error e)

end GrammarTree
