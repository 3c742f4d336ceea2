/-
# Where a parse stands

The parser looks at one token at a time.  Comments are not shown to it: moving on to the next token
puts the comments in between aside, and whoever builds a node takes them from there, so that each
comment ends up at its place in the tree.  The state also counts the enclosures and exceptions that
are open; at most `maxNesting` of them may be.

Every step of the parser moves on, which is measured by `State.pending`.
-/
import GrammarTree.Content
import GrammarTree.Token.Stream
import GrammarTree.Tree

namespace GrammarTree

/-- The trees that grammars are parsed into. -/
abbrev Node := Tree Content

/-- The number of enclosures and exceptions that may be open at a time. -/
def maxNesting : Nat := 128

/-- What would have been accepted where something else was found. -/
inductive Expected where
  | rule
  | endOfInput
  | definition
  | expression
  | terminator
  | term
  | symbol (s : Symbol)
  /-- One construct less around this place. -/
  | lessNesting
deriving DecidableEq, Repr

/-- What was expected, in words. -/
def Expected.text : Expected → String
  | rule => "rule"
  | endOfInput => "end of input"
  | definition => Symbol.equals.quoted
  | expression => "expression"
  | terminator => Symbol.semicolon.quoted ++ " or " ++ Symbol.period.quoted
  | term => "term"
  | symbol s => s.quoted
  | lessNesting => "at most " ++ toString maxNesting ++ " nested constructs"

/-- The complaint about a token where something else was expected. -/
def Token.unexpected (t : Token) (expected : String) : String :=
  "Expected " ++ expected ++ " but found " ++ t.describe ++ " at " ++ t.position.text

/-- Why a text is not a grammar. -/
inductive SyntaxError where
  /-- It cannot be cut into tokens. -/
  | scan (e : ScanError)
  /-- A token stands where it cannot. -/
  | unexpected (expected : Expected) (found : Token)
deriving DecidableEq, Repr

namespace SyntaxError

/-- Where the trouble is. -/
def position : SyntaxError → Position
  | scan e => e.position
  | unexpected _ found => found.position

/-- The trouble in words. -/
def message : SyntaxError → String
  | scan e => e.message
  | unexpected expected found => found.unexpected expected.text

end SyntaxError

namespace Parse

/-- Where a parse stands. -/
structure State where
  /-- The token that is looked at; never a comment. -/
  current : Token
  /-- What follows it. -/
  rest : Stream
  /-- The comments passed over and not yet placed, in order. -/
  comments : List Token
  /-- The number of open enclosures and exceptions. -/
  nesting : Nat
deriving Repr

/-- The first token of a stream that is no comment, what follows it, and the comments before it
behind those already put aside. -/
def skipComments (aside : List Token) : Stream → Except SyntaxError (Token × Stream × List Token)
  | .finished p => .ok (Token.finish p, .finished p, aside)
  | .failed e => .error (.scan e)
  | .next t rest =>
    if t.kind = .comment then skipComments (aside ++ [t]) rest else .ok (t, rest, aside)

namespace State

/-- The number of tokens, comments included, that are not yet passed. -/
def pending (s : State) : Nat := s.rest.length + if s.current.isFinish then 0 else 1

/-- The state before the first token of a stream. -/
def start (stream : Stream) : Except SyntaxError State :=
  match skipComments [] stream with
  | .ok (t, rest, comments) => .ok ⟨t, rest, comments, 0⟩
  | .error e => .error e

/-- The state at the next token. -/
def advance (s : State) : Except SyntaxError State :=
  match skipComments s.comments s.rest with
  | .ok (t, rest, comments) => .ok { s with current := t, rest := rest, comments := comments }
  | .error e => .error e

/-- The complaint about the current token. -/
def unexpected (s : State) (expected : Expected) : SyntaxError := .unexpected expected s.current

/-- The state with one more construct open, if there is room for it. -/
def descend (s : State) : Except SyntaxError State :=
  if maxNesting ≤ s.nesting then .error (s.unexpected .lessNesting)
  else .ok { s with nesting := s.nesting + 1 }

/-- The state with some constructs closed. -/
def ascend (s : State) (n : Nat) : State := { s with nesting := s.nesting - n }

/-- Nodes for the comments that were put aside. -/
def commentNodes (s : State) : List Node :=
  s.comments.map fun t => Tree.leaf (.comment t.text)

/-- The state once those comments are placed. -/
def placed (s : State) : State := { s with comments := [] }

@[simp] theorem pending_placed (s : State) : s.placed.pending = s.pending := rfl

@[simp] theorem pending_ascend (s : State) (n : Nat) : (s.ascend n).pending = s.pending := rfl

@[simp] theorem current_placed (s : State) : s.placed.current = s.current := rfl

theorem descend_eq_ok {s d : State} (h : s.descend = .ok d) :
    d = { s with nesting := s.nesting + 1 } := by
  unfold descend at h
  split at h
  · cases h
  · cases h
    rfl

theorem pending_descend {s d : State} (h : s.descend = .ok d) : d.pending = s.pending := by
  rw [descend_eq_ok h]
  rfl

theorem length_skipComments {aside comments : List Token} {stream rest : Stream} {t : Token}
    (h : skipComments aside stream = .ok (t, rest, comments)) :
    rest.length + (if t.isFinish then 0 else 1) ≤ stream.length := by
  induction stream generalizing aside with
  | finished p =>
    simp only [skipComments, Except.ok.injEq, Prod.mk.injEq] at h
    obtain ⟨rfl, rfl, -⟩ := h
    simp [Stream.length, Token.finish, Token.isFinish]
  | failed e => simp [skipComments] at h
  | next u stream ih =>
    rw [skipComments] at h
    split at h
    · have := ih h
      simp only [Stream.length]
      omega
    · simp only [Except.ok.injEq, Prod.mk.injEq] at h
      obtain ⟨rfl, rfl, -⟩ := h
      simp only [Stream.length]
      split <;> omega

/-- Passing a token that is not the end leaves fewer tokens. -/
theorem pending_advance {s n : State} (h : s.advance = .ok n) (hs : s.current.isFinish = false) :
    n.pending < s.pending := by
  unfold advance at h
  split at h
  · rename_i t rest comments h'
    cases h
    have hle := length_skipComments h'
    show rest.length + (if t.isFinish then 0 else 1) <
      s.rest.length + if s.current.isFinish then 0 else 1
    rw [hs]
    exact Nat.lt_succ_of_le hle
  · cases h

end State

/-- What a part of the parser returns that starts at `s` and moves on: a result and the state behind
it. -/
abbrev Parsed (α : Type) (s : State) :=
  Except SyntaxError { r : α × State // r.2.pending < s.pending }

/-- Moves past the current token, which is not the end. -/
def pass (s : State) (h : s.current.isFinish = false) :
    Except SyntaxError { n : State // n.pending < s.pending } :=
  match h' : s.advance with
  | .ok n => .ok ⟨n, State.pending_advance h' h⟩
  | .error e => .error e

/-- Opens one more construct without moving. -/
def enter (s : State) :
    Except SyntaxError { d : State // d.pending = s.pending ∧ d.current = s.current } :=
  match h : s.descend with
  | .ok d => .ok ⟨d, State.pending_descend h, by rw [State.descend_eq_ok h]⟩
  | .error e => .error e

theorem isFinish_of_isSymbol {t : Token} {y : Symbol} (h : t.isSymbol y = true) :
    t.isFinish = false := by
  simp_all [Token.isSymbol, Token.isFinish]

theorem isFinish_of_kind {t : Token} {k : TokenKind} (h : t.kind = k) (hk : k ≠ .endOfInput) :
    t.isFinish = false := by
  simp_all [Token.isFinish]

theorem State.isFinish_of_name {s : State} (h : s.current.kind = .identifier) :
    s.current.isFinish = false :=
  isFinish_of_kind h nofun

theorem State.isFinish_of_symbol {s : State} {y : Symbol} (h : s.current.kind = .symbol y) :
    s.current.isFinish = false :=
  isFinish_of_kind h nofun

end Parse

end GrammarTree
