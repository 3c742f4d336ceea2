/-
# Tokens

A token is what the parser sees of a lexeme: its kind, its text and the position where it starts.
The end of the input is a token of its own, so that there is always a token to look at.
-/
import GrammarTree.Symbol
import GrammarTree.Text.Position

namespace GrammarTree

/-- The kinds of tokens. -/
inductive TokenKind where
  | identifier
  /-- A quoted text; the token's text is what stands between the quotes. -/
  | terminal
  /-- A comment; the token's text is what stands between its delimiters. -/
  | comment
  | endOfInput
  | symbol (s : Symbol)
deriving DecidableEq, Repr

/-- A kind as messages name it. -/
def TokenKind.text : TokenKind → String
  | identifier => "identifier"
  | terminal => "terminal"
  | comment => "comment"
  | endOfInput => "end of input"
  | symbol s => s.quoted

/-- A token. -/
structure Token where
  /-- What it is. -/
  kind : TokenKind
  /-- Its text, without quotes and comment delimiters. -/
  text : String
  /-- Where it starts. -/
  position : Position
deriving DecidableEq, Repr

namespace Token

/-- The end of the input. -/
def finish (p : Position) : Token := ⟨.endOfInput, "", p⟩

/-- Whether a token is the given symbol. -/
def isSymbol (t : Token) (s : Symbol) : Bool := t.kind == .symbol s

/-- Whether a token is the end of the input. -/
def isFinish (t : Token) : Bool := t.kind == .endOfInput

/-- Whether a token can open a term. -/
def startsTerm (t : Token) : Bool :=
  match t.kind with
  | .identifier | .terminal => true
  | .symbol s => s.isOpening
  | _ => false

/-- A token as messages describe it. -/
def describe (t : Token) : String :=
  match t.kind with
  | .identifier => "identifier '" ++ t.text ++ "'"
  | .terminal => "terminal \"" ++ t.text ++ "\""
  | .comment => "comment"
  | .endOfInput => "end of input"
  | .symbol s => s.quoted

/-- A token's description and where it stands. -/
def display (t : Token) : String := t.describe ++ " at " ++ t.position.text

end Token

end GrammarTree
