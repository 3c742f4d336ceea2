/-
# Tokens as JSON

A token is written as an object of its kind, its text and its position.  A kind is written as its
name; symbols have names of their own, which stand under a common key.
-/
import GrammarTree.Json
import GrammarTree.Token

namespace GrammarTree

/-- The name of a symbol. -/
def Symbol.name : Symbol → String
  | equals => "Equals"
  | colon => "Colon"
  | colonEquals => "ColonEquals"
  | semicolon => "Semicolon"
  | period => "Period"
  | comma => "Comma"
  | pipe => "Pipe"
  | openParen => "OpenParen"
  | closeParen => "CloseParen"
  | openBracket => "OpenBracket"
  | closeBracket => "CloseBracket"
  | openBrace => "OpenBrace"
  | closeBrace => "CloseBrace"
  | minus => "Minus"

/-- The symbol with a given name. -/
def Symbol.ofName? (s : String) : Option Symbol := all.find? (·.name == s)

/-- The name of a kind of tokens. -/
def TokenKind.name : TokenKind → String
  | identifier => "Identifier"
  | terminal => "Terminal"
  | comment => "Comment"
  | endOfInput => "EndOfInput"
  | symbol s => s.name

/-- The kind of tokens with a given name. -/
def TokenKind.ofName? (s : String) : Option TokenKind :=
  ([identifier, terminal, comment, endOfInput] ++ Symbol.all.map symbol).find? (·.name == s)

/-- A kind of tokens as a JSON value. -/
def TokenKind.toJson : TokenKind → Json
  | symbol s => .object [("Operator", .string s.name)]
  | kind => .string kind.name

/-- A position as a JSON value. -/
def Position.toJson (p : Position) : Json :=
  .object [("line", .ofNat p.line), ("column", .ofNat p.column)]

/-- A token as a JSON value. -/
def Token.toJson (t : Token) : Json :=
  .object [("kind", t.kind.toJson), ("text", .string t.text), ("position", t.position.toJson)]

end GrammarTree
