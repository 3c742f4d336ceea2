/-
# The symbols of the notation

A grammar is written with fourteen symbols beside names, quoted texts and comments.  Each has one
spelling; three of them may stand between a rule's name and its definition, and two may end a rule.
-/

namespace GrammarTree

/-- A symbol with a meaning of its own. -/
inductive Symbol where
  | equals
  | colon
  | colonEquals
  | semicolon
  | period
  | comma
  | pipe
  | openParen
  | closeParen
  | openBracket
  | closeBracket
  | openBrace
  | closeBrace
  | minus
deriving DecidableEq, Repr

namespace Symbol

/-- Every symbol. -/
def all : List Symbol :=
  [equals, colon, colonEquals, semicolon, period, comma, pipe, openParen, closeParen,
    openBracket, closeBracket, openBrace, closeBrace, minus]

/-- The characters a symbol is written with. -/
def chars : Symbol → List Char
  | equals => ['=']
  | colon => [':']
  | colonEquals => [':', '=', '=']
  | semicolon => [';']
  | period => ['.']
  | comma => [',']
  | pipe => ['|']
  | openParen => ['(']
  | closeParen => [')']
  | openBracket => ['[']
  | closeBracket => [']']
  | openBrace => ['\x7b']
  | closeBrace => ['\x7d']
  | minus => ['-']

/-- The spelling of a symbol. -/
def text (s : Symbol) : String := String.ofList s.chars

/-- The spelling between single quotes, as messages show it. -/
def quoted (s : Symbol) : String := "'" ++ s.text ++ "'"

/-- The symbol written with a single character, if there is one. -/
def ofChar? (c : Char) : Option Symbol :=
  all.find? fun s => s.chars == [c]

/-- A symbol that separates a rule's name from its definition. -/
def isDefinition : Symbol → Bool
  | equals | colon | colonEquals => true
  | _ => false

/-- A symbol that ends a rule. -/
def isTerminator : Symbol → Bool
  | semicolon | period => true
  | _ => false

/-- A symbol that opens a group, an option or a repetition. -/
def isOpening : Symbol → Bool
  | openParen | openBracket | openBrace => true
  | _ => false

end Symbol

end GrammarTree
