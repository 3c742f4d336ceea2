/-
# Token streams

The tokens of a text, up to its end or up to its first fault.  A `Stream` holds them all; a `Lexer`
hands them out one at a time and works on the text only as far as it is asked.  Both give the same
tokens at the same positions; once the end or a fault is reached, the lexer repeats it for ever.
-/
import GrammarTree.Lexeme.Segment
import GrammarTree.Token

namespace GrammarTree

/-- Why a text is not a sequence of tokens. -/
inductive ScanError where
  | unterminatedLiteral (start : Position)
  | unterminatedComment (start : Position)
  | unexpectedCharacter (character : Char) (place : Position)
deriving DecidableEq, Repr

namespace ScanError

/-- Where the trouble is. -/
def position : ScanError → Position
  | unterminatedLiteral p => p
  | unterminatedComment p => p
  | unexpectedCharacter _ p => p

/-- The trouble in words. -/
def message : ScanError → String
  | unterminatedLiteral p => "Unterminated terminal literal starting at " ++ p.text
  | unterminatedComment p => "Unterminated comment starting at " ++ p.text
  | unexpectedCharacter c p =>
    "Unexpected character '" ++ String.singleton c ++ "' at " ++ p.text

/-- The error that a fault is. -/
def ofFault (p : Position) : Fault → ScanError
  | .openQuote _ => unterminatedLiteral p
  | .openComment => unterminatedComment p
  | .stray c => unexpectedCharacter c p

end ScanError

/-- The token that a lexeme is. -/
def Token.ofLexeme (p : Position) : Lexeme → Token
  | .name cs => ⟨.identifier, String.ofList cs, p⟩
  | .quoted _ content => ⟨.terminal, String.ofList content, p⟩
  | .comment content => ⟨.comment, String.ofList content, p⟩
  | .symbol s => ⟨.symbol s, s.text, p⟩

/-- The token or the error that a piece is. -/
def Piece.classify (p : Position) : Piece → Except ScanError Token
  | .lexeme l => .ok (Token.ofLexeme p l)
  | .fault f => .error (ScanError.ofFault p f)

/-! ### Streams -/

/-- The tokens of a text, and how they end. -/
inductive Stream where
  /-- The end of the input, at the given position. -/
  | finished (place : Position)
  /-- The first fault. -/
  | failed (e : ScanError)
  /-- A token and what follows it. -/
  | next (t : Token) (rest : Stream)
deriving Repr

namespace Stream

/-- The number of tokens before the end. -/
def length : Stream → Nat
  | finished _ => 0
  | failed _ => 0
  | next _ rest => rest.length + 1

/-- The stream of some segments of a text. -/
def ofSegments (table : LineTable) : List Segment → Stream
  | [] => finished table.last
  | s :: rest =>
    match s.piece.classify (table.position s.start) with
    | .ok t => next t (ofSegments table rest)
    | .error e => failed e

/-- The stream of a text. -/
def ofSource (source : String) : Stream :=
  ofSegments (LineTable.ofChars source.toList) (segments source)

/-- All tokens with the end of the input, unless there is a fault. -/
def toList : Stream → Except ScanError (List Token)
  | finished p => .ok [Token.finish p]
  | failed e => .error e
  | next t rest =>
    match rest.toList with
    | .ok ts => .ok (t :: ts)
    | .error e => .error e

end Stream

/-- All tokens of a text, the end of the input being the last. -/
def tokenize (source : String) : Except ScanError (List Token) :=
  (Stream.ofSource source).toList

/-! ### Pulling tokens one at a time -/

/-- A place in a text from which tokens are pulled. -/
structure Lexer where
  /-- The lines of the whole text. -/
  table : LineTable
  /-- The byte offset of what is left. -/
  offset : Nat
  /-- What is left of the text. -/
  rest : List Char
  /-- The fault that was met, if one was. -/
  failure : Option ScanError

namespace Lexer

/-- A lexer at the start of a text. -/
def ofSource (source : String) : Lexer :=
  ⟨LineTable.ofChars source.toList, 0, source.toList, none⟩

/-- Passes over blanks: the offset behind them, and what follows. -/
def skipBlanks (offset : Nat) : List Char → Nat × List Char
  | [] => (offset, [])
  | c :: cs => if isBlank c then skipBlanks (offset + c.utf8Size) cs else (offset, c :: cs)

/-- The next token, or the first fault, and the lexer to go on with. -/
def next (lexer : Lexer) : Except ScanError Token × Lexer :=
  match lexer.failure with
  | some e => (.error e, lexer)
  | none =>
    match skipBlanks lexer.offset lexer.rest with
    | (offset, []) =>
      (.ok (Token.finish lexer.table.last), ⟨lexer.table, offset, [], none⟩)
    | (offset, c :: cs) =>
      let (piece, rest) := Piece.read c cs
      match piece.classify (lexer.table.position offset) with
      | .ok t => (.ok t, ⟨lexer.table, offset + piece.width, rest, none⟩)
      | .error e => (.error e, ⟨lexer.table, offset + piece.width, rest, some e⟩)

/-- The results of the next `n` calls. -/
def take : Nat → Lexer → List (Except ScanError Token)
  | 0, _ => []
  | n + 1, lexer => lexer.next.1 :: take n lexer.next.2

end Lexer

end GrammarTree
