/-
# Lexemes

The smallest pieces of a grammar's text.  A lexeme is a name, a quoted text, a comment or a symbol;
where none can be read there is a *fault*: a quote or a comment that is never closed, or a character
that starts nothing.  `Piece.read` reads the piece at the front of a text.  A piece remembers enough
to be written back (`Piece.chars`), and reading loses nothing: the piece written back, followed by
what is left, is the text that was read (`Piece.chars_append_read`).
-/
import GrammarTree.Symbol
import GrammarTree.Text.Position

namespace GrammarTree

/-! ### Classes of characters -/

/-- What may stand between lexemes: space, tab, line feed, carriage return and form feed. -/
def isBlank (c : Char) : Bool :=
  c == ' ' || c == '\t' || c == '\n' || c == '\r' || c == '\x0c'

/-- What a name starts with: an ASCII letter. -/
def isNameStart (c : Char) : Bool :=
  ('a' ≤ c && c ≤ 'z') || ('A' ≤ c && c ≤ 'Z')

/-- What a name goes on with: an ASCII letter, an ASCII digit or an underscore. -/
def isNamePart (c : Char) : Bool :=
  isNameStart c || ('0' ≤ c && c ≤ '9') || c == '_'

/-! ### Pieces -/

/-- The two quotes a text can stand between. -/
inductive Quote where
  | double
  | single
deriving DecidableEq, Repr

namespace Quote

/-- The quote character. -/
def char : Quote → Char
  | double => '"'
  | single => '\''

/-- The quote that a character is, if it is one. -/
def ofChar? (c : Char) : Option Quote :=
  if c = '"' then some double else if c = '\'' then some single else none

theorem char_of_ofChar? {c : Char} {q : Quote} (h : ofChar? c = some q) : q.char = c := by
  unfold ofChar? at h
  split at h
  · cases h
    simp_all [char]
  · split at h
    · cases h
      simp_all [char]
    · cases h

end Quote

/-- A well-formed piece of a grammar's text. -/
inductive Lexeme where
  /-- A name. -/
  | name (chars : List Char)
  /-- A quoted text, with what stands between the quotes. -/
  | quoted (quote : Quote) (content : List Char)
  /-- A comment, with what stands between its delimiters. -/
  | comment (content : List Char)
  /-- A symbol. -/
  | symbol (s : Symbol)
deriving DecidableEq, Repr

/-- A place where no lexeme can be read. -/
inductive Fault where
  /-- A quote that no equal quote follows. -/
  | openQuote (quote : Quote)
  /-- The start of a comment that is never closed. -/
  | openComment
  /-- A character that starts nothing. -/
  | stray (c : Char)
deriving DecidableEq, Repr

/-- What stands at the front of a text: a lexeme or a fault. -/
inductive Piece where
  | lexeme (l : Lexeme)
  | fault (f : Fault)
deriving DecidableEq, Repr

/-- A lexeme as it is written. -/
def Lexeme.chars : Lexeme → List Char
  | name cs => cs
  | quoted q content => q.char :: content ++ [q.char]
  | comment content => '(' :: '*' :: content ++ ['*', ')']
  | symbol s => s.chars

/-- The characters a fault covers. -/
def Fault.chars : Fault → List Char
  | openQuote q => [q.char]
  | openComment => ['(', '*']
  | stray c => [c]

/-- A piece as it is written. -/
def Piece.chars : Piece → List Char
  | lexeme l => l.chars
  | fault f => f.chars

/-- The number of bytes a piece covers. -/
def Piece.width (p : Piece) : Nat := byteLength p.chars

/-! ### Reading the piece at the front -/

/-- Splits a text at the first end of a comment, which belongs to neither part. -/
def closeComment? : List Char → Option (List Char × List Char)
  | [] => none
  | '*' :: ')' :: rest => some ([], rest)
  | c :: cs => (closeComment? cs).map fun (content, rest) => (c :: content, rest)

theorem closeComment?_append {cs content rest : List Char}
    (h : closeComment? cs = some (content, rest)) : content ++ '*' :: ')' :: rest = cs := by
  fun_induction closeComment? cs generalizing content with
  | case1 => simp at h
  | case2 => simp_all
  | case3 c cs _ ih =>
    obtain ⟨⟨content', rest'⟩, h', heq⟩ := Option.map_eq_some_iff.1 h
    simp only [Prod.mk.injEq] at heq
    obtain ⟨rfl, rfl⟩ := heq
    simpa using ih h'

/-- Reads a quoted text whose opening quote has been passed. -/
def readQuoted (q : Quote) (cs : List Char) : Piece × List Char :=
  match cs.dropWhile (· != q.char) with
  | [] => (.fault (.openQuote q), cs)
  | _ :: rest => (.lexeme (.quoted q (cs.takeWhile (· != q.char))), rest)

/-- Reads a comment whose opening delimiter has been passed. -/
def readComment (cs : List Char) : Piece × List Char :=
  match closeComment? cs with
  | none => (.fault .openComment, cs)
  | some (content, rest) => (.lexeme (.comment content), rest)

/-- Reads the symbol or the stray character `c`. -/
def readSymbol (c : Char) (cs : List Char) : Piece × List Char :=
  match Symbol.ofChar? c with
  | some s => (.lexeme (.symbol s), cs)
  | none => (.fault (.stray c), cs)

/-- Reads the piece that starts with `c`, and what follows it.  The longest lexeme wins: a name
takes all its characters, `:==` is one symbol, and `(*` opens a comment. -/
def Piece.read (c : Char) (cs : List Char) : Piece × List Char :=
  if isNameStart c then
    (.lexeme (.name (c :: cs.takeWhile isNamePart)), cs.dropWhile isNamePart)
  else match Quote.ofChar? c with
  | some q => readQuoted q cs
  | none =>
    match c, cs with
    | '(', '*' :: rest => readComment rest
    | ':', '=' :: '=' :: rest => (.lexeme (.symbol .colonEquals), rest)
    | _, _ => readSymbol c cs

theorem chars_append_readQuoted (q : Quote) (cs : List Char) :
    (readQuoted q cs).1.chars ++ (readQuoted q cs).2 = q.char :: cs := by
  unfold readQuoted
  split
  · simp [Piece.chars, Fault.chars]
  · rename_i d rest h
    have hd : d = q.char := by
      have := List.head_dropWhile_not (· != q.char) (l := cs) (by simp [h])
      simpa [h] using this
    have := List.takeWhile_append_dropWhile (p := (· != q.char)) (l := cs)
    rw [h, hd] at this
    simp [Piece.chars, Lexeme.chars, this]

theorem chars_append_readComment (cs : List Char) :
    (readComment cs).1.chars ++ (readComment cs).2 = '(' :: '*' :: cs := by
  unfold readComment
  split
  · simp [Piece.chars, Fault.chars]
  · rename_i content rest h
    simp [Piece.chars, Lexeme.chars, closeComment?_append h]

theorem chars_append_readSymbol (c : Char) (cs : List Char) :
    (readSymbol c cs).1.chars ++ (readSymbol c cs).2 = c :: cs := by
  unfold readSymbol
  split
  · rename_i s h
    have := List.find?_some h
    simp only [beq_iff_eq] at this
    simp [Piece.chars, Lexeme.chars, this]
  · simp [Piece.chars, Fault.chars]

/-- Reading loses nothing. -/
theorem Piece.chars_append_read (c : Char) (cs : List Char) :
    (Piece.read c cs).1.chars ++ (Piece.read c cs).2 = c :: cs := by
  unfold Piece.read
  split
  · simp [Piece.chars, Lexeme.chars, List.takeWhile_append_dropWhile]
  · split
    · rename_i q h
      rw [chars_append_readQuoted, Quote.char_of_ofChar? h]
    · split
      · exact chars_append_readComment _
      · simp [Piece.chars, Lexeme.chars, Symbol.chars]
      · exact chars_append_readSymbol c cs

/-- A piece is never empty. -/
theorem Piece.chars_read_ne_nil (c : Char) (cs : List Char) :
    (Piece.read c cs).1.chars ≠ [] := by
  unfold Piece.read
  split
  · simp [Piece.chars, Lexeme.chars]
  · split
    · unfold readQuoted
      split <;> simp [Piece.chars, Lexeme.chars, Fault.chars]
    · split
      · unfold readComment
        split <;> simp [Piece.chars, Lexeme.chars, Fault.chars]
      · simp [Piece.chars, Lexeme.chars, Symbol.chars]
      · unfold readSymbol
        split
        · rename_i s _
          cases s <;> simp [Piece.chars, Lexeme.chars, Symbol.chars]
        · simp [Piece.chars, Fault.chars]

/-- Reading a piece leaves less to read. -/
theorem Piece.length_read_lt (c : Char) (cs : List Char) :
    (Piece.read c cs).2.length < (c :: cs).length := by
  have h := congrArg List.length (Piece.chars_append_read c cs)
  have := List.length_pos_iff.2 (Piece.chars_read_ne_nil c cs)
  simp only [List.length_append] at h
  omega

end GrammarTree
