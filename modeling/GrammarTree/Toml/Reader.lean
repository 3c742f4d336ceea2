/-
# Reading TOML

The text of a document is read statement by statement, and then the statements are put together.
Each reader takes what it reads off the front of a list of characters.  Values nest in arrays and
braces, at most `maxNesting` levels deep; each call of the reader for a value takes at least one
character, so that the length of the text bounds the number of nested calls.
-/
import GrammarTree.Decimal
import GrammarTree.Toml.Section

namespace GrammarTree.Toml

/-- The number of arrays and braces that may be open at a time. -/
def maxNesting : Nat := 79

/-! ### Between the parts -/

/-- Whether a character is a space or a tab. -/
def isBlank (c : Char) : Bool := c == ' ' || c == '\t'

/-- What follows the spaces and tabs at the front. -/
def skipBlanks (cs : List Char) : List Char := cs.dropWhile isBlank

/-- Whether a character may stand in a text as it is: no control character but the tab. -/
def isPlain (c : Char) : Bool := c == '\t' || (0x20 ≤ c.toNat && c.toNat != 0x7F)

/-- What follows a line end at the front. -/
def newline? : List Char → Option (List Char)
  | '\n' :: rest => some rest
  | '\r' :: '\n' :: rest => some rest
  | _ => none

/-- What follows a comment at the front, if there is one. -/
def skipComment : List Char → List Char
  | '#' :: rest => rest.dropWhile isPlain
  | cs => cs

/-- What follows a line's end with all that may stand before it. -/
def lineEnd? (cs : List Char) : Option (List Char) :=
  match skipComment (skipBlanks cs) with
  | [] => some []
  | cs => newline? cs

/-- What follows blanks, line ends and comments at the front. -/
def skipLines : Nat → List Char → List Char
  | 0, cs => cs
  | n + 1, cs =>
    match skipComment (skipBlanks cs) with
    | '\n' :: rest => skipLines n rest
    | '\r' :: '\n' :: rest => skipLines n rest
    | cs => cs

/-! ### Texts -/

/-- The value of a digit to base 16. -/
def hexValue (c : Char) : Nat :=
  if c ≤ '9' then c.toNat - 48 else if c ≤ 'F' then c.toNat - 55 else c.toNat - 87

/-- Whether a character is a digit to base 16. -/
def isHexDigit (c : Char) : Bool :=
  c.isDigit || ('a' ≤ c && c ≤ 'f') || ('A' ≤ c && c ≤ 'F')

/-- The character whose code point is given by the next `n` digits, and what follows. -/
def codePoint? (n : Nat) (cs : List Char) : Option (Char × List Char) :=
  let digits := cs.take n
  let code := ofDigits 16 hexValue digits
  if digits.length = n ∧ digits.all isHexDigit ∧ code.isValidChar then
    some (Char.ofNat code, cs.drop n)
  else none

/-- The character that is written behind a backslash, and what follows. -/
def escape? : List Char → Option (Char × List Char)
  | 'b' :: rest => some ('\x08', rest)
  | 't' :: rest => some ('\t', rest)
  | 'n' :: rest => some ('\n', rest)
  | 'f' :: rest => some ('\x0c', rest)
  | 'r' :: rest => some ('\r', rest)
  | '"' :: rest => some ('"', rest)
  | '\\' :: rest => some ('\\', rest)
  | 'u' :: rest => codePoint? 4 rest
  | 'U' :: rest => codePoint? 8 rest
  | _ => none

/-- Reads a text behind its opening quote up to the closing one, with escapes. -/
def basicText? : Nat → List Char → Option (List Char × List Char)
  | 0, _ => none
  | n + 1, cs =>
    match cs with
    | '"' :: rest => some ([], rest)
    | '\\' :: rest =>
      match escape? rest with
      | some (c, rest) => (basicText? n rest).map fun (text, rest) => (c :: text, rest)
      | none => none
    | c :: rest =>
      if isPlain c then (basicText? n rest).map fun (text, rest) => (c :: text, rest) else none
    | [] => none

/-- Reads a text behind its opening quote up to the closing one, without escapes. -/
def literalText? : List Char → Option (List Char × List Char)
  | [] => none
  | c :: rest =>
    if c = '\'' then some ([], rest)
    else if isPlain c then (literalText? rest).map fun (text, rest) => (c :: text, rest)
    else none

/-- A run of a quote at the front, as it counts inside a text of several lines: less than three are
part of the text, otherwise three end it and up to two before them are part of it.  Whether the text
ends comes first, then what is part of it, then what follows. -/
def quoteRun (quote : Char) (cs : List Char) : Bool × List Char × List Char :=
  let run := cs.takeWhile (· == quote)
  if run.length < 3 then (false, run, cs.dropWhile (· == quote))
  else
    let taken := min run.length 5
    (true, List.replicate (taken - 3) quote, cs.drop taken)

/-- What follows an escaped line end: the blanks and line ends behind it are left out as well. -/
def continuation? (cs : List Char) : Option (List Char) :=
  (newline? (skipBlanks cs)).map fun rest => skipBreaks rest.length rest
where
  /-- What follows blanks and line ends. -/
  skipBreaks : Nat → List Char → List Char
    | 0, cs => cs
    | n + 1, cs =>
      match newline? (skipBlanks cs) with
      | some rest => skipBreaks n rest
      | none => skipBlanks cs

/-- Reads a text of several lines up to its end; `quote` is the quote that ends it, and a backslash
escapes only between double quotes. -/
def longText? (quote : Char) : Nat → List Char → Option (List Char × List Char)
  | 0, _ => none
  | n + 1, cs =>
    match cs with
    | [] => none
    | c :: rest =>
      let goOn (front : List Char) (rest : List Char) : Option (List Char × List Char) :=
        (longText? quote n rest).map fun (text, rest) => (front ++ text, rest)
      if c = quote then
        match quoteRun quote cs with
        | (true, front, rest) => some (front, rest)
        | (false, front, rest) => goOn front rest
      else if c = '\\' ∧ quote = '"' then
        match continuation? rest with
        | some rest => goOn [] rest
        | none =>
          match escape? rest with
          | some (c, rest) => goOn [c] rest
          | none => none
      else if isPlain c then goOn [c] rest
      else
        match newline? cs with
        | some rest => goOn ['\n'] rest
        | none => none

/-- What follows a line end at the front, if there is one. -/
def skipNewline (cs : List Char) : List Char := (newline? cs).getD cs

/-- Reads a text with its quotes. -/
def text? (cs : List Char) : Option (String × List Char) :=
  let result : Option (List Char × List Char) :=
    match cs with
    | '"' :: '"' :: '"' :: rest => longText? '"' (rest.length + 1) (skipNewline rest)
    | '"' :: rest => basicText? (rest.length + 1) rest
    | '\'' :: '\'' :: '\'' :: rest => longText? '\'' (rest.length + 1) (skipNewline rest)
    | '\'' :: rest => literalText? rest
    | _ => none
  result.map fun (text, rest) => (String.ofList text, rest)

/-! ### Keys -/

/-- Whether a character may stand in a key without quotes. -/
def isKeyChar (c : Char) : Bool := c.isAlphanum || c == '_' || c == '-'

/-- Reads one part of a key. -/
def keyPart? (cs : List Char) : Option (String × List Char) :=
  match cs with
  | '"' :: rest =>
    (basicText? (rest.length + 1) rest).map fun (text, rest) => (String.ofList text, rest)
  | '\'' :: rest => (literalText? rest).map fun (text, rest) => (String.ofList text, rest)
  | cs =>
    match cs.takeWhile isKeyChar with
    | [] => none
    | part => some (String.ofList part, cs.dropWhile isKeyChar)

/-- Reads the parts of a key with the blanks around them; there is at least one. -/
def keyParts? : Nat → List Char → Option (List String × List Char)
  | 0, _ => none
  | n + 1, cs =>
    match keyPart? (skipBlanks cs) with
    | none => none
    | some (part, rest) =>
      match skipBlanks rest with
      | '.' :: rest => (keyParts? n rest).map fun (parts, rest) => (part :: parts, rest)
      | rest => some ([part], rest)

/-- Reads a key with the blanks around it.  It has no more parts than tables may nest. -/
def key? (cs : List Char) : Option (Key × List Char) :=
  match keyParts? (cs.length + 1) cs with
  | none => none
  | some (parts, rest) =>
    if maxNesting < parts.length then none
    else parts.getLast?.map fun last => (⟨parts.dropLast, last⟩, rest)

/-! ### Numbers -/

/-- Reads digits behind a first one; single underscores may stand between them, and they are left
out. -/
def moreDigits? (isDigit : Char → Bool) : List Char → Option (List Char × List Char)
  | [] => some ([], [])
  | '_' :: rest =>
    match rest with
    | [] => none
    | c :: rest =>
      if isDigit c then (moreDigits? isDigit rest).map fun (digits, rest) => (c :: digits, rest)
      else none
  | c :: rest =>
    if isDigit c then (moreDigits? isDigit rest).map fun (digits, rest) => (c :: digits, rest)
    else some ([], c :: rest)

/-- Reads digits, of which there is at least one. -/
def digits? (isDigit : Char → Bool) : List Char → Option (List Char × List Char)
  | [] => none
  | c :: rest =>
    if isDigit c then (moreDigits? isDigit rest).map fun (digits, rest) => (c :: digits, rest)
    else none

/-- Reads the whole part of a decimal number: a zero stands alone. -/
def whole? : List Char → Option (List Char × List Char)
  | '0' :: rest => some (['0'], rest)
  | cs => digits? Char.isDigit cs

/-- A sign, if there is one, and what follows. -/
def sign : List Char → List Char × List Char
  | '-' :: rest => (['-'], rest)
  | '+' :: rest => ([], rest)
  | cs => ([], cs)

/-- The integer if 64 bits hold it. -/
def integer? (n : Int) : Option Toml := if fitsSigned n then some (.integer n) else none

/-- Reads an integer to a base behind the letter for it. -/
def basedInteger? (base : Nat) (isDigit : Char → Bool) (cs : List Char) :
    Option (Toml × List Char) := do
  let (digits, rest) ← digits? isDigit cs
  let v ← integer? (ofDigits base hexValue digits)
  return (v, rest)

/-- Reads an exponent behind its letter: a sign and digits. -/
def exponent? (cs : List Char) : Option (List Char × List Char) := do
  let (sign, cs) := sign cs
  let (digits, rest) ← digits? Char.isDigit cs
  return ('e' :: sign ++ digits, rest)

/-- Reads an exponent with its letter, if there is one. -/
def optionalExponent? : List Char → Option (List Char × List Char)
  | 'e' :: rest => exponent? rest
  | 'E' :: rest => exponent? rest
  | cs => some ([], cs)

/-- The number of a decimal text, unless it is too great. -/
def float? (text : List Char) : Option Toml := do
  let x := (← Decimal.read? text).toFloat
  if x == 1.0 / 0.0 then none else some (.float x)

/-- Reads a decimal number: an integer, or with a fraction or an exponent a floating point number. -/
def decimal? (cs : List Char) : Option (Toml × List Char) := do
  let (sign, cs) := sign cs
  let (whole, cs) ← whole? cs
  match cs with
  | '.' :: rest =>
    let (fraction, rest) ← digits? Char.isDigit rest
    let (exponent, rest) ← optionalExponent? rest
    let v ← float? (sign ++ whole ++ '.' :: fraction ++ exponent)
    return (v, rest)
  | cs =>
    let (exponent, rest) ← optionalExponent? cs
    if exponent.isEmpty then
      let n ← readInteger? (sign ++ whole)
      let v ← integer? n
      return (v, rest)
    else
      let v ← float? (sign ++ whole ++ exponent)
      return (v, rest)

/-- Reads a number, which may be infinite or no number at all. -/
def number? (cs : List Char) : Option (Toml × List Char) :=
  match cs with
  | '0' :: 'x' :: rest => basedInteger? 16 isHexDigit rest
  | '0' :: 'o' :: rest => basedInteger? 8 (fun c => '0' ≤ c && c ≤ '7') rest
  | '0' :: 'b' :: rest => basedInteger? 2 (fun c => c == '0' || c == '1') rest
  | cs =>
    let (mark, unsigned) := sign cs
    match unsigned with
    | 'i' :: 'n' :: 'f' :: rest =>
      some (.float (if mark.isEmpty then 1.0 / 0.0 else -(1.0 / 0.0)), rest)
    | 'n' :: 'a' :: 'n' :: rest => some (.float (0.0 / 0.0), rest)
    | _ => decimal? cs

/-! ### Values -/

mutual

/-- Reads a value.  The first number bounds the calls, the second is the number of arrays and braces
that may still be opened. -/
def value? : Nat → Nat → List Char → Option (Toml × List Char)
  | 0, _, _ => none
  | n + 1, room, cs =>
    match cs with
    | '"' :: _ => (text? cs).map fun (s, rest) => (.string s, rest)
    | '\'' :: _ => (text? cs).map fun (s, rest) => (.string s, rest)
    | '[' :: rest =>
      if room = 0 then none
      else (items? n (room - 1) rest).map fun (items, rest) => (.array items, rest)
    | '\x7b' :: rest =>
      if room = 0 then none
      else
        match skipBlanks rest with
        | '\x7d' :: rest => some (.table [], rest)
        | rest => do
          let (entries, rest) ← entries? n (room - 1) rest
          let table ← ofEntries? entries
          return (table, rest)
    | 't' :: 'r' :: 'u' :: 'e' :: rest => some (.boolean true, rest)
    | 'f' :: 'a' :: 'l' :: 's' :: 'e' :: rest => some (.boolean false, rest)
    | cs => number? cs

/-- Reads the items of an array up to its end; a comma may stand behind the last one. -/
def items? : Nat → Nat → List Char → Option (List Toml × List Char)
  | 0, _, _ => none
  | n + 1, room, cs =>
    match skipLines cs.length cs with
    | ']' :: rest => some ([], rest)
    | cs => do
      let (first, rest) ← value? n room cs
      match skipLines rest.length rest with
      | ']' :: rest => return ([first], rest)
      | ',' :: rest =>
        let (others, rest) ← items? n room rest
        return (first :: others, rest)
      | _ => none

/-- Reads the entries between braces up to the closing one; there is at least one. -/
def entries? : Nat → Nat → List Char → Option (List (Key × Toml) × List Char)
  | 0, _, _ => none
  | n + 1, room, cs => do
    let (key, rest) ← key? cs
    let '=' :: rest := rest | none
    let (v, rest) ← value? n room (skipBlanks rest)
    match skipBlanks rest with
    | '\x7d' :: rest => return ([(key, v)], rest)
    | ',' :: rest =>
      let (others, rest) ← entries? n room rest
      return ((key, v) :: others, rest)
    | _ => none

end

/-! ### Documents -/

/-- Reads a statement up to its line's end; there are no blanks in front of it. -/
def statement? : List Char → Option (Statement × List Char)
  | '[' :: '[' :: rest => do
    let (key, rest) ← key? rest
    let ']' :: ']' :: rest := rest | none
    return (.element key, ← lineEnd? rest)
  | '[' :: rest => do
    let (key, rest) ← key? rest
    let ']' :: rest := rest | none
    return (.header key, ← lineEnd? rest)
  | cs => do
    let (key, rest) ← key? cs
    let '=' :: rest := rest | none
    let (v, rest) ← value? (2 * rest.length + 1) maxNesting (skipBlanks rest)
    return (.entry key v, ← lineEnd? rest)

/-- Reads the statements of a text. -/
def statements? : Nat → List Char → Option (List Statement)
  | 0, _ => none
  | n + 1, cs =>
    match skipLines cs.length cs with
    | [] => some []
    | cs => do
      let (s, rest) ← statement? cs
      let others ← statements? n rest
      return s :: others

/-- The members of the document that a text is.  A byte order mark at its start is ignored. -/
def read? (text : String) : Option (List (String × Toml)) :=
  let cs := match text.toList with
    | '\ufeff' :: rest => rest
    | cs => cs
  (statements? (cs.length + 1) cs).bind ofStatements?

end GrammarTree.Toml
