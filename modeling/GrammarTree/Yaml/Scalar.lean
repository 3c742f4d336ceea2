/-
# Texts in YAML

A text can be spelled in four ways: plain, between single quotes, between double quotes, or as a
block of lines.  Which one is chosen depends on what the text would be taken for.  A text with line
feeds wants to be a block, a text that would be read as something else than a text wants single
quotes, and any other wants to be plain.  A wish that cannot be granted, because a character or a
blank would get lost, gives way: plain to single quotes, and single quotes and blocks to double
quotes, where everything has an escape.
-/
import GrammarTree.Decimal

namespace GrammarTree.Yaml

/-! ### Classes of characters -/

/-- A character that ends a line. -/
def isBreak (c : Char) : Bool :=
  c == '\n' || c == '\r' || c == '\x85' || c == '\u2028' || c == '\u2029'

/-- A blank or the end of a line; NUL counts too. -/
def isBlankOrBreak (c : Char) : Bool := c == ' ' || c == '\t' || c == '\x00' || isBreak c

/-- A character that can only be written with an escape. -/
def needsEscape (c : Char) : Bool :=
  (c.toNat < 0x20 && c != '\n') || (0x7F ≤ c.toNat && c.toNat ≤ 0x9F) || c == '\uFEFF' ||
    c == '\uFFFE' || c == '\uFFFF'

/-! ### Texts that would be read as something else -/

/-- A sign and two or more digits of which the first is zero: no number, but easily taken for one. -/
def isPaddedNumber (cs : List Char) : Bool :=
  match (splitSign cs).2 with
  | '0' :: c :: rest => (c :: rest).all Char.isDigit
  | _ => false

/-- The whole number that digits to some base are, if all of them are digits and there is one. -/
def readBased? (base : Nat) (digits : List Char) : Option Nat :=
  let value (c : Char) : Nat :=
    if '0' ≤ c ∧ c ≤ '9' then c.toNat - 48
    else if 'a' ≤ c ∧ c ≤ 'f' then c.toNat - 87
    else if 'A' ≤ c ∧ c ≤ 'F' then c.toNat - 55
    else base
  if digits.isEmpty || !digits.all (value · < base) then none
  else some (ofDigits base value digits)

/-- The size of a whole number without its sign: decimal, or to another base behind a mark. -/
def readSize? : List Char → Option Nat
  | '0' :: 'x' :: digits => readBased? 16 digits
  | '0' :: 'o' :: digits => readBased? 8 digits
  | '0' :: 'b' :: digits => readBased? 2 digits
  | digits => readBased? 10 digits

/-- A whole number that fits into 128 bits. -/
def isInteger (cs : List Char) : Bool :=
  let (negative, size) := splitSign cs
  match readSize? size with
  | some n => if negative then n ≤ Nat.pow 2 127 else n < Nat.pow 2 128
  | none => false

/-- A decimal number in the range of floating point numbers, or a name of one outside it. -/
def isFloat (cs : List Char) : Bool :=
  [".nan", ".NaN", ".NAN"].contains (String.ofList cs) ||
    [".inf", ".Inf", ".INF"].contains (String.ofList (splitSign cs).2) ||
    match Decimal.read? cs with
    | some d => d.toFloat.isFinite
    | none => false

/-- A name of nothing or of a truth value. -/
def isWord (s : String) : Bool :=
  ["null", "Null", "NULL", "~", "true", "True", "TRUE", "false", "False", "FALSE"].contains s

/-- Whether a plain text would be read as something else, or easily taken for it. -/
def looksSpecial (s : String) : Bool :=
  s.isEmpty || isWord s || isInteger s.toList || isFloat s.toList || isPaddedNumber s.toList

/-! ### What a text allows -/

/-- Whether a character at some place is followed by a blank, a line's end or nothing. -/
def endsWord : List Char → Bool
  | [] => true
  | c :: _ => isBlankOrBreak c

/-- Whether a character that is not the first one keeps a text from being plain: a colon at the end
of a word or a number sign at the start of one. -/
def interrupts (previous : Char) : List Char → Bool
  | [] => false
  | c :: rest =>
    (c == ':' && endsWord rest) || (c == '#' && isBlankOrBreak previous) || interrupts c rest

/-- Whether the start of a text keeps it from being plain. -/
def startsSpecially : List Char → Bool
  | '-' :: '-' :: '-' :: _ => true
  | '.' :: '.' :: '.' :: _ => true
  | c :: rest =>
    "#,[]\x7b\x7d&*!|>'\"%@\x60".toList.contains c ||
      ((c == '-' || c == '?' || c == ':') && endsWord rest)
  | [] => false

/-- Whether somewhere a character of the first class is followed by one of the second. -/
def hasPair (first second : Char → Bool) : List Char → Bool
  | a :: b :: rest => (first a && second b) || hasPair first second (b :: rest)
  | _ => false

/-- A space. -/
def isSpace (c : Char) : Bool := c == ' '

/-- Whether the first or the last character is one that gets lost there. -/
def hasEdge (cs : List Char) : Bool :=
  let isEdge (c : Char) : Bool := isSpace c || isBreak c
  (cs.head?.any isEdge) || (cs.getLast?.any isEdge)

/-- Whether a text can be plain. -/
def allowsPlain (cs : List Char) : Bool :=
  !(hasEdge cs || startsSpecially cs || cs.any needsEscape || cs.any isBreak ||
    match cs with
    | [] => false
    | c :: rest => interrupts c rest)

/-- Whether a text can stand between single quotes. -/
def allowsSingle (cs : List Char) : Bool :=
  !(cs.any needsEscape || hasPair isSpace isBreak cs || hasPair isBreak isSpace cs)

/-- Whether a text can be a block of lines. -/
def allowsBlock (cs : List Char) : Bool :=
  !(cs.any needsEscape || hasPair isSpace isBreak cs || cs.getLast?.any isSpace)

/-! ### Spelling -/

/-- The ways to spell a text. -/
inductive Style where
  | plain
  | single
  | double
  | block
deriving DecidableEq, Repr

/-- Single quotes if they are possible. -/
def quotes (cs : List Char) : Style := if allowsSingle cs then .single else .double

/-- The way a text is spelled.  As a key in front of its value it cannot be a block. -/
def style (s : String) : Style :=
  let cs := s.toList
  if cs.contains '\n' then if allowsBlock cs then .block else .double
  else if looksSpecial s then quotes cs
  else if allowsPlain cs then .plain
  else quotes cs

/-- Some spaces. -/
def spaces (n : Nat) : List Char := List.replicate n ' '

/-- A text between single quotes.  What follows a line's end is indented. -/
def singleChars (indent : Nat) (afterBreak : Bool) : List Char → List Char
  | [] => if afterBreak then spaces indent else []
  | c :: rest =>
    if isBreak c then c :: singleChars indent true rest
    else
      (if afterBreak then spaces indent else []) ++
        (if c == '\'' then ['\'', '\''] else [c]) ++ singleChars indent false rest

/-- Upper case digits to base 16, at least `width` of them. -/
def hexChars (width n : Nat) : List Char :=
  let digits := (Nat.toDigits 16 n).map Char.toUpper
  List.replicate (width - digits.length) '0' ++ digits

/-- A character between double quotes. -/
def doubleChar (c : Char) : List Char :=
  match c with
  | '\x00' => ['\\', '0']
  | '\x07' => ['\\', 'a']
  | '\x08' => ['\\', 'b']
  | '\t' => ['\\', 't']
  | '\n' => ['\\', 'n']
  | '\x0b' => ['\\', 'v']
  | '\x0c' => ['\\', 'f']
  | '\r' => ['\\', 'r']
  | '\x1b' => ['\\', 'e']
  | '"' => ['\\', '"']
  | '\\' => ['\\', '\\']
  | '\x85' => ['\\', 'N']
  | '\u2028' => ['\\', 'L']
  | '\u2029' => ['\\', 'P']
  | c =>
    if !needsEscape c then [c]
    else if c.toNat ≤ 0xFF then '\\' :: 'x' :: hexChars 2 c.toNat
    else if c.toNat ≤ 0xFFFF then '\\' :: 'u' :: hexChars 4 c.toNat
    else '\\' :: 'U' :: hexChars 8 c.toNat

/-- The lines of a block, each that is not empty with its indentation. -/
def blockChars (indent : Nat) (afterBreak : Bool) : List Char → List Char
  | [] => []
  | c :: rest =>
    if isBreak c then c :: blockChars indent true rest
    else (if afterBreak then spaces indent else []) ++ c :: blockChars indent false rest

/-- The marks behind the bar of a block: the indentation, if the first character would hide it, and
what becomes of the line feeds at the end. -/
def blockMarks (cs : List Char) : List Char :=
  (if cs.head?.any fun c => isSpace c || isBreak c then ['2'] else []) ++
    match cs.reverse with
    | [] => ['-']
    | [last] => if isBreak last then ['+'] else ['-']
    | last :: before :: _ =>
      if !isBreak last then ['-'] else if isBreak before then ['+'] else []

/-- A text and the end of its line.  Lines of the text beyond the first are indented by `indent`. -/
def scalarLine (indent : Nat) (s : String) : String :=
  let cs := s.toList
  String.ofList <| match style s with
    | .plain => cs ++ ['\n']
    | .single => '\'' :: singleChars indent false cs ++ ['\'', '\n']
    | .double => '"' :: cs.flatMap doubleChar ++ ['"', '\n']
    | .block =>
      '|' :: blockMarks cs ++ ['\n'] ++ blockChars indent true cs ++
        (if cs.getLast?.any isBreak then [] else ['\n'])

end GrammarTree.Yaml
