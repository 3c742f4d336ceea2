/-
# Reading JSON

A strict reader: no comments, no commas too many, nothing but blanks around the value.  Each call of
the reader for a value takes at least one character, so the length of the text bounds the number of
nested calls; `read?` starts with that bound.
-/
import GrammarTree.Json

namespace GrammarTree.Json

/-- Whether a character may stand between the parts of a value. -/
def isSpace (c : Char) : Bool := c == ' ' || c == '\n' || c == '\t' || c == '\r'

/-- What follows the blanks at the front. -/
def skipSpaces (cs : List Char) : List Char := cs.dropWhile isSpace

/-- The value of a digit to base 16. -/
def hexValue? (c : Char) : Option Nat :=
  if '0' ≤ c ∧ c ≤ '9' then some (c.toNat - 48)
  else if 'a' ≤ c ∧ c ≤ 'f' then some (c.toNat - 87)
  else if 'A' ≤ c ∧ c ≤ 'F' then some (c.toNat - 55)
  else none

/-- The number that four digits to base 16 are. -/
def hex4? (a b c d : Char) : Option Nat := do
  let a ← hexValue? a
  let b ← hexValue? b
  let c ← hexValue? c
  let d ← hexValue? d
  return ((a * 16 + b) * 16 + c) * 16 + d

/-- Whether a code unit is the first half of a pair. -/
def isHighSurrogate (n : Nat) : Bool := 0xD800 ≤ n && n ≤ 0xDBFF

/-- Whether a code unit is the second half of a pair. -/
def isLowSurrogate (n : Nat) : Bool := 0xDC00 ≤ n && n ≤ 0xDFFF

/-- The character that a backslash and a letter stand for. -/
def simpleEscape? : Char → Option Char
  | '"' => some '"'
  | '\\' => some '\\'
  | '/' => some '/'
  | 'b' => some '\x08'
  | 'f' => some '\x0c'
  | 'n' => some '\n'
  | 'r' => some '\r'
  | 't' => some '\t'
  | _ => none

/-- A part of a string as it is written: a character, or a code unit given by its number. -/
inductive StringPart where
  | char (c : Char)
  | unit (n : Nat)
deriving DecidableEq, Repr

/-- Reads the parts of a string behind its opening quote. -/
def readString? : List Char → Option (List StringPart × List Char)
  | [] => none
  | '"' :: rest => some ([], rest)
  | '\\' :: 'u' :: a :: b :: c :: d :: rest =>
    match hex4? a b c d with
    | none => none
    | some n => (readString? rest).map fun (parts, rest) => (.unit n :: parts, rest)
  | '\\' :: e :: rest =>
    match simpleEscape? e with
    | none => none
    | some c => (readString? rest).map fun (parts, rest) => (.char c :: parts, rest)
  | c :: rest =>
    if c.toNat < 0x20 ∨ c = '\\' then none
    else (readString? rest).map fun (parts, rest) => (.char c :: parts, rest)

/-- The character of a pair of surrogates. -/
def joinSurrogates (high low : Nat) : Char :=
  Char.ofNat (0x10000 + (high - 0xD800) * 0x400 + (low - 0xDC00))

/-- The characters of a string, unless a surrogate in it has no partner. -/
def joinParts? : List StringPart → Option (List Char)
  | [] => some []
  | .char c :: parts => (joinParts? parts).map (c :: ·)
  | .unit n :: .unit m :: parts =>
    if isHighSurrogate n then
      if isLowSurrogate m then (joinParts? parts).map (joinSurrogates n m :: ·) else none
    else if isLowSurrogate n then none
    else (joinParts? (.unit m :: parts)).map (Char.ofNat n :: ·)
  | .unit n :: parts =>
    if isHighSurrogate n || isLowSurrogate n then none
    else (joinParts? parts).map (Char.ofNat n :: ·)

/-- One or more decimal digits at the front. -/
def readDigits? (cs : List Char) : Option (List Char × List Char) :=
  match cs.takeWhile Char.isDigit with
  | [] => none
  | digits => some (digits, cs.dropWhile Char.isDigit)

/-- The part of a number before its point: a single zero, or digits of which the first is not
zero. -/
def readWhole? : List Char → Option (List Char × List Char)
  | '0' :: c :: rest => if c.isDigit then none else some (['0'], c :: rest)
  | cs => readDigits? cs

/-- The part of a number from its point on, if it has one. -/
def readFraction? : List Char → Option (List Char × List Char)
  | '.' :: rest => (readDigits? rest).map fun (digits, rest) => ('.' :: digits, rest)
  | cs => some ([], cs)

/-- The exponent of a number, if it has one. -/
def readExponent? : List Char → Option (List Char × List Char)
  | c :: rest =>
    if c = 'e' ∨ c = 'E' then
      match rest with
      | s :: more =>
        if s = '+' ∨ s = '-' then
          (readDigits? more).map fun (digits, rest) => (c :: s :: digits, rest)
        else (readDigits? (s :: more)).map fun (digits, rest) => (c :: digits, rest)
      | [] => none
    else some ([], c :: rest)
  | [] => some ([], [])

/-- Reads a number. -/
def readNumber? (cs : List Char) : Option (Json × List Char) := do
  let (sign, cs) := match cs with
    | '-' :: rest => (['-'], rest)
    | cs => ([], cs)
  let (whole, cs) ← readWhole? cs
  let (fraction, cs) ← readFraction? cs
  let (exponent, cs) ← readExponent? cs
  return (number (String.ofList (sign ++ whole ++ fraction ++ exponent)), cs)

/-- An object with one more member in front. -/
def addMember (key : List StringPart) (value rest : Json) : Json :=
  match joinParts? key, rest with
  | some key, object members => object ((String.ofList key, value) :: members)
  | _, _ => unpaired

mutual

/-- Reads a value; there are no blanks in front of it. -/
def readValue? : Nat → List Char → Option (Json × List Char)
  | 0, _ => none
  | n + 1, cs =>
    match cs with
    | '"' :: rest =>
      (readString? rest).map fun (parts, rest) =>
        (((joinParts? parts).map fun cs => string (String.ofList cs)).getD unpaired, rest)
    | '[' :: rest =>
      match skipSpaces rest with
      | ']' :: rest => some (array [], rest)
      | rest => (readItems? n rest).map fun (items, rest) => (array items, rest)
    | '\x7b' :: rest =>
      match skipSpaces rest with
      | '\x7d' :: rest => some (object [], rest)
      | rest => readMembers? n rest
    | 'n' :: 'u' :: 'l' :: 'l' :: rest => some (null, rest)
    | 't' :: 'r' :: 'u' :: 'e' :: rest => some (bool true, rest)
    | 'f' :: 'a' :: 'l' :: 's' :: 'e' :: rest => some (bool false, rest)
    | cs => readNumber? cs

/-- Reads the items of an array up to its end; there is at least one. -/
def readItems? : Nat → List Char → Option (List Json × List Char)
  | 0, _ => none
  | n + 1, cs => do
    let (first, rest) ← readValue? n cs
    match skipSpaces rest with
    | ']' :: rest => return ([first], rest)
    | ',' :: rest =>
      let (others, rest) ← readItems? n (skipSpaces rest)
      return (first :: others, rest)
    | _ => none

/-- Reads the members of an object up to its end; there is at least one. -/
def readMembers? : Nat → List Char → Option (Json × List Char)
  | 0, _ => none
  | n + 1, cs => do
    let '"' :: rest := cs | none
    let (key, rest) ← readString? rest
    let ':' :: rest := skipSpaces rest | none
    let (value, rest) ← readValue? n (skipSpaces rest)
    match skipSpaces rest with
    | '\x7d' :: rest => return (addMember key value (object []), rest)
    | ',' :: rest =>
      let (others, rest) ← readMembers? n (skipSpaces rest)
      return (addMember key value others, rest)
    | _ => none

end

/-- The value that a text is. -/
def read? (text : String) : Option Json :=
  match readValue? (2 * text.length + 1) (skipSpaces text.toList) with
  | some (j, rest) => if (skipSpaces rest).isEmpty then some j else none
  | none => none

end GrammarTree.Json
