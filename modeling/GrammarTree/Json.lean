/-
# JSON values and how they are written

A JSON value keeps its numbers as they are spelled and its members in order.  It is written either
without any blanks or with each item on a line of its own.
-/

namespace GrammarTree

/-- A JSON value. -/
inductive Json where
  | null
  | bool (b : Bool)
  /-- A number, as it is spelled. -/
  | number (spelling : String)
  | string (s : String)
  | array (items : List Json)
  | object (members : List (String × Json))
  /-- A text in the form of a value that denotes none: a string in which a surrogate stands without
  its partner, or an object with such a key. -/
  | unpaired
deriving Repr

namespace Json

/-- A natural number. -/
def ofNat (n : Nat) : Json := number (toString n)

/-- A value, or null where there is none. -/
def orNull : Option Json → Json
  | some j => j
  | none => null

/-- A digit to base 16 in lower case. -/
def hexDigit (n : Nat) : Char := if n < 10 then Char.ofNat (n + 48) else Char.ofNat (n + 87)

/-- A character inside a string. -/
def escapeChar (c : Char) : List Char :=
  match c with
  | '"' => ['\\', '"']
  | '\\' => ['\\', '\\']
  | '\x08' => ['\\', 'b']
  | '\x0c' => ['\\', 'f']
  | '\n' => ['\\', 'n']
  | '\r' => ['\\', 'r']
  | '\t' => ['\\', 't']
  | c =>
    if c.toNat < 0x20 then
      ['\\', 'u', '0', '0', hexDigit (c.toNat / 16), hexDigit (c.toNat % 16)]
    else [c]

/-- A string with its quotes. -/
def stringText (s : String) : String :=
  "\"" ++ String.ofList (s.toList.flatMap escapeChar) ++ "\""

mutual

/-- A value without blanks. -/
def compact : Json → String
  | null => "null"
  | bool true => "true"
  | bool false => "false"
  | number spelling => spelling
  | string s => stringText s
  | array [] => "[]"
  | array (j :: js) => "[" ++ compact j ++ compactItems js ++ "]"
  | object [] => "\x7b\x7d"
  | object ((key, j) :: ms) =>
    "\x7b" ++ stringText key ++ ":" ++ compact j ++ compactMembers ms ++ "\x7d"
  | unpaired => "null"

/-- The items behind the first one. -/
def compactItems : List Json → String
  | [] => ""
  | j :: js => "," ++ compact j ++ compactItems js

/-- The members behind the first one. -/
def compactMembers : List (String × Json) → String
  | [] => ""
  | (key, j) :: ms => "," ++ stringText key ++ ":" ++ compact j ++ compactMembers ms

end

/-- A line feed and the indentation of a level. -/
def newline (level : Nat) : String := "\n" ++ String.ofList (List.replicate (2 * level) ' ')

mutual

/-- A value with each item on a line of its own; the value starts at the given level. -/
def prettyAt (level : Nat) : Json → String
  | null => "null"
  | bool true => "true"
  | bool false => "false"
  | number spelling => spelling
  | string s => stringText s
  | array [] => "[]"
  | array (j :: js) =>
    "[" ++ newline (level + 1) ++ prettyAt (level + 1) j ++ prettyItems (level + 1) js ++
      newline level ++ "]"
  | object [] => "\x7b\x7d"
  | object ((key, j) :: ms) =>
    "\x7b" ++ newline (level + 1) ++ stringText key ++ ": " ++ prettyAt (level + 1) j ++
      prettyMembers (level + 1) ms ++ newline level ++ "\x7d"
  | unpaired => "null"

/-- The items behind the first one. -/
def prettyItems (level : Nat) : List Json → String
  | [] => ""
  | j :: js => "," ++ newline level ++ prettyAt level j ++ prettyItems level js

/-- The members behind the first one. -/
def prettyMembers (level : Nat) : List (String × Json) → String
  | [] => ""
  | (key, j) :: ms =>
    "," ++ newline level ++ stringText key ++ ": " ++ prettyAt level j ++ prettyMembers level ms

end

/-- A value with each item on a line of its own. -/
def pretty (j : Json) : String := prettyAt 0 j

end Json

end GrammarTree
