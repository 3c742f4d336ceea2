/-
# Settings given as JSON

A JSON value can be laid over settings.  A number that is spelled as a whole number and fits into 64
bits, with a sign or without one, is an integer; every other number is a floating point number, and so
is a zero with a minus sign.
-/
import GrammarTree.Json
import GrammarTree.Json.Number
import GrammarTree.Settings.Value

namespace GrammarTree.Settings

/-- The number of a spelling. -/
def Scalar.ofNumber (spelling : List Char) : Scalar :=
  match readInteger? spelling with
  | some n =>
    if spelling ≠ ['-', '0'] ∧ (fitsSigned n ∨ (0 ≤ n ∧ n < wordCount)) then .integer n
    else .float (Json.floatOfSpelling spelling)
  | none => .float (Json.floatOfSpelling spelling)

namespace Value

mutual

/-- A JSON value as a setting. -/
def ofJson : Json → Value
  | .null => .scalar none .nil
  | .bool b => .scalar none (.boolean b)
  | .number spelling => .scalar none (.ofNumber spelling.toList)
  | .string s => .scalar none (.text s)
  | .array items => .list none (ofJsonItems items)
  | .object members => .table none (ofJsonMembers members)
  | .unpaired => .scalar none .nil

/-- The items of an array as settings. -/
def ofJsonItems : List Json → List Value
  | [] => []
  | j :: js => ofJson j :: ofJsonItems js

/-- The members of an object as settings. -/
def ofJsonMembers : List (String × Json) → List (String × Value)
  | [] => []
  | (key, j) :: ms => (key, ofJson j) :: ofJsonMembers ms

end

end Value

end GrammarTree.Settings
