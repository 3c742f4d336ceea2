/-
# Numbers of JSON as floating point numbers

The digits of a spelled number are gathered into a whole number as long as 64 bits hold it, and this
number is then multiplied with a power of ten, or divided by one, in floating point.  Digits that do
not fit any more are dropped; before the point they still count as places.  The result is the nearest
floating point number for short spellings; for long ones it may be a neighbour of it.
-/
import GrammarTree.Decimal

namespace GrammarTree.Json

/-- Appends digits to a whole number as long as 64 bits hold the result; the digits that are left
come second. -/
def gather (n : Nat) : List Char → Nat × List Char
  | [] => (n, [])
  | c :: rest =>
    if n * 10 + digitValue c < wordCount then gather (n * 10 + digitValue c) rest
    else (n, c :: rest)

/-- The greatest power of ten that a floating point number can be. -/
def maxPower : Nat := 308

/-- A power of ten. -/
def power (k : Nat) : Float := Float.ofScientific 1 false k

/-- A number divided by a power of ten, in steps of the greatest one. -/
def divideByPower (x : Float) (k : Nat) : Float :=
  if k ≤ maxPower then x / power k
  else if x == 0.0 then x
  else divideByPower (x / power maxPower) (k - maxPower)
termination_by k
decreasing_by simp only [maxPower] at *; omega

/-- A number times a power of ten. -/
def scale (x : Float) : Int → Float
  | .ofNat k => if k ≤ maxPower ∨ x == 0.0 then x * power (min k maxPower) else 1.0 / 0.0
  | .negSucc k => divideByPower x (k + 1)

/-- The floating point number of a spelled number. -/
def floatOfSpelling (spelling : List Char) : Float :=
  let (negative, cs) := splitSign spelling
  let whole := cs.takeWhile Char.isDigit
  let (n, dropped) := gather 0 whole
  let fraction := match cs.dropWhile Char.isDigit with
    | '.' :: rest => rest.takeWhile Char.isDigit
    | _ => []
  let (n, unread) := gather n fraction
  let exponent : Int := ((Decimal.splitExponent? cs).map (·.2)).getD 0
  let places : Int := exponent + dropped.length - (fraction.length - unread.length : Nat)
  let size := scale n.toUInt64.toFloat places
  if negative then -size else size

end GrammarTree.Json
