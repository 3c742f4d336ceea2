/-
# Decimal numbers

A decimal number is a sign, a whole number and a power of ten.  `Decimal.read?` reads one in the
usual form: a sign, digits with a point somewhere among them, and an exponent, of which only a digit
is required.  `Decimal.toFloat` is the nearest floating point number.
-/

namespace GrammarTree

/-- The number `mantissa` times ten to the power `exponent`, with a sign. -/
structure Decimal where
  /-- Whether there is a minus sign. -/
  negative : Bool
  /-- The digits as a whole number. -/
  mantissa : Nat
  /-- The power of ten. -/
  exponent : Int
deriving DecidableEq, Repr

/-- The value of a decimal digit. -/
def digitValue (c : Char) : Nat := c.toNat - 48

/-- The whole number that some digits to a base are. -/
def ofDigits (base : Nat) (value : Char → Nat) (digits : List Char) : Nat :=
  digits.foldl (fun n c => n * base + value c) 0

/-- The whole number that some decimal digits are. -/
def ofDecimalDigits (digits : List Char) : Nat := ofDigits 10 digitValue digits

/-- A sign, if there is one, and what follows: whether it is a minus sign comes first. -/
def splitSign : List Char → Bool × List Char
  | '-' :: rest => (true, rest)
  | '+' :: rest => (false, rest)
  | cs => (false, cs)

/-- A whole number with an optional sign; there is at least one digit and nothing else. -/
def readInteger? (cs : List Char) : Option Int :=
  let (negative, digits) := splitSign cs
  if digits.isEmpty || !digits.all Char.isDigit then none
  else
    let n : Int := ofDecimalDigits digits
    some (if negative then -n else n)

/-- The number of natural numbers that 64 bits hold. -/
def wordCount : Nat := 18446744073709551616

/-- Whether 64 bits hold a whole number with its sign. -/
def fitsSigned (n : Int) : Bool := -9223372036854775808 ≤ n && n < 9223372036854775808

namespace Decimal

/-- Splits off the exponent: zero if there is none. -/
def splitExponent? (cs : List Char) : Option (List Char × Int) :=
  let isMark (c : Char) : Bool := c == 'e' || c == 'E'
  match cs.dropWhile (!isMark ·) with
  | [] => some (cs, 0)
  | _ :: exponent => (readInteger? exponent).map fun e => (cs.takeWhile (!isMark ·), e)

/-- Reads a decimal number. -/
def read? (cs : List Char) : Option Decimal := do
  let (negative, cs) := splitSign cs
  let (digits, exponent) ← splitExponent? cs
  let whole := digits.takeWhile (· != '.')
  let fraction := (digits.dropWhile (· != '.')).drop 1
  let all := whole ++ fraction
  if all.isEmpty || !all.all Char.isDigit then none
  else some ⟨negative, ofDecimalDigits all, exponent - fraction.length⟩

/-- The number of decimal digits of a whole number. -/
def digitCount (n : Nat) : Nat := (Nat.toDigits 10 n).length

/-- The nearest floating point number.  Numbers far outside its range are not computed digit by
digit: with a magnitude of more than 400 digits they are infinite, and with more than 400 zeros
behind the point they are zero. -/
def toFloat (d : Decimal) : Float :=
  let magnitude : Int := d.exponent + digitCount d.mantissa
  let size : Float :=
    if d.mantissa = 0 ∨ magnitude < -400 then 0.0
    else if magnitude > 400 then 1.0 / 0.0
    else if d.exponent < 0 then Float.ofScientific d.mantissa true d.exponent.natAbs
    else Float.ofScientific d.mantissa false d.exponent.natAbs
  if d.negative then -size else size

end Decimal

end GrammarTree
