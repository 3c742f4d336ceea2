/-
# The shortest text of a floating point number

A finite floating point number is `m` times a power of two.  All reals closer to it than to its
neighbours are read as this number, so it can be written with the fewest digits that name one of
them.  `Binary.shortest` tries one digit, two digits and so on: on each of these decimal grids only
the two points around the number can be close enough.  The search is exact, in whole numbers.
-/
import GrammarTree.Decimal

namespace GrammarTree

/-- What a floating point number is. -/
inductive Binary where
  | nan
  | infinite (negative : Bool)
  /-- The number `m` times two to the power `q`, with a sign. -/
  | finite (negative : Bool) (m : Nat) (q : Int)
deriving DecidableEq, Repr

namespace Binary

/-- Takes a floating point number apart. -/
def ofFloat (x : Float) : Binary :=
  let bits := x.toBits.toNat
  let negative := bits / Nat.pow 2 63 = 1
  let exponent : Nat := bits / Nat.pow 2 52 % Nat.pow 2 11
  let fraction := bits % Nat.pow 2 52
  if exponent = 2047 then if fraction = 0 then .infinite negative else .nan
  else if exponent = 0 then .finite negative fraction (-1074)
  else .finite negative (fraction + Nat.pow 2 52) ((exponent : Int) - 1075)

/-- The nearest whole number, a half going away from zero; nothing is below zero or above `limit`. -/
def roundNat (limit : Nat) : Binary → Nat
  | nan => 0
  | infinite negative => if negative then 0 else limit
  | finite true _ _ => 0
  | finite false m (.ofNat q) => min limit (m * Nat.pow 2 q)
  | finite false m (.negSucc q) => min limit ((m + Nat.pow 2 q) / Nat.pow 2 (q + 1))

/-- Half a step around a number, in quarters of its last place: `4 * m - below` and `4 * m + 2` are
the midpoints to its neighbours.  Below a power of two the steps are half as wide. -/
def below (m : Nat) (q : Int) : Nat := if m = Nat.pow 2 52 ∧ q ≠ -1074 then 1 else 2

/-- The fraction `a * 2 ^ q / 10 ^ e` as a numerator and a denominator. -/
def ratio (a : Nat) (q e : Int) : Nat × Nat :=
  (a * Nat.pow 2 q.toNat * Nat.pow 10 (-e).toNat, Nat.pow 2 (-q).toNat * Nat.pow 10 e.toNat)

/-- The number of digits before the point; for a number below one, zero or less: minus the number of
zeros behind the point. -/
def magnitude (num den : Nat) : Nat → Int
  | 0 => 0
  | fuel + 1 =>
    if den ≤ num then Decimal.digitCount (num / den) else magnitude (num * 10) den fuel - 1

/-- The grid point of ten to the power `e` that is read as the number `m` times two to the power `q`:
the nearer one of the two around it, if it is close enough. -/
def onGrid? (m : Nat) (q e : Int) : Option Nat :=
  let (mid, den) := ratio (4 * m) (q - 2) e
  let (low, _) := ratio (4 * m - below m q) (q - 2) e
  let (high, _) := ratio (4 * m + 2) (q - 2) e
  let reads (c : Nat) : Bool :=
    if m % 2 = 0 then low ≤ c * den && c * den ≤ high else low < c * den && c * den < high
  let c := mid / den
  let upIsNearer := den ≤ 2 * (mid % den)
  match reads c, reads (c + 1) with
  | true, true => some (if upIsNearer then c + 1 else c)
  | true, false => some c
  | false, true => some (c + 1)
  | false, false => none

/-- The first grid, from the power `e` of ten downwards, with a point that is read as the number. -/
def shortestFrom (m : Nat) (q e : Int) : Nat → Nat × Int
  | 0 => (m, 0)
  | fuel + 1 =>
    match onGrid? m q e with
    | some c => (c, e)
    | none => shortestFrom m q (e - 1) fuel

/-- The digits and the power of ten of the shortest decimal that is read as this number, which is not
zero.  The first grid is the one whose points around the number are zero and a power of ten. -/
def shortest (m : Nat) (q : Int) : Nat × Int :=
  let (num, den) := ratio m q 0
  shortestFrom m q (magnitude num den 400) 20

/-- A whole number times a power of ten, without an exponent. -/
def positional (c : Nat) (e : Int) : String :=
  let digits := Nat.toDigits 10 c
  match e with
  | .ofNat e => String.ofList (digits ++ List.replicate e '0')
  | .negSucc e =>
    let places := e + 1
    if places < digits.length then
      String.ofList (digits.take (digits.length - places)) ++ "." ++
        String.ofList (digits.drop (digits.length - places))
    else "0." ++ String.ofList (List.replicate (places - digits.length) '0' ++ digits)

/-- A number with the fewest digits and without an exponent. -/
def text : Binary → String
  | nan => "NaN"
  | infinite negative => if negative then "-inf" else "inf"
  | finite negative m q =>
    let size :=
      if m = 0 then "0"
      else
        let (c, e) := shortest m q
        positional c e
    if negative then "-" ++ size else size

/-- A number that always shows a point if it is finite. -/
def pointedText (b : Binary) : String :=
  match b with
  | finite _ _ _ => if b.text.toList.contains '.' then b.text else b.text ++ ".0"
  | b => b.text

end Binary

end GrammarTree
