/-
# Line starts

A position can also be looked up in a table of numbers only, the offsets at which the lines of a text
start.  The line of an offset is found by halving the table: either a line starts at the offset, or
the offset could be inserted behind the start of its line.  The column is counted in the piece of the
text between the two.

Three steps of this can fail: to read the table at an index, to go one back from the place of an
insertion, and to take the start of a line from the offset.  Each of them is checked, and where one
fails there is no position.
-/
import GrammarTree.Text.Position

namespace GrammarTree

/-- A text with the offsets at which its lines start. -/
structure LineStarts where
  /-- The characters of the text. -/
  text : List Char
  /-- The offsets in order; there is always one. -/
  offsets : Array Nat

namespace LineStarts

/-- The offsets behind the line feeds of a text that starts at an offset. -/
def behindFeeds (offset : Nat) : List Char → List Nat
  | [] => []
  | c :: cs =>
    if c = '\n' then (offset + 1) :: behindFeeds (offset + 1) cs
    else behindFeeds (offset + c.utf8Size) cs

/-- The line starts of a text. -/
def ofChars (cs : List Char) : LineStarts := ⟨cs, (0 :: behindFeeds 0 cs).toArray⟩

/-- Looks for a number in a table in increasing order, from one index up to another one: the index at
which it stands, or else, as an error, the one at which it could be inserted. -/
def search? (table : Array Nat) (n low high : Nat) : Option (Except Nat Nat) :=
  if low < high then
    let middle := low + (high - low) / 2
    match table[middle]? with
    | none => none
    | some m =>
      if m = n then some (.ok middle)
      else if m < n then search? table n (middle + 1) high
      else search? table n low middle
  else some (.error low)
termination_by high - low

/-- The index of the last line that starts at or before an offset. -/
def line? (t : LineStarts) (offset : Nat) : Option Nat :=
  match search? t.offsets offset 0 t.offsets.size with
  | none => none
  | some (.ok i) => some i
  | some (.error i) => if 0 < i then some (i - 1) else none

/-- The piece of a text between two offsets, if they come in this order and both fall between
characters. -/
def piece? (cs : List Char) (start stop : Nat) : Option (List Char) :=
  if start ≤ stop then
    (charsIn? start cs).bind fun skipped =>
      (charsIn? (stop - start) (cs.drop skipped)).map fun taken => (cs.drop skipped).take taken
  else none

/-- The distance of an offset from the start of its line: in characters if there is a piece of the
text between them, and in bytes if not. -/
def distance? (t : LineStarts) (start offset : Nat) : Option Nat :=
  match piece? t.text start offset with
  | some piece => some piece.length
  | none => if start ≤ offset then some (offset - start) else none

/-- The position of a byte offset, where an offset past the end counts as the end. -/
def position? (t : LineStarts) (offset : Nat) : Option Position :=
  let offset := min offset (byteLength t.text)
  (t.line? offset).bind fun line =>
    (t.offsets[line]?).bind fun start =>
      (t.distance? start offset).map fun distance => ⟨line + 1, distance + 1⟩

end LineStarts

end GrammarTree
