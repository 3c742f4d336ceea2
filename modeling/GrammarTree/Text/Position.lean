/-
# Positions in a text

A place in a text is known in two ways: as a byte offset into its UTF-8 form, which is what a
scanner counts, and as a line and a column, which is what a reader is told.  This file turns the
first into the second.  A `LineTable` cuts the text into its lines once; a lookup then only reads
the line that holds the offset.
-/

namespace GrammarTree

/-- A line and a column, both counted from 1. -/
structure Position where
  /-- The line, one more than the number of line feeds before it. -/
  line : Nat
  /-- The column, counted in characters. -/
  column : Nat
deriving DecidableEq, Repr

/-- A position is written as its line and column with a colon between them. -/
def Position.text (p : Position) : String :=
  toString p.line ++ ":" ++ toString p.column

/-- The number of bytes of the UTF-8 form of some characters. -/
def byteLength : List Char → Nat
  | [] => 0
  | c :: cs => c.utf8Size + byteLength cs

@[simp] theorem byteLength_append (a b : List Char) :
    byteLength (a ++ b) = byteLength a + byteLength b := by
  induction a with
  | nil => simp [byteLength]
  | cons c a ih => simp [byteLength, ih, Nat.add_assoc]

/-- The number of characters that fill exactly the first `n` bytes, if byte `n` falls between two
characters. -/
def charsIn? : Nat → List Char → Option Nat
  | 0, _ => some 0
  | _ + 1, [] => none
  | n + 1, c :: cs =>
    if c.utf8Size ≤ n + 1 then (charsIn? (n + 1 - c.utf8Size) cs).map (· + 1) else none

/-- A line of a text: where it starts, and its characters up to and with its line feed. -/
structure Line where
  /-- The byte offset of its first character. -/
  start : Nat
  /-- Its characters; only the last one can be a line feed. -/
  chars : List Char
deriving Repr

/-- Cuts a text after each line feed.  The last line is the one that has none; it may be empty. -/
def splitLines : List Char → List (List Char)
  | [] => [[]]
  | c :: cs =>
    if c = '\n' then [c] :: splitLines cs
    else match splitLines cs with
      | [] => [[c]]
      | l :: ls => (c :: l) :: ls

/-- Gives each line its start, the first one starting at `start`. -/
def placeLines (start : Nat) : List (List Char) → List Line
  | [] => []
  | l :: ls => ⟨start, l⟩ :: placeLines (start + byteLength l) ls

/-- The lines of a text, ready for looking up offsets. -/
structure LineTable where
  /-- The number of bytes of the text. -/
  size : Nat
  /-- The lines in order; there is always one. -/
  lines : List Line

namespace LineTable

/-- The line table of a text. -/
def ofChars (cs : List Char) : LineTable :=
  ⟨byteLength cs, placeLines 0 (splitLines cs)⟩

/-- The number of lines. -/
def lineCount (t : LineTable) : Nat := t.lines.length

/-- The last of the lines that start at or before `offset`, with its number. -/
def lineAt (offset : Nat) (number : Nat) (line : Line) : List Line → Nat × Line
  | [] => (number, line)
  | next :: rest =>
    if next.start ≤ offset then lineAt offset (number + 1) next rest else (number, line)

/-- The position of a byte offset.  An offset past the end counts as the end.  An offset inside a
character has no character count of its own, so its column counts bytes. -/
def position (t : LineTable) (offset : Nat) : Position :=
  let offset := min offset t.size
  match t.lines with
  | [] => ⟨1, offset + 1⟩
  | first :: rest =>
    let (number, line) := lineAt offset 1 first rest
    let distance := offset - line.start
    ⟨number, (charsIn? distance line.chars).getD distance + 1⟩

/-- The position just past the last character. -/
def last (t : LineTable) : Position := t.position t.size

end LineTable

end GrammarTree
