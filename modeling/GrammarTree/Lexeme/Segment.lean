/-
# Cutting a text into pieces

`segments` reads a whole text piece by piece and says where each piece lies, in bytes.  Blanks
between pieces are skipped.  A fault does not stop the reading: it goes on right behind what the
fault covers.
-/
import GrammarTree.Lexeme

namespace GrammarTree

/-- A piece of a text with the bytes it covers. -/
structure Segment where
  /-- What stands there. -/
  piece : Piece
  /-- The byte offset of its first byte. -/
  start : Nat
  /-- The byte offset just past its last byte. -/
  stop : Nat
deriving DecidableEq, Repr

/-- The segments of a text whose first character lies at byte `offset`. -/
def segmentsFrom (offset : Nat) : List Char → List Segment
  | [] => []
  | c :: cs =>
    if isBlank c then segmentsFrom (offset + c.utf8Size) cs
    else
      ⟨(Piece.read c cs).1, offset, offset + (Piece.read c cs).1.width⟩ ::
        segmentsFrom (offset + (Piece.read c cs).1.width) (Piece.read c cs).2
termination_by cs => cs.length
decreasing_by
  · simp
  · exact Piece.length_read_lt c cs

/-- The segments of a text. -/
def segments (source : String) : List Segment := segmentsFrom 0 source.toList

end GrammarTree
