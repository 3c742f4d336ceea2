/-
# White space around a text

The characters that count as white space in any script, and the text that is left when they are
taken away from both ends.
-/

namespace GrammarTree

/-- Whether a character is white space: the controls from tab to carriage return and the next line,
and all spaces and separators. -/
def isWhiteSpace (c : Char) : Bool :=
  let n := c.toNat
  (0x9 ≤ n && n ≤ 0xD) || n == 0x20 || n == 0x85 || n == 0xA0 || n == 0x1680 ||
    (0x2000 ≤ n && n ≤ 0x200A) || n == 0x2028 || n == 0x2029 || n == 0x202F || n == 0x205F ||
    n == 0x3000

/-- A text without the white space at both its ends. -/
def trimmed (s : String) : String :=
  String.ofList ((s.toList.dropWhile isWhiteSpace).reverse.dropWhile isWhiteSpace).reverse

/-- Whether the first text occurs at the start of the second. -/
def startsWith (part whole : List Char) : Bool := part.isPrefixOf whole

/-- Whether the first text occurs somewhere in the second. -/
def occursIn (part : List Char) : List Char → Bool
  | [] => part.isEmpty
  | c :: cs => startsWith part (c :: cs) || occursIn part cs

end GrammarTree
