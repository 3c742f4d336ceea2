/-
# Quoted texts

How a text is shown inside a message: between double quotes, with an escape for each character that
could not be told apart otherwise.  Tab, carriage return, line feed and NUL have short escapes; other
characters that are not shown as they are become their code point in hexadecimal.
-/
import GrammarTree.Text.Unprintable

namespace GrammarTree

/-- The digits of a number to base 16, in lower case. -/
def hexText (n : Nat) : String := String.ofList (Nat.toDigits 16 n)

/-- A character inside a quoted text. -/
def quotedChar (c : Char) : String :=
  match c with
  | '\x00' => "\\0"
  | '\t' => "\\t"
  | '\r' => "\\r"
  | '\n' => "\\n"
  | '"' => "\\\""
  | '\\' => "\\\\"
  | c => if isUnprintable c then "\\u\x7b" ++ hexText c.toNat ++ "\x7d" else String.singleton c

/-- A text between double quotes. -/
def quotedText (s : String) : String := "\"" ++ String.join (s.toList.map quotedChar) ++ "\""

end GrammarTree
