/-
# XML

Every node becomes an element named after its kind, with the node's attributes as the element's.  An
element without children is written as an empty one.
-/
import GrammarTree.Content
import GrammarTree.Tree

namespace GrammarTree

namespace Xml

/-- The first line of a document. -/
def declaration : String := "<?xml version=\"1.0\" encoding=\"utf-8\"?>"

/-- A character inside an attribute's value. -/
def escapeChar (c : Char) : String :=
  match c with
  | '&' => "&amp;"
  | '<' => "&lt;"
  | '>' => "&gt;"
  | '"' => "&quot;"
  | '\'' => "&apos;"
  | c => String.singleton c

/-- An attribute's value. -/
def escape (s : String) : String := String.join (s.toList.map escapeChar)

/-- The indentation of a level: two spaces for each. -/
def indent (level : Nat) : String := String.ofList (List.replicate (2 * level) ' ')

/-- A tag's name with its attributes. -/
def tag (c : Content) : String :=
  c.kind.name ++
    String.join (c.attributes.map fun (name, value) => " " ++ name ++ "=\"" ++ escape value ++ "\"")

mutual

/-- The element of a tree at a level. -/
def element (level : Nat) : Tree Content → String
  | .node c [] => indent level ++ "<" ++ tag c ++ "/>\n"
  | .node c (t :: ts) =>
    indent level ++ "<" ++ tag c ++ ">\n" ++ elements (level + 1) (t :: ts) ++
      indent level ++ "</" ++ c.kind.name ++ ">\n"

/-- The elements of several trees. -/
def elements (level : Nat) : List (Tree Content) → String
  | [] => ""
  | t :: ts => element level t ++ elements level ts

end

/-- A tree as an element. -/
def render (t : Tree Content) : String := element 0 t

/-- A tree as a document. -/
def document (t : Tree Content) : String := declaration ++ "\n" ++ render t

end Xml

end GrammarTree
