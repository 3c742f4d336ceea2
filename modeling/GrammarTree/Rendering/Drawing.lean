/-
# Drawn trees

A rendering for reading at a glance: one line for each node, with lines that connect it to its
parent, an icon for its kind and a label that is cut when it is too long.
-/
import GrammarTree.Content
import GrammarTree.Tree

namespace GrammarTree

namespace Drawing

/-- The number of characters of a label that are shown unless another number is asked for. -/
def defaultWidth : Nat := 30

/-- The icon of a kind. -/
def icon : Kind → String
  | .grammar => "⧉"
  | .rule => "≔"
  | .identifier => "◦"
  | .terminal => "\""
  | .comment => "※"
  | .sequence => "⋯"
  | .choice => "|"
  | .optional => "[]"
  | .repetition => "\x7b\x7d"
  | .group => "()"
  | .exception => "∖"

/-- The first `width` characters of a text, with a sign when there are more. -/
def cut (width : Nat) (cs : List Char) : List Char :=
  if width < cs.length then cs.take width ++ ['…'] else cs

/-- The label of a node with `n` children before it is cut: the number of its parts for a choice or a
sequence, its own label on a single line otherwise. -/
def caption (c : Content) (n : Nat) : List Char :=
  match c with
  | .choice => (toString n ++ " alternatives").toList
  | .sequence => (toString n ++ " terms").toList
  | .grammar "" _ => "Grammar".toList
  | c => (c.label?.getD "").toList.map fun x => if x = '\n' then ' ' else x

/-- A node's icon and label. -/
def entry (width : Nat) (c : Content) (n : Nat) : String :=
  icon c.kind ++ " " ++ String.ofList (cut width (caption c n)) ++ "\n"

/-- What connects a node to its parent. -/
def connector (isLast : Bool) : String := if isLast then "└─" else "├─"

/-- What stands below a connector in the lines of the node's descendants. -/
def continuation (isLast : Bool) : String := if isLast then "  " else "│ "

mutual

/-- The lines of a tree below another node; `lead` stands before each of them. -/
def branch (width : Nat) (lead : String) (isLast : Bool) : Tree Content → String
  | .node c ts =>
    lead ++ connector isLast ++ " " ++ entry width c ts.length ++
      branches width (lead ++ continuation isLast) ts

/-- The lines of several trees below one node. -/
def branches (width : Nat) (lead : String) : List (Tree Content) → String
  | [] => ""
  | t :: ts => branch width lead ts.isEmpty t ++ branches width lead ts

end

/-- The drawing of a tree. -/
def render (t : Tree Content) (width : Nat) : String :=
  entry width t.label t.children.length ++ branches width "" t.children

end Drawing

end GrammarTree
