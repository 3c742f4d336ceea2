/-
# Outlines

The plainest rendering: one line for each node in reading order, indented by its level, with the
node's kind and attributes between brackets.  Line breaks inside an attribute are escaped, so that a
node never takes more than its line.

An outline is written by a visitor.  Its state keeps the level of the walk, so one writer can be
handed several trees one after the other.
-/
import GrammarTree.Content
import GrammarTree.Tree.Visitor

namespace GrammarTree

namespace Outline

/-- The number of spaces a level is indented by unless another one is asked for. -/
def defaultIndentation : Nat := 4

/-- An attribute's text with its line breaks escaped. -/
def escape (s : String) : String :=
  String.join (s.toList.map fun c =>
    if c = '\r' then "\\r" else if c = '\n' then "\\n" else String.singleton c)

/-- A node's line without its indentation. -/
def line (c : Content) : String :=
  "[" ++ c.kind.name ++
    String.join (c.attributes.map fun (name, value) => " " ++ name ++ "='" ++ escape value ++ "'") ++
    "]\n"

/-- Some spaces. -/
def spaces (n : Nat) : String := String.ofList (List.replicate n ' ')

/-- An outline that is being written. -/
structure Writer where
  /-- What is written so far. -/
  text : String
  /-- The level of the next node. -/
  level : Nat
deriving Repr

/-- An outline with nothing in it. -/
def Writer.empty : Writer := ⟨"", 0⟩

/-- Writes a line for each node it is shown. -/
def visitor (indentation : Nat) : Visitor Content Writer where
  drives _ := false
  enter c _ w := ⟨w.text ++ (spaces (w.level * indentation) ++ line c), w.level + 1⟩
  leave _ w := { w with level := w.level - 1 }

/-- The lines written so far. -/
def Writer.lineCount (w : Writer) : Nat := w.text.toList.count '\n'

/-- Writes the outline of a tree behind what is written. -/
def Writer.add (w : Writer) (indentation : Nat) (t : Tree Content) : Writer :=
  (visitor indentation).accept t w

/-- The outline of a tree. -/
def render (t : Tree Content) (indentation : Nat) : String :=
  (Writer.empty.add indentation t).text

end Outline

end GrammarTree
