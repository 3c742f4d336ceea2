/-
# Snapshots

The image of a tree for writing it out: a tree of records, each with the name of a node's kind, its
label, and all its attributes by name.  A record need not come from a node, so that snapshots can
also be read back and put together by hand.
-/
import GrammarTree.Content
import GrammarTree.Dictionary
import GrammarTree.Tree

namespace GrammarTree

/-- What is written of a node. -/
structure Record where
  /-- The name of the node's kind. -/
  nodeType : String
  /-- The node's label, empty if it has none. -/
  label : String
  /-- All attributes, the label included. -/
  attributes : Dictionary String
deriving DecidableEq

/-- A tree of records. -/
abbrev Snapshot := Tree Record

/-- The record of a content. -/
def Content.record (c : Content) : Record :=
  ⟨c.kind.name, c.label?.getD "", Dictionary.ofList c.attributes⟩

/-- The snapshot of a tree. -/
def Snapshot.ofTree (t : Tree Content) : Snapshot := t.map Content.record

end GrammarTree
