/-
# Snapshots as YAML

A snapshot is a mapping with the same keys as in JSON.  The items of a list stand at the column of
the list's key, and the keys of an item two columns further.  A key that has line breaks or is longer
than 128 bytes stands behind a question mark, and its value on the next line.
-/
import GrammarTree.Snapshot
import GrammarTree.Yaml.Scalar

namespace GrammarTree

namespace Yaml

/-- Whether a key can stand on one line with its value. -/
def isSimpleKey (key : String) : Bool := !key.toList.any isBreak && key.utf8ByteSize ≤ 128

/-- Some spaces as a text. -/
def margin (column : Nat) : String := String.ofList (spaces column)

/-- A key with its value in a mapping at a column. -/
def field (column : Nat) (key value : String) : String :=
  if isSimpleKey key then
    margin column ++ ((scalarLine (column + 2) key).dropEnd 1).toString ++ ": " ++
      scalarLine (column + 2) value
  else
    margin column ++ "? " ++ scalarLine (column + 2) key ++ margin column ++ ": " ++
      scalarLine (column + 2) value

end Yaml

namespace Snapshot

open Yaml

/-- The mapping of a record without its children, at a column.  The first key stands behind `lead`,
which fills the line up to the column. -/
def yamlRecord (column : Nat) (lead : String) (r : Record) : String :=
  lead ++ "node_type: " ++ scalarLine (column + 2) r.nodeType ++
    margin column ++ "label: " ++ scalarLine (column + 2) r.label ++
    if r.attributes.isEmpty then ""
    else
      margin column ++ "attributes:\n" ++
        String.join (r.attributes.entries.map fun (key, value) => field (column + 2) key value)

mutual

/-- The mapping of a snapshot at a column. -/
def yamlAt (column : Nat) (lead : String) : Snapshot → String
  | .node r [] => yamlRecord column lead r
  | .node r (s :: ss) =>
    yamlRecord column lead r ++ margin column ++ "children:\n" ++ yamlItems column (s :: ss)

/-- The items of a list at a column. -/
def yamlItems (column : Nat) : List Snapshot → String
  | [] => ""
  | s :: ss => yamlAt (column + 2) (margin column ++ "- ") s ++ yamlItems column ss

end

/-- A snapshot as YAML. -/
def toYaml (s : Snapshot) : String := yamlAt 0 "" s

end Snapshot

end GrammarTree
