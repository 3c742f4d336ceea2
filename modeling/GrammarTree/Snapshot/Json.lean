/-
# Snapshots as JSON

A snapshot is written as an object with the members `node_type` and `label`, and with `attributes`
and `children` unless they are empty.  It is read from such an object, whose members may come in any
order among others that are passed over, or from an array with the same parts in this order.  Objects
and arrays that are part of a snapshot may be nested `maxJsonNesting` deep.
-/
import GrammarTree.Json.Reader
import GrammarTree.Snapshot

namespace GrammarTree

/-- The number of objects and arrays that may be nested in a snapshot that is read. -/
def maxJsonNesting : Nat := 127

namespace Record

/-- A member for an attribute. -/
def attributeMember : String × String → String × Json
  | (key, value) => (key, .string value)

/-- The attributes of a record. -/
def attributesJson (r : Record) : Json := .object (r.attributes.entries.map attributeMember)

/-- The members of a record without its children. -/
def jsonMembers (r : Record) : List (String × Json) :=
  [("node_type", .string r.nodeType), ("label", .string r.label)] ++
    if r.attributes.isEmpty then [] else [("attributes", r.attributesJson)]

end Record

namespace Snapshot

mutual

/-- A snapshot as a JSON value. -/
def toJson : Snapshot → Json
  | .node r [] => .object r.jsonMembers
  | .node r (s :: ss) => .object (r.jsonMembers ++ [("children", .array (toJson s :: toJsonAll ss))])

/-- Several snapshots as JSON values. -/
def toJsonAll : List Snapshot → List Json
  | [] => []
  | s :: ss => toJson s :: toJsonAll ss

end

/-- The parts of a snapshot as they are found in a JSON value. -/
structure Parts where
  /-- The name of the node's kind. -/
  nodeType : Json
  /-- The label. -/
  label : Json
  /-- The attributes, if they are given. -/
  attributes : Option Json
  /-- The children, if they are given. -/
  children : Option Json

/-- The values of the members with a given key. -/
def valuesOf (key : String) (members : List (String × Json)) : List Json :=
  (members.filter (·.1 == key)).map (·.2)

/-- The value of the member with a key that may be absent but not repeated. -/
def atMostOne? (key : String) (members : List (String × Json)) : Option (Option Json) :=
  match valuesOf key members with
  | [] => some none
  | [j] => some (some j)
  | _ => none

/-- The value of the member with a key that is there once. -/
def exactlyOne? (key : String) (members : List (String × Json)) : Option Json :=
  match valuesOf key members with
  | [j] => some j
  | _ => none

/-- Finds the parts of a snapshot. -/
def parts? : Json → Option Parts
  | .object members => do
    let nodeType ← exactlyOne? "node_type" members
    let label ← exactlyOne? "label" members
    let attributes ← atMostOne? "attributes" members
    let children ← atMostOne? "children" members
    return ⟨nodeType, label, attributes, children⟩
  | .array [nodeType, label] => some ⟨nodeType, label, none, none⟩
  | .array [nodeType, label, attributes] => some ⟨nodeType, label, some attributes, none⟩
  | .array [nodeType, label, attributes, children] =>
    some ⟨nodeType, label, some attributes, some children⟩
  | _ => none

/-- The text of a JSON string. -/
def text? : Json → Option String
  | .string s => some s
  | _ => none

/-- An attribute with its name. -/
def attribute? : String × Json → Option (String × String)
  | (key, j) => (text? j).map (key, ·)

/-- The attributes of a snapshot: an object whose values are strings; of two members with one key the
later counts. -/
def attributes? : Json → Option (Dictionary String)
  | .object members => (members.mapM attribute?).map Dictionary.ofList
  | _ => none

/-- The items of an array, each of which is read in the same way. -/
def listOf? {α : Type} (item? : Json → Option α) : Json → Option (List α)
  | .array items => items.mapM item?
  | _ => none

/-- What is read from a part, or a default where it is not given. -/
def orDefault? {α : Type} (default : α) (part? : Json → Option α) : Option Json → Option α
  | none => some default
  | some j => part? j

/-- The snapshot with some parts, given how its attributes and its children are read. -/
def ofParts? (readAttributes? : Json → Option (Dictionary String))
    (readChildren? : Json → Option (List Snapshot)) (parts : Parts) : Option Snapshot := do
  let nodeType ← text? parts.nodeType
  let label ← text? parts.label
  let attributes ← orDefault? Dictionary.empty readAttributes? parts.attributes
  let children ← orDefault? [] readChildren? parts.children
  return .node ⟨nodeType, label, attributes⟩ children

/-- The snapshot that a JSON value is, with room for some nested objects and arrays.  The attributes
take one of them, the children one for their array and one for each child. -/
def ofJson? : Nat → Json → Option Snapshot
  | 0, _ => none
  | 1, j => (parts? j).bind (ofParts? (fun _ => none) (fun _ => none))
  | room + 2, j => (parts? j).bind (ofParts? attributes? (listOf? (ofJson? room)))

/-- The snapshot that a JSON text is. -/
def read? (text : String) : Option Snapshot := (Json.read? text).bind (ofJson? maxJsonNesting)

end Snapshot

end GrammarTree
