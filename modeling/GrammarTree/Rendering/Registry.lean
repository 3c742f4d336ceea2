/-
# Formats by name

A format turns a tree into a text and has a name and a description.  A registry holds formats by
name; a format takes the place of one with the same name.
-/
import GrammarTree.Rendering.Drawing
import GrammarTree.Rendering.Outline
import GrammarTree.Rendering.Xml
import GrammarTree.Snapshot.Json
import GrammarTree.Snapshot.Yaml

namespace GrammarTree

/-- Why a tree was not rendered. -/
inductive FormatError where
  /-- There is no format of this name. -/
  | notFound (name : String)
  /-- The format gave up. -/
  | failed (reason : String)
deriving DecidableEq, Repr

/-- The trouble in words. -/
def FormatError.message : FormatError → String
  | notFound name => "Format '" ++ name ++ "' not found"
  | failed reason => "Serialization error: " ++ reason

/-- A way to turn a tree into a text. -/
structure Format where
  /-- Its name. -/
  name : String
  /-- What it is, in a line. -/
  description : String
  /-- The text of a tree. -/
  render : Tree Content → Except FormatError String

namespace Format

/-- The outline with an indentation. -/
def text (indentation : Nat) : Format where
  name := "text"
  description := "Indented text syntax tree, one bracketed line per node"
  render t := .ok (Outline.render t indentation)

/-- The XML document. -/
def xml : Format where
  name := "xml"
  description := "XML document with one element per node"
  render t := .ok (Xml.document t)

/-- The drawing with labels of a width. -/
def treeviz (width : Nat) : Format where
  name := "treeviz"
  description := "Visual tree representation with connectors and Unicode icons"
  render t := .ok (Drawing.render t width)

/-- The snapshot as JSON. -/
def json : Format where
  name := "json"
  description := "JSON image of the tree snapshot"
  render t := .ok (Snapshot.toJson (Snapshot.ofTree t)).pretty

/-- The snapshot as YAML. -/
def yaml : Format where
  name := "yaml"
  description := "YAML image of the tree snapshot"
  render t := .ok (Snapshot.toYaml (Snapshot.ofTree t))

end Format

/-- Formats by name. -/
structure Registry where
  /-- The formats; each stands under its own name. -/
  formats : Dictionary Format

namespace Registry

/-- A registry without formats. -/
def empty : Registry := ⟨Dictionary.empty⟩

/-- Adds a format. -/
def register (r : Registry) (f : Format) : Registry := ⟨r.formats.insert f.name f⟩

/-- The format of a name. -/
def get? (r : Registry) (name : String) : Option Format := r.formats.get? name

/-- Whether there is a format of a name. -/
def has (r : Registry) (name : String) : Bool := r.formats.contains name

/-- The names of all formats in order.  The dictionary has its keys in this order, so they need not be
sorted. -/
def names (r : Registry) : List String := r.formats.keys

/-- Renders a tree in the format of a name. -/
def render (r : Registry) (t : Tree Content) (name : String) : Except FormatError String :=
  match r.get? name with
  | some f => f.render t
  | none => .error (.notFound name)

/-- The built-in formats with an indentation for outlines and a label width for drawings. -/
def builtin (indentation width : Nat) : Registry :=
  [Format.text indentation, Format.xml, Format.treeviz width, Format.json, Format.yaml].foldl
    register empty

/-- The built-in formats as they are unless settings say otherwise. -/
def defaults : Registry := builtin Outline.defaultIndentation Drawing.defaultWidth

end Registry

end GrammarTree
