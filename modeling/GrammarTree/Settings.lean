/-
# Settings

The settings are the indentation of outlines, the width of labels in drawings and the format to
render in.  They are collected in layers: the defaults, then files in the order given, then single
values that override them.  What is asked for is read from the result with some tolerance: a number
may be given as a text and a text as a number.
-/
import GrammarTree.Decimal.Shortest
import GrammarTree.Directory
import GrammarTree.Rendering.Registry
import GrammarTree.Settings.KeyPath
import GrammarTree.Text.Quoted
import GrammarTree.Toml.Reader

namespace GrammarTree

/-- What the program can be told about its output. -/
structure Settings where
  /-- The spaces per level of an outline. -/
  indentation : Nat
  /-- The width of the labels of a drawing. -/
  maxLabel : Nat
  /-- The name of the format to render in. -/
  format : String
deriving DecidableEq, Repr

namespace Settings

/-- The groups that settings stand in. -/
inductive Group where
  | text
  | treeviz
  | output
deriving DecidableEq, Repr

namespace Group

/-- The key of a group. -/
def key : Group → String
  | text => "text"
  | treeviz => "treeviz"
  | output => "output"

/-- The key of the one setting in a group. -/
def field : Group → String
  | text => "indentation"
  | treeviz => "max_label"
  | output => "format"

/-- A group as messages call it. -/
def title : Group → String
  | text => "struct TextConfig"
  | treeviz => "struct TreevizConfig"
  | output => "struct OutputConfig"

end Group

/-- What a value turned out to be where something else is needed. -/
inductive Found where
  /-- A single value. -/
  | scalar (description : String)
  | sequence
  | map
deriving DecidableEq, Repr

/-- What was found, in words. -/
def Found.text : Found → String
  | scalar description => description
  | sequence => "sequence"
  | map => "map"

/-- Why settings cannot be collected. -/
inductive Trouble where
  /-- The key of an override is no path. -/
  | badPath (cause : KeyPathError)
  /-- A value at a place, perhaps from a file, is not of the type that is needed. -/
  | mismatch (found : Found) (needed : String) (place : String) (source : Option String)
  /-- A group is a single value. -/
  | noGroup (found : Found) (group : Group)
  /-- A group is a list without items. -/
  | emptyGroup (group : Group)
  /-- A group does not have its setting. -/
  | missing (group : Group)
  /-- There is no such file. -/
  | fileNotFound (name : String)
  /-- A file cannot be read as text. -/
  | unreadable (cause : ReadError)
  /-- A file is no document. -/
  | malformed (file : String)
deriving DecidableEq, Repr

/-- The trouble in words. -/
def Trouble.message : Trouble → String
  | badPath cause => cause.message
  | mismatch found needed place source =>
    "invalid type: " ++ found.text ++ ", expected " ++ needed ++ " for key \x60" ++ place ++ "\x60" ++
      (match source with
        | some file => " in " ++ file
        | none => "")
  | noGroup found group => "invalid type: " ++ found.text ++ ", expected " ++ group.title
  | emptyGroup group => "invalid length 0, expected " ++ group.title ++ " with 1 element"
  | missing group => "missing field \x60" ++ group.field ++ "\x60"
  | fileNotFound name => "configuration file \"" ++ name ++ "\" not found"
  | unreadable cause => cause.message
  | malformed file => "malformed document in " ++ file

/-! ### From values to settings -/

/-- A number in a message. -/
def quotedNumber (kind number : String) : String := kind ++ " \x60" ++ number ++ "\x60"

/-- A single value that stands where a group is needed. -/
def Scalar.found : Scalar → Found
  | nil => .scalar "unit value"
  | boolean b => .scalar (quotedNumber "boolean" (if b then "true" else "false"))
  | integer n => .scalar (quotedNumber "integer" (toString n))
  | float x => .scalar (quotedNumber "floating point" (Binary.ofFloat x).pointedText)
  | text s => .scalar ("string " ++ quotedText s)

/-- A single value as a text. -/
def Scalar.asText : Scalar → Except Found String
  | nil => .error (.scalar "unit value")
  | boolean b => .ok (if b then "true" else "false")
  | integer n => .ok (toString n)
  | float x => .ok (Binary.ofFloat x).text
  | text s => .ok s

/-- A value as a text. -/
def Value.asText : Value → Except Found String
  | scalar _ s => s.asText
  | list _ _ => .error .sequence
  | table _ _ => .error .map

/-- The greatest number a setting can be. -/
def maxNumber : Nat := wordCount - 1

/-- The number that a text stands for: words for yes are one and words for no are zero, in any
case; otherwise it is written in digits, with a plus sign or not. -/
def numberOfText? (s : String) : Option Nat :=
  let word := s.toList.map Char.toLower
  if word ∈ ["true", "on", "yes"].map String.toList then some 1
  else if word ∈ ["false", "off", "no"].map String.toList then some 0
  else
    let digits := match s.toList with
      | '+' :: rest => rest
      | cs => cs
    if digits.isEmpty || !digits.all Char.isDigit then none
    else
      let n := ofDecimalDigits digits
      if n ≤ maxNumber then some n else none

/-- A value as a number; on failure, what was found and what is needed. -/
def Value.asNumber : Value → Except (Found × String) Nat
  | scalar _ .nil => .error (.scalar "unit value", "an integer")
  | scalar _ (.boolean b) => .ok (if b then 1 else 0)
  | scalar _ (.integer n) =>
    if n < 0 then
      .error (.scalar (quotedNumber "64-bit integer" (toString n)),
        "an unsigned 64 bit or less integer")
    else .ok n.toNat
  | scalar _ (.float x) => .ok ((Binary.ofFloat x).roundNat maxNumber)
  | scalar _ (.text s) =>
    match numberOfText? s with
    | some n => .ok n
    | none => .error (.scalar ("string " ++ quotedText s), "an integer")
  | list _ _ => .error (.sequence, "an integer")
  | table _ _ => .error (.map, "an integer")

/-- The value of a group's setting and its place.  A group is a table, or a list whose first item is
the setting. -/
def Group.find (g : Group) (whole : Value) : Except Trouble (Value × String) :=
  match whole.get? g.key with
  | none => .error (.missing g)
  | some (.scalar _ s) => .error (.noGroup s.found g)
  | some (.list _ []) => .error (.emptyGroup g)
  | some (.list _ (first :: _)) => .ok (first, g.key ++ "[0]")
  | some (.table source members) =>
    match (Value.table source members).get? g.field with
    | some v => .ok (v, g.key ++ "." ++ g.field)
    | none => .error (.missing g)

/-- The number that is a group's setting. -/
def Group.number (g : Group) (whole : Value) : Except Trouble Nat := do
  let (v, place) ← g.find whole
  match v.asNumber with
  | .ok n => return n
  | .error (found, needed) => throw (.mismatch found needed place v.source)

/-- The text that is a group's setting. -/
def Group.word (g : Group) (whole : Value) : Except Trouble String := do
  let (v, place) ← g.find whole
  match v.asText with
  | .ok s => return s
  | .error found => throw (.mismatch found "a string" place v.source)

/-- The settings that a value holds. -/
def ofValue (whole : Value) : Except Trouble Settings := do
  let indentation ← Group.text.number whole
  let maxLabel ← Group.treeviz.number whole
  let format ← Group.output.word whole
  return ⟨indentation, maxLabel, format⟩

/-! ### Layers -/

/-- The settings unless something else is said. -/
def defaults : Settings := ⟨Outline.defaultIndentation, Drawing.defaultWidth, "text"⟩

/-- Settings as a value. -/
def toValue (s : Settings) : Value :=
  let group (g : Group) (v : Scalar) : String × Value :=
    (g.key, .table none [(g.field, .scalar none v)])
  .table none [group .text (.integer s.indentation), group .treeviz (.integer s.maxLabel),
    group .output (.text s.format)]

/-- Something that settings are taken from. -/
inductive Layer where
  /-- A file that has to be there. -/
  | file (name : String)
  /-- A file that may be missing. -/
  | optionalFile (name : String)
  /-- A single value. -/
  | override (key : String) (value : Value)

/-- A name with the usual ending behind its last part. -/
def withEnding? (name : String) : Option String :=
  let isIdle (part : String) : Bool := part == "" || part == "."
  match (Directory.parts name).reverse.dropWhile isIdle with
  | [] => none
  | last :: before =>
    if last = ".." then none
    else some ("/".intercalate (last :: before).reverse ++ ".toml")

/-- The name under which a file is found: the one given, or else the one with the usual ending. -/
def findFile? (files : FileAccess) (name : String) : Option String :=
  if files.hasFile name then some name else (withEnding? name).filter files.hasFile

/-- The text of a file, with its name as messages show it. -/
def readFile (files : FileAccess) (name : String) : Except Trouble (String × String) :=
  match findFile? files name with
  | none => .error (.fileNotFound name)
  | some found =>
    match files.read found with
    | .ok text => .ok ("/".intercalate (Directory.properParts found), text)
    | .error cause => .error (.unreadable cause)

/-- Lays the document of a text over what there is. -/
def layFile (whole : Value) (file text : String) : Except Trouble Value :=
  match Toml.read? text with
  | some members => .ok (whole.layDocument (Value.ofTomlMembers file members))
  | none => .error (.malformed file)

/-- Lays a layer over what there is, unless it is an override. -/
def laySource (files : FileAccess) (whole : Value) : Layer → Except Trouble Value
  | .file name =>
    match readFile files name with
    | .ok (file, text) => layFile whole file text
    | .error e => .error e
  | .optionalFile name =>
    match readFile files name with
    | .ok (file, text) => layFile whole file text
    | .error _ => .ok whole
  | .override _ _ => .ok whole

/-- Overrides by path: of two with the same path the later one counts. -/
def addOverride (overrides : List (KeyPath × Value)) (path : KeyPath) (value : Value) :
    List (KeyPath × Value) :=
  overrides.filter (·.1 != path) ++ [(path, value)]

/-- The overrides among some layers. -/
def overridesOf (layers : List Layer) : Except Trouble (List (KeyPath × Value)) :=
  layers.foldlM
    (fun overrides layer =>
      match layer with
      | .override key value =>
        match KeyPath.read key with
        | .ok path => .ok (addOverride overrides path value)
        | .error cause => .error (.badPath cause)
      | _ => .ok overrides)
    []

/-- Collects settings: the defaults, then files in order, then overrides. -/
def load (files : FileAccess) (layers : List Layer) : Except Trouble Settings := do
  let overrides ← overridesOf layers
  let whole ← layers.foldlM (laySource files) defaults.toValue
  ofValue (overrides.foldl (fun v (path, value) => v.layPath path value) whole)

/-- The built-in formats with these settings. -/
def registry (s : Settings) : Registry := Registry.builtin s.indentation s.maxLabel

end Settings

end GrammarTree
