/-
# Directories of files

All that is known of files outside is how to get at them by name; this is a `FileAccess`.

A directory is a set of files that is known as a whole.  It holds files under relative names; a name
with slashes puts a file into folders.  Names that are looked up are followed part by part: an empty
part or a dot stays where it is, two dots go up, and anything else has to be a file or a folder at that
place.  Outside the directory there are only folders of which nothing is known: two dots lead there
from the top, and a name that starts with a slash starts there.
-/

namespace GrammarTree

/-- Why a file cannot be read. -/
inductive ReadError where
  /-- The name leads nowhere. -/
  | notFound
  /-- A part in the middle of the name is a file. -/
  | notFolder
  /-- The name leads to a folder. -/
  | isFolder
  /-- A part of the name, or all of it, is too long. -/
  | nameTooLong
  /-- There is a NUL in the name. -/
  | nulInName
  /-- The file is not UTF-8. -/
  | notText
deriving DecidableEq, Repr

/-- The trouble in words. -/
def ReadError.message : ReadError → String
  | notFound => "No such file or directory (os error 2)"
  | notFolder => "Not a directory (os error 20)"
  | isFolder => "Is a directory (os error 21)"
  | nameTooLong => "File name too long (os error 36)"
  | nulInName => "file name contained an unexpected NUL byte"
  | notText => "stream did not contain valid UTF-8"

/-- A way to get at files by name. -/
structure FileAccess where
  /-- Whether a name leads to a file. -/
  hasFile : String → Bool
  /-- The text of the file that a name leads to. -/
  read : String → Except ReadError String

/-- The text of some bytes in UTF-8. -/
def textOfBytes (bytes : ByteArray) : Except ReadError String :=
  match String.fromUTF8? bytes with
  | some text => .ok text
  | none => .error .notText

/-- Files by the parts of their names. -/
structure Directory where
  /-- The files; a name's parts are neither empty nor dots. -/
  files : List (List String × ByteArray)

namespace Directory

/-- The parts of a name between its slashes. -/
def splitName (name : String) : List (List Char) :=
  name.toList.foldr
    (fun c parts =>
      match c, parts with
      | '/', parts => [] :: parts
      | c, [] => [[c]]
      | c, part :: parts => (c :: part) :: parts)
    [[]]

/-- The parts of a name between its slashes, as texts. -/
def parts (name : String) : List String := (splitName name).map String.ofList

/-- The parts that say something: those that are neither empty nor a single dot. -/
def properParts (name : String) : List String :=
  (parts name).filter fun part => part != "" && part != "."

/-- The directory of some files. -/
def ofList (files : List (String × ByteArray)) : Directory :=
  ⟨files.map fun (name, bytes) => (properParts name, bytes)⟩

/-- Where a walk along a name has come to. -/
inductive Place where
  /-- A file with these bytes. -/
  | file (bytes : ByteArray)
  /-- A folder below the directory, or the directory itself. -/
  | folder (path : List String)
  /-- A folder outside the directory. -/
  | outside

/-- The number of bytes that a part of a name may have. -/
def maxPart : Nat := 255

/-- The number of bytes that a name may have. -/
def maxName : Nat := 4095

/-- What stands under the parts of a name. -/
def locate (d : Directory) (path : List String) : Except ReadError Place :=
  match d.files.lookup path with
  | some bytes => .ok (.file bytes)
  | none =>
    if d.files.any fun (name, _) => path.isPrefixOf name then .ok (.folder path)
    else .error .notFound

/-- One part further. -/
def step (d : Directory) (place : Place) (part : String) : Except ReadError Place :=
  match place with
  | .file _ => .error .notFolder
  | place =>
    if part = "" ∨ part = "." then .ok place
    else if maxPart < part.utf8ByteSize then .error .nameTooLong
    else
      match place, part with
      | .folder (name :: path), ".." => .ok (.folder (name :: path).dropLast)
      | .folder [], ".." => .ok .outside
      | .folder path, part => d.locate (path ++ [part])
      | place, ".." => .ok place
      | _, _ => .error .notFound

/-- The place that a name leads to from a folder on. -/
def followFrom (d : Directory) (folder : List String) (name : String) : Except ReadError Place :=
  if '\x00' ∈ name.toList then .error .nulInName
  else if maxName < name.utf8ByteSize then .error .nameTooLong
  else
    match parts name with
    | "" :: part :: rest => (part :: rest).foldlM d.step .outside
    | parts => parts.foldlM d.step (.folder folder)

/-- The place that a name leads to.  An empty name leads nowhere. -/
def follow (d : Directory) (name : String) : Except ReadError Place :=
  if name = "" then .error .notFound else d.followFrom [] name

/-- The text of a file that was looked for. -/
def textAt : Except ReadError Place → Except ReadError String
  | .ok (.file bytes) => textOfBytes bytes
  | .ok _ => .error .isFolder
  | .error e => .error e

/-- Whether a name leads to a file. -/
def hasFile (d : Directory) (name : String) : Bool :=
  match d.follow name with
  | .ok (.file _) => true
  | _ => false

/-- The text of the file that a name leads to. -/
def read (d : Directory) (name : String) : Except ReadError String := textAt (d.follow name)

/-- The text of the file that a name leads to from a folder on. -/
def readFrom (d : Directory) (folder : List String) (name : String) : Except ReadError String :=
  textAt (d.followFrom folder name)

/-- The files of a directory by name. -/
def access (d : Directory) : FileAccess := ⟨d.hasFile, d.read⟩

end Directory

end GrammarTree
