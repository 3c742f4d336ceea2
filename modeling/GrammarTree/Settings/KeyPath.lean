/-
# Paths to a setting

A setting is addressed by a path: a name, then names behind dots and indexes between brackets.  A
name consists of letters, digits, spaces, underscores and hyphens.  Laying a value at the end of a path
makes the tables and lists that are missing on the way, and replaces what is in the way.
-/
import GrammarTree.Decimal
import GrammarTree.Settings.Value

namespace GrammarTree.Settings

/-- A step from a value to one in it. -/
inductive Step where
  | key (name : String)
  | index (i : Nat)
deriving DecidableEq, Repr

/-- A path: a key of the whole, and the steps from there. -/
structure KeyPath where
  /-- The key it starts with. -/
  first : String
  /-- What follows. -/
  steps : List Step
deriving DecidableEq, Repr

/-- Why a text is no path. -/
inductive KeyPathError where
  /-- There is no name at the start. -/
  | noName
  /-- There is no number behind a bracket. -/
  | noIndex
  /-- The number is too great. -/
  | indexTooGreat
  /-- What follows is no step. -/
  | noStep
deriving DecidableEq, Repr

/-- The trouble in a word or two. -/
def KeyPathError.message : KeyPathError → String
  | noName => "IsA"
  | noIndex => "Digit"
  | indexTooGreat => "Map on Result"
  | noStep => "Char"

namespace KeyPath

/-- Whether a character may stand in a name. -/
def isNameChar (c : Char) : Bool := c.isAlphanum || c == ' ' || c == '_' || c == '-'

/-- Splits a name off the front. -/
def splitName? (cs : List Char) : Option (String × List Char) :=
  match cs.takeWhile isNameChar with
  | [] => none
  | name => some (String.ofList name, cs.dropWhile isNameChar)

/-- What follows the spaces and tabs at the front. -/
def skipBlanks (cs : List Char) : List Char := cs.dropWhile fun c => c == ' ' || c == '\t'

/-- Reads an index behind its opening bracket. -/
def readIndex (cs : List Char) : Except KeyPathError (Nat × List Char) :=
  let cs := skipBlanks cs
  match cs.takeWhile Char.isDigit with
  | [] => .error .noIndex
  | digits =>
    if !fitsSigned (ofDecimalDigits digits) then .error .indexTooGreat
    else
      match skipBlanks (cs.dropWhile Char.isDigit) with
      | ']' :: rest => .ok (ofDecimalDigits digits, rest)
      | _ => .error .noStep

/-- Reads a step. -/
def readStep : List Char → Except KeyPathError (Step × List Char)
  | '.' :: rest =>
    match splitName? rest with
    | some (name, rest) => .ok (.key name, rest)
    | none => .error .noStep
  | '[' :: rest => (readIndex rest).map fun (i, rest) => (.index i, rest)
  | _ => .error .noStep

/-- Reads steps up to the end. -/
def readSteps : Nat → List Char → Except KeyPathError (List Step)
  | _, [] => .ok []
  | 0, _ => .error .noStep
  | n + 1, cs => do
    let (step, rest) ← readStep cs
    let steps ← readSteps n rest
    return step :: steps

/-- Reads a path. -/
def read (text : String) : Except KeyPathError KeyPath :=
  match splitName? text.toList with
  | none => .error .noName
  | some (first, rest) => (readSteps rest.length rest).map fun steps => ⟨first, steps⟩

end KeyPath

namespace Value

/-- Lays a value over another one behind a step. -/
def layAt (onto : Value) (value : Value) : Step → Value
  | .key name => onto.lay name value
  | .index i => onto.putItem i value

/-- Lays a value over another one behind a step and those that follow it. -/
def layBehind (value : Value) : Step → List Step → Value → Value
  | step, [], onto => onto.layAt value step
  | .key name, next :: steps, onto =>
    onto.put name (layBehind value next steps ((onto.get? name).getD nil))
  | .index i, next :: steps, onto =>
    onto.putItem i (layBehind value next steps ((onto.item? i).getD nil))

/-- Lays a value over another one at the end of a path. -/
def layPath (onto : Value) (path : KeyPath) (value : Value) : Value :=
  layBehind value (.key path.first) path.steps onto

/-- Lays the members of a file over what there is.  A key that can be read as a path is one. -/
def layDocument (onto : Value) (members : List (String × Value)) : Value :=
  members.foldl
    (fun v (key, value) =>
      match KeyPath.read key with
      | .ok path => v.layPath path value
      | .error _ => v.lay key value)
    onto

end Value

end GrammarTree.Settings
