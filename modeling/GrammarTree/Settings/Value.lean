/-
# Settings as values

While settings are collected they are one large value: tables of values, down to single ones.  Each
value may know the file it was read from.  New values are laid over old ones.  A table is laid over
another one key by key, and it takes the place of what is no table only if it has a key; any other
value takes the place of what was there.  Keys are kept in lower case.
-/
import GrammarTree.Toml

namespace GrammarTree.Settings

/-- A single value. -/
inductive Scalar where
  | nil
  | boolean (b : Bool)
  | integer (n : Int)
  | float (x : Float)
  | text (s : String)

/-- A value, with the name of the file it was read from, if there is one. -/
inductive Value where
  | scalar (source : Option String) (s : Scalar)
  | list (source : Option String) (items : List Value)
  | table (source : Option String) (members : List (String × Value))

namespace Value

/-- Nothing. -/
def nil : Value := .scalar none .nil

/-- A table without keys. -/
def emptyTable : Value := .table none []

/-- The name of the file a value was read from. -/
def source : Value → Option String
  | scalar source _ => source
  | list source _ => source
  | table source _ => source

mutual

/-- A value of a document that was read from a file. -/
def ofToml (file : String) : Toml → Value
  | .string s => .scalar (some file) (.text s)
  | .integer n => .scalar (some file) (.integer n)
  | .float x => .scalar (some file) (.float x)
  | .boolean b => .scalar (some file) (.boolean b)
  | .array items => .list (some file) (ofTomlItems file items)
  | .table members => .table (some file) (ofTomlMembers file members)

/-- The values of an array. -/
def ofTomlItems (file : String) : List Toml → List Value
  | [] => []
  | v :: vs => ofToml file v :: ofTomlItems file vs

/-- The values of a table. -/
def ofTomlMembers (file : String) : List (String × Toml) → List (String × Value)
  | [] => []
  | (key, v) :: rest => (key, ofToml file v) :: ofTomlMembers file rest

end

/-- A key as it is kept. -/
def folded (key : String) : String := String.ofList (key.toList.map Char.toLower)

/-- What a value holds under a key; only tables hold anything. -/
def get? (v : Value) (key : String) : Option Value :=
  match v with
  | .table _ members => members.lookup (folded key)
  | _ => none

/-- A table with a value under a key.  What is no table becomes one that holds nothing else. -/
def put (v : Value) (key : String) (value : Value) : Value :=
  match v with
  | .table source members =>
    .table source ((folded key, value) :: members.filter (·.1 != folded key))
  | _ => .table none [(folded key, value)]

/-- A list with a value at an index, and nothing at the indexes it did not have.  What is no list
becomes one. -/
def putItem (v : Value) (index : Nat) (value : Value) : Value :=
  match v with
  | .list source items =>
    .list source ((items ++ List.replicate (index + 1 - items.length) nil).set index value)
  | _ => .list none (List.replicate index nil ++ [value])

/-- What a value holds at an index. -/
def item? (v : Value) (index : Nat) : Option Value :=
  match v with
  | .list _ items => items[index]?
  | _ => none

mutual

/-- Lays a value over what a table holds under a key. -/
def lay (onto : Value) (key : String) : Value → Value
  | .table _ members => onto.put key (layAll ((onto.get? key).getD emptyTable) members)
  | v => onto.put key v

/-- Lays the members of a table over a value. -/
def layAll (onto : Value) : List (String × Value) → Value
  | [] => onto
  | (key, v) :: rest => layAll (lay onto key v) rest

end

end Value

end GrammarTree.Settings
