/-
# TOML documents

The values that a TOML document can hold, and the statements that it is made of: a header starts a
table, a doubled header starts one more table of a series, and an entry gives a value to a key of the
table that was started last.  A key is a path, since it may be written with dots.
-/

namespace GrammarTree

/-- A value of a document. -/
inductive Toml where
  | string (s : String)
  | integer (n : Int)
  | float (x : Float)
  | boolean (b : Bool)
  | array (items : List Toml)
  /-- Values under keys; no key occurs twice. -/
  | table (members : List (String × Toml))

namespace Toml

/-- A key: the parts of a path in order, and the last one. -/
structure Key where
  /-- The parts before the last one. -/
  way : List String
  /-- The last part. -/
  last : String
deriving DecidableEq, Repr

/-- A line of a document. -/
inductive Statement where
  /-- Starts a table. -/
  | header (key : Key)
  /-- Starts one more table of a series. -/
  | element (key : Key)
  /-- Gives a value to a key. -/
  | entry (key : Key) (value : Toml)

end Toml

end GrammarTree
