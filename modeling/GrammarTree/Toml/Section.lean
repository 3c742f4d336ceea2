/-
# Building tables from statements

A table can come to be in three ways: it is *named* by a header, by braces or as the whole document;
it is *passed* by a header that names a table further down; or it is *dotted*, made by an entry whose
key has dots.  A table is named only once.  A header may name a table that was passed before; an entry
may add to a table only if it is the current one or was made by dotted keys alone.  A value, once
given, is never changed.
-/
import GrammarTree.Toml

namespace GrammarTree.Toml

/-- How a table came to be. -/
inductive Making where
  | named
  | passed
  | dotted
deriving DecidableEq, Repr

/-- What stands under a key while a document is put together. -/
inductive Item where
  /-- A value, which stays as it is. -/
  | value (v : Toml)
  /-- A table that may still grow. -/
  | table (how : Making) (members : List (String × Item))
  /-- A series of named tables, the latest one first. -/
  | series (latest : List (String × Item)) (earlier : List (List (String × Item)))

/-- A table that may still grow. -/
structure Section where
  /-- How it came to be. -/
  how : Making
  /-- What it holds; no key occurs twice. -/
  members : List (String × Item)

namespace Section

/-- A table without members. -/
def empty (how : Making) : Section := ⟨how, []⟩

/-- What stands under a key. -/
def get? (s : Section) (key : String) : Option Item := s.members.lookup key

/-- Puts an item under a key in place of what was there. -/
def put (s : Section) (key : String) (item : Item) : Section :=
  { s with members := (key, item) :: s.members.filter (·.1 != key) }

/-- Changes the table that a way of keys leads to.  Tables that are missing on the way are made in
the given manner; a series stands for its latest table.  A value on the way is a failure, and so is,
for dotted keys, a named table. -/
def change? (how : Making) (change : Section → Option Section) : List String → Section →
    Option Section
  | [], s => change s
  | key :: way, s =>
    match s.get? key with
    | none =>
      (change? how change way (empty how)).map fun t => s.put key (.table t.how t.members)
    | some (.value _) => none
    | some (.table made members) =>
      if how = .dotted ∧ made = .named then none
      else (change? how change way ⟨made, members⟩).map fun t =>
        s.put key (.table t.how t.members)
    | some (.series latest earlier) =>
      (change? how change way ⟨.named, latest⟩).map fun t => s.put key (.series t.members earlier)

/-- Gives a value to a new key of a table, which is a dotted one exactly if the key has dots. -/
def enter? (key : Key) (value : Toml) (s : Section) : Option Section :=
  change? .dotted
    (fun t =>
      if (t.how == .dotted) == key.way.isEmpty || (t.get? key.last).isSome then none
      else some (t.put key.last (.value value)))
    key.way s

/-- Names a table that was not there or was only passed. -/
def name? (key : Key) (s : Section) : Option Section :=
  change? .passed
    (fun t =>
      match t.get? key.last with
      | none => some (t.put key.last (.table .named []))
      | some (.table .passed members) => some (t.put key.last (.table .named members))
      | _ => none)
    key.way s

/-- Adds a table to a series, which may be a new one. -/
def extend? (key : Key) (s : Section) : Option Section :=
  change? .passed
    (fun t =>
      match t.get? key.last with
      | none => some (t.put key.last (.series [] []))
      | some (.series latest earlier) => some (t.put key.last (.series [] (latest :: earlier)))
      | _ => none)
    key.way s

end Section

mutual

/-- The value that an item has become. -/
def Item.finish : Item → Toml
  | .value v => v
  | .table _ members => .table (finishMembers members)
  | .series latest earlier => .array (finishTables earlier [.table (finishMembers latest)])

/-- The values that some items have become. -/
def finishMembers : List (String × Item) → List (String × Toml)
  | [] => []
  | (key, item) :: rest => (key, item.finish) :: finishMembers rest

/-- The tables of a series, given from the latest on, in front of later ones. -/
def finishTables : List (List (String × Item)) → List Toml → List Toml
  | [], later => later
  | members :: earlier, later => finishTables earlier (.table (finishMembers members) :: later)

end

/-- A table of entries between braces. -/
def ofEntries? (entries : List (Key × Toml)) : Option Toml := do
  let s : Section ← entries.foldlM (fun s (key, value) => Section.enter? key value s) (.empty .named)
  return .table (finishMembers s.members)

/-- A document that is being put together: all of it, and the way to the current table. -/
structure Draft where
  /-- The whole document. -/
  whole : Section
  /-- The way to the table that was started last. -/
  current : List String

/-- Takes in one more statement. -/
def Draft.add? (d : Draft) : Statement → Option Draft
  | .header key => (d.whole.name? key).map fun s => ⟨s, key.way ++ [key.last]⟩
  | .element key => (d.whole.extend? key).map fun s => ⟨s, key.way ++ [key.last]⟩
  | .entry key value =>
    (Section.change? .passed (Section.enter? key value) d.current d.whole).map
      fun s => { d with whole := s }

/-- The members of a document of some statements. -/
def ofStatements? (statements : List Statement) : Option (List (String × Toml)) :=
  (statements.foldlM Draft.add? ⟨Section.empty .named, []⟩).map
    fun d => finishMembers d.whole.members

end GrammarTree.Toml
