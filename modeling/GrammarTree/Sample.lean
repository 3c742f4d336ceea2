/-
# Sample grammars

A few grammars that show the notation, under the names of the files they belong in.
-/
import GrammarTree.Directory
import GrammarTree.Parse

namespace GrammarTree

namespace Sample

/-- A grammar of a comment alone. -/
def bareComment : String :=
  "\n".intercalate [
    "(* A grammar without rules is valid: the tree is a bare syntax root. *)",
    ""]

/-- Decimal digits and signed numbers. -/
def digits : String :=
  "\n".intercalate [
    "(* Decimal digits and signed integers *)",
    "digit  = \"0\" | \"1\" | \"2\" | \"3\" | \"4\" | \"5\" | \"6\" | \"7\" | \"8\" | \"9\" ;",
    "number = [ \"-\" ] , digit , \x7b digit \x7d ;",
    ""]

/-- Items between commas. -/
def list : String :=
  "\n".intercalate [
    "list = item , \x7b \",\" item \x7d ;",
    "item = letter - \"x\" ;",
    "letter = \"a\" | \"b\" | \"x\" ;",
    ""]

/-- The notation in terms of itself. -/
def selfDefinition : String :=
  "\n".intercalate [
    "\"EBNF defined in itself\" \x7b",
    "  syntax     = [ title ] \"\x7b\" \x7b rule \x7d \"\x7d\" [ comment ] .",
    "  rule       = identifier ( \"=\" | \":\" | \":==\" ) expression ( \".\" | \";\" ) .",
    "  expression = term \x7b \"|\" term \x7d .",
    "  term       = factor \x7b factor \x7d .",
    "  factor     = identifier",
    "             | literal",
    "             | range",
    "             | \"[\" expression \"]\"",
    "             | \"(\" expression \")\"",
    "             | \"\x7b\" expression \"\x7d\" .",
    "  identifier = character \x7b character \x7d .",
    "  range      = character \"..\" character .",
    "  title      = literal .",
    "  comment    = literal .",
    "  literal    = \"'\" character \x7b character \x7d \"'\"",
    "             | '\"' character \x7b character \x7d '\"' .",
    "\x7d \"xis/ebnf v2.0 http://wiki.karmin.ch/ebnf/ gpl3\"",
    ""]

/-- Comments in all places. -/
def comments : String :=
  "\n".intercalate [
    "(* Comments are kept as nodes *)",
    "greeting = (* salutation *) \"hello\" , name (* trailing *) ;",
    "name = \x7b letter \x7d ;",
    "(* end of grammar *)",
    ""]

/-- The samples by name. -/
def all : List (String × String) :=
  [("000-empty.ebnf", bareComment),
   ("010-digits.ebnf", digits),
   ("020-list.ebnf", list),
   ("030-ebnf-in-ebnf.ebnf", selfDefinition),
   ("040-comments.ebnf", comments)]

/-- The folder of the samples. -/
def folder : List String := ["docs", "samples"]

/-- The directory that holds this folder. -/
def directory : Directory := ⟨all.map fun (name, text) => (folder ++ [name], text.toUTF8)⟩

/-- The names of the samples in order. -/
def names : List String := all.map (·.1)

/-- A sample that cannot be read. -/
structure Unreadable where
  /-- The name that was asked for. -/
  name : String
  /-- What is wrong with it. -/
  cause : ReadError
deriving DecidableEq, Repr

/-- The trouble in words. -/
def Unreadable.message (u : Unreadable) : String :=
  "Failed to read sample '" ++ u.name ++ "': " ++ u.cause.message

/-- The text of a sample.  Its name is followed from the folder of the samples on. -/
def read (name : String) : Except Unreadable String :=
  match directory.readFrom folder name with
  | .ok text => .ok text
  | .error cause => .error ⟨name, cause⟩

/-- The tree of a sample. -/
def parse (name : String) : Except Unreadable (Except SyntaxError Node) :=
  match read name with
  | .ok text => .ok (GrammarTree.parse text)
  | .error e => .error e

end Sample

end GrammarTree
