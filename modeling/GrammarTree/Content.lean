/-
# What a node is

The nodes of a grammar's tree are of eleven kinds.  A node's `Content` is its kind with the texts
that a node of this kind carries: a grammar has a title and a meta text, a rule has a name, leaves
have a value, and the other kinds carry none.  Texts are also reachable by attribute name.
-/
import GrammarTree.Text.Quoted

namespace GrammarTree

/-- The kinds of nodes. -/
inductive Kind where
  | grammar
  | rule
  | identifier
  | terminal
  | comment
  | sequence
  | choice
  | optional
  | repetition
  | group
  | exception
deriving DecidableEq, Repr

/-- No kind of node has the given name. -/
structure UnknownKind where
  name : String

/-- The complaint about a name that no kind has. -/
def UnknownKind.message (e : UnknownKind) : String := "Unknown node type '" ++ e.name ++ "'"

namespace Kind

/-- Every kind. -/
def all : List Kind :=
  [grammar, rule, identifier, terminal, comment, sequence, choice, optional, repetition, group,
    exception]

/-- The name of a kind. -/
def name : Kind → String
  | grammar => "syntax"
  | rule => "rule"
  | identifier => "identifier"
  | terminal => "terminal"
  | comment => "comment"
  | sequence => "sequence"
  | choice => "choice"
  | optional => "optional"
  | repetition => "repetition"
  | group => "group"
  | exception => "exception"

/-- The name of a kind with a capital letter. -/
def title : Kind → String
  | grammar => "Syntax"
  | rule => "Rule"
  | identifier => "Identifier"
  | terminal => "Terminal"
  | comment => "Comment"
  | sequence => "Sequence"
  | choice => "Choice"
  | optional => "Optional"
  | repetition => "Repetition"
  | group => "Group"
  | exception => "Exception"

/-- The kind with a given name. -/
def ofName (s : String) : Except UnknownKind Kind :=
  match all.find? (·.name == s) with
  | some k => .ok k
  | none => .error ⟨s⟩

/-- The names of the attributes of a kind, in order. -/
def attributeNames : Kind → List String
  | grammar => ["title", "meta"]
  | rule => ["name"]
  | identifier | terminal | comment => ["value"]
  | _ => []

/-- Whether nodes of this kind have an attribute of this name. -/
def hasAttribute (k : Kind) (name : String) : Bool := k.attributeNames.contains name

/-- The attribute that labels nodes of this kind. -/
def labelName? (k : Kind) : Option String := k.attributeNames.head?

/-- Whether nodes of this kind are built from other nodes. -/
def isComposite : Kind → Bool
  | identifier | terminal | comment => false
  | _ => true

end Kind

/-- A kind with the texts it carries. -/
inductive Content where
  | grammar (title : String) (about : String)
  | rule (name : String)
  | identifier (value : String)
  | terminal (value : String)
  | comment (value : String)
  | sequence
  | choice
  | optional
  | repetition
  | group
  | exception
deriving DecidableEq, Repr

namespace Content

/-- The meta text of a grammar that declares none. -/
def defaultMeta : String := "xis/ebnf v2.0 http://wiki.karmin.ch/ebnf/ gpl3"

/-- The kind of a content. -/
def kind : Content → Kind
  | grammar _ _ => .grammar
  | rule _ => .rule
  | identifier _ => .identifier
  | terminal _ => .terminal
  | comment _ => .comment
  | sequence => .sequence
  | choice => .choice
  | optional => .optional
  | repetition => .repetition
  | group => .group
  | exception => .exception

/-- The texts of a content in the order of its kind's attributes. -/
def values : Content → List String
  | grammar title about => [title, about]
  | rule name => [name]
  | identifier value => [value]
  | terminal value => [value]
  | comment value => [value]
  | _ => []

/-- The attributes of a content with their names. -/
def attributes (c : Content) : List (String × String) := c.kind.attributeNames.zip c.values

/-- The text of the attribute that labels the content. -/
def label? (c : Content) : Option String := c.values.head?

/-- The text of an attribute. -/
def get? (c : Content) (name : String) : Option String := c.attributes.lookup name

/-- A content as messages show it: its kind, and its label if there is one. -/
def display (c : Content) : String :=
  match c.label? with
  | some label => c.kind.name ++ "(" ++ quotedText label ++ ")"
  | none => c.kind.name

/-- The content of a new node of a kind: its label is the given text, and kinds without texts
ignore it. -/
def ofKind (k : Kind) (label : String) : Content :=
  match k with
  | .grammar => grammar label defaultMeta
  | .rule => rule label
  | .identifier => identifier label
  | .terminal => terminal label
  | .comment => comment label
  | .sequence => sequence
  | .choice => choice
  | .optional => optional
  | .repetition => repetition
  | .group => group
  | .exception => exception

@[simp] theorem kind_ofKind (k : Kind) (label : String) : (ofKind k label).kind = k := by
  cases k <;> rfl

/-- A content has as many texts as its kind has attributes. -/
theorem length_values (c : Content) : c.values.length = c.kind.attributeNames.length := by
  cases c <;> rfl

/-- Kind and texts determine a content. -/
theorem eq_of_kind_values {c d : Content} (hk : c.kind = d.kind) (hv : c.values = d.values) :
    c = d := by
  cases c <;> cases d <;> simp_all [kind, values]

end Content

end GrammarTree
