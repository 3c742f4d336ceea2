/-
# Forests

A forest holds the nodes that were made for one grammar.  Every node has an identity, a number given
in the order of creation, which it keeps while it is moved about.  A node knows its parent and its
children by their identities, and it carries the attributes of its kind.  The first node is the root
of the grammar.  Other nodes without a parent are *loose*: they were made without one or were cut
off.  A loose node, with what hangs from it, can be put below a node again, but no node can be put
below itself or below what hangs from it, and the root stays where it is.

Nothing in the way the nodes are stored says that they make up trees.  That they do, as long as they
are changed only by the operations of this file, is a theorem about these operations.
-/
import GrammarTree.Content
import GrammarTree.Tree

namespace GrammarTree

/-- What a forest knows of a node. -/
structure Entry where
  /-- The kind of the node. -/
  kind : Kind
  /-- The identity of the parent, if there is one. -/
  parent : Option Nat
  /-- The identities of the children in order. -/
  children : List Nat
  /-- The attributes with their names. -/
  attributes : List (String × String)
deriving DecidableEq, Repr

/-- Why a forest refuses a change. -/
inductive ForestError where
  /-- A node of this kind has no attribute of this name. -/
  | missingAttribute (kind : Kind) (name : String)
  /-- The new child is the parent itself or above it. -/
  | cyclicAttachment (parent child : Kind)
  /-- The new child is the root. -/
  | rootAttachment
deriving DecidableEq, Repr

/-- A refusal in words. -/
def ForestError.message : ForestError → String
  | missingAttribute kind name => "Node '" ++ kind.name ++ "' has no attribute '" ++ name ++ "'"
  | cyclicAttachment parent child =>
    "Attaching a '" ++ child.name ++ "' under a '" ++ parent.name ++ "' would create a cycle"
  | rootAttachment => "The syntax root can not be attached under another node"

/-! ### Nodes -/

namespace Entry

/-- A new node of some content. -/
def ofContent (c : Content) (parent : Option Nat) : Entry := ⟨c.kind, parent, [], c.attributes⟩

/-- The node below another parent, or below none. -/
def under (parent : Option Nat) (e : Entry) : Entry := { e with parent := parent }

/-- The node with one more child behind the others. -/
def adopt (child : Nat) (e : Entry) : Entry := { e with children := e.children ++ [child] }

/-- The node without one of its children. -/
def release (child : Nat) (e : Entry) : Entry :=
  { e with children := e.children.filter (· ≠ child) }

/-- The text of an attribute. -/
def get? (e : Entry) (name : String) : Option String := e.attributes.lookup name

/-- The index of the first attribute of a name. -/
def index? (e : Entry) (name : String) : Option Nat := e.attributes.findIdx? (·.1 == name)

/-- The node with the text of the attribute at an index replaced. -/
def setAt (index : Nat) (value : String) (e : Entry) : Entry :=
  { e with attributes := e.attributes.modify index fun (key, _) => (key, value) }

/-- The text of an attribute, empty if there is no attribute of this name. -/
def text (e : Entry) (name : String) : String := (e.get? name).getD ""

/-- What the node is. -/
def content (e : Entry) : Content :=
  match e.kind with
  | .grammar => .grammar (e.text "title") (e.text "meta")
  | .rule => .rule (e.text "name")
  | .identifier => .identifier (e.text "value")
  | .terminal => .terminal (e.text "value")
  | .comment => .comment (e.text "value")
  | .sequence => .sequence
  | .choice => .choice
  | .optional => .optional
  | .repetition => .repetition
  | .group => .group
  | .exception => .exception

end Entry

/-! ### Forests -/

/-- The nodes made for one grammar. -/
structure Forest where
  /-- The nodes by identity. -/
  nodes : Array Entry
deriving DecidableEq, Repr

namespace Forest

/-- The identity of the root. -/
def rootId : Nat := 0

/-- The forest of a grammar without rules. -/
def empty : Forest := ⟨#[Entry.ofContent (.grammar "" Content.defaultMeta) none]⟩

/-- The number of nodes made so far, and the identity of the next one. -/
def size (f : Forest) : Nat := f.nodes.size

/-- The node with an identity. -/
def node? (f : Forest) (id : Nat) : Option Entry := f.nodes[id]?

/-- The kind of a node. -/
def kind? (f : Forest) (id : Nat) : Option Kind := (f.node? id).map (·.kind)

/-- The parent of a node. -/
def parent? (f : Forest) (id : Nat) : Option Nat := (f.node? id).bind (·.parent)

/-- The children of a node. -/
def children (f : Forest) (id : Nat) : List Nat := ((f.node? id).map (·.children)).getD []

/-- The attributes of a node. -/
def attributes (f : Forest) (id : Nat) : List (String × String) :=
  ((f.node? id).map (·.attributes)).getD []

/-- What a node is; a place without a node counts as an empty group. -/
def content (f : Forest) (id : Nat) : Content := ((f.node? id).map (·.content)).getD .group

/-- The place of a node among its parent's children. -/
def indexInParent? (f : Forest) (id : Nat) : Option Nat :=
  (f.parent? id).bind fun p => (f.children p).findIdx? (· == id)

/-- Whether the root has no children. -/
def isEmpty (f : Forest) : Bool := (f.children rootId).isEmpty

/-- Changes a node. -/
def modify (f : Forest) (id : Nat) (g : Entry → Entry) : Forest := ⟨f.nodes.modify id g⟩

/-! ### Ways up and down -/

/-- A node, its parent, the parent of that and so on, for a number of steps at most. -/
def climb (f : Forest) : Nat → Nat → List Nat
  | 0, _ => []
  | n + 1, id =>
    id :: match f.parent? id with
      | some p => climb f n p
      | none => []

/-- A node and all nodes above it, from below.  There cannot be more of them than there are nodes. -/
def lineage (f : Forest) (id : Nat) : List Nat := f.climb f.size id

/-- Whether `upper` is the node `lower` or lies above it. -/
def isAbove (f : Forest) (upper lower : Nat) : Bool := (f.lineage lower).contains upper

/-- The identities of a node and of all nodes below it, for a number of levels at most. -/
def unfold (f : Forest) : Nat → Nat → Tree Nat
  | 0, id => Tree.leaf id
  | n + 1, id => .node id ((f.children id).map (unfold f n))

/-- The identities of a node and of all nodes below it.  There cannot be more levels than there are
nodes. -/
def below (f : Forest) (id : Nat) : Tree Nat := f.unfold f.size id

/-- The tree that hangs from a node. -/
def treeAt (f : Forest) (id : Nat) : Tree Content := (f.below id).map f.content

/-- The grammar. -/
def tree (f : Forest) : Tree Content := f.treeAt rootId

/-! ### Edits -/

/-- What edits the forest at hand and may be refused.  A refusal leaves the forest as it was edited
up to then. -/
abbrev Edit := EStateM ForestError Forest

/-- An edit that is never refused. -/
def Edit.always (g : Forest → Forest) : Edit Unit := do set (g (← get))

/-- The forest behind an edit, whether it was refused or not. -/
def edited (f : Forest) (edit : Edit Unit) : Forest :=
  match edit.run f with
  | .ok _ g => g
  | .error _ g => g

/-- The forest that an edit comes to, or why it is refused. -/
def outcome (f : Forest) (edit : Edit Unit) : Except ForestError Forest :=
  match edit.run f with
  | .ok _ g => .ok g
  | .error e _ => .error e

/-! ### Attributes -/

/-- The text of a node's attribute. -/
def getAttribute (f : Forest) (id : Nat) (name : String) : Except ForestError String :=
  match f.node? id with
  | none => .error (.missingAttribute .grammar name)
  | some e =>
    match e.get? name with
    | some value => .ok value
    | none => .error (.missingAttribute e.kind name)

/-- Replaces the text of a node's attribute in the forest at hand. -/
def Edit.setAttribute (id : Nat) (name value : String) : Edit Unit := do
  let f ← get
  match f.node? id with
  | none => throw (.missingAttribute .grammar name)
  | some e =>
    match e.index? name with
    | some i => set (f.modify id (Entry.setAt i value))
    | none => throw (.missingAttribute e.kind name)

/-- Replaces the text of a node's attribute. -/
def setAttribute (f : Forest) (id : Nat) (name value : String) : Except ForestError Forest :=
  f.outcome (Edit.setAttribute id name value)

/-- Replaces the grammar's title. -/
def setTitle (f : Forest) (value : String) : Forest := f.modify rootId (Entry.setAt 0 value)

/-- Replaces the grammar's meta text. -/
def setMeta (f : Forest) (value : String) : Forest := f.modify rootId (Entry.setAt 1 value)

/-! ### Making and moving nodes -/

/-- Makes a node below another one, or a loose one; its identity is the forest's size. -/
def create (f : Forest) (content : Content) (parent : Option Nat) : Forest :=
  let made : Forest := ⟨f.nodes.push (Entry.ofContent content parent)⟩
  match parent with
  | some p => made.modify p (Entry.adopt f.size)
  | none => made

/-- Cuts a node off its parent.  A node without a parent stays as it is. -/
def detach (f : Forest) (id : Nat) : Forest :=
  match f.parent? id with
  | some p => (f.modify id (Entry.under none)).modify p (Entry.release id)
  | none => f

/-- Moves a node, with what hangs from it, behind the children of another one. -/
def append (f : Forest) (parent child : Nat) : Forest :=
  ((f.detach child).modify child (Entry.under (some parent))).modify parent (Entry.adopt child)

/-- Moves a node behind the children of another one in the forest at hand, unless that is below
it. -/
def Edit.attach (parent child : Nat) : Edit Unit := do
  if child = rootId then throw .rootAttachment
  let f ← get
  if f.isAbove child parent then
    throw (.cyclicAttachment ((f.kind? parent).getD .grammar) ((f.kind? child).getD .grammar))
  set (f.append parent child)

/-- Moves a node behind the children of another one, unless that is below it. -/
def attach (f : Forest) (parent child : Nat) : Except ForestError Forest :=
  f.outcome (Edit.attach parent child)

/-! ### Copies -/

mutual

/-- Copies a tree below a node or as a loose tree.  The copy's nodes are new; the identity of its
topmost node is returned.  A grammar is copied as the list of its children, and then there is no such
node. -/
def copy (f : Forest) (parent : Option Nat) : Tree Content → Option Nat × Forest
  | .node c ts =>
    if c.kind = .grammar then (none, copyAll f parent ts)
    else (some f.size, copyAll (f.create c parent) (some f.size) ts)

/-- Copies some trees below a node or as loose trees. -/
def copyAll (f : Forest) (parent : Option Nat) : List (Tree Content) → Forest
  | [] => f
  | t :: ts => copyAll (copy f parent t).2 parent ts

end

/-- A forest of its own with the same grammar and nothing loose. -/
def deepCopy (f : Forest) : Forest :=
  let rooted := empty.modify rootId fun e => { e with attributes := f.attributes rootId }
  rooted.copyAll (some rootId) f.tree.children

end Forest

end GrammarTree
