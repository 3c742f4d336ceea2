/-
# Expectations on a tree

What is expected of a grammar's tree can be written down as a list of checks: on the grammar as a
whole, on one of its items, and from there on nodes further down.  Checks are run in order, and the
first one that fails ends the run with a complaint.  A complaint names the place by the way that led
there, and shows both values where two of them should have been equal.
-/
import GrammarTree.Difference
import GrammarTree.Text.Blank

namespace GrammarTree

/-- What a failed check has to say. -/
inductive Complaint where
  /-- Something does not hold. -/
  | refused (message : String)
  /-- Two values should be equal and are not; they are given as they are shown. -/
  | unequal (message actual wanted : String)
deriving DecidableEq, Repr

/-- A complaint in words. -/
def Complaint.message : Complaint → String
  | refused message => message
  | unequal message actual wanted =>
    "assertion `left == right` failed: " ++ message ++ "\n  left: " ++ actual ++ "\n right: " ++ wanted

namespace Expectation

/-- Complains unless a condition holds. -/
def demand (holds : Bool) (complaint : Complaint) : Except Complaint Unit :=
  if holds then .ok () else .error complaint

/-- What is expected of a text. -/
inductive TextCheck where
  /-- It is this one. -/
  | exact (wanted : String)
  /-- It starts with this one. -/
  | startsWith (wanted : String)
  /-- It contains this one. -/
  | contains (wanted : String)
  /-- It is this one without the white space around it. -/
  | trimmed (wanted : String)
deriving DecidableEq, Repr

/-- The end of a complaint about a text. -/
def butGot (wanted actual : String) : String := "'" ++ wanted ++ "', but got '" ++ actual ++ "'"

/-- Checks a text at a place. -/
def TextCheck.run (place actual : String) : TextCheck → Except Complaint Unit
  | exact wanted =>
    demand (actual == wanted)
      (.unequal (place ++ ": Expected text to be " ++ butGot wanted actual)
        (quotedText actual) (quotedText wanted))
  | startsWith wanted =>
    demand (GrammarTree.startsWith wanted.toList actual.toList)
      (.refused (place ++ ": Expected text to start with " ++ butGot wanted actual))
  | contains wanted =>
    demand (occursIn wanted.toList actual.toList)
      (.refused (place ++ ": Expected text to contain " ++ butGot wanted actual))
  | trimmed wanted =>
    demand (GrammarTree.trimmed actual == wanted)
      (.unequal (place ++ ": Expected trimmed text to be " ++ butGot wanted actual)
        (quotedText (GrammarTree.trimmed actual)) (quotedText wanted))

/-- What is expected of a node. -/
inductive NodeCheck where
  /-- It is of this kind. -/
  | kind (wanted : Kind)
  /-- It is of this kind and has this label. -/
  | labelled (kind : Kind) (label : TextCheck)
  /-- An attribute has this value. -/
  | hasAttribute (name wanted : String)
  /-- It has so many children. -/
  | childCount (wanted : Nat)
  /-- Its children are of these kinds. -/
  | childKinds (wanted : List Kind)
  /-- It has so many levels. -/
  | depth (wanted : Nat)
  /-- It has no children. -/
  | leaf
  /-- Its child at an index passes these checks. -/
  | child (index : Nat) (checks : List NodeCheck)
  /-- It is a rule, and its expression passes these checks. -/
  | expression (checks : List NodeCheck)

/-- What is expected of a grammar. -/
inductive Check where
  /-- Its title is this. -/
  | title (wanted : String)
  /-- Its meta text is this. -/
  | about (wanted : String)
  /-- It has so many items, comments included. -/
  | itemCount (wanted : Nat)
  /-- It has so many rules. -/
  | ruleCount (wanted : Nat)
  /-- Its items are of these kinds. -/
  | itemKinds (wanted : List Kind)
  /-- Its item at an index passes these checks. -/
  | item (index : Nat) (checks : List NodeCheck)
  /-- Its first rule of a name passes these checks. -/
  | rule (name : String) (checks : List NodeCheck)

/-- Some nodes as a complaint lists them. -/
def listing (ts : List (Tree Content)) : String :=
  "[" ++ ", ".intercalate (ts.map (·.label.display)) ++ "]"

/-- The kinds of some nodes. -/
def kindsOf (ts : List (Tree Content)) : List Kind := ts.map (·.label.kind)

/-- Some kinds as a complaint lists them. -/
def kindListing (ks : List Kind) : String := "[" ++ ", ".intercalate (ks.map Kind.title) ++ "]"

/-- Checks the kind of a node. -/
def checkKind (place : String) (t : Tree Content) (wanted : Kind) : Except Complaint Unit :=
  demand (t.label.kind == wanted)
    (.unequal (place ++ ": Expected " ++ wanted.name ++ " node, found " ++ t.label.display)
      t.label.kind.title wanted.title)

/-- Checks a number. -/
def checkCount (actual wanted : Nat) (message : String) : Except Complaint Unit :=
  demand (actual == wanted) (.unequal message (toString actual) (toString wanted))

/-- Checks a list of kinds. -/
def checkKinds (actual wanted : List Kind) (message : String) : Except Complaint Unit :=
  demand (actual == wanted) (.unequal message (kindListing actual) (kindListing wanted))

/-- The first of some nodes, the first of all left out, that is no comment, with its index. -/
def expressionOf (t : Tree Content) : Option (Tree Content × Nat) :=
  (t.children.zipIdx.drop 1).find? fun (child, _) => child.label.kind != .comment

mutual

/-- Checks a node at a place. -/
def checkNode (place : String) (t : Tree Content) : NodeCheck → Except Complaint Unit
  | .kind wanted => checkKind place t wanted
  | .labelled kind label => do
    checkKind place t kind
    label.run place (t.label.label?.getD "")
  | .hasAttribute name wanted =>
    match t.label.get? name with
    | some actual => TextCheck.run (place ++ ":" ++ name) actual (.exact wanted)
    | none =>
      .error (.refused (place ++ ": Node '" ++ t.label.kind.name ++ "' has no attribute '" ++ name ++
        "'"))
  | .childCount wanted =>
    let actual := t.children.length
    checkCount actual wanted
      (place ++ ": Expected " ++ toString wanted ++ " children, found " ++ toString actual ++ ": " ++
        listing t.children)
  | .childKinds wanted =>
    checkKinds (kindsOf t.children) wanted (place ++ ": Unexpected child types")
  | .depth wanted => checkCount t.depth wanted (place ++ ": Unexpected depth")
  | .leaf => demand t.isLeaf (.refused (place ++ ": Expected a leaf"))
  | .child index checks =>
    match t.children[index]? with
    | some child => checkNodes (place ++ ":children[" ++ toString index ++ "]") child checks
    | none =>
      .error (.refused (place ++ ": Child index " ++ toString index ++ " out of bounds (node has " ++
        toString t.children.length ++ " children)"))
  | .expression checks => do
    checkKind place t .rule
    match expressionOf t with
    | some (found, index) => checkNodes (place ++ ":children[" ++ toString index ++ "]") found checks
    | none => .error (.refused (place ++ ": Rule has no expression"))

/-- Runs several checks on a node. -/
def checkNodes (place : String) (t : Tree Content) : List NodeCheck → Except Complaint Unit
  | [] => .ok ()
  | check :: checks => do
    checkNode place t check
    checkNodes place t checks

end

/-- The place of an item. -/
def itemPlace (index : Nat) : String := "items[" ++ toString index ++ "]"

/-- Checks a grammar. -/
def checkGrammar (t : Tree Content) : Check → Except Complaint Unit
  | .title wanted => TextCheck.run "syntax:title" ((t.label.get? "title").getD "") (.exact wanted)
  | .about wanted => TextCheck.run "syntax:meta" ((t.label.get? "meta").getD "") (.exact wanted)
  | .itemCount wanted =>
    let actual := t.children.length
    checkCount actual wanted
      ("Expected " ++ toString wanted ++ " items, found " ++ toString actual ++ " items: " ++
        listing t.children)
  | .ruleCount wanted =>
    let actual := (kindsOf t.children).count .rule
    checkCount actual wanted
      ("Expected " ++ toString wanted ++ " rules, found " ++ toString actual ++ " rules: " ++
        listing t.children)
  | .itemKinds wanted => checkKinds (kindsOf t.children) wanted "syntax: Unexpected item types"
  | .item index checks =>
    match t.children[index]? with
    | some item => checkNodes (itemPlace index) item checks
    | none =>
      .error (.refused ("Item index " ++ toString index ++ " out of bounds (syntax has " ++
        toString t.children.length ++ " items)"))
  | .rule name checks =>
    match t.children.zipIdx.find? fun (item, _) => item.label == .rule name with
    | some (item, index) => checkNodes (itemPlace index) item checks
    | none =>
      .error (.refused ("No rule named '" ++ name ++ "' among: " ++ listing t.children))

/-- Complains about all differences of two trees at once. -/
def checkEquivalent (actual wanted : Tree Content) : Except Complaint Unit :=
  let found := differences actual wanted
  demand found.isEmpty
    (.refused ("Trees are not equivalent (" ++ toString found.length ++ " mismatches):\n" ++
      Difference.report found))

/-- Runs several checks on a grammar. -/
def run (t : Tree Content) (checks : List Check) : Except Complaint Unit :=
  checks.forM (checkGrammar t)

end Expectation

end GrammarTree
