/-
# Differences between trees

Two trees are compared from the top.  Where the kinds of two nodes differ, this is noted and nothing
below is looked at.  Otherwise each attribute that differs is noted, then a different number of
children, and then the children are compared in pairs as far as both have them.  A note says where
the two nodes are: the kinds on the way to them, with the place of each among its siblings.
-/
import GrammarTree.Content
import GrammarTree.Tree

namespace GrammarTree

/-- A difference between two trees. -/
structure Difference where
  /-- What differs. -/
  message : String
  /-- Where it is in the first tree. -/
  placeA : String
  /-- Where it is in the second tree. -/
  placeB : String
deriving DecidableEq, Repr

namespace Difference

/-- A difference in one line, unless its message has line breaks. -/
def display (d : Difference) : String :=
  if d.placeA = d.placeB then d.message ++ " (at " ++ d.placeA ++ ")"
  else d.message ++ " (at " ++ d.placeA ++ " / " ++ d.placeB ++ ")"

/-- Differences with a line feed between two of them. -/
def report (ds : List Difference) : String := "\n".intercalate (ds.map display)

/-- The note on two kinds. -/
def ofKinds (a b : Kind) (placeA placeB : String) : Difference :=
  ⟨"Probed node types mismatch: '" ++ a.name ++ "' != '" ++ b.name ++ "'!", placeA, placeB⟩

/-- The note on an attribute with two values. -/
def ofAttribute (k : Kind) (name a b placeA placeB : String) : Difference :=
  ⟨k.title ++ " " ++ name ++ " mismatch: '" ++ a ++ "' != '" ++ b ++ "'!", placeA, placeB⟩

/-- The note on two numbers of children. -/
def ofCounts (a b : Nat) (placeA placeB : String) : Difference :=
  ⟨"Node has different child count: " ++ toString a ++ " != " ++ toString b ++ "!", placeA, placeB⟩

/-- The notes on attributes of two nodes of one kind. -/
def ofAttributes (k : Kind) (placeA placeB : String) :
    List (String × String) → List (String × String) → List Difference
  | (name, a) :: as, (_, b) :: bs =>
    if a = b then ofAttributes k placeA placeB as bs
    else ofAttribute k name a b placeA placeB :: ofAttributes k placeA placeB as bs
  | _, _ => []

/-- The place of a child: its parent's place, its kind and its index. -/
def childPlace (place : String) (k : Kind) (index : Nat) : String :=
  place ++ "/" ++ k.name ++ "[" ++ toString index ++ "]"

mutual

/-- The differences of two trees at the given places. -/
def between (placeA placeB : String) : Tree Content → Tree Content → List Difference
  | .node a ts, .node b us =>
    if a.kind = b.kind then
      ofAttributes a.kind placeA placeB a.attributes b.attributes ++
        (if ts.length = us.length then [] else [ofCounts ts.length us.length placeA placeB]) ++
        betweenAll placeA placeB 0 ts us
    else [ofKinds a.kind b.kind placeA placeB]

/-- The differences of the children of two nodes from the given index on. -/
def betweenAll (placeA placeB : String) (index : Nat) :
    List (Tree Content) → List (Tree Content) → List Difference
  | t :: ts, u :: us =>
    between (childPlace placeA t.label.kind index) (childPlace placeB u.label.kind index) t u ++
      betweenAll placeA placeB (index + 1) ts us
  | _, _ => []

end

end Difference

/-- The differences of two trees. -/
def differences (a b : Tree Content) : List Difference :=
  Difference.between a.label.kind.name b.label.kind.name a b

end GrammarTree
