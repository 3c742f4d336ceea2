/-
# Walking a tree with a visitor

A visitor is told when a node is entered and when it is left, and carries a state along.  For some
nodes it may take the walk below into its own hands: it *drives* them.  The walk then does not go
down by itself; what is visited below is what the visitor walks while it enters the node.  For this
it is handed the walks of the node's children.

Most visitors do different things at nodes of different kinds.  Such a visitor is made of `Hooks`:
at each node it calls the hooks of the node's kind.
-/
import GrammarTree.Content
import GrammarTree.Tree

namespace GrammarTree

/-- What is done at each node of a walk, on a state of type `σ`. -/
structure Visitor (α σ : Type) where
  /-- Whether the visitor walks below such a node itself. -/
  drives : α → Bool
  /-- What is done on entering a node; the walks of its children are at hand. -/
  enter : α → List (σ → σ) → σ → σ
  /-- What is done on leaving a node. -/
  leave : α → σ → σ

namespace Visitor

variable {α σ : Type}

/-- Some walks one after the other. -/
def runAll (walks : List (σ → σ)) (s : σ) : σ := walks.foldl (fun s walk => walk s) s

mutual

/-- Enters the topmost node, walks what is below it unless the visitor drives it, and leaves it. -/
def accept (v : Visitor α σ) : Tree α → σ → σ
  | .node a ts, s =>
    let walks := acceptEach v ts
    let entered := v.enter a walks s
    v.leave a (if v.drives a then entered else runAll walks entered)

/-- The walks of some trees. -/
def acceptEach (v : Visitor α σ) : List (Tree α) → List (σ → σ)
  | [] => []
  | t :: ts => accept v t :: acceptEach v ts

end

/-- Walks what is below the topmost node, but not the node itself. -/
def acceptChildren (v : Visitor α σ) (t : Tree α) (s : σ) : σ :=
  runAll (acceptEach v t.children) s

/-! ### Hooks -/

/-- What is done at the nodes of each kind, on a state of type `σ`.  Unless something else is said,
nothing is done and no nodes are driven. -/
structure Hooks (α σ : Type) where
  /-- Whether the walk below such a node is in the hook's hands. -/
  drives : α → Bool := fun _ => false
  /-- What is done on entering a node of a kind; the walks of its children are at hand. -/
  visit : Kind → α → List (σ → σ) → σ → σ := fun _ _ _ s => s
  /-- What is done on leaving a node of a kind. -/
  leave : Kind → α → σ → σ := fun _ _ s => s

/-- The visitor that calls at each node the hooks of its kind. -/
def Hooks.visitor (kind : α → Kind) (h : Hooks α σ) : Visitor α σ where
  drives := h.drives
  enter a := h.visit (kind a) a
  leave a := h.leave (kind a) a

/-! ### Recording a walk -/

/-- A step of a walk. -/
inductive Event (α : Type) where
  | entered (label : α)
  | left (label : α)
deriving DecidableEq, Repr

/-- How a driven node's children are walked. -/
inductive Steering where
  /-- First to last. -/
  | forward
  /-- Last to first. -/
  | backward
  /-- Not at all. -/
  | nowhere
deriving DecidableEq, Repr

/-- Records every step.  `steer` says which nodes are driven, and how. -/
def recorder (steer : α → Option Steering) : Visitor α (List (Event α)) where
  drives a := (steer a).isSome
  enter a walks s :=
    let s := s ++ [.entered a]
    match steer a with
    | none | some .nowhere => s
    | some .forward => runAll walks s
    | some .backward => runAll walks.reverse s
  leave a s := s ++ [.left a]

/-- Hooks that record every call, each with the kind that it is the hook of.  `steer` says nodes of
which kinds are driven, and how. -/
def callRecorder (kind : α → Kind) (steer : Kind → Option Steering) :
    Hooks α (List (Event (Kind × α))) where
  drives a := (steer (kind a)).isSome
  visit k a := (recorder fun call => steer call.1).enter (k, a)
  leave k a := (recorder fun call => steer call.1).leave (k, a)

end Visitor

end GrammarTree
