/-
# Recorded walks

A recording visitor writes down every step of a walk.  If it walks below some nodes itself, from the
first child to the last one, then what is written down is the same as if it did not
(`accept_recorder`): it is the trace of the tree, in which what happens below a node stands between
entering and leaving it.  A visitor made of hooks that record their calls writes down the same, and
the hooks called at a node are those of its kind (`accept_callRecorder`).

Where no two nodes have the same label, as with the identities of a forest, every step stands in the
trace once (`trace_perm`).  So the trace of a node, which is met within the trace of the tree
(`exists_trace_append`), has all steps at and below the node in it, and the rest has none of them.
-/
import Mathlib.Data.List.Perm.Basic
import GrammarTree.Proofs.Forest.Descendants
import GrammarTree.Proofs.Forest.Reachable
import GrammarTree.Tree.Visitor

namespace GrammarTree

namespace Visitor

variable {α β : Type}

/-! ### Steps -/

namespace Event

/-- The label of the node that a step is about. -/
def label : Event α → α
  | entered a => a
  | left a => a

/-- The label of the node that is entered, if one is. -/
def entered? : Event α → Option α
  | entered a => some a
  | left _ => none

/-- The same step at another label. -/
def map (f : α → β) : Event α → Event β
  | entered a => entered (f a)
  | left a => left (f a)

end Event

/-! ### Traces -/

mutual

/-- The steps of a walk of a tree. -/
def trace : Tree α → List (Event α)
  | .node a ts => .entered a :: traceAll ts ++ [.left a]

/-- The steps of the walks of several trees, one after the other. -/
def traceAll : List (Tree α) → List (Event α)
  | [] => []
  | t :: ts => trace t ++ traceAll ts

end

mutual

/-- Other labels do not change the steps. -/
lemma trace_map (f : α → β) : ∀ t : Tree α, trace (t.map f) = (trace t).map (Event.map f)
  | .node a ts => by
    rw [Tree.map, trace, trace, traceAll_mapAll]
    simp [Event.map]

lemma traceAll_mapAll (f : α → β) :
    ∀ ts : List (Tree α), traceAll (Tree.mapAll f ts) = (traceAll ts).map (Event.map f)
  | [] => rfl
  | t :: ts => by rw [Tree.mapAll, traceAll, traceAll, trace_map, traceAll_mapAll, List.map_append]

end

mutual

/-- Nodes are entered in reading order. -/
lemma filterMap_trace : ∀ t : Tree α,
    (trace t).filterMap Event.entered? = t.preorder.map Tree.label
  | .node a ts => by
    rw [trace, Tree.preorder_node, List.map_cons, ← filterMap_traceAll]
    simp [Event.entered?]

lemma filterMap_traceAll : ∀ ts : List (Tree α),
    (traceAll ts).filterMap Event.entered? = (Tree.preorderOf ts).map Tree.label
  | [] => by rw [traceAll, Tree.preorderOf_nil]; rfl
  | t :: ts => by
    rw [traceAll, Tree.preorderOf_cons, List.filterMap_append, List.map_append, filterMap_trace,
      filterMap_traceAll]

end

/-- Each of some nodes is entered once and left once, in whatever order. -/
def EachOnce (as : List α) (events : List (Event α)) : Prop :=
  events.Perm (as.map .entered ++ as.map .left)

namespace EachOnce

variable {as bs : List α} {es fs : List (Event α)}

lemma append (ha : EachOnce as es) (hb : EachOnce bs fs) : EachOnce (as ++ bs) (es ++ fs) := by
  refine (List.Perm.append ha hb).trans ?_
  rw [List.map_append, List.map_append, List.append_assoc, List.append_assoc]
  exact (List.perm_append_comm_assoc _ _ _).append_left _

/-- A node is entered before all of them and left behind them. -/
lemma enclose (h : EachOnce as es) (a : α) :
    EachOnce (a :: as) (.entered a :: es ++ [.left a]) := by
  refine List.Perm.cons _ ((List.Perm.append_right _ h).trans ?_)
  rw [List.append_assoc]
  exact (List.perm_append_singleton _ _).append_left _

lemma mem_iff (h : EachOnce as es) {e : Event α} : e ∈ es ↔ e.label ∈ as := by
  rw [List.Perm.mem_iff h, List.mem_append]
  cases e <;> simp [Event.label]

lemma nodup (h : EachOnce as es) (has : as.Nodup) : es.Nodup := by
  rw [List.Perm.nodup_iff h, List.nodup_append]
  refine ⟨has.map fun _ _ => Event.entered.inj, has.map fun _ _ => Event.left.inj, ?_⟩
  intro e he e' he'
  obtain ⟨a, -, rfl⟩ := List.mem_map.1 he
  obtain ⟨b, -, rfl⟩ := List.mem_map.1 he'
  exact nofun

end EachOnce

mutual

/-- Every node is entered once and left once. -/
lemma trace_perm : ∀ t : Tree α, EachOnce (t.preorder.map Tree.label) (trace t)
  | .node a ts => by
    rw [trace, Tree.preorder_node]
    exact (traceAll_perm ts).enclose a

lemma traceAll_perm : ∀ ts : List (Tree α),
    EachOnce ((Tree.preorderOf ts).map Tree.label) (traceAll ts)
  | [] => by
    rw [traceAll, Tree.preorderOf_nil]
    exact .refl []
  | t :: ts => by
    rw [traceAll, Tree.preorderOf_cons, List.map_append]
    exact (trace_perm t).append (traceAll_perm ts)

end

mutual

/-- The trace of a tree goes through the traces of all trees below it. -/
lemma exists_trace_append {u : Tree α} : ∀ {t : Tree α}, u ∈ t.preorder →
    ∃ before behind, trace t = before ++ trace u ++ behind
  | .node a ts, h => by
    rw [Tree.preorder_node, List.mem_cons] at h
    rcases h with rfl | h
    · exact ⟨[], [], by simp⟩
    · obtain ⟨before, behind, heq⟩ := exists_traceAll_append h
      exact ⟨.entered a :: before, behind ++ [.left a], by rw [trace, heq]; simp⟩

lemma exists_traceAll_append {u : Tree α} : ∀ {ts : List (Tree α)}, u ∈ Tree.preorderOf ts →
    ∃ before behind, traceAll ts = before ++ trace u ++ behind
  | [], h => by
    rw [Tree.preorderOf_nil] at h
    cases h
  | t :: ts, h => by
    rw [Tree.preorderOf_cons, List.mem_append] at h
    rcases h with h | h
    · obtain ⟨before, behind, heq⟩ := exists_trace_append h
      exact ⟨before, behind ++ traceAll ts, by rw [traceAll, heq, List.append_assoc]⟩
    · obtain ⟨before, behind, heq⟩ := exists_traceAll_append h
      exact ⟨trace t ++ before, behind, by rw [traceAll, heq]; simp⟩

end

/-! ### Recording -/

/-- Nodes are driven from the first child to the last one, if at all. -/
def GoesForward (steer : α → Option Steering) : Prop :=
  ∀ a, steer a = none ∨ steer a = some .forward

variable {steer : α → Option Steering}

mutual

/-- What is recorded is the trace, whichever nodes are driven forward. -/
lemma accept_recorder (h : GoesForward steer) :
    ∀ (t : Tree α) (s : List (Event α)), (recorder steer).accept t s = s ++ trace t
  | .node a ts, s => by
    -- the children are walked once: by the walk itself, or by the visitor that drives the node
    have hwalk : (recorder steer).accept (.node a ts) s =
        runAll ((recorder steer).acceptEach ts) (s ++ [.entered a]) ++ [.left a] := by
      rcases h a with hsteer | hsteer
      · simp [accept, recorder, hsteer]
      · simp [accept, recorder, hsteer]
    rw [hwalk, runAll_recorder h ts, trace]
    simp

lemma runAll_recorder (h : GoesForward steer) : ∀ (ts : List (Tree α)) (s : List (Event α)),
    runAll ((recorder steer).acceptEach ts) s = s ++ traceAll ts
  | [], s => by rw [acceptEach, traceAll, List.append_nil]; rfl
  | t :: ts, s => by
    rw [acceptEach, traceAll, ← List.append_assoc, ← accept_recorder h t s, ← runAll_recorder h ts]
    rfl

end

lemma acceptChildren_recorder (h : GoesForward steer) : ∀ t : Tree α,
    .entered t.label :: (recorder steer).acceptChildren t [] ++ [.left t.label] = trace t
  | .node a ts => by
    rw [acceptChildren, Tree.children_node, runAll_recorder h ts, trace]
    rfl

/-- Records every step, and walks below the nodes of some kinds itself. -/
def forwardRecorder (driven : Kind → Bool) (kind : α → Kind) : Visitor α (List (Event α)) :=
  recorder fun a => if driven (kind a) then some .forward else none

lemma goesForward_kind (driven : Kind → Bool) (kind : α → Kind) :
    GoesForward fun a => if driven (kind a) then some .forward else none := by
  intro a
  cases hdriven : driven (kind a) with
  | false => exact Or.inl (by simp [hdriven])
  | true => exact Or.inr (by simp [hdriven])

lemma accept_forwardRecorder (driven : Kind → Bool) (kind : α → Kind) (t : Tree α) :
    (forwardRecorder driven kind).accept t [] = trace t :=
  accept_recorder (goesForward_kind driven kind) t []

lemma acceptChildren_forwardRecorder (driven : Kind → Bool) (kind : α → Kind) (t : Tree α) :
    .entered t.label :: (forwardRecorder driven kind).acceptChildren t [] ++ [.left t.label] =
      trace t :=
  acceptChildren_recorder (goesForward_kind driven kind) t

/-! ### Hooks -/

/-- The visitor that sees at each node what `g` makes of its label. -/
def comap {σ : Type} (g : α → β) (v : Visitor β σ) : Visitor α σ where
  drives a := v.drives (g a)
  enter a := v.enter (g a)
  leave a := v.leave (g a)

mutual

lemma accept_comap {σ : Type} (g : α → β) (v : Visitor β σ) :
    ∀ (t : Tree α) (s : σ), (v.comap g).accept t s = v.accept (t.map g) s
  | .node a ts, s => by
    rw [accept, Tree.map, accept, acceptEach_comap]
    rfl

lemma acceptEach_comap {σ : Type} (g : α → β) (v : Visitor β σ) :
    ∀ ts : List (Tree α), (v.comap g).acceptEach ts = v.acceptEach (Tree.mapAll g ts)
  | [] => rfl
  | t :: ts => by
    rw [acceptEach, Tree.mapAll, acceptEach, acceptEach_comap]
    exact congrArg (· :: _) (funext fun s => accept_comap g v t s)

end

/-- The hooks that are called at a node are those of its kind, whichever kinds are driven forward. -/
lemma accept_callRecorder (driven : Kind → Bool) (kind : α → Kind) (t : Tree α) :
    ((callRecorder kind fun k => if driven k then some .forward else none).visitor kind).accept t [] =
      (trace t).map (Event.map fun a => (kind a, a)) := by
  have hcomap : (callRecorder kind fun k => if driven k then some .forward else none).visitor kind =
      (forwardRecorder driven Prod.fst).comap fun a => (kind a, a) := rfl
  rw [hcomap, accept_comap, accept_forwardRecorder, trace_map]

end Visitor

/-! ### Walks in a forest -/

namespace Forest

open Visitor

variable {f : Forest} {id i : Nat}

/-- The steps of a walk from a node on, if no nodes are driven. -/
def steps (f : Forest) (id : Nat) : List (Event Nat) :=
  (recorder fun _ => none).accept (f.below id) []

lemma steps_eq (f : Forest) (id : Nat) : f.steps id = trace (f.below id) :=
  accept_recorder (fun _ => Or.inl rfl) (f.below id) []

lemma eachOnce_steps (f : Forest) (id : Nat) : EachOnce (f.descendants id) (f.steps id) := by
  rw [steps_eq]
  exact trace_perm (f.below id)

/-- Below a node stand the trees below the nodes there. -/
lemma Sound.below_of_mem (h : f.Sound) (hid : id < f.size) :
    ∀ i ∈ f.descendants id, f.below i ∈ (f.below id).preorder := by
  refine h.below_induction (fun id hid ih i hi => ?_) hid
  rw [h.descendants_eq hid, List.mem_cons, List.mem_flatMap] at hi
  rw [Tree.preorder_eq_cons, h.below_eq hid, List.mem_cons, Tree.children_node]
  rcases hi with rfl | ⟨child, hchild, hi⟩
  · exact Or.inl (h.below_eq hid)
  · exact Or.inr (Tree.mem_preorderOf.2
      ⟨f.below child, List.mem_map_of_mem hchild, ih child hchild i hi⟩)

/-- The walk of a node is entering it, walking what is below it, and leaving it. -/
lemma Sound.exists_within (h : f.Sound) (hid : id < f.size) :
    ∃ within, f.steps id = .entered id :: within ++ [.left id] ∧
      ∀ e : Event Nat, e ∈ within ↔ e.label ∈ f.descendants id ∧ e.label ≠ id := by
  have hlist : f.descendants id =
      id :: (Tree.preorderOf ((f.children id).map f.below)).map Tree.label := by
    rw [descendants, h.below_eq hid, Tree.preorder_node]
    rfl
  have hnodup := h.nodup_descendants hid
  rw [hlist, List.nodup_cons] at hnodup
  refine ⟨traceAll ((f.children id).map f.below), ?_, fun e => ?_⟩
  · rw [steps_eq, h.below_eq hid, trace]
  · rw [(traceAll_perm _).mem_iff, hlist, List.mem_cons]
    constructor
    · intro hmem
      exact ⟨Or.inr hmem, fun heq => hnodup.1 (heq ▸ hmem)⟩
    · rintro ⟨heq | hmem, hne⟩
      · exact absurd heq hne
      · exact hmem

/-- In the walk of a node, what happens at and below some node there stands together. -/
lemma Sound.exists_steps_append (h : f.Sound) (hid : id < f.size) (hi : i ∈ f.descendants id) :
    ∃ before behind, f.steps id = before ++ f.steps i ++ behind ∧
      ∀ e ∈ before ++ behind, e.label ∉ f.descendants i := by
  obtain ⟨before, behind, heq⟩ := exists_trace_append (h.below_of_mem hid i hi)
  rw [← steps_eq, ← steps_eq] at heq
  refine ⟨before, behind, heq, fun e he hmem => ?_⟩
  -- a step at or below the node would be made twice
  have hnodup : (before ++ f.steps i ++ behind).Nodup := by
    rw [← heq]
    exact (f.eachOnce_steps id).nodup (h.nodup_descendants hid)
  have hdisjoint : (before ++ behind).Disjoint (f.steps i) := by
    have hperm : (before ++ f.steps i ++ behind).Perm (before ++ behind ++ f.steps i) := by
      rw [List.append_assoc, List.append_assoc]
      exact List.perm_append_comm.append_left before
    exact (List.nodup_append'.1 (hperm.nodup_iff.1 hnodup)).2.2
  exact hdisjoint he ((f.eachOnce_steps i).mem_iff.2 hmem)

/-- A visitor that records every step and walks below the nodes of some kinds itself, from the first
child to the last one, records what it would record without doing so.  If it records in its hooks,
then it is at each node the two hooks of the node's kind that are called.  Each node from the start
on is entered once and left once, and they are entered in reading order; between the two steps of a
node stand all steps of the nodes below it, and no such step stands elsewhere.  Walking what is below
the start only leaves out the first step and the last one. -/
theorem driving_forward_changes_nothing (h : f.Sound) (hid : id < f.size) (driven : Kind → Bool) :
    (forwardRecorder driven Content.kind).accept (f.treeAt id) [] =
      (recorder fun _ => none).accept (f.treeAt id) [] ∧
    (forwardRecorder driven Content.kind).accept (f.treeAt id) [] =
      (f.steps id).map (Event.map f.content) ∧
    (forwardRecorder driven fun i => (f.content i).kind).accept (f.below id) [] = f.steps id ∧
    ((callRecorder (fun i => (f.content i).kind) fun k =>
        if driven k then some .forward else none).visitor fun i => (f.content i).kind).accept
      (f.below id) [] = (f.steps id).map (Event.map fun i => ((f.content i).kind, i)) ∧
    (f.steps id).Perm ((f.descendants id).map .entered ++ (f.descendants id).map .left) ∧
    (f.steps id).filterMap Event.entered? = f.descendants id ∧
    (∀ i ∈ f.descendants id, ∃ before within behind,
      f.steps id = before ++ (.entered i :: within ++ [.left i]) ++ behind ∧
      (∀ e, e ∈ within ↔ e.label ∈ f.descendants i ∧ e.label ≠ i) ∧
      ∀ e ∈ before ++ behind, e.label ∉ f.descendants i) ∧
    .entered id :: (forwardRecorder driven fun i => (f.content i).kind).acceptChildren
      (f.below id) [] ++ [.left id] = f.steps id ∧
    .entered (f.content id) :: (forwardRecorder driven Content.kind).acceptChildren
      (f.treeAt id) [] ++ [.left (f.content id)] = (f.steps id).map (Event.map f.content) := by
  have hcontents : (f.steps id).map (Event.map f.content) = trace (f.treeAt id) := by
    rw [steps_eq, treeAt, trace_map]
  have hlabel : (f.below id).label = id := by rw [h.below_eq hid, Tree.label]
  have hcontent : (f.treeAt id).label = f.content id := by rw [h.treeAt_eq hid, Tree.label]
  rw [hcontents]
  refine ⟨?_, accept_forwardRecorder .., ?_, ?_, f.eachOnce_steps id, ?_, fun i hi => ?_, ?_, ?_⟩
  · rw [accept_forwardRecorder, accept_recorder fun _ => Or.inl rfl]
    rfl
  · rw [accept_forwardRecorder, steps_eq]
  · rw [accept_callRecorder, steps_eq]
  · rw [steps_eq, filterMap_trace]
    rfl
  · obtain ⟨before, behind, heq, hout⟩ := h.exists_steps_append hid hi
    obtain ⟨within, hsteps, hwithin⟩ := h.exists_within (h.lt_size_of_mem_descendants hid hi)
    rw [hsteps] at heq
    exact ⟨before, within, behind, heq, hwithin, hout⟩
  · have hchildren :=
      acceptChildren_forwardRecorder driven (fun i => (f.content i).kind) (f.below id)
    rwa [hlabel, ← steps_eq] at hchildren
  · have hchildren := acceptChildren_forwardRecorder driven Content.kind (f.treeAt id)
    rwa [hcontent] at hchildren

/-- A rule and the choice in it are driven, the comment and the terminals are not. -/
theorem driving_forward_changes_nothing_in_choice :
    ∃ f : Forest, f.Sound ∧ 1 < f.size ∧ f.descendants 1 = [1, 2, 3, 4, 5] ∧
      (forwardRecorder (fun k => k = .rule ∨ k = .choice) fun i => (f.content i).kind).accept
        (f.below 1) [] =
      [.entered 1, .entered 2, .entered 3, .left 3, .entered 4, .left 4, .left 2, .entered 5,
        .left 5, .left 1] ∧
      ((callRecorder (fun i => (f.content i).kind) fun k =>
          if decide (k = .rule ∨ k = .choice) then some .forward else none).visitor
        fun i => (f.content i).kind).accept (f.below 1) [] =
      [.entered (.rule, 1), .entered (.choice, 2), .entered (.terminal, 3), .left (.terminal, 3),
        .entered (.terminal, 4), .left (.terminal, 4), .left (.choice, 2), .entered (.comment, 5),
        .left (.comment, 5), .left (.rule, 1)] := by
  have h₁ := Reachable.empty.createBelow .rule "a" 0 (by decide) (by decide)
  have h₂ := h₁.createBelow .choice "" 1 (by decide) (by decide)
  have h₃ := h₂.createBelow .terminal "x" 2 (by decide) (by decide)
  have h₄ := h₃.createBelow .terminal "y" 2 (by decide) (by decide)
  have h₅ := h₄.createBelow .comment "z" 1 (by decide) (by decide)
  obtain ⟨f, hsound, hsize, hlist, hkinds, hsteps⟩ : ∃ f : Forest, f.Sound ∧ 1 < f.size ∧
      f.descendants 1 = [1, 2, 3, 4, 5] ∧
      [1, 2, 3, 4, 5].map (fun i => (f.content i).kind) =
        [.rule, .choice, .terminal, .terminal, .comment] ∧
      f.steps 1 = [.entered 1, .entered 2, .entered 3, .left 3, .entered 4, .left 4, .left 2,
        .entered 5, .left 5, .left 1] :=
    ⟨_, sound_of_reachable h₅, by decide, by decide +kernel, by decide +kernel, by decide +kernel⟩
  obtain ⟨-, -, hdriven, hcalls, -⟩ :=
    driving_forward_changes_nothing hsound hsize fun k => k = .rule ∨ k = .choice
  rw [hsteps] at hdriven hcalls
  refine ⟨f, hsound, hsize, hlist, hdriven, hcalls.trans ?_⟩
  simp only [List.map_cons, List.map_nil, List.cons.injEq, and_true] at hkinds
  obtain ⟨h₁, h₂, h₃, h₄, h₅⟩ := hkinds
  simp only [List.map_cons, List.map_nil, Event.map, h₁, h₂, h₃, h₄, h₅]

end Forest

end GrammarTree
