/-
# Places

A difference tells by a text where it is: by the kind of the topmost node and, for each step of the
way down, by the kind of the node it leads to with the index of the step.  `placeParts` lists these
parts, and `place` puts strokes between them.

There is no stroke inside a part, and the kind and the index of a step can be told from its text.  So
a place belongs to one way only (`way_eq_of_place_eq`), and it resolves to one node
(`resolves_place`).
-/
import GrammarTree.Difference
import GrammarTree.Proofs.Equivalence
import GrammarTree.Proofs.Lines
import GrammarTree.Proofs.Way

namespace GrammarTree

variable {s t : Node} {k l : Kind} {i j : Nat} {way other : List Nat}

/-- A step as it is spelled: the kind of the node that it leads to, and its index. -/
def stepText (k : Kind) (index : Nat) : String := k.name ++ "[" ++ toString index ++ "]"

/-- The steps of a way as they are spelled, as far as there are nodes on it. -/
def stepTexts : Node → List Nat → List String
  | _, [] => []
  | t, i :: way =>
    match t.children[i]? with
    | some child => stepText child.label.kind i :: stepTexts child way
    | none => []

/-- The parts of the place at the end of a way. -/
def placeParts (t : Node) (way : List Nat) : List String := t.label.kind.name :: stepTexts t way

/-- The place at the end of a way. -/
def place (t : Node) (way : List Nat) : String := "/".intercalate (placeParts t way)

/-- A text is the place of the node at the end of a way, and of no other node. -/
def Resolves (t : Node) (text : String) (way : List Nat) : Prop :=
  ∀ other, ((∃ s, t.descend other = .ok s) ∧ place t other = text) ↔ other = way

lemma stepTexts_cons (h : t.children[i]? = some s) (way : List Nat) :
    stepTexts t (i :: way) = stepText s.label.kind i :: stepTexts s way := by
  rw [stepTexts, h]

/-- The place of a child is one part longer. -/
lemma intercalate_childPlace (text : String) (k : Kind) (i : Nat) (parts : List String) :
    "/".intercalate (Difference.childPlace text k i :: parts) =
      "/".intercalate (text :: stepText k i :: parts) := by
  have hchild : Difference.childPlace text k i = text ++ "/" ++ stepText k i := by
    simp only [Difference.childPlace, stepText, String.append_assoc]
  rw [hchild, String.intercalate_cons_append, String.intercalate_cons_cons]

/-! ### The parts of a place -/

/-- Whether parts of places are spelled with a character. -/
def spellsParts (a : Char) : Bool := a.isLower || a.isDigit || a == '[' || a == ']'

lemma spellsParts_of_mem_name {k : Kind} {a : Char} (h : a ∈ k.name.toList) :
    spellsParts a = true := by
  simp [spellsParts, k.isLower_of_mem_name a h]

lemma spellsParts_of_mem_stepText {a : Char} (h : a ∈ (stepText k i).toList) :
    spellsParts a = true := by
  simp only [stepText, String.toList_append, List.mem_append] at h
  rcases h with ((hname | hopen) | hindex) | hclose
  · exact spellsParts_of_mem_name hname
  · obtain rfl : a = '[' := by simpa using hopen
    rfl
  · simp [spellsParts, isDigit_of_mem_toString hindex]
  · obtain rfl : a = ']' := by simpa using hclose
    rfl

lemma spellsParts_of_mem_placeParts (t : Node) (way : List Nat) :
    ∀ part ∈ placeParts t way, ∀ a ∈ part.toList, spellsParts a = true := by
  have hsteps : ∀ part ∈ stepTexts t way, ∀ a ∈ part.toList, spellsParts a = true := by
    induction way generalizing t with
    | nil => simp [stepTexts]
    | cons i way ih =>
      rw [stepTexts]
      split
      · rename_i child _
        rw [List.forall_mem_cons]
        exact ⟨fun a => spellsParts_of_mem_stepText, ih child⟩
      · simp
  rw [placeParts, List.forall_mem_cons]
  exact ⟨fun a => spellsParts_of_mem_name, hsteps⟩

lemma stroke_notMem_placeParts (t : Node) (way : List Nat) :
    ∀ part ∈ placeParts t way, '/' ∉ part.toList := by
  intro part hpart h
  exact absurd (spellsParts_of_mem_placeParts t way part hpart '/' h) (by decide)

/-- A number can be told from its digits. -/
lemma toString_injective : Function.Injective (toString : Nat → String) := by
  intro m n h
  have hdigits := congrArg (fun text => Nat.ofDigitChars 10 text.toList 0) h
  simpa [Nat.toString_eq_ofList_toDigits] using hdigits

/-- Kind and index of a step can be told from its text: the kind ends at the first bracket. -/
lemma stepText_inj (h : stepText k i = stepText l j) : k = l ∧ i = j := by
  have htext : k.name.toList ++ '[' :: ((toString i).toList ++ [']']) =
      l.name.toList ++ '[' :: ((toString j).toList ++ [']']) := by
    simpa [stepText] using congrArg String.toList h
  obtain ⟨hname, -, hindex⟩ := append_cons_inj_of_class (p := (·.isLower = true))
    k.isLower_of_mem_name l.isLower_of_mem_name (by decide) (by decide) htext
  refine ⟨Kind.name_injective (String.toList_inj.1 hname), toString_injective ?_⟩
  exact String.toList_inj.1 (List.append_cancel_right hindex)

/-! ### From the place back to the way -/

/-- Strokes between parts can be told from the parts. -/
lemma placeParts_eq_of_place_eq (h : place s way = place t other) :
    placeParts s way = placeParts t other := by
  have hback : ∀ (u : Node) (w : List Nat), (place u w).toList.splitOn '/' =
      (placeParts u w).map String.toList := by
    intro u w
    rw [place, String.toList_intercalate]
    refine List.splitOn_intercalate '/' ?_ (by simp [placeParts])
    exact List.forall_mem_map.2 (stroke_notMem_placeParts u w)
  have hlists : (placeParts s way).map String.toList = (placeParts t other).map String.toList := by
    rw [← hback, ← hback, h]
  exact (List.map_inj_right fun _ _ => String.toList_inj.1).1 hlists

lemma way_eq_of_stepTexts_eq (hway : ∃ u, s.descend way = .ok u)
    (hother : ∃ u, t.descend other = .ok u) (h : stepTexts s way = stepTexts t other) :
    way = other := by
  induction way generalizing s t other with
  | nil =>
    cases other with
    | nil => rfl
    | cons j other =>
      obtain ⟨u, hu⟩ := hother
      obtain ⟨child, hchild, -⟩ := Tree.descend_cons_eq_ok_iff.1 hu
      rw [stepTexts_cons hchild] at h
      cases h
  | cons i way ih =>
    obtain ⟨u, hu⟩ := hway
    obtain ⟨child, hchild, hrest⟩ := Tree.descend_cons_eq_ok_iff.1 hu
    cases other with
    | nil =>
      rw [stepTexts_cons hchild] at h
      cases h
    | cons j other =>
      obtain ⟨v, hv⟩ := hother
      obtain ⟨child', hchild', hrest'⟩ := Tree.descend_cons_eq_ok_iff.1 hv
      rw [stepTexts_cons hchild, stepTexts_cons hchild'] at h
      obtain ⟨hstep, hsteps⟩ := List.cons.inj h
      rw [(stepText_inj hstep).2, ih ⟨u, hrest⟩ ⟨v, hrest'⟩ hsteps]

/-- Two ways with one place are the same way, be they in one tree or in two. -/
lemma way_eq_of_place_eq (hway : ∃ u, s.descend way = .ok u)
    (hother : ∃ u, t.descend other = .ok u) (h : place s way = place t other) : way = other :=
  way_eq_of_stepTexts_eq hway hother (List.cons.inj (placeParts_eq_of_place_eq h)).2

lemma resolves_place (h : t.descend way = .ok s) : Resolves t (place t way) way := by
  intro other
  constructor
  · rintro ⟨hother, hplace⟩
    exact way_eq_of_place_eq hother ⟨s, h⟩ hplace
  · rintro rfl
    exact ⟨⟨s, h⟩, rfl⟩

end GrammarTree
