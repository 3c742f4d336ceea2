/-
# The lines of a report

The report of a comparison shows its differences with a line feed between any two of them.  What is
noted is in a line of its own as far as kinds, names, numbers and places go.  But the texts of an
attribute that differs are noted as they are, and so is a line break in them.

So a report has one line for each difference, and one more for each line feed in the texts that it
notes.  The number of differences that the program prints is the number of the lines below it
exactly if there are none (`report_lines_of_compared_texts`).
-/
import GrammarTree.Proofs.Divergence

namespace GrammarTree

open Difference

variable {a b s t : Node} {way : List Nat} {textA textB : String}

/-! ### The texts that are noted -/

/-- The texts that are noted on two nodes: both texts of each attribute that differs. -/
def notedTexts (s t : Node) : List String :=
  if s.label.kind = t.label.kind then
    s.label.kind.attributeNames.flatMap fun name =>
      if s.label.get? name = t.label.get? name then []
      else [(s.label.get? name).getD "", (t.label.get? name).getD ""]
  else []

/-- The texts that are noted on the two nodes at the end of a way. -/
def notedTextsAt (a b : Node) (way : List Nat) : List String :=
  match a.descend way, b.descend way with
  | .ok s, .ok t => notedTexts s t
  | _, _ => []

/-- The texts that a comparison notes. -/
def comparedTexts (a b : Node) : List String := (commonWays a b).flatMap (notedTextsAt a b)

/-- There is a text for each name of the attributes of a kind, and for no other name. -/
lemma Content.mem_attributeNames_iff {c : Content} {name : String} :
    name ∈ c.kind.attributeNames ↔ ∃ x, c.get? name = some x := by
  rw [← Content.names_attributes, Content.get?, ← Option.isSome_iff_exists, List.lookup_isSome_iff]
  simp

lemma mem_notedTexts {text : String} : text ∈ notedTexts s t ↔ s.label.kind = t.label.kind ∧
    ∃ name x y, s.label.get? name = some x ∧ t.label.get? name = some y ∧ x ≠ y ∧
      (text = x ∨ text = y) := by
  by_cases hkind : s.label.kind = t.label.kind
  · rw [notedTexts, if_pos hkind, List.mem_flatMap, and_iff_right hkind]
    refine exists_congr fun name => ?_
    constructor
    · rintro ⟨hname, htext⟩
      obtain ⟨x, hx⟩ := Content.mem_attributeNames_iff.1 hname
      obtain ⟨y, hy⟩ := Content.mem_attributeNames_iff.1 (hkind ▸ hname)
      rw [hx, hy] at htext
      split at htext
      · cases htext
      · rename_i hne
        exact ⟨x, y, hx, hy, fun h => hne (congrArg some h), by simpa using htext⟩
    · rintro ⟨x, y, hx, hy, hne, htext⟩
      refine ⟨Content.mem_attributeNames_iff.2 ⟨x, hx⟩, ?_⟩
      rw [hx, hy, if_neg fun h => hne (Option.some.inj h)]
      simpa using htext
  · rw [notedTexts, if_neg hkind]
    simp [hkind]

lemma mem_comparedTexts {text : String} : text ∈ comparedTexts a b ↔
    ∃ way s t name x y, Common a b way ∧ a.descend way = .ok s ∧ b.descend way = .ok t ∧
      s.label.kind = t.label.kind ∧ s.label.get? name = some x ∧ t.label.get? name = some y ∧
      x ≠ y ∧ (text = x ∨ text = y) := by
  rw [comparedTexts, List.mem_flatMap]
  constructor
  · rintro ⟨way, hway, htext⟩
    have hcommon := mem_commonWays.1 hway
    obtain ⟨s, hs⟩ := hcommon.first
    obtain ⟨t, ht⟩ := hcommon.second
    rw [notedTextsAt, hs, ht] at htext
    obtain ⟨hkind, name, x, y, hx, hy, hne, hor⟩ := mem_notedTexts.1 htext
    exact ⟨way, s, t, name, x, y, hcommon, hs, ht, hkind, hx, hy, hne, hor⟩
  · rintro ⟨way, s, t, name, x, y, hcommon, hs, ht, hkind, hx, hy, hne, hor⟩
    refine ⟨way, mem_commonWays.2 hcommon, ?_⟩
    rw [notedTextsAt, hs, ht]
    exact mem_notedTexts.2 ⟨hkind, name, x, y, hx, hy, hne, hor⟩

/-! ### Line feeds in a difference -/

lemma lineFeeds_name (k : Kind) : lineFeeds k.name = 0 := by
  cases k <;> rfl

lemma lineFeeds_title (k : Kind) : lineFeeds k.title = 0 := by
  cases k <;> rfl

lemma lineFeeds_attributeNames (k : Kind) : ∀ name ∈ k.attributeNames, lineFeeds name = 0 := by
  cases k <;> decide

lemma lineFeeds_toString (n : Nat) : lineFeeds (toString n) = 0 := by
  rw [lineFeeds_eq_zero_iff]
  exact fun h => absurd (isDigit_of_mem_toString h) (by decide)

lemma lineFeeds_place (t : Node) (way : List Nat) : lineFeeds (place t way) = 0 := by
  refine lineFeeds_intercalate rfl fun part hpart => lineFeeds_eq_zero_iff.2 fun h => ?_
  exact absurd (spellsParts_of_mem_placeParts t way part hpart '\n' h) (by decide)

/-- A difference has the line feeds of its message. -/
lemma lineFeeds_display {d : Difference} (hA : lineFeeds d.placeA = 0)
    (hB : lineFeeds d.placeB = 0) : lineFeeds d.display = lineFeeds d.message := by
  have hat : lineFeeds " (at " = 0 := rfl
  have hbetween : lineFeeds " / " = 0 := rfl
  have hclose : lineFeeds ")" = 0 := rfl
  rw [display]
  split <;> simp [hA, hB, hat, hbetween, hclose]

lemma lineFeeds_ofAttribute {k : Kind} {name : String} (hname : name ∈ k.attributeNames)
    (x y : String) :
    lineFeeds (ofAttribute k name x y textA textB).message = lineFeeds x + lineFeeds y := by
  have hblank : lineFeeds " " = 0 := rfl
  have hmismatch : lineFeeds " mismatch: '" = 0 := rfl
  have hunequal : lineFeeds "' != '" = 0 := rfl
  have hend : lineFeeds "'!" = 0 := rfl
  simp [ofAttribute, lineFeeds_title, lineFeeds_attributeNames k name hname, hblank, hmismatch,
    hunequal, hend]

lemma lineFeeds_ofCounts (m n : Nat) : lineFeeds (ofCounts m n textA textB).message = 0 := by
  have hmessage : (ofCounts m n textA textB).message =
    "Node has different child count: " ++ toString m ++ " != " ++ toString n ++ "!" := rfl
  have hcount : lineFeeds "Node has different child count: " = 0 := by decide +kernel
  have hunequal : lineFeeds " != " = 0 := rfl
  have hend : lineFeeds "!" = 0 := rfl
  rw [hmessage]
  simp only [lineFeeds_append, lineFeeds_toString, hcount, hunequal, hend]

lemma lineFeeds_ofKinds (k l : Kind) : lineFeeds (ofKinds k l textA textB).message = 0 := by
  have hmessage : (ofKinds k l textA textB).message =
    "Probed node types mismatch: '" ++ k.name ++ "' != '" ++ l.name ++ "'!" := rfl
  have hprobed : lineFeeds "Probed node types mismatch: '" = 0 := by decide +kernel
  have hunequal : lineFeeds "' != '" = 0 := rfl
  have hend : lineFeeds "'!" = 0 := rfl
  rw [hmessage]
  simp only [lineFeeds_append, lineFeeds_name, hprobed, hunequal, hend]

/-! ### Line feeds in a report -/

/-- The line feeds of some differences together. -/
def feedsOf (ds : List Difference) : Nat := ((ds.map display).map lineFeeds).sum

@[simp] lemma feedsOf_nil : feedsOf [] = 0 := rfl

@[simp] lemma feedsOf_append (ds es : List Difference) :
    feedsOf (ds ++ es) = feedsOf ds + feedsOf es := by
  simp [feedsOf]

/-- Line feeds are counted part by part. -/
lemma feedsOf_flatMap {ι : Type} {f : ι → List Difference} {g : ι → List String} :
    ∀ {is : List ι}, (∀ i ∈ is, feedsOf (f i) = ((g i).map lineFeeds).sum) →
      feedsOf (is.flatMap f) = ((is.flatMap g).map lineFeeds).sum
  | [], _ => rfl
  | i :: is, h => by
    rw [List.forall_mem_cons] at h
    rw [List.flatMap_cons, List.flatMap_cons, feedsOf_append, h.1, feedsOf_flatMap h.2,
      List.map_append, List.sum_append]

/-- The notes on two nodes have the line feeds of the noted texts. -/
lemma feedsOf_notes (hA : lineFeeds textA = 0) (hB : lineFeeds textB = 0) :
    feedsOf (notes s t textA textB) = ((notedTexts s t).map lineFeeds).sum := by
  rw [notes, notedTexts]
  split
  · have hcounts : feedsOf (if s.children.length = t.children.length then []
        else [ofCounts s.children.length t.children.length textA textB]) = 0 := by
      split
      · rfl
      · simp [feedsOf, lineFeeds_display (d := ofCounts _ _ textA textB) hA hB, lineFeeds_ofCounts]
    rw [feedsOf_append, hcounts, Nat.add_zero]
    refine feedsOf_flatMap fun name hname => ?_
    rw [notesOnText]
    split
    · rfl
    · simp [feedsOf, lineFeeds_display (d := ofAttribute _ name _ _ textA textB) hA hB,
        lineFeeds_ofAttribute hname]
  · simp [feedsOf, lineFeeds_display (d := ofKinds _ _ textA textB) hA hB, lineFeeds_ofKinds]

lemma feedsOf_differences (a b : Node) :
    feedsOf (differences a b) = ((comparedTexts a b).map lineFeeds).sum := by
  rw [differences_eq, comparedTexts]
  refine feedsOf_flatMap fun way hway => ?_
  obtain ⟨⟨s, hs⟩, ⟨t, ht⟩, -⟩ := mem_commonWays.1 hway
  rw [notesAt, notedTextsAt, hs, ht]
  exact feedsOf_notes (lineFeeds_place a way) (lineFeeds_place b way)

/-- The lines of a report are the lines of its differences. -/
lemma lines_report {ds : List Difference} (hne : ds ≠ []) :
    lines (report ds) = (ds.map display).flatMap lines :=
  lines_intercalate fun h => hne (List.map_eq_nil_iff.1 h)

section Report

variable (hne : differences a b ≠ [])

include hne

/-- A report has one line for each difference, and one more for each noted line feed. -/
lemma length_lines_report : (lines (report (differences a b))).length =
    (differences a b).length + ((comparedTexts a b).map lineFeeds).sum := by
  rw [lines_report hne, length_flatMap_lines, List.length_map, ← feedsOf_differences, feedsOf]

lemma length_lines_report_iff :
    (lines (report (differences a b))).length = (differences a b).length ↔
      ∀ text ∈ comparedTexts a b, '\n' ∉ text.toList := by
  rw [length_lines_report hne, Nat.add_eq_left, sum_lineFeeds_eq_zero_iff]

lemma lines_report_iff :
    lines (report (differences a b)) = (differences a b).map display ↔
      ∀ text ∈ comparedTexts a b, '\n' ∉ text.toList := by
  rw [lines_report hne, flatMap_lines_eq_self_iff, ← feedsOf, feedsOf_differences,
    sum_lineFeeds_eq_zero_iff]

end Report

/-! ### What the program prints -/

/-- The program prints the number of differences in a line, and then the report. -/
lemma run_compare {files : FileAccess} {p q : Option String}
    (ha : Command.readGrammar files p = .ok a) (hb : Command.readGrammar files q = .ok b)
    (hne : differences a b ≠ []) :
    Command.run files (.compare p q) = ⟨.different, toString (differences a b).length ++
      " difference(s):\n" ++ report (differences a b) ++ "\n"⟩ := by
  have hrun : Command.run files (.compare p q) =
    Command.settle (Command.compare files p q) := rfl
  rw [hrun, Command.compare, ha, hb, Parse.ok_bind, Parse.ok_bind]
  split
  · rename_i hnil
    exact absurd hnil hne
  · rfl

lemma lines_output (n : Nat) (text : String) :
    lines (toString n ++ " difference(s):\n" ++ text ++ "\n") =
      (toString n ++ " difference(s):") :: lines text ++ [""] := by
  have hfirst : lines (toString n ++ " difference(s):") = [toString n ++ " difference(s):"] := by
    refine lines_of_notMem (lineFeeds_eq_zero_iff.1 ?_)
    rw [lineFeeds_append, lineFeeds_toString]
    rfl
  have htext : toString n ++ " difference(s):\n" ++ text ++ "\n" =
      toString n ++ " difference(s):" ++ "\n" ++ (text ++ "\n" ++ "") := by
    have hsplit : " difference(s):\n" = " difference(s):" ++ "\n" := by decide +kernel
    rw [hsplit]
    simp only [String.append_assoc, String.append_empty]
  rw [htext, lines_append, lines_append, hfirst]
  rfl

/-! ### The theorem -/

/-- Where two trees differ, the report has the lines of its differences: one for each, and one more
for each line feed in the texts of attributes that differ.  So its lines are the differences, and
their number is the one that the program prints above them, exactly if there is no line feed in
these texts. -/
theorem report_lines_of_compared_texts {a b : Node} (h : a ≠ b) :
    (∀ text, text ∈ comparedTexts a b ↔ ∃ way s t name x y, Common a b way ∧
      a.descend way = .ok s ∧ b.descend way = .ok t ∧ s.label.kind = t.label.kind ∧
      s.label.get? name = some x ∧ t.label.get? name = some y ∧ x ≠ y ∧ (text = x ∨ text = y)) ∧
    lines (report (differences a b)) = ((differences a b).map display).flatMap lines ∧
    (lines (report (differences a b))).length =
      (differences a b).length + ((comparedTexts a b).map lineFeeds).sum ∧
    (lines (report (differences a b)) = (differences a b).map display ↔
      ∀ text ∈ comparedTexts a b, '\n' ∉ text.toList) ∧
    ((lines (report (differences a b))).length = (differences a b).length ↔
      ∀ text ∈ comparedTexts a b, '\n' ∉ text.toList) ∧
    ∀ (files : FileAccess) (p q : Option String), Command.readGrammar files p = .ok a →
      Command.readGrammar files q = .ok b → ∃ output,
        Command.run files (.compare p q) = ⟨.different, output⟩ ∧
        lines output = (toString (differences a b).length ++ " difference(s):") ::
          lines (report (differences a b)) ++ [""] := by
  have hne : differences a b ≠ [] := fun hnil => h (differences_eq_nil_iff.1 hnil)
  refine ⟨fun _ => mem_comparedTexts, lines_report hne, length_lines_report hne,
    lines_report_iff hne, length_lines_report_iff hne, ?_⟩
  intro files p q ha hb
  exact ⟨_, run_compare ha hb hne, lines_output _ _⟩

/-- A terminal and the title differ.  The line feed is in a comment that both texts have. -/
theorem report_lines_of_shared_comment :
    ∃ (files : FileAccess) (a b : Node) (output : String),
      files.read "x" = .ok "a = (*1\n2*) \"x\";" ∧
      files.read "y" = .ok "'T' \x7b a = (*1\n2*) \"y\"; \x7d" ∧
      Command.readGrammar files (some "x") = .ok a ∧ Command.readGrammar files (some "y") = .ok b ∧
      lines (report (differences a b)) = (differences a b).map display ∧
      Command.run files (.compare (some "x") (some "y")) = ⟨.different, output⟩ ∧
      lines output = ["2 difference(s):", "Syntax title mismatch: '' != 'T'! (at syntax)",
        "Terminal value mismatch: 'x' != 'y'! (at syntax/rule[0]/terminal[2])", ""] := by
  obtain ⟨files, a, b, hx, hy, ha, hb, hne, htexts, hlength, hlines⟩ :
      ∃ (files : FileAccess) (a b : Node),
        files.read "x" = .ok "a = (*1\n2*) \"x\";" ∧
        files.read "y" = .ok "'T' \x7b a = (*1\n2*) \"y\"; \x7d" ∧
        Command.readGrammar files (some "x") = .ok a ∧
        Command.readGrammar files (some "y") = .ok b ∧ a ≠ b ∧
        (∀ text ∈ comparedTexts a b, '\n' ∉ text.toList) ∧
        (differences a b).length = 2 ∧
        (differences a b).map display = ["Syntax title mismatch: '' != 'T'! (at syntax)",
          "Terminal value mismatch: 'x' != 'y'! (at syntax/rule[0]/terminal[2])"] := by
    refine ⟨⟨fun _ => true, fun path => .ok (if path = "x" then "a = (*1\n2*) \"x\";"
        else "'T' \x7b a = (*1\n2*) \"y\"; \x7d")⟩,
      .node (.grammar "" Content.defaultMeta) [.node (.rule "a")
        [.leaf (.identifier "a"), .leaf (.comment "1\n2"), .leaf (.terminal "x")]],
      .node (.grammar "T" Content.defaultMeta) [.node (.rule "a")
        [.leaf (.identifier "a"), .leaf (.comment "1\n2"), .leaf (.terminal "y")]], ?_⟩
    exact ⟨by decide +kernel, by decide +kernel, by decide +kernel, by decide +kernel,
      by decide +kernel, by decide +kernel, by decide +kernel, by decide +kernel⟩
  obtain ⟨-, -, -, hiff, -, hcompare⟩ := report_lines_of_compared_texts hne
  have hreport := hiff.2 htexts
  obtain ⟨output, hrun, houtput⟩ := hcompare files (some "x") (some "y") ha hb
  refine ⟨files, a, b, output, hx, hy, ha, hb, hreport, hrun, ?_⟩
  rw [houtput, hreport, hlines, hlength]
  rfl

/-- A terminal with a line break differs from another one: this is one difference in two lines. -/
theorem report_of_broken_terminal :
    ∃ a b, parse "a = \"x\ny\";" = .ok a ∧ parse "a = \"z\";" = .ok b ∧ a ≠ b ∧
      (differences a b).length = 1 ∧
      lines (report (differences a b)) = ["Terminal value mismatch: 'x",
        "y' != 'z'! (at syntax/rule[0]/terminal[1])"] :=
  ⟨.node (.grammar "" Content.defaultMeta) [.node (.rule "a")
      [.leaf (.identifier "a"), .leaf (.terminal "x\ny")]],
    .node (.grammar "" Content.defaultMeta) [.node (.rule "a")
      [.leaf (.identifier "a"), .leaf (.terminal "z")]],
    by decide +kernel, by decide +kernel, by decide +kernel, by decide +kernel, by decide +kernel⟩

end GrammarTree
