/-
# Values as a reader of XML takes them

A reader of XML does not take an attribute's value as it is written.  First it takes each line end
for a line feed.  Then it puts a space in the place of each tab and each line break, and in the
place of each reference the character that the reference stands for (`readValue`).

Escaping makes references of five characters, and leaves the others as they are.  So a reader takes
from an escaped value what it takes from the value itself, if there are no references in it
(`readValue_escape`).  This is the value exactly if there are no tabs and no line breaks in it.
-/
import GrammarTree.Json.Reader
import GrammarTree.Proofs.Way
import GrammarTree.Proofs.Xml
import GrammarTree.Rendering.Registry

namespace GrammarTree

namespace Xml

/-! ### A reader -/

/-- The characters of a text with a line feed for each line end.  A line feed belongs to the line
end that a carriage return in front of it begins. -/
def lineEnds (returned : Bool) : List Char → List Char
  | [] => []
  | c :: cs =>
    if returned ∧ c = '\n' then lineEnds false cs
    else (if c = '\r' then '\n' else c) :: lineEnds (c = '\r') cs

/-- Whether a reader takes a character for a space. -/
def isBreaking (c : Char) : Bool := c = '\t' || c = '\n' || c = '\r'

/-- What a reader takes a character for that is not escaped. -/
def spaced (c : Char) : Char := if isBreaking c then ' ' else c

/-- The characters with names, with their names. -/
def entities : List (List Char × Char) :=
  [("amp".toList, '&'), ("lt".toList, '<'), ("gt".toList, '>'), ("quot".toList, '"'),
    ("apos".toList, '\'')]

/-- The number that some digits are. -/
def number? (base : Nat) : List Char → Option Nat
  | [] => none
  | c :: cs => (c :: cs).foldlM (fun n d => do
      let value ← Json.hexValue? d
      if value < base then some (n * base + value) else none) 0

/-- The character with a number. -/
def numbered? (n : Nat) : Option Char := if n.isValidChar then some (Char.ofNat n) else none

/-- The character that a reference stands for. -/
def reference? : List Char → Option Char
  | '#' :: 'x' :: cs => (number? 16 cs).bind numbered?
  | '#' :: cs => (number? 10 cs).bind numbered?
  | cs => entities.lookup cs

/-- What a reader makes of the characters of a value, or of those behind an ampersand and the
beginning of a reference. -/
def readFrom : Option (List Char) → List Char → Option (List Char)
  | none, [] => some []
  | some _, [] => none
  | none, c :: cs =>
    if c = '&' then readFrom (some []) cs
    else if c = '<' then none
    else (readFrom none cs).map (spaced c :: ·)
  | some name, c :: cs =>
    if c = ';' then (reference? name).bind fun d => (readFrom none cs).map (d :: ·)
    else readFrom (some (name ++ [c])) cs

/-- What a reader makes of a value as it is written. -/
def readValue (text : String) : Option String :=
  (readFrom none (lineEnds false text.toList)).map String.ofList

example : readValue "&#9;\t&#x41;\r\n\r&lt;" = some "\t A  <" := by decide +kernel

/-- A text as it is read if there are no references in it. -/
def normalized (s : String) : String := String.ofList ((lineEnds false s.toList).map spaced)

/-! ### Line ends -/

/-- Where there are no line ends, everything is as it is. -/
lemma lineEnds_append {cs : List Char} (hne : cs ≠ []) (hcs : ∀ c ∈ cs, c ≠ '\r' ∧ c ≠ '\n')
    (returned : Bool) (rest : List Char) :
    lineEnds returned (cs ++ rest) = cs ++ lineEnds false rest := by
  induction cs generalizing returned with
  | nil => exact absurd rfl hne
  | cons c cs ih =>
    rw [List.forall_mem_cons] at hcs
    obtain ⟨⟨hreturn, hfeed⟩, hcs⟩ := hcs
    rw [List.cons_append, lineEnds, if_neg fun h => hfeed h.2, if_neg hreturn,
      decide_eq_false hreturn, List.cons_append]
    cases cs with
    | nil => rfl
    | cons d ds => rw [ih (List.cons_ne_nil d ds) hcs]

/-- There are no line ends in what a character is escaped to. -/
lemma ne_of_mem_escapeChar : ∀ a ∈ special, a ≠ '\r' ∧ a ≠ '\n' ∧ (escapeChar a).toList ≠ [] ∧
    ∀ c ∈ (escapeChar a).toList, c ≠ '\r' ∧ c ≠ '\n' := by
  decide

/-- The line ends of an escaped text are those of the text. -/
lemma lineEnds_flatMap_escapeChar (returned : Bool) (cs : List Char) :
    lineEnds returned (cs.flatMap fun c => (escapeChar c).toList) =
      (lineEnds returned cs).flatMap fun c => (escapeChar c).toList := by
  induction cs generalizing returned with
  | nil => rfl
  | cons c cs ih =>
    rw [List.flatMap_cons]
    by_cases hc : c ∈ special
    · obtain ⟨hreturn, hfeed, hne, hbody⟩ := ne_of_mem_escapeChar c hc
      rw [lineEnds_append hne hbody, ih, lineEnds, if_neg fun h => hfeed h.2, if_neg hreturn,
        decide_eq_false hreturn, List.flatMap_cons]
    · have hend : escapeChar (if c = '\r' then '\n' else c) =
          String.singleton (if c = '\r' then '\n' else c) := by
        split
        · rfl
        · exact escapeChar_of_not_special hc
      rw [escapeChar_of_not_special hc, String.toList_singleton, List.singleton_append, lineEnds,
        lineEnds]
      split
      · exact ih false
      · rw [ih, List.flatMap_cons, hend, String.toList_singleton, List.singleton_append]

/-! ### References -/

/-- A reference goes up to the next semicolon. -/
lemma readFrom_append_semicolon {body : List Char} (h : ∀ c ∈ body, c ≠ ';')
    (name rest : List Char) : readFrom (some name) (body ++ ';' :: rest) =
      (reference? (name ++ body)).bind fun d => (readFrom none rest).map (d :: ·) := by
  induction body generalizing name with
  | nil =>
    rw [List.nil_append, List.append_nil, readFrom, if_pos rfl]
  | cons c body ih =>
    rw [List.forall_mem_cons] at h
    rw [List.cons_append, readFrom, if_neg h.1, ih h.2, List.append_assoc, List.singleton_append]

/-- What a character is escaped to is a reference to it. -/
lemma exists_reference_of_special {a : Char} (ha : a ∈ special) : ∃ body,
    (escapeChar a).toList = '&' :: (body ++ [';']) ∧ (∀ c ∈ body, c ≠ ';') ∧
      reference? body = some a ∧ spaced a = a := by
  have hbody : ∀ b ∈ special,
      (escapeChar b).toList = '&' :: ((escapeChar b).toList.dropLast.tail ++ [';']) ∧
        (∀ c ∈ (escapeChar b).toList.dropLast.tail, c ≠ ';') ∧
        reference? (escapeChar b).toList.dropLast.tail = some b ∧ spaced b = b := by
    decide
  exact ⟨_, hbody a ha⟩

/-- A reader takes an escaped character for what it takes the character for. -/
lemma readFrom_escapeChar (a : Char) (rest : List Char) :
    readFrom none ((escapeChar a).toList ++ rest) = (readFrom none rest).map (spaced a :: ·) := by
  by_cases ha : a ∈ special
  · obtain ⟨body, hbody, hsemicolon, hreference, hspaced⟩ := exists_reference_of_special ha
    rw [hbody, List.cons_append, List.append_assoc, readFrom, if_pos rfl, List.singleton_append,
      readFrom_append_semicolon hsemicolon, List.nil_append, hreference, Option.bind_some, hspaced]
  · have hne : a ≠ '&' ∧ a ≠ '<' := by
      constructor <;> rintro rfl <;> exact ha (by decide)
    rw [escapeChar_of_not_special ha, String.toList_singleton, List.singleton_append, readFrom,
      if_neg hne.1, if_neg hne.2]

lemma readFrom_flatMap_escapeChar (cs : List Char) :
    readFrom none (cs.flatMap fun c => (escapeChar c).toList) = some (cs.map spaced) := by
  induction cs with
  | nil => rfl
  | cons c cs ih => rw [List.flatMap_cons, readFrom_escapeChar, ih, Option.map_some, List.map_cons]

/-- A reader takes from an escaped text what it takes from the text without regard to references. -/
lemma readValue_escape (s : String) : readValue (escape s) = some (normalized s) := by
  rw [readValue, toList_escape, lineEnds_flatMap_escapeChar, readFrom_flatMap_escapeChar,
    Option.map_some, normalized]

/-! ### Texts that are read as they are -/

lemma isBreaking_spaced (c : Char) : isBreaking (spaced c) = false := by
  rw [spaced]
  split
  · rfl
  · rename_i h
    rwa [Bool.not_eq_true] at h

lemma normalized_eq_self_iff {s : String} :
    normalized s = s ↔ ∀ c ∈ s.toList, isBreaking c = false := by
  have hchars : ∀ cs : List Char, (∀ c ∈ cs, isBreaking c = false) →
      (lineEnds false cs).map spaced = cs := by
    intro cs hcs
    induction cs with
    | nil => rfl
    | cons c cs ih =>
      rw [List.forall_mem_cons] at hcs
      have hreturn : c ≠ '\r' := by
        rintro rfl
        exact absurd hcs.1 (by decide)
      rw [lineEnds, if_neg fun h => Bool.false_ne_true h.1, if_neg hreturn,
        decide_eq_false hreturn, List.map_cons, ih hcs.2, spaced, hcs.1]
      rfl
  constructor
  · intro h c hc
    -- everything in the text is then something that a reader took a character for
    rw [← h, normalized, String.toList_ofList, List.mem_map] at hc
    obtain ⟨d, -, rfl⟩ := hc
    exact isBreaking_spaced d
  · intro h
    rw [normalized, hchars s.toList h, String.ofList_toList]

/-! ### Values in a document -/

lemma elements_eq_append {ts : List Node} {t : Node} (ht : t ∈ ts) (level : Nat) :
    ∃ before after, elements level ts = before ++ element level t ++ after := by
  induction ts with
  | nil => cases ht
  | cons u us ih =>
    rw [elements]
    rcases List.mem_cons.1 ht with rfl | ht
    · exact ⟨"", elements level us, by rw [String.empty_append]⟩
    · obtain ⟨before, after, h⟩ := ih ht
      exact ⟨element level u ++ before, after, by simp only [h, String.append_assoc]⟩

/-- The element of a node is within that of the tree. -/
lemma element_eq_append {t u : Node} {way : List Nat} (h : t.descend way = .ok u) (level : Nat) :
    ∃ before after,
      element level t = before ++ element (level + way.length) u ++ after := by
  induction way generalizing t level with
  | nil =>
    obtain rfl := Except.ok.inj h
    exact ⟨"", "", by rw [String.empty_append, String.append_empty]; rfl⟩
  | cons i way ih =>
    obtain ⟨child, hchild, hrest⟩ := Tree.descend_cons_eq_ok_iff.1 h
    obtain ⟨before, after, hbelow⟩ := ih hrest (level + 1)
    obtain ⟨c, ts⟩ := t
    obtain ⟨before', after', hchildren⟩ :=
      elements_eq_append (List.mem_of_getElem? hchild) (level + 1)
    have hdepth : level + 1 + way.length = level + (i :: way).length := by
      rw [List.length_cons]
      omega
    rw [hdepth] at hbelow
    cases ts with
    | nil => cases hchild
    | cons s ss =>
      refine ⟨indent level ++ "<" ++ tag c ++ ">\n" ++ before' ++ before,
        after ++ after' ++ indent level ++ "</" ++ c.kind.name ++ ">\n", ?_⟩
      rw [element, show elements (level + 1) (s :: ss) = _ from hchildren, hbelow]
      simp only [String.append_assoc]

/-- An element begins with the tag of its node. -/
lemma element_eq_tag (level : Nat) (u : Node) : ∃ ending rest,
    (ending = "/>" ∨ ending = ">") ∧
    element level u = indent level ++ "<" ++ tag u.label ++ ending ++ rest := by
  obtain ⟨c, ts⟩ := u
  cases ts with
  | nil =>
    refine ⟨"/>", "\n", Or.inl rfl, ?_⟩
    have hend : "/>\n" = "/>" ++ "\n" := by decide
    rw [element, hend, ← String.append_assoc]
    rfl
  | cons s ss =>
    refine ⟨">", "\n" ++ elements (level + 1) (s :: ss) ++ indent level ++ "</" ++ c.kind.name ++
      ">\n", Or.inr rfl, ?_⟩
    have hend : ">\n" = ">" ++ "\n" := by decide
    rw [element, hend]
    simp only [String.append_assoc]
    rfl

/-- The tag of every node is in the document. -/
lemma tag_mem_document {t u : Node} (hu : u ∈ t.preorder) : ∃ before ending after,
    (ending = "/>" ∨ ending = ">") ∧
    document t = before ++ "<" ++ tag u.label ++ ending ++ after := by
  obtain ⟨way, -, hway⟩ : ∃ way ∈ t.ways, t.descend way = .ok u := by
    have hmem : (.ok u : Except Nat Node) ∈ t.ways.map t.descend := by
      rw [t.map_descend_ways]
      exact List.mem_map_of_mem hu
    exact List.mem_map.1 hmem
  obtain ⟨before, after, htree⟩ := element_eq_append hway 0
  obtain ⟨ending, rest, hending, helement⟩ := element_eq_tag (0 + way.length) u
  refine ⟨declaration ++ "\n" ++ before ++ indent (0 + way.length), ending, rest ++ after, hending,
    ?_⟩
  rw [document, render, htree, helement]
  simp only [String.append_assoc]

/-! ### The theorem -/

/-- In the document of a tree each node has its tag, with an escaped value between two quotes for
each attribute.  What a reader takes from such a value is the text of the attribute with a space for
each tab and each line end, whatever else is in it.  So it is the text exactly if there are neither
tabs nor line ends in it. -/
theorem values_read_back_iff (tree : Node) :
    ∃ text, Format.xml.render tree = .ok text ∧ ∀ u ∈ tree.preorder,
      (∃ before ending after, (ending = "/>" ∨ ending = ">") ∧
        text = before ++ "<" ++ (u.label.kind.name ++
          String.join (u.label.attributes.map fun (name, value) =>
            " " ++ name ++ "=\"" ++ escape value ++ "\"")) ++ ending ++ after) ∧
      ∀ name value, (name, value) ∈ u.label.attributes →
        '"' ∉ (escape value).toList ∧
        readValue (escape value) = some (normalized value) ∧
        (readValue (escape value) = some value ↔
          ∀ c ∈ value.toList, c ≠ '\t' ∧ c ≠ '\n' ∧ c ≠ '\r') := by
  refine ⟨document tree, rfl, fun u hu => ⟨tag_mem_document hu, fun name value _ => ?_⟩⟩
  refine ⟨quote_not_mem_escape value, readValue_escape value, ?_⟩
  rw [readValue_escape, Option.some_inj, normalized_eq_self_iff]
  refine forall₂_congr fun c _ => ?_
  simp [isBreaking, and_assoc]

/-- Three characters of a terminal are escaped, and a reader takes them for what they are. -/
theorem values_read_back_of_terminal : ∃ tree text before ending after,
    parse "a = \"<&'\";" = .ok tree ∧ Format.xml.render tree = .ok text ∧
      text = before ++ "<" ++ "terminal value=\"&lt;&amp;&apos;\"" ++ ending ++ after ∧
      readValue "&lt;&amp;&apos;" = some "<&'" := by
  have hparse : parse "a = \"<&'\";" = .ok (.node (.grammar "" Content.defaultMeta)
      [.node (.rule "a") [.leaf (.identifier "a"), .leaf (.terminal "<&'")]]) := by
    decide +kernel
  have htag : tag (.terminal "<&'") = "terminal value=\"&lt;&amp;&apos;\"" := by decide +kernel
  have hescape : escape "<&'" = "&lt;&amp;&apos;" := by decide +kernel
  obtain ⟨text, htext, hnodes⟩ := values_read_back_iff (.node (.grammar "" Content.defaultMeta)
    [.node (.rule "a") [.leaf (.identifier "a"), .leaf (.terminal "<&'")]])
  obtain ⟨⟨before, ending, after, -, hsplit⟩, hvalues⟩ :=
    hnodes (.leaf (.terminal "<&'")) (by decide +kernel)
  obtain ⟨-, -, hiff⟩ := hvalues "value" "<&'" (List.mem_singleton.2 rfl)
  refine ⟨_, text, before, ending, after, hparse, htext, ?_, ?_⟩
  · rw [← htag]
    exact hsplit
  · rw [← hescape]
    exact hiff.2 (by decide +kernel)

/-- A reader takes a tab in a terminal for a space, and a line feed in a comment as well. -/
theorem values_of_broken_texts :
    parse "a = \"x\ty\" (*1\n2*);" = .ok (.node (.grammar "" Content.defaultMeta)
      [.node (.rule "a")
        [.leaf (.identifier "a"), .leaf (.terminal "x\ty"), .leaf (.comment "1\n2")]]) ∧
    escape "x\ty" = "x\ty" ∧ readValue "x\ty" = some "x y" ∧
    escape "1\n2" = "1\n2" ∧ readValue "1\n2" = some "1 2" := by
  refine ⟨?_, ?_, ?_, ?_, ?_⟩ <;> decide +kernel

end Xml

end GrammarTree
