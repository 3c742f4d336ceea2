/-
# Trees and their elements

The element of a tree tells the tree, whatever the texts in it are.  Equal elements are those of equal
trees, and so of trees without differences (`render_eq_iff`).

An element is followed up to where it ends: of two texts that begin with elements of the same level,
equal texts begin with elements of the same tree, and go on equally behind them
(`element_append_inj`).  Each part of an element tells in this way where it ends.  No escaped
character begins another one, and none of them holds the quote at the end of a value.  The name of a
kind consists of letters, and what follows it is none.  Behind the last child the line is indented
less than a child would be.

Escaping goes through a text once.  This is the same as five replacements, of which the one for `&`
comes first (`escape_eq_replaceEach`).
-/
import GrammarTree.Proofs.Equivalence
import GrammarTree.Rendering.Xml

namespace GrammarTree

namespace Xml

variable {level : Nat} {c d : Content} {ts us : List Node} {r r' : List Char}

/-- A condition on the characters of a list is tested for these characters only, not for every
character that there is. -/
scoped instance (priority := 2000) decidableForallMem (cs : List Char) (p : Char → Prop)
    [DecidablePred p] : Decidable (∀ c ∈ cs, p c) :=
  List.decidableBAll p cs

/-! ### Escaped texts -/

/-- A text with another one in the place of each occurrence of a character. -/
def replaceEach (c : Char) (escaped : String) (s : String) : String :=
  String.ofList (s.toList.flatMap fun d => if d = c then escaped.toList else [d])

lemma toList_escape (s : String) :
    (escape s).toList = s.toList.flatMap fun c => (escapeChar c).toList := by
  rw [escape, String.toList_join, List.flatMap_map]

/-- The characters that are escaped. -/
def special : List Char := ['&', '<', '>', '"', '\'']

lemma escapeChar_of_not_special {a : Char} (ha : a ∉ special) : escapeChar a = String.singleton a := by
  unfold escapeChar
  split
  case h_6 => rfl
  all_goals exact absurd (by decide) ha

/-- A character that is escaped is written from an ampersand to a semicolon. -/
lemma exists_escapeChar_of_special {a : Char} (ha : a ∈ special) :
    ∃ body, (escapeChar a).toList = '&' :: body ++ [';'] ∧ ∀ c ∈ '&' :: body, c ≠ ';' := by
  have hlast : ∀ b ∈ special,
      (escapeChar b).toList = '&' :: (escapeChar b).toList.dropLast.tail ++ [';'] ∧
        ∀ c ∈ '&' :: (escapeChar b).toList.dropLast.tail, c ≠ ';' := by
    decide
  exact ⟨_, hlast a ha⟩

lemma escapeChar_inj_of_special : ∀ a ∈ special, ∀ b ∈ special,
    (escapeChar a).toList = (escapeChar b).toList → a = b := by
  decide

/-- Escaping in one pass is replacing one character after the other, the ampersand first. -/
lemma escape_eq_replaceEach (s : String) :
    escape s = replaceEach '\'' "&apos;" (replaceEach '"' "&quot;"
      (replaceEach '>' "&gt;" (replaceEach '<' "&lt;" (replaceEach '&' "&amp;" s)))) := by
  rw [← String.toList_inj, toList_escape]
  simp only [replaceEach, String.toList_ofList, List.flatMap_assoc]
  refine List.flatMap_congr fun c hmem => ?_
  clear hmem
  by_cases hc : c ∈ special
  · revert c
    decide
  · have hne : ∀ d ∈ special, c ≠ d := fun d hd heq => hc (heq ▸ hd)
    simp only [special, List.forall_mem_cons] at hne
    obtain ⟨hamp, hlt, hgt, hquot, hapos, -⟩ := hne
    rw [escapeChar_of_not_special hc, String.toList_singleton, if_neg hamp, List.flatMap_singleton,
      if_neg hlt, List.flatMap_singleton, if_neg hgt, List.flatMap_singleton, if_neg hquot,
      List.flatMap_singleton, if_neg hapos]

/-- No escaped character begins another one. -/
lemma escapeChar_append_inj {a b : Char}
    (h : (escapeChar a).toList ++ r = (escapeChar b).toList ++ r') : a = b ∧ r = r' := by
  by_cases ha : a ∈ special
  · obtain ⟨body, hbody, hsemicolon⟩ := exists_escapeChar_of_special ha
    by_cases hb : b ∈ special
    · obtain ⟨body', hbody', hsemicolon'⟩ := exists_escapeChar_of_special hb
      rw [hbody, hbody', List.append_assoc, List.append_assoc] at h
      obtain ⟨heq, -, hrest⟩ := append_cons_inj_of_class (p := (· ≠ ';')) hsemicolon hsemicolon'
        (not_not_intro rfl) (not_not_intro rfl) h
      exact ⟨escapeChar_inj_of_special a ha b hb (by rw [hbody, hbody', heq]), hrest⟩
    · exfalso
      rw [hbody, escapeChar_of_not_special hb, String.toList_singleton] at h
      obtain ⟨rfl, -⟩ := List.cons.inj h
      exact hb (by decide)
  · rw [escapeChar_of_not_special ha, String.toList_singleton] at h
    by_cases hb : b ∈ special
    · exfalso
      obtain ⟨body', hbody', -⟩ := exists_escapeChar_of_special hb
      rw [hbody'] at h
      obtain ⟨rfl, -⟩ := List.cons.inj h
      exact ha (by decide)
    · rw [escapeChar_of_not_special hb, String.toList_singleton] at h
      exact List.cons.inj h

lemma escapeChar_ne_empty (a : Char) : escapeChar a ≠ "" := by
  by_cases ha : a ∈ special
  · revert a
    decide
  · rw [escapeChar_of_not_special ha]
    exact String.singleton_ne_empty

lemma quote_not_mem_escapeChar (a : Char) : '"' ∉ (escapeChar a).toList := by
  by_cases ha : a ∈ special
  · revert a
    decide
  · rw [escapeChar_of_not_special ha, String.toList_singleton, List.mem_singleton]
    rintro rfl
    exact ha (by decide)

lemma quote_not_mem_escape (s : String) : '"' ∉ (escape s).toList := by
  rw [toList_escape, List.mem_flatMap]
  rintro ⟨a, -, ha⟩
  exact quote_not_mem_escapeChar a ha

lemma escape_injective : Function.Injective escape := by
  have hchars : ∀ cs ds : List Char,
      cs.flatMap (fun c => (escapeChar c).toList) = ds.flatMap (fun c => (escapeChar c).toList) →
        cs = ds := by
    intro cs
    induction cs with
    | nil =>
      intro ds h
      cases ds with
      | nil => rfl
      | cons d ds => simp [escapeChar_ne_empty] at h
    | cons c cs ih =>
      intro ds h
      cases ds with
      | nil => simp [escapeChar_ne_empty] at h
      | cons d ds =>
        obtain ⟨rfl, hrest⟩ := escapeChar_append_inj h
        rw [ih ds hrest]
  intro s t h
  rw [← String.toList_inj, toList_escape, toList_escape] at h
  exact String.toList_inj.1 (hchars _ _ h)

/-- The quote behind an escaped text tells where the text ends. -/
lemma escape_append_inj {s t : String}
    (h : (escape s).toList ++ '"' :: r = (escape t).toList ++ '"' :: r') : s = t ∧ r = r' := by
  have hne : ∀ u, ∀ a ∈ (escape u).toList, a ≠ '"' := by
    rintro u a ha rfl
    exact quote_not_mem_escape u ha
  obtain ⟨heq, -, hrest⟩ := append_cons_inj_of_class (p := (· ≠ '"')) (hne s) (hne t)
    (not_not_intro rfl) (not_not_intro rfl) h
  exact ⟨escape_injective (String.toList_inj.1 heq), hrest⟩

/-! ### Tags -/

/-- The attributes in a tag. -/
def attributesText (as : List (String × String)) : List Char :=
  as.flatMap fun (name, value) =>
    ' ' :: name.toList ++ '=' :: '"' :: (escape value).toList ++ ['"']

lemma attributesText_cons (name value : String) (as : List (String × String)) (r : List Char) :
    attributesText ((name, value) :: as) ++ r =
      (' ' :: name.toList ++ ['=', '"']) ++
        ((escape value).toList ++ '"' :: (attributesText as ++ r)) := by
  simp [attributesText]

lemma toList_tag (c : Content) :
    (tag c).toList = c.kind.name.toList ++ attributesText c.attributes := by
  simp [tag, attributesText, List.flatMap_map]

/-- Equally many values of the same attributes are told from what follows. -/
lemma attributesText_append_inj {names values values' : List String}
    (hlength : values.length = names.length) (hlength' : values'.length = names.length)
    (h : attributesText (names.zip values) ++ r = attributesText (names.zip values') ++ r') :
    values = values' ∧ r = r' := by
  induction names generalizing values values' with
  | nil =>
    rw [List.length_nil, List.length_eq_zero_iff] at hlength hlength'
    exact ⟨hlength.trans hlength'.symm, h⟩
  | cons name names ih =>
    obtain ⟨value, values, rfl⟩ := List.exists_cons_of_length_eq_add_one hlength
    obtain ⟨value', values', rfl⟩ := List.exists_cons_of_length_eq_add_one hlength'
    rw [List.zip_cons_cons, List.zip_cons_cons, attributesText_cons, attributesText_cons,
      List.append_cancel_left_eq] at h
    obtain ⟨rfl, hrest⟩ := escape_append_inj h
    obtain ⟨rfl, rfl⟩ := ih (Nat.succ.inj hlength) (Nat.succ.inj hlength') hrest
    exact ⟨rfl, rfl⟩

/-- What ends a tag: it is written in front of the end of an element without children, or in front
of the children. -/
def EndsTag (a : Char) : Prop := a = '/' ∨ a = '>'

/-- Behind the name of a kind there is no letter. -/
lemma exists_behind_name (c : Content) {a : Char} (ha : EndsTag a) (r : List Char) :
    ∃ b bs, attributesText c.attributes ++ a :: r = b :: bs ∧ b.isLower = false := by
  cases hattributes : c.attributes with
  | nil =>
    refine ⟨a, r, rfl, ?_⟩
    rcases ha with rfl | rfl <;> rfl
  | cons entry entries => exact ⟨' ', _, rfl, rfl⟩

/-- A tag in front of its end is told from what follows. -/
lemma tag_append_inj {a b : Char} (ha : EndsTag a) (hb : EndsTag b)
    (h : (tag c).toList ++ a :: r = (tag d).toList ++ b :: r') : c = d ∧ a = b ∧ r = r' := by
  rw [toList_tag, toList_tag, List.append_assoc, List.append_assoc] at h
  obtain ⟨x, xs, hx, hxlower⟩ := exists_behind_name c ha r
  obtain ⟨y, ys, hy, hylower⟩ := exists_behind_name d hb r'
  rw [hx, hy] at h
  obtain ⟨hkind, hbehind⟩ := Kind.name_append_inj hxlower hylower h
  rw [← hx, ← hy, Content.attributes, Content.attributes, hkind] at hbehind
  obtain ⟨hvalues, hrest⟩ :=
    attributesText_append_inj (hkind ▸ c.length_values) d.length_values hbehind
  obtain ⟨rfl, rfl⟩ := List.cons.inj hrest
  exact ⟨Content.eq_of_kind_values hkind hvalues, rfl, rfl⟩

/-! ### Elements -/

lemma toList_indent (level : Nat) : (indent level).toList = List.replicate (2 * level) ' ' :=
  String.toList_ofList

/-- Indentations of different levels are told apart. -/
lemma indent_append_inj {k l : Nat} {a b : Char} (ha : a ≠ ' ') (hb : b ≠ ' ')
    (h : (indent k).toList ++ a :: r = (indent l).toList ++ b :: r') :
    k = l ∧ a = b ∧ r = r' := by
  rw [toList_indent, toList_indent] at h
  obtain ⟨hdouble, hrest⟩ := replicate_append_cons_inj ha hb h
  exact ⟨Nat.eq_of_mul_eq_mul_left Nat.two_pos hdouble, hrest⟩

/-- What stands behind the children of a node. -/
def closing (level : Nat) (c : Content) : List Char :=
  (indent level).toList ++ '<' :: '/' :: (c.kind.name.toList ++ ['>', '\n'])

/-- An element begins with its tag, and goes on in one way or the other. -/
lemma toList_element (level : Nat) (c : Content) (ts : List Node) :
    (element level (.node c ts)).toList = (indent level).toList ++ '<' :: ((tag c).toList ++
      if ts = [] then ['/', '>', '\n']
      else '>' :: '\n' :: ((elements (level + 1) ts).toList ++ closing level c)) := by
  cases ts with
  | nil => simp [element]
  | cons t ts => simp [element, closing]

/-- Elements of one level that are followed equally have the same tag.  Either neither has children,
or both have, and then the children are followed equally. -/
lemma node_append_inj (h : (element level (.node c ts)).toList ++ r =
    (element level (.node d us)).toList ++ r') :
    c = d ∧ (ts = [] ∧ us = [] ∧ r = r' ∨
      (elements (level + 1) ts).toList ++ (closing level c ++ r) =
        (elements (level + 1) us).toList ++ (closing level c ++ r')) := by
  have hleaf : EndsTag '/' := Or.inl rfl
  have hinner : EndsTag '>' := Or.inr rfl
  simp only [toList_element, List.append_assoc, List.append_cancel_left_eq, List.cons_append,
    List.cons.injEq, true_and] at h
  split at h <;> split at h
  · rename_i hts hus
    obtain ⟨hcd, -, hrest⟩ := tag_append_inj hleaf hleaf h
    exact ⟨hcd, Or.inl ⟨hts, hus, by simpa using hrest⟩⟩
  · obtain ⟨-, hne, -⟩ := tag_append_inj hleaf hinner h
    cases hne
  · obtain ⟨-, hne, -⟩ := tag_append_inj hinner hleaf h
    cases hne
  · obtain ⟨rfl, -, hrest⟩ := tag_append_inj hinner hinner h
    exact ⟨rfl, Or.inr (by simpa using hrest)⟩

/-- Behind the last child there is no further one. -/
lemma closing_append_ne (u : Node) (us : List Node) :
    closing level c ++ r ≠ (elements (level + 1) (u :: us)).toList ++ r' := by
  intro h
  obtain ⟨d, vs⟩ := u
  simp only [closing, elements, String.toList_append, toList_element, List.append_assoc,
    List.cons_append] at h
  obtain ⟨hlevel, -⟩ := indent_append_inj (by decide) (by decide) h
  omega

mutual

/-- An element is told from what follows it. -/
lemma element_append_inj : ∀ {t u : Node} {level : Nat} {r r' : List Char},
    (element level t).toList ++ r = (element level u).toList ++ r' → t = u ∧ r = r'
  | .node c ts, .node d us, level, r, r', h => by
    obtain ⟨rfl, ⟨rfl, rfl, rfl⟩ | hchildren⟩ := node_append_inj h
    · exact ⟨rfl, rfl⟩
    · obtain ⟨rfl, rfl⟩ := elements_append_inj hchildren
      exact ⟨rfl, rfl⟩

/-- The elements of all children are told from what follows them. -/
lemma elements_append_inj : ∀ {ts us : List Node} {level : Nat} {c : Content} {r r' : List Char},
    (elements (level + 1) ts).toList ++ (closing level c ++ r) =
      (elements (level + 1) us).toList ++ (closing level c ++ r') → ts = us ∧ r = r'
  | [], [], level, c, r, r', h => ⟨rfl, List.append_cancel_left (List.append_cancel_left h)⟩
  | [], u :: us, level, c, r, r', h => absurd h (closing_append_ne u us)
  | t :: ts, [], level, c, r, r', h => absurd h.symm (closing_append_ne t ts)
  | t :: ts, u :: us, level, c, r, r', h => by
    rw [elements, elements, String.toList_append, String.toList_append, List.append_assoc,
      List.append_assoc] at h
    obtain ⟨rfl, hrest⟩ := element_append_inj h
    obtain ⟨rfl, rfl⟩ := elements_append_inj hrest
    exact ⟨rfl, rfl⟩

end

/-! ### The theorem -/

/-- Two trees have the same element exactly if they have no differences, whatever texts they
carry. -/
theorem render_eq_iff (a b : Node) : render a = render b ↔ differences a b = [] := by
  rw [differences_eq_nil_iff]
  constructor
  · intro h
    have htext : (element 0 a).toList ++ [] = (element 0 b).toList ++ [] := by
      rw [List.append_nil, List.append_nil]
      exact congrArg String.toList h
    exact (element_append_inj htext).1
  · rintro rfl
    rfl

end Xml

end GrammarTree
