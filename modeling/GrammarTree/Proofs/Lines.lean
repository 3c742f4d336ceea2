/-
# Texts as lines

A text can be put together from lines with a line feed behind each of them, or with one between any
two of them.  If no line has a line feed in it, the lines can be told from the text in both cases.

A text of the second kind is split at its line feeds (`lines`).  Where a line has line feeds of its
own, it is split as well, so that there are more lines than were put together (`lines_intercalate`).
-/
import Mathlib.Algebra.GroupWithZero.Nat
import Mathlib.Data.List.Forall2
import GrammarTree.Proofs.Word

namespace GrammarTree

/-- Nothing but digits is in the digits of a number. -/
lemma isDigit_of_mem_toString {n : Nat} {a : Char} (h : a ∈ (toString n).toList) :
    a.isDigit = true := by
  rw [Nat.toString_eq_ofList_toDigits, String.toList_ofList] at h
  exact Nat.isDigit_of_mem_toDigits (by decide) (by decide) h

/-- Lines with a line feed behind each of them are told by their text. -/
lemma join_lines_inj {ls ms : List String} (hls : ∀ l ∈ ls, '\n' ∉ l.toList)
    (hms : ∀ m ∈ ms, '\n' ∉ m.toList)
    (h : String.join (ls.map (· ++ "\n")) = String.join (ms.map (· ++ "\n"))) : ls = ms := by
  have htext : ∀ ns : List String, (String.join (ns.map (· ++ "\n"))).toList =
      (ns.map String.toList).flatMap (· ++ ['\n']) := by
    simp [String.toList_join, List.flatMap_map]
  have hlists : ls.map String.toList = ms.map String.toList :=
    flatMap_append_singleton_inj (List.forall_mem_map.2 hls) (List.forall_mem_map.2 hms)
      (by rw [← htext, ← htext, h])
  exact (List.map_inj_right fun _ _ => String.toList_inj.1).1 hlists

/-- What is told by each line is told by the text. -/
lemma map_eq_of_join_lines_eq {α β γ : Type} {row : α → String} {row' : β → String} {f : α → γ}
    {g : β → γ} {as : List α} {bs : List β} (hrow : ∀ a, '\n' ∉ (row a).toList)
    (hrow' : ∀ b, '\n' ∉ (row' b).toList) (htold : ∀ a b, row a = row' b → f a = g b)
    (h : String.join ((as.map row).map (· ++ "\n")) =
      String.join ((bs.map row').map (· ++ "\n"))) : as.map f = bs.map g := by
  have hrows : as.map row = bs.map row' :=
    join_lines_inj (List.forall_mem_map.2 fun a _ => hrow a)
      (List.forall_mem_map.2 fun b _ => hrow' b) h
  rw [← List.forall₂_eq_eq_eq, List.forall₂_map_left_iff, List.forall₂_map_right_iff] at hrows ⊢
  exact hrows.imp htold

/-! ### Splitting -/

/-- The lines of a text: what stands between its line feeds. -/
def lines (text : String) : List String := (text.toList.splitOn '\n').map String.ofList

/-- A text without line feeds is a single line. -/
lemma lines_of_notMem {text : String} (h : '\n' ∉ text.toList) : lines text = [text] := by
  rw [lines, List.splitOn_eq_singleton h, List.map_singleton, String.ofList_toList]

/-- A line feed between two texts ends a line. -/
lemma lines_append (s t : String) : lines (s ++ "\n" ++ t) = lines s ++ lines t := by
  have htext : (s ++ "\n" ++ t).toList = s.toList ++ '\n' :: t.toList := by simp
  rw [lines, htext, List.splitOn_append_cons_self, List.map_append]
  rfl

/-- The number of line feeds in a text. -/
def lineFeeds (text : String) : Nat := text.toList.count '\n'

@[simp] lemma lineFeeds_append (s t : String) : lineFeeds (s ++ t) = lineFeeds s + lineFeeds t := by
  simp [lineFeeds]

lemma lineFeeds_eq_zero_iff {text : String} : lineFeeds text = 0 ↔ '\n' ∉ text.toList :=
  List.count_eq_zero

lemma lineFeeds_intercalate {sep : String} (hsep : lineFeeds sep = 0) {texts : List String}
    (h : ∀ text ∈ texts, lineFeeds text = 0) : lineFeeds (sep.intercalate texts) = 0 := by
  induction texts with
  | nil => rfl
  | cons s texts ih =>
    rw [List.forall_mem_cons] at h
    cases texts with
    | nil => simpa using h.1
    | cons t texts =>
      rw [String.intercalate_cons_cons, lineFeeds_append, lineFeeds_append, h.1, hsep, ih h.2]

/-- There is one line more than there are line feeds. -/
lemma length_lines (text : String) : (lines text).length = lineFeeds text + 1 := by
  have hchars : ∀ cs : List Char, (cs.splitOn '\n').length = cs.count '\n' + 1 := by
    intro cs
    induction cs with
    | nil => rfl
    | cons c cs ih =>
      rw [List.splitOn_cons_eq_if_modifyHead, List.count_cons]
      split
      · rw [List.length_cons, ih]
      · rw [List.length_modifyHead, ih]
  rw [lines, List.length_map, hchars, lineFeeds]

/-- Texts with a line feed between any two of them have the lines of each of them. -/
lemma lines_intercalate {texts : List String} (hne : texts ≠ []) :
    lines ("\n".intercalate texts) = texts.flatMap lines := by
  induction texts with
  | nil => exact absurd rfl hne
  | cons s texts ih =>
    cases texts with
    | nil => simp
    | cons t texts =>
      rw [String.intercalate_cons_cons, lines_append, ih (List.cons_ne_nil t texts),
        ← List.flatMap_cons]

/-- Several texts have a line each, and one more for each of their line feeds. -/
lemma length_flatMap_lines (texts : List String) : (texts.flatMap lines).length =
    texts.length + (texts.map lineFeeds).sum := by
  induction texts with
  | nil => rfl
  | cons text texts ih =>
    rw [List.flatMap_cons, List.length_append, length_lines, ih, List.map_cons, List.sum_cons,
      List.length_cons]
    omega

lemma flatMap_lines_eq_self {texts : List String} (h : ∀ text ∈ texts, '\n' ∉ text.toList) :
    texts.flatMap lines = texts := by
  induction texts with
  | nil => rfl
  | cons text texts ih =>
    rw [List.forall_mem_cons] at h
    rw [List.flatMap_cons, lines_of_notMem h.1, ih h.2, List.singleton_append]

lemma sum_lineFeeds_eq_zero_iff {texts : List String} :
    (texts.map lineFeeds).sum = 0 ↔ ∀ text ∈ texts, '\n' ∉ text.toList := by
  rw [List.sum_eq_zero_iff_forall_eq_nat, List.forall_mem_map]
  exact forall₂_congr fun text _ => lineFeeds_eq_zero_iff

/-- Several texts are their own lines exactly if there are no line feeds in them. -/
lemma flatMap_lines_eq_self_iff {texts : List String} :
    texts.flatMap lines = texts ↔ (texts.map lineFeeds).sum = 0 := by
  constructor
  · intro h
    have hlength := length_flatMap_lines texts
    rwa [h, Nat.left_eq_add] at hlength
  · rw [sum_lineFeeds_eq_zero_iff]
    exact flatMap_lines_eq_self

end GrammarTree
