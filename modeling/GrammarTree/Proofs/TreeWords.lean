/-
# The words of a tree

A tree can be written down again as words: a rule as its name, `=`, its expression and `;`, a choice
with `|` between its parts, an exception with `-`, and an enclosure with its brackets.  What stands
between the parts of a sequence is left open; it is nothing or a comma.

Comments are not written down.  They are taken out of a tree first (`Node.uncommented`).
-/
import GrammarTree.Proofs.Phrase

namespace GrammarTree

/-! ### Taking comments out -/

namespace Node

mutual

/-- A tree without the comments in it. -/
def uncommented : Node → Node
  | .node c ts => .node c (uncommentedAll ts)

/-- Some trees without comments, neither among them nor in them. -/
def uncommentedAll : List Node → List Node
  | [] => []
  | t :: ts =>
    if t.label.kind = .comment then uncommentedAll ts else uncommented t :: uncommentedAll ts

end

@[simp] lemma uncommentedAll_nil : uncommentedAll [] = [] := rfl

lemma uncommentedAll_cons {t : Node} (h : t.label.kind ≠ .comment) (ts : List Node) :
    uncommentedAll (t :: ts) = uncommented t :: uncommentedAll ts := by
  rw [uncommentedAll, if_neg h]

lemma uncommentedAll_node {c : Content} (h : c.kind ≠ .comment) (ts us : List Node) :
    uncommentedAll (.node c ts :: us) = .node c (uncommentedAll ts) :: uncommentedAll us :=
  uncommentedAll_cons (t := .node c ts) h us

@[simp] lemma uncommentedAll_append (ts us : List Node) :
    uncommentedAll (ts ++ us) = uncommentedAll ts ++ uncommentedAll us := by
  induction ts with
  | nil => rfl
  | cons t ts ih =>
    rw [List.cons_append, uncommentedAll, uncommentedAll, ih]
    split
    · rfl
    · rfl

@[simp] lemma uncommentedAll_commentNodes (ds : List String) :
    uncommentedAll (commentNodes ds) = [] := by
  induction ds with
  | nil => rfl
  | cons d ds ih => exact ih

lemma uncommentedAll_flatten (tss : List (List Node)) :
    uncommentedAll tss.flatten = (tss.map uncommentedAll).flatten := by
  induction tss with
  | nil => rfl
  | cons ts tss ih => simp [ih]

end Node

/-! ### Writing trees down -/

/-- The words of a node of the given content, from the words of its children.  `sep` stands between
the parts of a sequence. -/
def Content.assemble (sep : List Word) : Content → List (List Word) → List Word
  | .rule _, [name, body] => name ++ .symbol .equals :: body ++ [.symbol .semicolon]
  | .identifier v, _ => [.name v]
  | .terminal v, _ => [.quoted v]
  | .comment v, _ => [.comment v]
  | .sequence, parts => sep.intercalate parts
  | .choice, parts => [.symbol .pipe].intercalate parts
  | .exception, [left, right] => left ++ .symbol .minus :: right
  | .group, [body] => .symbol .openParen :: body ++ [.symbol .closeParen]
  | .optional, [body] => .symbol .openBracket :: body ++ [.symbol .closeBracket]
  | .repetition, [body] => .symbol .openBrace :: body ++ [.symbol .closeBrace]
  | _, parts => parts.flatten

namespace Node

mutual

/-- The words of a tree. -/
def words (sep : List Word) : Node → List Word
  | .node c ts => c.assemble sep (wordsAll sep ts)

/-- The words of each of some trees. -/
def wordsAll (sep : List Word) : List Node → List (List Word)
  | [] => []
  | t :: ts => words sep t :: wordsAll sep ts

end

lemma wordsAll_eq_map (sep : List Word) (ts : List Node) :
    wordsAll sep ts = ts.map (words sep) := by
  induction ts with
  | nil => rfl
  | cons t ts ih => rw [wordsAll, ih, List.map_cons]

lemma words_node (sep : List Word) (c : Content) (ts : List Node) :
    words sep (.node c ts) = c.assemble sep (ts.map (words sep)) := by
  rw [words, wordsAll_eq_map]

lemma words_grammar (sep : List Word) (title about : String) (ts : List Node) :
    words sep (.node (.grammar title about) ts) = (ts.map (words sep)).flatten := by
  rw [words_node]
  rfl

lemma words_rule (sep : List Word) (v : String) (body : Node) :
    words sep (.node (.rule v) [Tree.leaf (.identifier v), body]) =
      .name v :: .symbol .equals :: words sep body ++ [.symbol .semicolon] := rfl

lemma words_enclosure (sep : List Word) (b : Enclosure) (t : Node) :
    words sep (.node b.content [t]) =
      .symbol b.opening :: words sep t ++ [.symbol b.closing] := by
  rw [words_node]
  cases b <;> rfl

end Node

lemma intercalate_nil_left {α : Type} (parts : List (List α)) :
    List.intercalate [] parts = parts.flatten := by
  induction parts with
  | nil => rfl
  | cons p parts ih =>
    cases parts with
    | nil => simp
    | cons q parts =>
      rw [List.intercalate_cons_cons, ih]
      simp

end GrammarTree
