/-
# Words

A token says what stands in a text and where.  For the grammar only the first matters, and of the
text of a token only the part that its kind leaves open: the spelling of a symbol is fixed.  A `Word`
is what is left of a token then.

A stream ends with the end of the input or with a fault.  `Stream.tokens` lists its tokens up to
there, the end of the input being one of them, and `Stream.fault?` is the fault.  For the stream of a
text the two together are what `tokenize` gives (`tokenize_eq_ok_iff`, `tokenize_eq_error_iff`).
-/
import Mathlib.Tactic.Lemma
import GrammarTree.Token.Stream

namespace GrammarTree

/-- In two lists that begin with elements of a class and go on with one that is not of it, the
beginnings are told from what follows. -/
lemma append_cons_inj_of_class {α : Type} {p : α → Prop} {as bs xs ys : List α} {x y : α}
    (has : ∀ a ∈ as, p a) (hbs : ∀ b ∈ bs, p b) (hx : ¬ p x) (hy : ¬ p y)
    (h : as ++ x :: xs = bs ++ y :: ys) : as = bs ∧ x = y ∧ xs = ys := by
  induction as generalizing bs with
  | nil =>
    cases bs with
    | nil => simpa using h
    | cons b bs =>
      exfalso
      obtain ⟨rfl, -⟩ := List.cons.inj h
      exact hx (hbs x (by simp))
  | cons a as ih =>
    cases bs with
    | nil =>
      exfalso
      obtain ⟨rfl, -⟩ := List.cons.inj h
      exact hy (has a (by simp))
    | cons b bs =>
      obtain ⟨rfl, htail⟩ := List.cons.inj h
      rw [List.forall_mem_cons] at has hbs
      obtain ⟨rfl, hrest⟩ := ih has.2 hbs.2 htail
      exact ⟨rfl, hrest⟩

/-- Repetitions of an element in front of another one are told by their number. -/
lemma replicate_append_cons_inj {α : Type} {m n : Nat} {a x y : α} {xs ys : List α}
    (hx : x ≠ a) (hy : y ≠ a)
    (h : List.replicate m a ++ x :: xs = List.replicate n a ++ y :: ys) :
    m = n ∧ x = y ∧ xs = ys := by
  have hall : ∀ k, ∀ b ∈ List.replicate k a, b = a := fun k b => List.eq_of_mem_replicate
  obtain ⟨heq, hrest⟩ := append_cons_inj_of_class (p := (· = a)) (hall m) (hall n) hx hy h
  refine ⟨?_, hrest⟩
  rw [← List.length_replicate (n := m) (a := a), heq, List.length_replicate]

/-- Lists that are put together with an element behind each of them are told apart by it, if it is
in none of them. -/
lemma flatMap_append_singleton_inj {α : Type} {a : α} {xss yss : List (List α)}
    (hxss : ∀ xs ∈ xss, a ∉ xs) (hyss : ∀ ys ∈ yss, a ∉ ys)
    (h : xss.flatMap (· ++ [a]) = yss.flatMap (· ++ [a])) : xss = yss := by
  induction xss generalizing yss with
  | nil =>
    cases yss with
    | nil => rfl
    | cons ys yss => simp at h
  | cons xs xss ih =>
    cases yss with
    | nil => simp at h
    | cons ys yss =>
      rw [List.forall_mem_cons] at hxss hyss
      have hne : ∀ {zs : List α}, a ∉ zs → ∀ z ∈ zs, z ≠ a := by
        rintro zs ha z hz rfl
        exact ha hz
      rw [List.flatMap_cons, List.flatMap_cons, List.append_assoc, List.append_assoc] at h
      obtain ⟨rfl, -, hrest⟩ := append_cons_inj_of_class (p := (· ≠ a)) (hne hxss.1)
        (hne hyss.1) (not_not_intro rfl) (not_not_intro rfl) h
      rw [ih hxss.2 hyss.2 hrest]

/-- What a token is, without its position. -/
inductive Word where
  | name (text : String)
  | quoted (text : String)
  | comment (text : String)
  | symbol (s : Symbol)
  | finish
deriving DecidableEq, Repr

namespace Word

/-- The kind of the tokens that a word stands for. -/
def kind : Word → TokenKind
  | name _ => .identifier
  | quoted _ => .terminal
  | comment _ => .comment
  | symbol s => .symbol s
  | finish => .endOfInput

@[simp] lemma kind_name (v : String) : (name v).kind = .identifier := rfl

@[simp] lemma kind_quoted (v : String) : (quoted v).kind = .terminal := rfl

@[simp] lemma kind_comment (v : String) : (comment v).kind = .comment := rfl

@[simp] lemma kind_symbol (y : Symbol) : (symbol y).kind = .symbol y := rfl

@[simp] lemma kind_finish : finish.kind = .endOfInput := rfl

/-- The text of the tokens that a word stands for. -/
def text : Word → String
  | name t => t
  | quoted t => t
  | comment t => t
  | symbol s => s.text
  | finish => ""

/-- The words of some comments. -/
def comments (texts : List String) : List Word := texts.map comment

@[simp] lemma comments_nil : comments [] = [] := rfl

@[simp] lemma comments_cons (d : String) (ds : List String) :
    comments (d :: ds) = comment d :: comments ds := rfl

@[simp] lemma comments_append (ds es : List String) :
    comments (ds ++ es) = comments ds ++ comments es := by
  simp [comments]

/-- The comments in front of a word that is none can be told from what follows. -/
lemma comments_append_inj {ds es : List String} {v w : Word} {vs ws : List Word}
    (hv : v.kind ≠ .comment) (hw : w.kind ≠ .comment)
    (h : comments ds ++ v :: vs = comments es ++ w :: ws) : ds = es ∧ v :: vs = w :: ws := by
  have hcomment : ∀ fs, ∀ u ∈ comments fs, u.kind = .comment := by
    intro fs u hu
    obtain ⟨f, -, rfl⟩ := List.mem_map.1 hu
    rfl
  obtain ⟨hds, rfl, rfl⟩ :=
    append_cons_inj_of_class (p := (·.kind = .comment)) (hcomment ds) (hcomment es) hv hw h
  exact ⟨(List.map_inj_right fun _ _ => comment.inj).1 hds, rfl⟩

/-- The kinds of the words that are no comments. -/
def kinds (ws : List Word) : List TokenKind := (ws.map kind).filter (· ≠ .comment)

@[simp] lemma kinds_nil : kinds [] = [] := rfl

@[simp] lemma kinds_append (vs ws : List Word) : kinds (vs ++ ws) = kinds vs ++ kinds ws := by
  simp [kinds]

@[simp] lemma kinds_comments (ds : List String) : kinds (comments ds) = [] := by
  simp [kinds, comments, kind]

lemma kinds_cons {w : Word} (hw : w.kind ≠ .comment) (ws : List Word) :
    kinds (w :: ws) = w.kind :: kinds ws := by
  simp [kinds, hw]

@[simp] lemma kinds_name (t : String) (ws : List Word) :
    kinds (name t :: ws) = .identifier :: kinds ws := rfl

@[simp] lemma kinds_quoted (t : String) (ws : List Word) :
    kinds (quoted t :: ws) = .terminal :: kinds ws := rfl

@[simp] lemma kinds_symbol (y : Symbol) (ws : List Word) :
    kinds (symbol y :: ws) = .symbol y :: kinds ws := rfl

@[simp] lemma kinds_finish (ws : List Word) : kinds (finish :: ws) = .endOfInput :: kinds ws := rfl

end Word

namespace Token

/-- The word that a token stands for. -/
def word (t : Token) : Word :=
  match t.kind with
  | .identifier => .name t.text
  | .terminal => .quoted t.text
  | .comment => .comment t.text
  | .endOfInput => .finish
  | .symbol s => .symbol s

@[simp] lemma kind_word (t : Token) : t.word.kind = t.kind := by
  unfold word
  split <;> rename_i h <;> rw [h] <;> rfl

lemma word_of_identifier {t : Token} (h : t.kind = .identifier) : t.word = .name t.text := by
  simp [word, h]

lemma word_of_terminal {t : Token} (h : t.kind = .terminal) : t.word = .quoted t.text := by
  simp [word, h]

lemma word_of_symbol {t : Token} {y : Symbol} (h : t.kind = .symbol y) : t.word = .symbol y := by
  simp [word, h]

@[simp] lemma isFinish_finish (p : Position) : (finish p).isFinish = true := rfl

lemma isFinish_iff {t : Token} : t.isFinish = true ↔ t.kind = .endOfInput := by
  simp [isFinish]

lemma isSymbol_iff {t : Token} {y : Symbol} : t.isSymbol y = true ↔ t.kind = .symbol y := by
  simp [isSymbol]

lemma word_of_isSymbol {t : Token} {y : Symbol} (h : t.isSymbol y = true) : t.word = .symbol y :=
  word_of_symbol (isSymbol_iff.1 h)

lemma word_of_isFinish {t : Token} (h : t.isFinish = true) : t.word = .finish := by
  simp [word, isFinish_iff.1 h]

/-- The tokens that are no comments. -/
def significant (ts : List Token) : List Token := ts.filter fun t => t.kind ≠ .comment

@[simp] lemma significant_append (ts us : List Token) :
    significant (ts ++ us) = significant ts ++ significant us := by
  simp [significant]

lemma significant_eq_nil {ts : List Token} (h : ∀ t ∈ ts, t.kind = .comment) :
    significant ts = [] := by
  simpa [significant] using h

lemma significant_cons {t : Token} (h : t.kind ≠ .comment) (ts : List Token) :
    significant (t :: ts) = t :: significant ts := by
  simp [significant, h]

lemma map_word_of_comments {ts : List Token} (h : ∀ t ∈ ts, t.kind = .comment) :
    ts.map word = Word.comments (ts.map (·.text)) := by
  induction ts with
  | nil => rfl
  | cons t ts ih =>
    have ht : t.word = .comment t.text := by simp [word, h t (by simp)]
    have hts := ih fun u hu => h u (by simp [hu])
    simp [ht, hts]

end Token

/-- The kinds of the tokens that are no comments are those of the words. -/
lemma kinds_significant (ts : List Token) :
    (Token.significant ts).map (·.kind) = Word.kinds (ts.map Token.word) := by
  simp [Token.significant, Word.kinds, List.filter_map, Function.comp_def]

/-! ### The tokens of a stream -/

namespace Stream

/-- The tokens of a stream up to its end, which is the last of them, or up to its fault. -/
def tokens : Stream → List Token
  | finished p => [Token.finish p]
  | failed _ => []
  | next t rest => if t.isFinish then [t] else t :: rest.tokens

/-- The fault at which a stream ends, if it does not end with the end of the input. -/
def fault? : Stream → Option ScanError
  | finished _ => none
  | failed e => some e
  | next t rest => if t.isFinish then none else rest.fault?

lemma isFinish_ofLexeme (p : Position) (l : Lexeme) : (Token.ofLexeme p l).isFinish = false := by
  cases l <;> rfl

/-- The list of a stream of segments, in terms of its tokens and its fault. -/
lemma toList_ofSegments (table : LineTable) (segs : List Segment) :
    (ofSegments table segs).toList =
      match (ofSegments table segs).fault? with
      | none => .ok (ofSegments table segs).tokens
      | some e => .error e := by
  induction segs with
  | nil => rfl
  | cons s segs ih =>
    rw [ofSegments]
    cases hs : s.piece with
    | fault f => rfl
    | lexeme l =>
      simp only [Piece.classify, toList, fault?, tokens, isFinish_ofLexeme, ih]
      cases (ofSegments table segs).fault? <;> rfl

end Stream

lemma tokenize_eq_ok_iff {source : String} {ts : List Token} :
    tokenize source = .ok ts ↔
      (Stream.ofSource source).fault? = none ∧ (Stream.ofSource source).tokens = ts := by
  rw [tokenize, Stream.ofSource, Stream.toList_ofSegments]
  cases (Stream.ofSegments _ (segments source)).fault? <;> simp

lemma tokenize_eq_error_iff {source : String} {e : ScanError} :
    tokenize source = .error e ↔ (Stream.ofSource source).fault? = some e := by
  rw [tokenize, Stream.ofSource, Stream.toList_ofSegments]
  cases (Stream.ofSegments _ (segments source)).fault? <;> simp

/-- The kind and the text of a token that a lexeme is are those of its word. -/
lemma Token.text_ofLexeme (p : Position) (l : Lexeme) :
    (Token.ofLexeme p l).text = (Token.ofLexeme p l).word.text := by
  cases l <;> rfl

lemma Stream.text_of_mem_tokens {table : LineTable} {segs : List Segment} {t : Token}
    (h : t ∈ (ofSegments table segs).tokens) : t.text = t.word.text := by
  induction segs with
  | nil =>
    simp only [ofSegments, tokens, List.mem_singleton] at h
    rw [h]
    rfl
  | cons s segs ih =>
    rw [ofSegments] at h
    cases hs : s.piece with
    | fault f => simp [hs, Piece.classify, tokens] at h
    | lexeme l =>
      simp only [hs, Piece.classify, tokens, isFinish_ofLexeme, Bool.false_eq_true, if_false,
        List.mem_cons] at h
      rcases h with rfl | h
      · exact Token.text_ofLexeme _ l
      · exact ih h

end GrammarTree
