/-
# What stands at the front of a text

A piece of a text can be told from the text around it.  `Piece.StandsBefore` says of a piece what it
consists of and what may follow it: a name takes all characters that could belong to it, a quoted text
ends at the first equal quote, a comment ends at the first `*)`, and `:` and `(` are symbols of their
own only where no longer piece starts with them.  A fault is a quote or a comment that is not closed
by anything behind it, or a single character that no lexeme starts with.

Reading finds exactly the piece of which this can be said (`Piece.read_eq_iff`), so that at every
character which is no blank there is one such piece and no other.
-/
import Mathlib.Tactic.Lemma
import GrammarTree.Lexeme

namespace GrammarTree

/-- Whether some characters are a letter followed by letters, digits and underscores. -/
def IsName : List Char → Prop
  | [] => False
  | c :: cs => isNameStart c = true ∧ ∀ d ∈ cs, isNamePart d = true

instance : DecidablePred IsName
  | [] => isFalse id
  | c :: cs =>
    -- the instance for all characters would look at every one of them
    have : Decidable (∀ d ∈ cs, isNamePart d = true) := List.decidableBAll _ cs
    inferInstanceAs (Decidable (isNameStart c = true ∧ _))

/-- Whether a lexeme starts with a character: a letter, a quote or the first character of a symbol;
comments start like a symbol. -/
def StartsLexeme (c : Char) : Prop :=
  isNameStart c = true ∨ (∃ q : Quote, q.char = c) ∨ ∃ y : Symbol, y.chars.head? = some c

/-- Whether a lexeme is one in front of the text `rest`. -/
def Lexeme.StandsBefore (rest : List Char) : Lexeme → Prop
  | name cs => IsName cs ∧ ∀ d ∈ rest.head?, isNamePart d = false
  | quoted q content => q.char ∉ content
  | comment content => ¬ ['*', ')'] <:+: content
  | symbol y => (y = .colon → ¬ ['=', '='] <+: rest) ∧ (y = .openParen → ¬ ['*'] <+: rest)

/-- Whether a fault is one in front of the text `rest`. -/
def Fault.StandsBefore (rest : List Char) : Fault → Prop
  | openQuote q => q.char ∉ rest
  | openComment => ¬ ['*', ')'] <:+: rest
  | stray c => isBlank c = false ∧ ¬ StartsLexeme c

/-- Whether a piece is one in front of the text `rest`. -/
def Piece.StandsBefore (rest : List Char) : Piece → Prop
  | lexeme l => l.StandsBefore rest
  | fault f => f.StandsBefore rest

/-! ### Names -/

lemma takeWhile_name {cs rest : List Char} (hcs : ∀ d ∈ cs, isNamePart d = true)
    (hrest : ∀ d ∈ rest.head?, isNamePart d = false) :
    (cs ++ rest).takeWhile isNamePart = cs ∧ (cs ++ rest).dropWhile isNamePart = rest := by
  rw [List.takeWhile_append_of_pos hcs, List.dropWhile_append_of_pos hcs]
  cases rest with
  | nil => simp
  | cons d ds =>
    have hd : isNamePart d = false := hrest d (by simp)
    simp [hd]

lemma isBlank_of_isNameStart {c : Char} (h : isNameStart c = true) : isBlank c = false := by
  rw [Bool.eq_false_iff]
  intro hblank
  simp only [isBlank, Bool.or_eq_true, beq_iff_eq] at hblank
  rcases hblank with (((rfl | rfl) | rfl) | rfl) | rfl <;> exact absurd h (by decide)

/-! ### Quoted texts -/

lemma readQuoted_of_not_mem {q : Quote} {content : List Char} (h : q.char ∉ content)
    (rest : List Char) :
    readQuoted q (content ++ q.char :: rest) = (.lexeme (.quoted q content), rest) := by
  have hcontent : ∀ d ∈ content, (d != q.char) = true := by
    intro d hd
    rw [bne_iff_ne]
    rintro rfl
    exact h hd
  unfold readQuoted
  rw [List.dropWhile_append_of_pos hcontent, List.takeWhile_append_of_pos hcontent]
  simp

lemma readQuoted_of_open {q : Quote} {cs : List Char} (h : q.char ∉ cs) :
    readQuoted q cs = (.fault (.openQuote q), cs) := by
  have hcs : ∀ d ∈ cs, (d != q.char) = true := by
    intro d hd
    rw [bne_iff_ne]
    rintro rfl
    exact h hd
  have hdrop : (cs ++ []).dropWhile (· != q.char) = [] := List.dropWhile_append_of_pos hcs
  rw [List.append_nil] at hdrop
  rw [readQuoted, hdrop]

lemma standsBefore_readQuoted (q : Quote) (cs : List Char) :
    (readQuoted q cs).1.StandsBefore (readQuoted q cs).2 := by
  by_cases h : q.char ∈ cs
  · obtain ⟨content, rest, rfl, hcontent⟩ := List.eq_append_cons_of_mem h
    rw [readQuoted_of_not_mem hcontent]
    exact hcontent
  · rw [readQuoted_of_open h]
    exact h

/-! ### Comments -/

lemma close_infix_cons {c : Char} {cs : List Char} :
    ['*', ')'] <:+: c :: cs ↔ (c = '*' ∧ [')'] <+: cs) ∨ ['*', ')'] <:+: cs := by
  rw [List.infix_cons_iff, List.cons_prefix_cons, eq_comm]

/-- What is read for the content of a comment does not contain the end of one. -/
lemma not_infix_of_closeComment? {cs content rest : List Char}
    (h : closeComment? cs = some (content, rest)) : ¬ ['*', ')'] <:+: content := by
  fun_induction closeComment? cs generalizing content with
  | case1 => cases h
  | case2 rest' =>
    cases h
    simp
  | case3 c cs hc ih =>
    obtain ⟨⟨content', rest'⟩, h', heq⟩ := Option.map_eq_some_iff.1 h
    simp only [Prod.mk.injEq] at heq
    obtain ⟨rfl, rfl⟩ := heq
    rw [close_infix_cons]
    rintro (⟨rfl, ds, rfl⟩ | hinfix)
    · exact hc _ rfl (closeComment?_append h').symm
    · exact ih h' hinfix

/-- A text without the end of a comment closes none. -/
lemma closeComment?_eq_none_iff {cs : List Char} :
    closeComment? cs = none ↔ ¬ ['*', ')'] <:+: cs := by
  fun_induction closeComment? cs with
  | case1 => simp
  | case2 rest => simpa using ⟨[], rest, rfl⟩
  | case3 c cs hc ih =>
    rw [Option.map_eq_none_iff, ih, close_infix_cons]
    constructor
    · rintro hcs (⟨rfl, ds, rfl⟩ | hinfix)
      · exact hc ds rfl rfl
      · exact hcs hinfix
    · exact fun h hinfix => h (Or.inr hinfix)

/-- A comment ends at the first end that its content does not contain. -/
lemma closeComment?_of_not_infix {content : List Char} (h : ¬ ['*', ')'] <:+: content)
    (rest : List Char) :
    closeComment? (content ++ '*' :: ')' :: rest) = some (content, rest) := by
  induction content with
  | nil => rfl
  | cons c content ih =>
    rw [close_infix_cons, not_or] at h
    rw [List.cons_append, closeComment?, ih h.2]
    · rfl
    · -- the end does not lie across the content and what follows it
      rintro ds rfl hds
      cases content with
      | nil => cases hds
      | cons d content =>
        rw [List.cons_append, List.cons.injEq] at hds
        exact h.1 ⟨rfl, content, by rw [hds.1]; rfl⟩

lemma standsBefore_readComment (cs : List Char) :
    (readComment cs).1.StandsBefore (readComment cs).2 := by
  unfold readComment
  split
  · rename_i h
    exact closeComment?_eq_none_iff.1 h
  · rename_i content rest h
    exact not_infix_of_closeComment? h

/-! ### Symbols and stray characters -/

lemma Symbol.ofChar?_eq_some {c : Char} {y : Symbol} (h : ofChar? c = some y) : y.chars = [c] := by
  have hfound := List.find?_some h
  simpa using hfound

lemma Symbol.ofChar?_eq_none_iff {c : Char} :
    ofChar? c = none ↔ ∀ y : Symbol, y.chars.head? ≠ some c := by
  constructor
  · -- the one symbol of several characters starts with another symbol
    intro h y hy
    cases y <;> (cases hy; exact absurd h (by decide))
  · intro h
    cases hfound : ofChar? c with
    | none => rfl
    | some y => exact absurd (by rw [ofChar?_eq_some hfound]; rfl) (h y)

lemma Quote.ofChar?_char (q : Quote) : ofChar? q.char = some q := by cases q <;> rfl

lemma Quote.ofChar?_eq_none_iff {c : Char} : ofChar? c = none ↔ ∀ q : Quote, q.char ≠ c := by
  constructor
  · rintro h q rfl
    rw [ofChar?_char] at h
    cases h
  · intro h
    cases hfound : ofChar? c with
    | none => rfl
    | some q => exact absurd (char_of_ofChar? hfound) (h q)

/-- Behind `(` and `:` the symbol is read unless a longer lexeme starts there. -/
lemma standsBefore_readSymbol {c : Char} {cs : List Char} (hblank : isBlank c = false)
    (hname : ¬ isNameStart c = true) (hquote : Quote.ofChar? c = none)
    (hcomment : ∀ ds, c = '(' → cs = '*' :: ds → False)
    (hcolon : ∀ ds, c = ':' → cs = '=' :: '=' :: ds → False) :
    (readSymbol c cs).1.StandsBefore (readSymbol c cs).2 := by
  unfold readSymbol
  split
  · rename_i y hy
    have hchars := Symbol.ofChar?_eq_some hy
    constructor
    · rintro rfl ⟨ds, rfl⟩
      cases hchars
      exact hcolon ds rfl rfl
    · rintro rfl ⟨ds, rfl⟩
      cases hchars
      exact hcomment ds rfl rfl
  · rename_i hy
    refine ⟨hblank, ?_⟩
    rintro (hstart | ⟨q, hq⟩ | ⟨y, hhead⟩)
    · exact hname hstart
    · exact Quote.ofChar?_eq_none_iff.1 hquote q hq
    · exact Symbol.ofChar?_eq_none_iff.1 hy y hhead

/-! ### Reading -/

/-- What is read can be said to stand there. -/
lemma Piece.standsBefore_read {c : Char} (hc : isBlank c = false) (cs : List Char) :
    (Piece.read c cs).1.StandsBefore (Piece.read c cs).2 := by
  unfold Piece.read
  split
  · rename_i hname
    refine ⟨⟨hname, List.all_eq_true.1 List.all_takeWhile⟩, ?_⟩
    intro d hd
    have hfirst := List.head?_dropWhile_not isNamePart cs
    rwa [Option.mem_def.1 hd] at hfirst
  · rename_i hname
    split
    · rename_i q _
      exact standsBefore_readQuoted q cs
    · rename_i hquote
      split
      · exact standsBefore_readComment _
      · constructor
        · intro h
          cases h
        · intro h
          cases h
      · rename_i hcomment hcolon
        exact standsBefore_readSymbol hc hname hquote hcomment hcolon

lemma Piece.read_eq_readSymbol {c : Char} {cs : List Char} (hname : ¬ isNameStart c = true)
    (hquote : Quote.ofChar? c = none) (hcomment : c = '(' → ¬ ['*'] <+: cs)
    (hcolon : c = ':' → ¬ ['=', '='] <+: cs) : Piece.read c cs = readSymbol c cs := by
  unfold Piece.read
  rw [if_neg hname, hquote]
  dsimp only
  split
  · exact absurd ⟨_, rfl⟩ (hcomment rfl)
  · exact absurd ⟨_, rfl⟩ (hcolon rfl)
  · rfl

/-- A symbol is read where no longer lexeme starts with it. -/
lemma Symbol.read_of_standsBefore {y : Symbol} {rest : List Char}
    (h : (Lexeme.symbol y).StandsBefore rest) {c : Char} {cs : List Char}
    (hchars : y.chars ++ rest = c :: cs) : Piece.read c cs = (.lexeme (.symbol y), rest) := by
  cases y with
  | colon =>
    obtain ⟨rfl, rfl⟩ : ':' = c ∧ rest = cs := by simpa [chars] using hchars
    have hparen : ':' = '(' → ¬ ['*'] <+: rest := by simp
    rw [Piece.read_eq_readSymbol (by decide) rfl hparen fun _ => h.1 rfl]
    rfl
  | openParen =>
    obtain ⟨rfl, rfl⟩ : '(' = c ∧ rest = cs := by simpa [chars] using hchars
    have hcolon : '(' = ':' → ¬ ['=', '='] <+: rest := by simp
    rw [Piece.read_eq_readSymbol (by decide) rfl (fun _ => h.2 rfl) hcolon]
    rfl
  | _ =>
    cases hchars
    rfl

lemma Lexeme.read_of_standsBefore {l : Lexeme} {rest : List Char} (h : l.StandsBefore rest)
    {c : Char} {cs : List Char} (hchars : l.chars ++ rest = c :: cs) :
    Piece.read c cs = (.lexeme l, rest) := by
  cases l with
  | name ds =>
    obtain ⟨hname, hrest⟩ := h
    cases ds with
    | nil => cases hname
    | cons d ds =>
      obtain ⟨rfl, rfl⟩ : d = c ∧ ds ++ rest = cs := by simpa [chars] using hchars
      obtain ⟨hstart, hparts⟩ := hname
      obtain ⟨htake, hdrop⟩ := takeWhile_name hparts hrest
      unfold Piece.read
      rw [if_pos hstart, htake, hdrop]
  | quoted q content =>
    obtain ⟨rfl, rfl⟩ : q.char = c ∧ content ++ q.char :: rest = cs := by
      simpa [chars] using hchars
    have hname : ¬ isNameStart q.char = true := by cases q <;> decide
    unfold Piece.read
    rw [if_neg hname, Quote.ofChar?_char]
    exact readQuoted_of_not_mem h rest
  | comment content =>
    obtain ⟨rfl, rfl⟩ : '(' = c ∧ '*' :: (content ++ '*' :: ')' :: rest) = cs := by
      simpa [chars] using hchars
    have hread : Piece.read '(' ('*' :: (content ++ '*' :: ')' :: rest)) =
        readComment (content ++ '*' :: ')' :: rest) := rfl
    rw [hread, readComment, closeComment?_of_not_infix h]
  | symbol y => exact Symbol.read_of_standsBefore h hchars

lemma Fault.read_of_standsBefore {f : Fault} {rest : List Char} (h : f.StandsBefore rest)
    {c : Char} {cs : List Char} (hchars : f.chars ++ rest = c :: cs) :
    Piece.read c cs = (.fault f, rest) := by
  cases f with
  | openQuote q =>
    obtain ⟨rfl, rfl⟩ : q.char = c ∧ rest = cs := by simpa [chars] using hchars
    have hname : ¬ isNameStart q.char = true := by cases q <;> decide
    unfold Piece.read
    rw [if_neg hname, Quote.ofChar?_char]
    exact readQuoted_of_open h
  | openComment =>
    obtain ⟨rfl, rfl⟩ : '(' = c ∧ '*' :: rest = cs := by simpa [chars] using hchars
    have hread : Piece.read '(' ('*' :: rest) = readComment rest := rfl
    rw [hread, readComment, closeComment?_eq_none_iff.2 h]
  | stray d =>
    obtain ⟨rfl, rfl⟩ : d = c ∧ rest = cs := by simpa [chars] using hchars
    obtain ⟨-, hstarts⟩ := h
    have hname : ¬ isNameStart d = true := fun hname => hstarts (Or.inl hname)
    have hquote : Quote.ofChar? d = none :=
      Quote.ofChar?_eq_none_iff.2 fun q hq => hstarts (Or.inr (Or.inl ⟨q, hq⟩))
    have hsymbol : ∀ y : Symbol, y.chars.head? ≠ some d :=
      fun y hy => hstarts (Or.inr (Or.inr ⟨y, hy⟩))
    have hparen : d = '(' → ¬ ['*'] <+: rest :=
      fun hd => absurd (by rw [hd]; rfl) (hsymbol .openParen)
    have hcolon : d = ':' → ¬ ['=', '='] <+: rest :=
      fun hd => absurd (by rw [hd]; rfl) (hsymbol .colon)
    rw [Piece.read_eq_readSymbol hname hquote hparen hcolon, readSymbol,
      Symbol.ofChar?_eq_none_iff.2 hsymbol]

/-- At a character that is no blank, one piece can be said to stand there, and it is read. -/
lemma Piece.read_eq_iff {c : Char} (hc : isBlank c = false) {cs rest : List Char} {p : Piece} :
    Piece.read c cs = (p, rest) ↔ p.chars ++ rest = c :: cs ∧ p.StandsBefore rest := by
  constructor
  · intro h
    have hchars := Piece.chars_append_read c cs
    have hstands := Piece.standsBefore_read hc cs
    rw [h] at hchars hstands
    exact ⟨hchars, hstands⟩
  · rintro ⟨hchars, hstands⟩
    cases p with
    | lexeme l => exact Lexeme.read_of_standsBefore hstands hchars
    | fault f => exact Fault.read_of_standsBefore hstands hchars

/-- A piece does not start with a blank. -/
lemma Piece.exists_cons_of_standsBefore {p : Piece} {rest : List Char} (h : p.StandsBefore rest) :
    ∃ c cs, p.chars = c :: cs ∧ isBlank c = false := by
  cases p with
  | lexeme l =>
    cases l with
    | name ds =>
      cases ds with
      | nil => cases h.1
      | cons d ds => exact ⟨d, ds, rfl, isBlank_of_isNameStart h.1.1⟩
    | quoted q content => exact ⟨q.char, content ++ [q.char], rfl, by cases q <;> rfl⟩
    | comment content => exact ⟨_, _, rfl, rfl⟩
    | symbol y => cases y <;> exact ⟨_, _, rfl, rfl⟩
  | fault f =>
    cases f with
    | openQuote q => exact ⟨q.char, [], rfl, by cases q <;> rfl⟩
    | openComment => exact ⟨_, _, rfl, rfl⟩
    | stray c => exact ⟨c, [], rfl, h.1⟩

/-! ### Pieces in front of a blank -/

section Blank

variable {b : Char} {rest tail : List Char}

/-- What stands at the front of a text with a blank in it stands in front of the blank, if it has
no such blank itself. -/
lemma prefix_of_prefix_append {p : List Char} (hb : b ∉ p) (h : p <+: rest ++ b :: tail) :
    p <+: rest := by
  rcases List.prefix_or_prefix_of_prefix h (List.prefix_append rest (b :: tail)) with h | h
  · exact h
  · obtain ⟨q, rfl⟩ := h
    rw [List.prefix_append_right_inj] at h
    cases q with
    | nil => simp
    | cons d q =>
      exfalso
      rw [List.cons_prefix_cons] at h
      exact hb (by simp [h.1])

lemma isNamePart_of_isBlank (hb : isBlank b = true) : isNamePart b = false := by
  simp only [isBlank, Bool.or_eq_true, beq_iff_eq] at hb
  rcases hb with (((rfl | rfl) | rfl) | rfl) | rfl <;> decide

lemma ne_of_isBlank {d : Char} (hb : isBlank b = true) (hd : isBlank d = false) : b ≠ d := by
  rintro rfl
  rw [hb] at hd
  cases hd

/-- A lexeme that stands in front of the end of a text stands also in front of a blank there. -/
lemma Lexeme.StandsBefore.append_blank {l : Lexeme} (hb : isBlank b = true)
    (h : l.StandsBefore rest) (tail : List Char) : l.StandsBefore (rest ++ b :: tail) := by
  cases l with
  | name cs =>
    refine ⟨h.1, fun d hd => ?_⟩
    cases rest with
    | nil =>
      cases hd
      exact isNamePart_of_isBlank hb
    | cons e es => exact h.2 d hd
  | quoted q content => exact h
  | comment content => exact h
  | symbol y =>
    have hequals : b ≠ '=' := ne_of_isBlank hb (by decide)
    have hstar : b ≠ '*' := ne_of_isBlank hb (by decide)
    constructor
    · intro hy hprefix
      exact h.1 hy (prefix_of_prefix_append (by simpa using hequals) hprefix)
    · intro hy hprefix
      exact h.2 hy (prefix_of_prefix_append (by simpa using hstar) hprefix)

end Blank

end GrammarTree
