/-
# Spelling lexemes

Lexemes can be written down as a text: one after the other, with a space between two of them.
Scanning that text gives their words back (`words_spell`), if each of them is one that can be
written: names have to be made of the right characters, a quoted text must not contain the quote it
stands between, and comments must not contain their own end.
-/
import GrammarTree.Proofs.Reading
import GrammarTree.Proofs.Word

namespace GrammarTree

namespace Lexeme

/-- The word that a lexeme stands for. -/
def word : Lexeme → Word
  | name cs => .name (String.ofList cs)
  | quoted _ content => .quoted (String.ofList content)
  | comment content => .comment (String.ofList content)
  | symbol y => .symbol y

/-- Whether a lexeme can be written so that it is read again. -/
def Spellable : Lexeme → Prop
  | name cs => IsName cs
  | quoted q content => q.char ∉ content
  | comment content => closeComment? (content ++ ['*', ')']) = some (content, [])
  | symbol _ => True

end Lexeme

/-- The characters of some lexemes with a space between each two of them. -/
def spelling (ls : List Lexeme) : List Char := [' '].intercalate (ls.map Lexeme.chars)

/-- The text of some lexemes. -/
def spell (ls : List Lexeme) : String := String.ofList (spelling ls)

/-! ### Reading a single lexeme -/

/-- What can stand behind a lexeme: nothing, or a space. -/
def Apart (rest : List Char) : Prop := rest = [] ∨ ∃ cs, rest = ' ' :: cs

lemma Lexeme.Spellable.standsBefore {l : Lexeme} (hl : l.Spellable) {rest : List Char}
    (hrest : Apart rest) : l.StandsBefore rest := by
  have hend : l.StandsBefore [] := by
    cases l with
    | name cs => exact ⟨hl, nofun⟩
    | quoted q content => exact hl
    | comment content => exact not_infix_of_closeComment? hl
    | symbol y => constructor <;> simp
  rcases hrest with rfl | ⟨ds, rfl⟩
  · exact hend
  · exact hend.append_blank rfl ds

/-- A lexeme that can be written is read again in front of a space or the end. -/
lemma exists_read {l : Lexeme} (hl : l.Spellable) {rest : List Char} (hrest : Apart rest) :
    ∃ c cs, l.chars ++ rest = c :: cs ∧ isBlank c = false ∧
      Piece.read c cs = (.lexeme l, rest) := by
  have hstands : (Piece.lexeme l).StandsBefore rest := hl.standsBefore hrest
  obtain ⟨c, cs, hchars, hblank⟩ := Piece.exists_cons_of_standsBefore hstands
  have hrest : l.chars ++ rest = c :: (cs ++ rest) := by
    rw [← List.cons_append, ← hchars]
    rfl
  exact ⟨c, cs ++ rest, hrest, hblank, Lexeme.read_of_standsBefore hstands hrest⟩

/-! ### Reading all lexemes -/

lemma spelling_cons_cons (l m : Lexeme) (ls : List Lexeme) :
    spelling (l :: m :: ls) = l.chars ++ ' ' :: spelling (m :: ls) := by
  simp [spelling]

lemma pieces_spelling {ls : List Lexeme} (hls : ∀ l ∈ ls, l.Spellable) (offset : Nat) :
    (segmentsFrom offset (spelling ls)).map (·.piece) = ls.map .lexeme := by
  induction ls generalizing offset with
  | nil =>
    rw [spelling, List.map_nil, List.intercalate_nil, segmentsFrom]
    rfl
  | cons l ls ih =>
    have hl := hls l (by simp)
    have hls' : ∀ m ∈ ls, m.Spellable := fun m hm => hls m (by simp [hm])
    cases ls with
    | nil =>
      obtain ⟨c, cs, hchars, hblank, hread⟩ := exists_read hl (Or.inl rfl)
      rw [List.append_nil] at hchars
      rw [spelling, List.map_singleton, List.intercalate_singleton, hchars, segmentsFrom, hblank,
        hread]
      simp [segmentsFrom]
    | cons m ls =>
      have hspace : isBlank ' ' = true := rfl
      obtain ⟨c, cs, hchars, hblank, hread⟩ := exists_read hl (Or.inr ⟨spelling (m :: ls), rfl⟩)
      rw [spelling_cons_cons, hchars, segmentsFrom, hblank, hread]
      simp only [Bool.false_eq_true, if_false, List.map_cons]
      rw [segmentsFrom, if_pos hspace, ih hls', List.map_cons]

lemma word_ofLexeme (p : Position) (l : Lexeme) : (Token.ofLexeme p l).word = l.word := by
  cases l <;> rfl

lemma words_ofSegments (table : LineTable) {segs : List Segment} {ls : List Lexeme}
    (h : segs.map (·.piece) = ls.map .lexeme) :
    (Stream.ofSegments table segs).tokens.map Token.word = ls.map Lexeme.word ++ [.finish] := by
  induction ls generalizing segs with
  | nil =>
    rw [List.map_nil, List.map_eq_nil_iff] at h
    rw [h]
    rfl
  | cons l ls ih =>
    cases segs with
    | nil => cases h
    | cons s segs =>
      rw [List.map_cons, List.map_cons, List.cons.injEq] at h
      have htail := ih h.2
      rw [Stream.ofSegments, h.1]
      simp only [Piece.classify, Stream.tokens, Stream.isFinish_ofLexeme, Bool.false_eq_true,
        if_false, List.map_cons, htail, List.cons_append, word_ofLexeme]

/-- A stream without a fault is one of lexemes. -/
lemma Stream.exists_lexemes {table : LineTable} {segs : List Segment}
    (h : (ofSegments table segs).fault? = none) :
    ∃ ls : List Lexeme, segs.map (·.piece) = ls.map .lexeme := by
  induction segs with
  | nil => exact ⟨[], rfl⟩
  | cons s segs ih =>
    rw [ofSegments] at h
    cases hs : s.piece with
    | fault f =>
      rw [hs] at h
      cases h
    | lexeme l =>
      rw [hs] at h
      simp only [Piece.classify, fault?, isFinish_ofLexeme, Bool.false_eq_true, if_false] at h
      obtain ⟨ls, hls⟩ := ih h
      exact ⟨l :: ls, by rw [List.map_cons, hs, hls, List.map_cons]⟩

/-- Each of some segments with lexemes for pieces has one. -/
lemma exists_lexeme_of_mem {segs : List Segment} {ls : List Lexeme}
    (h : segs.map (·.piece) = ls.map .lexeme) {s : Segment} (hs : s ∈ segs) :
    ∃ l, s.piece = .lexeme l := by
  have hmem : s.piece ∈ ls.map Piece.lexeme := h ▸ List.mem_map_of_mem hs
  obtain ⟨l, -, hl⟩ := List.mem_map.1 hmem
  exact ⟨l, hl.symm⟩

/-- Scanning the spelling of some lexemes gives their words. -/
lemma words_spell {ls : List Lexeme} (hls : ∀ l ∈ ls, l.Spellable) :
    (Stream.ofSource (spell ls)).tokens.map Token.word = ls.map Lexeme.word ++ [.finish] := by
  apply words_ofSegments
  rw [segments, spell, String.toList_ofList]
  exact pieces_spelling hls 0

end GrammarTree
