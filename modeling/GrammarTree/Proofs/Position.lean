/-
# Positions

A line table finds the position of a byte offset without reading the whole text.  At the boundary of
a character the position is the one that a plain scan of the characters in front of it arrives at
(`position_byteLength`).  So positions grow along a text, and the tokens in front of a fault stand at
earlier positions than the fault (`before_of_fault?`).  The stream of a text is described from a
place in it on by `Stream.behind`.
-/
import GrammarTree.Proofs.Word

namespace GrammarTree

namespace Position

/-- Where a text starts. -/
def first : Position := ⟨1, 1⟩

/-- The position behind a character. -/
def step (p : Position) (c : Char) : Position :=
  if c = '\n' then ⟨p.line + 1, 1⟩ else ⟨p.line, p.column + 1⟩

/-- The position behind some characters. -/
def after (p : Position) (cs : List Char) : Position := cs.foldl step p

@[simp] lemma after_nil (p : Position) : p.after [] = p := rfl

lemma after_cons (p : Position) (c : Char) (cs : List Char) :
    p.after (c :: cs) = (p.step c).after cs := rfl

lemma after_append (p : Position) (a b : List Char) :
    p.after (a ++ b) = (p.after a).after b := List.foldl_append

/-- Whether a position comes earlier in a text than another one. -/
def Before (p q : Position) : Prop := p.line < q.line ∨ p.line = q.line ∧ p.column < q.column

instance (p q : Position) : Decidable (p.Before q) := inferInstanceAs (Decidable (_ ∨ _))

lemma Before.trans {p q r : Position} (hpq : p.Before q) (hqr : q.Before r) : p.Before r := by
  unfold Before at *
  omega

lemma before_step (p : Position) (c : Char) : p.Before (p.step c) := by
  unfold step Before
  split
  · left
    show p.line < p.line + 1
    omega
  · right
    show p.line = p.line ∧ p.column < p.column + 1
    omega

/-- The position behind one or more characters is a later one. -/
lemma before_after (p : Position) {cs : List Char} (h : cs ≠ []) : p.Before (p.after cs) := by
  induction cs generalizing p with
  | nil => exact absurd rfl h
  | cons c cs ih =>
    cases cs with
    | nil => exact before_step p c
    | cons d ds => exact (before_step p c).trans (ih (p.step c) (by simp))

end Position

/-! ### Looking up an offset -/

lemma byteLength_pos {cs : List Char} (h : cs ≠ []) : 0 < byteLength cs := by
  cases cs with
  | nil => exact absurd rfl h
  | cons c cs =>
    have hc := c.utf8Size_pos
    rw [byteLength]
    omega

lemma charsIn?_byteLength (a b : List Char) :
    charsIn? (byteLength a) (a ++ b) = some a.length := by
  induction a with
  | nil => cases b <;> rfl
  | cons c a ih =>
    have hc := c.utf8Size_pos
    obtain ⟨n, hn⟩ : ∃ n, byteLength (c :: a) = n + 1 := by
      refine ⟨byteLength (c :: a) - 1, ?_⟩
      rw [byteLength]
      omega
    have hle : c.utf8Size ≤ n + 1 := by
      rw [← hn, byteLength]
      omega
    have hrest : n + 1 - c.utf8Size = byteLength a := by
      rw [← hn, byteLength]
      omega
    rw [hn, List.cons_append, charsIn?, if_pos hle, hrest, ih]
    rfl

/-- There is always a line, and only the last one can be empty. -/
lemma exists_splitLines (cs : List Char) :
    ∃ l ls, splitLines cs = l :: ls ∧ (l = [] → ls = []) := by
  induction cs with
  | nil => exact ⟨[], [], rfl, fun _ => rfl⟩
  | cons c cs ih =>
    obtain ⟨l, ls, h, -⟩ := ih
    rw [splitLines, h]
    split
    · exact ⟨[c], l :: ls, rfl, by simp⟩
    · exact ⟨c :: l, ls, rfl, by simp⟩

/-- The position that is found from a line on, its number and the lines behind it being given. -/
def LineTable.find (offset number : Nat) (line : Line) (rest : List Line) : Position :=
  ⟨(lineAt offset number line rest).1,
    (charsIn? (offset - (lineAt offset number line rest).2.start)
      (lineAt offset number line rest).2.chars).getD
        (offset - (lineAt offset number line rest).2.start) + 1⟩

open LineTable in
/-- The lines of `a ++ b` are searched, in the first of which `pre` has been read. -/
lemma find_splitLines (a b pre : List Char) (start number : Nat) {l : List Char}
    {ls : List (List Char)} (h : splitLines (a ++ b) = l :: ls) :
    find (start + byteLength pre + byteLength a) number ⟨start, pre ++ l⟩
      (placeLines (start + byteLength (pre ++ l)) ls) =
      Position.after ⟨number, pre.length + 1⟩ a := by
  induction a generalizing pre start number l ls with
  | nil =>
    -- the line is the right one: the next one starts behind what is left of it
    have hline : lineAt (start + byteLength pre) number ⟨start, pre ++ l⟩
        (placeLines (start + byteLength (pre ++ l)) ls) = (number, ⟨start, pre ++ l⟩) := by
      cases ls with
      | nil => rfl
      | cons l' ls =>
        obtain ⟨m, ms, hm, hlast⟩ := exists_splitLines ([] ++ b)
        rw [h, List.cons.injEq] at hm
        obtain ⟨rfl, rfl⟩ := hm
        have hpos : 0 < byteLength l := by
          apply byteLength_pos
          intro hnil
          cases hlast hnil
        have hbehind : ¬ start + byteLength (pre ++ l) ≤ start + byteLength pre := by
          rw [byteLength_append]
          omega
        rw [placeLines, lineAt, if_neg hbehind]
    have hdist : start + byteLength pre - start = byteLength pre := by omega
    rw [byteLength, Nat.add_zero, find, hline]
    simp only [hdist, charsIn?_byteLength, Option.getD_some]
    rfl
  | cons c a ih =>
    obtain ⟨m, ms, hm, -⟩ := exists_splitLines (a ++ b)
    rw [List.cons_append, splitLines, hm] at h
    by_cases hc : c = '\n'
    · rw [if_pos hc, List.cons.injEq] at h
      obtain ⟨rfl, rfl⟩ := h
      have hnext := ih [] (start + byteLength (pre ++ [c])) (number + 1) hm
      have hoffset : start + byteLength pre + byteLength (c :: a) =
          start + byteLength (pre ++ [c]) + byteLength [] + byteLength a := by
        simp only [byteLength_append, byteLength]
        omega
      have hstart : start + byteLength (pre ++ [c]) ≤
          start + byteLength (pre ++ [c]) + byteLength [] + byteLength a := by omega
      rw [hoffset, find, placeLines, lineAt, if_pos hstart]
      rw [Position.after_cons, Position.step, if_pos hc]
      exact hnext
    · rw [if_neg hc, List.cons.injEq] at h
      obtain ⟨rfl, rfl⟩ := h
      have hnext := ih (pre ++ [c]) start number hm
      rw [Position.after_cons, Position.step, if_neg hc]
      simpa [byteLength, Nat.add_assoc] using hnext

/-- The position of the boundary of a character is found by a plain scan. -/
lemma position_byteLength (a b : List Char) :
    (LineTable.ofChars (a ++ b)).position (byteLength a) = Position.first.after a := by
  obtain ⟨l, ls, h, -⟩ := exists_splitLines (a ++ b)
  have hfind := find_splitLines a b [] 0 1 h
  have hsize : min (byteLength a) (byteLength (a ++ b)) = byteLength a := by
    rw [byteLength_append]
    omega
  rw [LineTable.ofChars, h, placeLines, LineTable.position]
  simp only [hsize]
  simpa [LineTable.find, byteLength, Position.first] using hfind

/-! ### The tokens of a text -/

lemma position_ofFault (p : Position) (f : Fault) : (ScanError.ofFault p f).position = p := by
  cases f <;> rfl

lemma position_ofLexeme (p : Position) (l : Lexeme) : (Token.ofLexeme p l).position = p := by
  cases l <;> rfl

namespace Stream

/-- The stream of what stands behind `pre` in a text. -/
def behind (pre cs : List Char) : Stream :=
  ofSegments (LineTable.ofChars (pre ++ cs)) (segmentsFrom (byteLength pre) cs)

lemma ofSource_eq_behind (source : String) : ofSource source = behind [] source.toList := rfl

lemma behind_blank (pre : List Char) {c : Char} (cs : List Char) (hc : isBlank c = true) :
    behind pre (c :: cs) = behind (pre ++ [c]) cs := by
  have hpre : byteLength pre + c.utf8Size = byteLength (pre ++ [c]) := by
    rw [byteLength_append, byteLength, byteLength, Nat.add_zero]
  rw [behind, behind, segmentsFrom, if_pos hc, hpre, List.append_assoc]
  rfl

lemma behind_fault (pre : List Char) {c : Char} {cs rest : List Char} {f : Fault}
    (hc : isBlank c = false) (hread : Piece.read c cs = (.fault f, rest)) :
    behind pre (c :: cs) = failed (ScanError.ofFault (Position.first.after pre) f) := by
  rw [behind, segmentsFrom, hc, hread, ← position_byteLength pre (c :: cs)]
  rfl

lemma behind_lexeme (pre : List Char) {c : Char} {cs rest : List Char} {l : Lexeme}
    (hc : isBlank c = false) (hread : Piece.read c cs = (.lexeme l, rest)) :
    behind pre (c :: cs) =
      next (Token.ofLexeme (Position.first.after pre) l) (behind (pre ++ l.chars) rest) := by
  have hchars : l.chars ++ rest = c :: cs := by
    have happend := Piece.chars_append_read c cs
    rwa [hread] at happend
  rw [behind, behind, segmentsFrom, hc, hread, ← position_byteLength pre (c :: cs),
    List.append_assoc, hchars, byteLength_append]
  rfl

/-- A fault that comes stands behind what has been read, and the tokens up to it stand in front of
it. -/
lemma before_of_behind {pre cs : List Char} {e : ScanError}
    (h : (behind pre cs).fault? = some e) :
    (∃ a, e.position = Position.first.after (pre ++ a)) ∧
      ∀ t ∈ (behind pre cs).tokens, t.position.Before e.position := by
  -- by induction on the length of what is left to read
  induction hn : cs.length using Nat.strongRecOn generalizing pre cs with
  | ind n ih =>
    cases cs with
    | nil =>
      rw [behind, segmentsFrom] at h
      cases h
    | cons c cs =>
      cases hc : isBlank c with
      | true =>
        rw [behind_blank pre cs hc] at h ⊢
        obtain ⟨⟨a, ha⟩, hall⟩ := ih cs.length (by rw [← hn]; simp) h rfl
        exact ⟨⟨[c] ++ a, by rw [ha, List.append_assoc]⟩, hall⟩
      | false =>
        have hlt := Piece.length_read_lt c cs
        have hne := Piece.chars_read_ne_nil c cs
        cases hread : Piece.read c cs with
        | mk piece rest =>
          rw [hread] at hlt hne
          cases piece with
          | fault f =>
            rw [behind_fault pre hc hread] at h ⊢
            cases h
            refine ⟨⟨[], by rw [position_ofFault, List.append_nil]⟩, ?_⟩
            intro t ht
            cases ht
          | lexeme l =>
            rw [behind_lexeme pre hc hread] at h ⊢
            simp only [fault?, tokens, isFinish_ofLexeme, Bool.false_eq_true, if_false] at h ⊢
            obtain ⟨⟨a, ha⟩, hall⟩ := ih rest.length (by rw [← hn]; exact hlt) h rfl
            refine ⟨⟨l.chars ++ a, by rw [ha, List.append_assoc]⟩, ?_⟩
            intro t ht
            rcases List.mem_cons.1 ht with rfl | ht
            · have hchars : l.chars ++ a ≠ [] := by
                intro hnil
                exact hne (List.append_eq_nil_iff.1 hnil).1
              rw [position_ofLexeme, ha, List.append_assoc, Position.after_append]
              exact Position.before_after _ hchars
            · exact hall t ht

end Stream

/-- The tokens in front of the fault of a text stand at earlier positions. -/
lemma before_of_fault? {source : String} {e : ScanError}
    (h : (Stream.ofSource source).fault? = some e) {t : Token}
    (ht : t ∈ (Stream.ofSource source).tokens) : t.position.Before e.position := by
  rw [Stream.ofSource_eq_behind] at h ht
  exact (Stream.before_of_behind h).2 t ht

end GrammarTree
