/-
# Putting a space in the place of each comment

`withoutComments` is a text with one space in the place of each of its comments.  It is defined by
the bytes that the comments cover; what stands at each character of the text is decided on its own.

A comment separates what stands on both sides of it as a space does, so nothing that was read in the
text is read differently: if the text has no faults, the pieces that are left are those of the text
that are no comments (`pieces_withoutComments`).  This rests on what comes behind a piece.  It begins
with the character that stood there before, or with a space (`head?_blanked`), and neither a name nor
`:` nor `(` goes on with a space.
-/
import GrammarTree.Proofs.Segmentation

namespace GrammarTree

/-- Whether a piece is a comment. -/
def Piece.isComment : Piece → Bool
  | lexeme (.comment _) => true
  | _ => false

instance (s : Segment) (byte : Nat) : Decidable (s.Covers byte) :=
  inferInstanceAs (Decidable (_ ∧ _))

/-- What stands for a character at byte `byte` when each of some segments becomes one space: the
space stands for the first character of a segment, and nothing stands for the others. -/
def replaced (segs : List Segment) (byte : Nat) (c : Char) : List Char :=
  match segs.find? (·.Covers byte) with
  | none => [c]
  | some s => if s.start = byte then [' '] else []

/-- A text that starts at byte `offset`, with one space in the place of each of some segments. -/
def blankOut (segs : List Segment) (offset : Nat) : List Char → List Char
  | [] => []
  | c :: cs => replaced segs offset c ++ blankOut segs (offset + c.utf8Size) cs

/-- A text that starts at byte `offset`, with one space in the place of each of its comments. -/
def blanked (offset : Nat) (cs : List Char) : List Char :=
  blankOut ((segmentsFrom offset cs).filter (·.piece.isComment)) offset cs

/-- A text with one space in the place of each of its comments. -/
def withoutComments (source : String) : String := String.ofList (blanked 0 source.toList)

variable {offset : Nat} {cs rest : List Char} {c : Char} {p : Piece} {s : Segment}
  {segs : List Segment}

/-! ### Segments and places -/

lemma blankOut_append (segs : List Segment) (offset : Nat) (a b : List Char) :
    blankOut segs offset (a ++ b) =
      blankOut segs offset a ++ blankOut segs (offset + byteLength a) b := by
  induction a generalizing offset with
  | nil => rfl
  | cons c a ih => simp only [List.cons_append, blankOut, byteLength, ih, List.append_assoc,
      Nat.add_assoc]

/-- Segments that start later leave a text as it is. -/
lemma blankOut_eq_self (h : ∀ s ∈ segs, offset + byteLength cs ≤ s.start) :
    blankOut segs offset cs = cs := by
  induction cs generalizing offset with
  | nil => rfl
  | cons c cs ih =>
    rw [byteLength] at h
    have hnone : segs.find? (·.Covers offset) = none := by
      rw [List.find?_eq_none]
      intro s hs hcovers
      have hle : s.start ≤ offset := (of_decide_eq_true hcovers).1
      have hlater := h s hs
      have hpos := c.utf8Size_pos
      omega
    rw [blankOut, replaced, hnone, ih]
    · rfl
    · intro s hs
      have hlater := h s hs
      omega

/-- A segment that has ended plays no part. -/
lemma blankOut_cons_of_stop_le (h : s.stop ≤ offset) :
    blankOut (s :: segs) offset cs = blankOut segs offset cs := by
  induction cs generalizing offset with
  | nil => rfl
  | cons c cs ih =>
    have hnot : ¬ s.Covers offset := fun hcovers => absurd hcovers.2 (by omega)
    have hfind : (s :: segs).find? (·.Covers offset) = segs.find? (·.Covers offset) := by
      rw [List.find?_cons, decide_eq_false hnot]
    rw [blankOut, replaced, hfind, ih (by omega)]
    rfl

lemma replaced_of_covers (h : s.Covers offset) (c : Char) :
    replaced (s :: segs) offset c = if s.start = offset then [' '] else [] := by
  rw [replaced, List.find?_cons, decide_eq_true h]

/-- Nothing stands for what lies behind the first character of a segment. -/
lemma blankOut_inside (hstart : s.start < offset) (hstop : offset + byteLength cs ≤ s.stop) :
    blankOut (s :: segs) offset cs = [] := by
  induction cs generalizing offset with
  | nil => rfl
  | cons c cs ih =>
    rw [byteLength] at hstop
    have hpos := c.utf8Size_pos
    have hcovers : s.Covers offset := ⟨by omega, by omega⟩
    have hrest : blankOut (s :: segs) (offset + c.utf8Size) cs = [] := ih (by omega) (by omega)
    rw [blankOut, replaced_of_covers hcovers, if_neg (by omega), hrest]
    rfl

/-- One space stands for all characters of a segment. -/
lemma blankOut_whole (hne : cs ≠ []) (hstop : s.start + byteLength cs = s.stop) :
    blankOut (s :: segs) s.start cs = [' '] := by
  cases cs with
  | nil => exact absurd rfl hne
  | cons c cs =>
    rw [byteLength] at hstop
    have hpos := c.utf8Size_pos
    have hcovers : s.Covers s.start := ⟨by omega, by omega⟩
    have hrest : blankOut (s :: segs) (s.start + c.utf8Size) cs = [] :=
      blankOut_inside (by omega) (by omega)
    rw [blankOut, replaced_of_covers hcovers, if_pos rfl, hrest]
    rfl

/-! ### The steps -/

lemma le_start_of_mem_comments (h : s ∈ (segmentsFrom offset cs).filter (·.piece.isComment)) :
    offset ≤ s.start :=
  ((isSegmentation_iff.2 rfl).liesIn s (List.mem_filter.1 h).1).le_start

lemma blanked_nil (offset : Nat) : blanked offset [] = [] := rfl

lemma blanked_blank (hc : isBlank c = true) (cs : List Char) :
    blanked offset (c :: cs) = c :: blanked (offset + c.utf8Size) cs := by
  have hfirst : blankOut ((segmentsFrom (offset + c.utf8Size) cs).filter (·.piece.isComment))
      offset [c] = [c] := blankOut_eq_self fun s hs => le_start_of_mem_comments hs
  have happend := blankOut_append
    ((segmentsFrom (offset + c.utf8Size) cs).filter (·.piece.isComment)) offset [c] cs
  rw [hfirst] at happend
  rw [blanked, segmentsFrom, if_pos hc]
  exact happend

lemma segmentsFrom_cons (hc : isBlank c = false) (hread : Piece.read c cs = (p, rest)) :
    segmentsFrom offset (c :: cs) = p.segment offset :: segmentsFrom (offset + p.width) rest := by
  rw [segmentsFrom, if_neg (by simp [hc]), hread]
  rfl

/-- What is no comment is left as it is. -/
lemma blanked_piece (hc : isBlank c = false) (hread : Piece.read c cs = (p, rest))
    (hp : p.isComment = false) :
    blanked offset (c :: cs) = p.chars ++ blanked (offset + p.width) rest := by
  obtain ⟨hchars, -⟩ := (Piece.read_eq_iff hc).1 hread
  have hkept : (p.segment offset).piece.isComment = false := hp
  have hfirst : blankOut ((segmentsFrom (offset + p.width) rest).filter (·.piece.isComment))
      offset p.chars = p.chars := blankOut_eq_self fun s hs => le_start_of_mem_comments hs
  rw [blanked, segmentsFrom_cons hc hread, List.filter_cons, hkept, if_neg (by simp), ← hchars,
    blankOut_append, hfirst]
  rfl

/-- A space stands for a comment. -/
lemma blanked_comment (hc : isBlank c = false) (hread : Piece.read c cs = (p, rest))
    (hp : p.isComment = true) :
    blanked offset (c :: cs) = ' ' :: blanked (offset + p.width) rest := by
  obtain ⟨hchars, hstands⟩ := (Piece.read_eq_iff hc).1 hread
  obtain ⟨d, ds, hcons, -⟩ := Piece.exists_cons_of_standsBefore hstands
  have hgone : (p.segment offset).piece.isComment = true := hp
  have hspace : ∀ later, blankOut (p.segment offset :: later) offset p.chars = [' '] :=
    fun later => blankOut_whole (s := p.segment offset) (by simp [hcons]) rfl
  have hpast : ∀ later, blankOut (p.segment offset :: later) (offset + byteLength p.chars) rest =
      blankOut later (offset + byteLength p.chars) rest :=
    fun later => blankOut_cons_of_stop_le (Nat.le_refl _)
  rw [blanked, segmentsFrom_cons hc hread, List.filter_cons, hgone, if_pos rfl, ← hchars,
    blankOut_append, hspace, hpast]
  rfl

/-! ### What follows a piece -/

/-- The first character is the one that stood there before, or a space. -/
lemma head?_blanked {d : Char} (h : (blanked offset cs).head? = some d) :
    d = ' ' ∨ cs.head? = some d := by
  cases cs with
  | nil => cases h
  | cons c cs =>
    cases hc : isBlank c with
    | true =>
      rw [blanked_blank hc] at h
      exact Or.inr h
    | false =>
      rcases hread : Piece.read c cs with ⟨p, rest⟩
      cases hp : p.isComment with
      | true =>
        rw [blanked_comment hc hread hp] at h
        exact Or.inl (Option.some.inj h).symm
      | false =>
        obtain ⟨hchars, hstands⟩ := (Piece.read_eq_iff hc).1 hread
        obtain ⟨e, es, hcons, -⟩ := Piece.exists_cons_of_standsBefore hstands
        rw [blanked_piece hc hread hp, hcons] at h
        rw [hcons] at hchars
        rw [← hchars]
        exact Or.inr h

/-- A character other than a space that stands at the front stood there before. -/
lemma singleton_prefix_of_blanked {d : Char} (hd : d ≠ ' ') (h : [d] <+: blanked offset cs) :
    [d] <+: cs := by
  obtain ⟨ds, hds⟩ := h
  have hhead : (blanked offset cs).head? = some d := by rw [← hds]; rfl
  rcases head?_blanked hhead with hspace | hcs
  · exact absurd hspace hd
  · obtain ⟨es, rfl⟩ := List.head?_eq_some_iff.1 hcs
    exact ⟨es, rfl⟩

/-- Two equals signs at the front stood there before. -/
lemma equals_prefix_of_blanked (h : ['=', '='] <+: blanked offset cs) : ['=', '='] <+: cs := by
  have hone : ['='] <+: blanked offset cs := (by decide : ['='] <+: ['=', '=']).trans h
  obtain ⟨ds, rfl⟩ := singleton_prefix_of_blanked (by decide) hone
  have hstep : blanked offset ('=' :: ds) = '=' :: blanked (offset + 1) ds :=
    blanked_piece (p := .lexeme (.symbol .equals)) rfl rfl rfl
  rw [List.singleton_append, hstep, List.cons_prefix_cons] at h
  obtain ⟨es, rfl⟩ := singleton_prefix_of_blanked (by decide) h.2
  exact ⟨es, rfl⟩

/-- What could be said to stand in front of a text can be said so after comments were taken out. -/
lemma Lexeme.StandsBefore.blanked {l : Lexeme} (h : l.StandsBefore rest) :
    l.StandsBefore (blanked offset rest) := by
  cases l with
  | name ds =>
    refine ⟨h.1, fun d hd => ?_⟩
    rcases head?_blanked hd with rfl | hrest
    · decide
    · exact h.2 d hrest
  | quoted q content => exact h
  | comment content => exact h
  | symbol y =>
    refine ⟨fun hy hprefix => h.1 hy (equals_prefix_of_blanked hprefix), fun hy hprefix => ?_⟩
    exact h.2 hy (singleton_prefix_of_blanked (by decide) hprefix)

/-! ### The pieces that are left -/

/-- Without faults, the pieces that are left are those that are no comments. -/
lemma pieces_blanked (h : ∀ s ∈ segmentsFrom offset cs, ∃ l, s.piece = .lexeme l) (start : Nat) :
    (segmentsFrom start (blanked offset cs)).map (·.piece) =
      ((segmentsFrom offset cs).map (·.piece)).filter (!·.isComment) := by
  fun_induction segmentsFrom offset cs generalizing start with
  | case1 offset =>
    rw [blanked_nil, segmentsFrom]
    rfl
  | case2 offset c cs hc ih => rw [blanked_blank hc, segmentsFrom, if_pos hc, ih h]
  | case3 offset c cs hc ih =>
    rw [Bool.not_eq_true] at hc
    rcases hread : Piece.read c cs with ⟨p, rest⟩
    rw [hread] at h ih
    obtain ⟨l, hl⟩ := h _ (List.mem_cons_self ..)
    have hl' : p = .lexeme l := hl
    have hrest := ih fun s hs => h s (List.mem_cons_of_mem _ hs)
    obtain ⟨-, hstands⟩ := (Piece.read_eq_iff hc).1 hread
    rw [List.map_cons, List.filter_cons]
    cases hp : p.isComment with
    | true =>
      have hspace : isBlank ' ' = true := rfl
      rw [blanked_comment hc hread hp, segmentsFrom, if_pos hspace, hrest]
      rfl
    | false =>
      -- the piece is read again, since it still can be said to stand there
      subst hl'
      obtain ⟨d, ds, hcons, hd⟩ := Piece.exists_cons_of_standsBefore hstands
      have hagain : Piece.read d (ds ++ blanked (offset + (Piece.lexeme l).width) rest) =
          (.lexeme l, blanked (offset + (Piece.lexeme l).width) rest) := by
        rw [Piece.read_eq_iff hd, hcons]
        exact ⟨rfl, Lexeme.StandsBefore.blanked hstands⟩
      rw [blanked_piece hc hread hp, hcons, List.cons_append, segmentsFrom_cons hd hagain,
        List.map_cons, hrest]
      rfl

/-- Without faults, the pieces of a text in which a space stands for each comment are the pieces of
the text that are no comments. -/
lemma pieces_withoutComments {source : String}
    (h : ∀ s ∈ segments source, ∃ l, s.piece = .lexeme l) :
    (segments (withoutComments source)).map (·.piece) =
      ((segments source).map (·.piece)).filter (!·.isComment) := by
  rw [segments, withoutComments, String.toList_ofList]
  exact pieces_blanked h 0

end GrammarTree
