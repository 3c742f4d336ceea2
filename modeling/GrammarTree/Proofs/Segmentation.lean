/-
# The segments of a text

There is one way to cut a text into pieces so that each piece can be said to stand where it is, the
pieces come one after the other, and nothing but blanks is left between them.  `IsSegmentation` says
this of some segments without a word on how they are found, and `isSegmentation_iff` says that they
are the ones that `segmentsFrom` finds.

The proof goes along the text.  A blank at the front belongs to no piece (`isSegmentation_blank`).
Anything else has to be covered, and it is covered by the piece that is read there, which comes first
(`isSegmentation_cons`).
-/
import Mathlib.Tactic.ByContra
import GrammarTree.Proofs.Position
import GrammarTree.Proofs.Reading

namespace GrammarTree

/-- A segment lies in a text that starts at byte `offset`: it covers the characters of its piece, and
the piece can be said to stand in front of what follows. -/
def Segment.LiesIn (offset : Nat) (text : List Char) (s : Segment) : Prop :=
  ∃ before after, text = before ++ (s.piece.chars ++ after) ∧
    s.start = offset + byteLength before ∧ s.stop = s.start + byteLength s.piece.chars ∧
    s.piece.StandsBefore after

/-- Whether a segment covers a byte. -/
def Segment.Covers (s : Segment) (byte : Nat) : Prop := s.start ≤ byte ∧ byte < s.stop

/-- Some segments cut a text that starts at byte `offset`. -/
structure IsSegmentation (offset : Nat) (text : List Char) (segs : List Segment) : Prop where
  liesIn : ∀ s ∈ segs, s.LiesIn offset text
  nonempty : ∀ s ∈ segs, s.start < s.stop
  ordered : segs.Pairwise fun s t => s.stop ≤ t.start
  blank : ∀ before c after, text = before ++ c :: after →
    (∀ s ∈ segs, ¬ s.Covers (offset + byteLength before)) → isBlank c = true

/-! ### Places in a text -/

/-- Of two beginnings of a text, the one with fewer bytes is a beginning of the other. -/
lemma exists_append_of_byteLength_le {a b c d : List Char} (h : a ++ b = c ++ d)
    (hle : byteLength a ≤ byteLength c) : ∃ e, c = a ++ e ∧ b = e ++ d := by
  rcases List.append_eq_append_iff.1 h with ⟨e, hc, hb⟩ | ⟨e, rfl, hd⟩
  · exact ⟨e, hc, hb⟩
  · have he : e = [] := by
      by_contra hne
      have hpos := byteLength_pos hne
      rw [byteLength_append] at hle
      omega
    subst he
    exact ⟨[], by simp, by simpa using hd.symm⟩

variable {offset : Nat} {text cs rest : List Char} {c : Char} {p : Piece} {s : Segment}
  {segs : List Segment}

lemma Segment.LiesIn.start_lt_stop (h : s.LiesIn offset text) : s.start < s.stop := by
  obtain ⟨before, after, -, -, hstop, hstands⟩ := h
  obtain ⟨d, ds, hchars, -⟩ := Piece.exists_cons_of_standsBefore hstands
  have hpos : 0 < byteLength s.piece.chars := byteLength_pos (by simp [hchars])
  omega

lemma Segment.LiesIn.le_start (h : s.LiesIn offset text) : offset ≤ s.start := by
  obtain ⟨before, after, -, hstart, -⟩ := h
  omega

lemma Segment.LiesIn.stop_le (h : s.LiesIn offset text) : s.stop ≤ offset + byteLength text := by
  obtain ⟨before, after, rfl, hstart, hstop, -⟩ := h
  rw [byteLength_append, byteLength_append]
  omega

/-- What lies in the rest of a text lies in the text. -/
lemma Segment.LiesIn.of_append {a : List Char} (h : s.LiesIn (offset + byteLength a) rest) :
    s.LiesIn offset (a ++ rest) := by
  obtain ⟨before, after, rfl, hstart, hstop, hstands⟩ := h
  refine ⟨a ++ before, after, by rw [List.append_assoc], ?_, hstop, hstands⟩
  rw [byteLength_append]
  omega

/-- What lies in a text and starts in the rest of it lies in the rest. -/
lemma Segment.LiesIn.to_rest {a : List Char} (h : s.LiesIn offset (a ++ rest))
    (hle : offset + byteLength a ≤ s.start) : s.LiesIn (offset + byteLength a) rest := by
  obtain ⟨before, after, htext, hstart, hstop, hstands⟩ := h
  obtain ⟨e, rfl, hrest⟩ := exists_append_of_byteLength_le htext (by omega)
  refine ⟨e, after, hrest, ?_, hstop, hstands⟩
  rw [byteLength_append] at hstart
  omega

/-! ### The steps -/

lemma isSegmentation_nil : IsSegmentation offset [] segs ↔ segs = [] := by
  constructor
  · intro h
    rw [List.eq_nil_iff_forall_not_mem]
    intro s hs
    obtain ⟨before, after, htext, -, -, hstands⟩ := h.liesIn s hs
    obtain ⟨d, ds, hchars, -⟩ := Piece.exists_cons_of_standsBefore hstands
    simp [hchars] at htext
  · rintro rfl
    exact ⟨by simp, by simp, .nil, by simp⟩

/-- The segments that start behind `a` cut what follows it, if the others do not reach so far. -/
lemma IsSegmentation.to_rest {a : List Char} (first : List Segment) {later : List Segment}
    (h : IsSegmentation offset (a ++ rest) (first ++ later))
    (hfirst : ∀ s ∈ first, s.stop ≤ offset + byteLength a)
    (hlater : ∀ s ∈ later, offset + byteLength a ≤ s.start) :
    IsSegmentation (offset + byteLength a) rest later where
  liesIn s hs := (h.liesIn s (List.mem_append_right _ hs)).to_rest (hlater s hs)
  nonempty s hs := h.nonempty s (List.mem_append_right _ hs)
  ordered := (List.pairwise_append.1 h.ordered).2.1
  blank before c after hrest hnot := by
    have htext : a ++ rest = (a ++ before) ++ c :: after := by rw [hrest, List.append_assoc]
    refine h.blank _ c after htext fun s hs hcovers => ?_
    rw [byteLength_append, ← Nat.add_assoc] at hcovers
    rcases List.mem_append.1 hs with hs | hs
    · have hstop := hfirst s hs
      have hlt := hcovers.2
      omega
    · exact hnot s hs hcovers

/-- Segments of what follows `a` cut the whole text together with segments that cover the part of `a`
that is not blank. -/
lemma IsSegmentation.of_rest {a : List Char} (first : List Segment) {later : List Segment}
    (h : IsSegmentation (offset + byteLength a) rest later)
    (hlies : ∀ s ∈ first, s.LiesIn offset (a ++ rest))
    (hordered : first.Pairwise fun s t => s.stop ≤ t.start)
    (hfirst : ∀ s ∈ first, s.stop ≤ offset + byteLength a)
    (hblank : ∀ before c after, a = before ++ c :: after →
      (∀ s ∈ first, ¬ s.Covers (offset + byteLength before)) → isBlank c = true) :
    IsSegmentation offset (a ++ rest) (first ++ later) := by
  have hall : ∀ s ∈ first ++ later, s.LiesIn offset (a ++ rest) := by
    intro s hs
    rcases List.mem_append.1 hs with hs | hs
    · exact hlies s hs
    · exact (h.liesIn s hs).of_append
  refine ⟨hall, fun s hs => (hall s hs).start_lt_stop, ?_, ?_⟩
  · refine List.pairwise_append.2 ⟨hordered, h.ordered, fun s hs t ht => ?_⟩
    exact Nat.le_trans (hfirst s hs) (h.liesIn t ht).le_start
  · intro before c after htext hnot
    -- the character stands in `a` or behind it
    rcases List.append_eq_append_iff.1 htext with ⟨e, rfl, hrest⟩ | ⟨e, ha, hrest⟩
    · refine h.blank e c after hrest fun s hs hcovers => ?_
      refine hnot s (List.mem_append_right _ hs) ?_
      rwa [byteLength_append, ← Nat.add_assoc]
    · cases e with
      | nil =>
        rw [List.append_nil] at ha
        refine h.blank [] c after (by simpa using hrest.symm) fun s hs hcovers => ?_
        refine hnot s (List.mem_append_right _ hs) ?_
        rwa [ha] at hcovers
      | cons d e =>
        obtain ⟨rfl, -⟩ := List.cons.inj hrest
        exact hblank before c e ha fun s hs => hnot s (List.mem_append_left _ hs)

/-- A blank belongs to no segment. -/
lemma isSegmentation_blank (hc : isBlank c = true) :
    IsSegmentation offset (c :: cs) segs ↔ IsSegmentation (offset + c.utf8Size) cs segs := by
  have htext : c :: cs = [c] ++ cs := rfl
  have hwidth : offset + c.utf8Size = offset + byteLength [c] := rfl
  rw [htext, hwidth]
  constructor
  · intro h
    refine IsSegmentation.to_rest [] h (by simp) fun s hs => ?_
    obtain ⟨before, after, htext, hstart, -, hstands⟩ := h.liesIn s hs
    cases before with
    | nil =>
      -- a piece does not start with a blank
      obtain ⟨d, ds, hchars, hd⟩ := Piece.exists_cons_of_standsBefore hstands
      rw [hchars] at htext
      obtain ⟨rfl, -⟩ := List.cons.inj htext
      rw [hc] at hd
      cases hd
    | cons d before =>
      obtain ⟨rfl, -⟩ := List.cons.inj htext
      rw [hstart, byteLength, byteLength, byteLength]
      omega
  · intro h
    refine IsSegmentation.of_rest [] h (by simp) .nil (by simp) ?_
    intro before d after htext _
    have hd : d ∈ [c] := by simp [htext]
    rw [List.mem_singleton.1 hd, hc]

/-- The segment of a piece that starts at byte `offset`. -/
def Piece.segment (offset : Nat) (p : Piece) : Segment := ⟨p, offset, offset + p.width⟩

/-- A segment that covers a character which is no blank is that of the piece that is read there. -/
lemma Segment.LiesIn.eq_segment (hc : isBlank c = false) (hread : Piece.read c cs = (p, rest))
    (h : s.LiesIn offset (c :: cs)) (hstart : s.start ≤ offset) : s = p.segment offset := by
  obtain ⟨piece, start, stop⟩ := s
  obtain ⟨before, after, htext, hbefore, hstop, hstands⟩ := h
  dsimp only at htext hbefore hstop hstands hstart
  have hnil : before = [] := by
    by_contra hne
    have hpos := byteLength_pos hne
    omega
  rw [hnil, List.nil_append] at htext
  have hsame : Piece.read c cs = (piece, after) := (Piece.read_eq_iff hc).2 ⟨htext.symm, hstands⟩
  obtain ⟨rfl, rfl⟩ := Prod.mk.inj (hread.symm.trans hsame)
  rw [hnil, byteLength, Nat.add_zero] at hbefore
  rw [hstop, hbefore]
  rfl

/-- What is no blank belongs to the piece that is read there, and this piece comes first. -/
lemma isSegmentation_cons (hc : isBlank c = false) (hread : Piece.read c cs = (p, rest)) :
    IsSegmentation offset (c :: cs) segs ↔
      ∃ later, segs = p.segment offset :: later ∧
        IsSegmentation (offset + p.width) rest later := by
  obtain ⟨hchars, hstands⟩ := (Piece.read_eq_iff hc).1 hread
  constructor
  · intro h
    -- the first character has to be covered, and only this piece covers it
    obtain ⟨s, hs, hcovers⟩ : ∃ s ∈ segs, s.Covers (offset + byteLength []) := by
      by_contra! hnone
      have hblank := h.blank [] c cs rfl hnone
      rw [hc] at hblank
      cases hblank
    have hstart : s.start ≤ offset := hcovers.1
    have hsegment := (h.liesIn s hs).eq_segment hc hread hstart
    cases segs with
    | nil => cases hs
    | cons t later =>
      -- a segment in front of it would end before the text starts
      have ht : s = t := by
        rcases List.mem_cons.1 hs with rfl | hs
        · rfl
        · have hle : t.stop ≤ s.start := (List.pairwise_cons.1 h.ordered).1 s hs
          have hlies := h.liesIn t (by simp)
          have hlt := hlies.start_lt_stop
          have hoffset := hlies.le_start
          omega
      subst ht
      refine ⟨later, by rw [hsegment], ?_⟩
      rw [← hchars] at h
      refine IsSegmentation.to_rest [s] h ?_ fun t ht => ?_
      · intro t ht
        rw [List.mem_singleton.1 ht, hsegment]
        exact Nat.le_refl _
      · have hle : s.stop ≤ t.start := (List.pairwise_cons.1 h.ordered).1 t ht
        rwa [hsegment] at hle
  · rintro ⟨later, rfl, h⟩
    rw [← hchars]
    refine IsSegmentation.of_rest [p.segment offset] h ?_ (by simp) ?_ ?_
    · intro s hs
      rw [List.mem_singleton.1 hs]
      exact ⟨[], rest, rfl, rfl, rfl, hstands⟩
    · intro s hs
      rw [List.mem_singleton.1 hs]
      exact Nat.le_refl _
    · intro before d after htext hnot
      have hcovers : (p.segment offset).Covers (offset + byteLength before) := by
        have hwidth : p.width = byteLength before + (d.utf8Size + byteLength after) := by
          rw [Piece.width, htext, byteLength_append, byteLength]
        have hpos := d.utf8Size_pos
        constructor
        · exact Nat.le_add_right _ _
        · show offset + byteLength before < offset + p.width
          omega
      exact absurd hcovers (hnot _ (List.mem_singleton_self _))

/-- The segments that are found cut the text, and no others do. -/
lemma isSegmentation_iff : IsSegmentation offset cs segs ↔ segs = segmentsFrom offset cs := by
  fun_induction segmentsFrom offset cs generalizing segs with
  | case1 offset => exact isSegmentation_nil
  | case2 offset c cs hc ih => rw [isSegmentation_blank hc, ih]
  | case3 offset c cs hc ih =>
    rw [isSegmentation_cons (by simpa using hc) rfl]
    constructor
    · rintro ⟨later, rfl, hlater⟩
      rw [ih.1 hlater]
      rfl
    · intro h
      exact ⟨_, h, ih.2 rfl⟩

lemma isSegmentation_segments (source : String) :
    IsSegmentation 0 source.toList (segments source) :=
  isSegmentation_iff.2 rfl

/-! ### The theorem -/

/-- The segments of a text are the only ones that are not empty, come one after the other without
overlapping, lie between characters, each cover a piece that can be said to stand there, and leave
only blanks uncovered. -/
theorem segments_unique (source : String) (segs : List Segment) :
    IsSegmentation 0 source.toList segs ↔ segs = segments source :=
  isSegmentation_iff

/-- A star can belong to one delimiter of a comment only. -/
example : (segments "(***)(*)").map (·.piece) =
    [.lexeme (.comment ['*']), .fault .openComment, .lexeme (.symbol .closeParen)] := by
  decide +kernel

end GrammarTree
