/-
# Looking up a position

The position of a byte offset is what a plain reading of the text in front of it tells
(`position_tells_line_and_column`).  The text is cut at the offset (`Cut`): some full lines, the
characters of the next line that end by the offset, and what ends later.  The line is one more than
the number of full lines.  The column counts the characters behind them, or the bytes if the offset
falls within a character.

A cut is found in both tables.  In the list of lines and in the table of line starts it shows as what
starts in front of the line, the line, and what starts behind the offset (`Cut.exists_lines`,
`Cut.exists_starts`).  The first is all that a search from line to line needs, and the second all
that halving the table needs, which then never reads outside of it (`search?_eq`).
-/
import GrammarTree.Proofs.Pulling
import GrammarTree.Text.LineStarts

namespace GrammarTree

variable {cs a b before line behind : List Char} {c : Char} {n offset number : Nat}

/-- The number of bytes of a text is that of its characters. -/
lemma utf8ByteSize_eq_byteLength (s : String) : s.utf8ByteSize = byteLength s.toList := by
  have hlist : ∀ cs : List Char, (String.ofList cs).utf8ByteSize = byteLength cs := by
    intro cs
    induction cs with
    | nil => rfl
    | cons c cs ih =>
      rw [String.ofList_cons, String.utf8ByteSize_append, String.utf8ByteSize_singleton, ih]
      rfl
  rw [← hlist, String.ofList_toList]

/-- A place between two characters is the end of the text in front of it. -/
lemma exists_of_isValid {s : String} (h : (String.Pos.Raw.mk n).IsValid s) :
    ∃ a b, s.toList = a ++ b ∧ n = byteLength a := by
  obtain ⟨s₁, s₂, hs, hn⟩ := String.Pos.Raw.isValid_iff_exists_append.1 h
  refine ⟨s₁.toList, s₂.toList, by rw [hs, String.toList_append], ?_⟩
  rw [← utf8ByteSize_eq_byteLength]
  exact congrArg String.Pos.Raw.byteIdx hn

/-! ### Cutting a text at an offset -/

/-- The characters of a text that end at an offset or before it, those up to the last line feed and
those of the line behind it, and the characters that end later. -/
structure Cut (cs : List Char) (n : Nat) (before line behind : List Char) : Prop where
  text : cs = before ++ line ++ behind
  /-- There is a line feed right in front of the line, unless it is the first one. -/
  full : before = [] ∨ before.getLast? = some '\n'
  /-- There is none in it up to the offset. -/
  feedless : '\n' ∉ line
  le : byteLength (before ++ line) ≤ n
  lt : ∀ c rest, behind = c :: rest → n < byteLength (before ++ line) + c.utf8Size

/-- An offset up to the end of a text cuts it. -/
lemma exists_cut (h : n ≤ byteLength cs) : ∃ before line behind, Cut cs n before line behind := by
  induction cs generalizing n with
  | nil => exact ⟨[], [], [], rfl, Or.inl rfl, by simp, Nat.zero_le n, by simp⟩
  | cons c cs ih =>
    rw [byteLength] at h
    by_cases hc : n < c.utf8Size
    · refine ⟨[], [], c :: cs, rfl, Or.inl rfl, by simp, Nat.zero_le n, ?_⟩
      rintro d rest ⟨⟩
      simpa [byteLength] using hc
    · obtain ⟨before, line, behind, htext, hfull, hfeedless, hle, hlt⟩ :=
        ih (n := n - c.utf8Size) (by omega)
      have hlt' : ∀ d rest, behind = d :: rest →
          n < c.utf8Size + byteLength (before ++ line) + d.utf8Size := by
        intro d rest hd
        have hd := hlt d rest hd
        omega
      -- the character belongs to the full lines if there are any or if it is a line feed
      by_cases hline : before = [] ∧ c ≠ '\n'
      · obtain ⟨rfl, hne⟩ := hline
        refine ⟨[], c :: line, behind, by rw [htext]; rfl, Or.inl rfl, ?_, ?_, hlt'⟩
        · simpa using ⟨hne.symm, hfeedless⟩
        · have hlength : byteLength ([] ++ c :: line) = c.utf8Size + byteLength ([] ++ line) := rfl
          omega
      · refine ⟨c :: before, line, behind, by rw [htext]; rfl, Or.inr ?_, hfeedless, ?_, hlt'⟩
        · cases before with
          | nil => simpa using hline
          | cons d ds => simpa using hfull
        · have hlength : byteLength (c :: before ++ line) =
              c.utf8Size + byteLength (before ++ line) := rfl
          omega

/-- The offset is the boundary of a character if no character is cut. -/
lemma Cut.isValid_iff {s : String} (h : Cut s.toList n before line behind) :
    (String.Pos.Raw.mk n).IsValid s ↔ byteLength (before ++ line) = n := by
  constructor
  · intro hvalid
    obtain ⟨a, b, hab, rfl⟩ := exists_of_isValid hvalid
    obtain ⟨e, rfl, hbehind⟩ := exists_append_of_byteLength_le (h.text.symm.trans hab) h.le
    cases e with
    | nil => rw [List.append_nil]
    | cons c rest =>
      have hlt := h.lt c _ hbehind
      rw [byteLength_append, byteLength] at hlt
      omega
  · intro hn
    refine String.Pos.Raw.isValid_iff_exists_append.2
      ⟨String.ofList (before ++ line), String.ofList behind, ?_, ?_⟩
    · rw [← String.toList_inj, String.toList_append, String.toList_ofList, String.toList_ofList,
        h.text]
    · rw [String.rawEndPos, utf8ByteSize_eq_byteLength, String.toList_ofList, hn]

/-! ### Counting characters -/

/-- If the offset falls within a character, or behind the text, no number of characters ends at it. -/
lemma charsIn?_eq_none (hle : byteLength a < n)
    (hlt : ∀ c rest, b = c :: rest → n < byteLength a + c.utf8Size) :
    charsIn? n (a ++ b) = none := by
  obtain ⟨n, rfl⟩ : ∃ m, n = m + 1 := ⟨n - 1, by omega⟩
  induction a generalizing n with
  | nil =>
    cases b with
    | nil => rfl
    | cons c rest =>
      have hc := hlt c rest rfl
      rw [byteLength, Nat.zero_add] at hc
      rw [List.nil_append, charsIn?, if_neg (Nat.not_le_of_gt hc)]
  | cons d a ih =>
    simp only [byteLength] at hle hlt
    obtain ⟨m, hm⟩ : ∃ m, n + 1 - d.utf8Size = m + 1 := ⟨n - d.utf8Size, by omega⟩
    have hnone : charsIn? (m + 1) (a ++ b) = none := by
      refine ih m (by omega) fun c rest hc => ?_
      have hn := hlt c rest hc
      omega
    rw [List.cons_append, charsIn?, if_pos (by omega), hm, hnone]
    rfl

/-- The characters that end at the offset are as many as those that end by it, if the last of them
ends at it. -/
lemma charsIn?_append (hle : byteLength a ≤ n)
    (hlt : ∀ c rest, b = c :: rest → n < byteLength a + c.utf8Size) :
    charsIn? n (a ++ b) = if byteLength a = n then some a.length else none := by
  split
  · rename_i heq
    rw [← heq, charsIn?_byteLength]
  · exact charsIn?_eq_none (by omega) hlt

/-- How far behind the start of its line an offset is: in characters, or in bytes within a
character. -/
def distanceOf (n : Nat) (before line : List Char) : Nat :=
  if byteLength (before ++ line) = n then line.length else n - byteLength before

/-- The distance is counted in characters that begin with those of the line. -/
lemma Cut.charsIn?_eq (h : Cut cs n before line behind) {tail : List Char}
    (htail : ∀ c rest, tail = c :: rest → n < byteLength (before ++ line) + c.utf8Size) :
    charsIn? (n - byteLength before) (line ++ tail) =
      if byteLength (before ++ line) = n then some line.length else none := by
  have hle := h.le
  simp only [byteLength_append] at hle htail ⊢
  have hiff : byteLength line = n - byteLength before ↔ byteLength before + byteLength line = n := by
    omega
  simp only [← hiff]
  refine charsIn?_append (by omega) fun c rest hc => ?_
  have hn := htail c rest hc
  omega

/-! ### The list of lines -/

/-- Lines start where the text starts and behind each of its line feeds. -/
lemma map_start_placeLines (offset : Nat) (cs : List Char) :
    (placeLines offset (splitLines cs)).map Line.start =
      offset :: LineStarts.behindFeeds offset cs := by
  induction cs generalizing offset with
  | nil => rfl
  | cons c cs ih =>
    rw [splitLines, LineStarts.behindFeeds]
    split
    · rename_i hc
      subst hc
      exact congrArg (offset :: ·) (ih (offset + 1))
    · obtain ⟨l, ls, hsplit, -⟩ := exists_splitLines cs
      have hrest := ih (offset + c.utf8Size)
      rw [hsplit, placeLines, List.map_cons, List.cons.injEq] at hrest
      rw [hsplit, ← hrest.2, Nat.add_assoc]
      rfl

/-- The full lines in front of a line start in front of it. -/
lemma exists_placeLines_append (hfull : before = [] ∨ before.getLast? = some '\n')
    (offset : Nat) (cs : List Char) :
    ∃ earlier : List Line, earlier.length = before.count '\n' ∧
      (∀ l ∈ earlier, l.start < offset + byteLength before) ∧
      placeLines offset (splitLines (before ++ cs)) =
        earlier ++ placeLines (offset + byteLength before) (splitLines cs) := by
  induction before generalizing offset with
  | nil => exact ⟨[], rfl, by simp, rfl⟩
  | cons c before ih =>
    have hlast : (c :: before).getLast? = some '\n' := by simpa using hfull
    have hc := c.utf8Size_pos
    by_cases hfeed : c = '\n'
    · subst hfeed
      have hfull' : before = [] ∨ before.getLast? = some '\n' := by
        cases before with
        | nil => exact Or.inl rfl
        | cons d ds => exact Or.inr (by simpa using hlast)
      obtain ⟨earlier, hlength, hstart, heq⟩ := ih hfull' (offset + 1)
      have hoffset : offset + 1 + byteLength before = offset + byteLength ('\n' :: before) := by
        rw [Nat.add_assoc]
        rfl
      rw [hoffset] at hstart heq
      refine ⟨⟨offset, ['\n']⟩ :: earlier, ?_, ?_, ?_⟩
      · rw [List.length_cons, hlength, List.count_cons_self]
      · refine List.forall_mem_cons.2 ⟨?_, hstart⟩
        show offset < _
        omega
      · rw [List.cons_append, splitLines, if_pos rfl, placeLines]
        exact congrArg (⟨offset, ['\n']⟩ :: ·) heq
    · have hlast' : before.getLast? = some '\n' := by
        cases before with
        | nil => exact absurd (Option.some.inj hlast) hfeed
        | cons d ds => simpa using hlast
      obtain ⟨earlier, hlength, hstart, heq⟩ := ih (Or.inr hlast') (offset + c.utf8Size)
      have hoffset : offset + c.utf8Size + byteLength before = offset + byteLength (c :: before) :=
        Nat.add_assoc _ _ _
      rw [hoffset] at hstart heq
      obtain ⟨l, ls, hsplit, -⟩ := exists_splitLines (before ++ cs)
      rw [hsplit, placeLines] at heq
      -- the line that the character belongs to is a full one
      cases earlier with
      | nil => exact absurd (List.mem_of_getLast? hlast') (List.count_eq_zero.1 hlength.symm)
      | cons e earlier =>
        obtain ⟨-, hrest⟩ := List.cons.inj heq
        refine ⟨⟨offset, c :: l⟩ :: earlier, ?_, ?_, ?_⟩
        · rw [List.count_cons_of_ne hfeed, ← hlength, List.length_cons, List.length_cons]
        · refine List.forall_mem_cons.2 ⟨?_, (List.forall_mem_cons.1 hstart).2⟩
          show offset < offset + (c.utf8Size + byteLength before)
          omega
        · rw [List.cons_append, splitLines, if_neg hfeed, hsplit, placeLines, byteLength,
            ← Nat.add_assoc, hrest]
          rfl

/-- Without a line feed in front of it the text goes on with the same line. -/
lemma splitLines_append (hfeedless : '\n' ∉ line) {l : List Char} {ls : List (List Char)}
    (h : splitLines cs = l :: ls) : splitLines (line ++ cs) = (line ++ l) :: ls := by
  induction line with
  | nil => exact h
  | cons c line ih =>
    obtain ⟨hc, hline⟩ := List.ne_and_not_mem_of_not_mem_cons hfeedless
    rw [List.cons_append, splitLines, if_neg hc.symm, ih hline]
    rfl

/-- The first line begins with what the text begins with. -/
lemma exists_cons_of_splitLines {l : List Char} {ls : List (List Char)}
    (h : splitLines cs = (c :: l) :: ls) : ∃ rest, cs = c :: rest := by
  cases cs with
  | nil => cases h
  | cons d cs =>
    obtain ⟨m, ms, hsplit, -⟩ := exists_splitLines cs
    rw [splitLines, hsplit] at h
    refine ⟨cs, ?_⟩
    split at h
    · rw [(List.cons.inj (List.cons.inj h).1).1]
    · rw [(List.cons.inj (List.cons.inj h).1).1]

/-- Without a line feed in front of it the lines behind are the same. -/
lemma behindFeeds_append (hfeedless : '\n' ∉ line) (offset : Nat) (cs : List Char) :
    LineStarts.behindFeeds offset (line ++ cs) =
      LineStarts.behindFeeds (offset + byteLength line) cs := by
  induction line generalizing offset with
  | nil => rfl
  | cons c line ih =>
    obtain ⟨hc, hline⟩ := List.ne_and_not_mem_of_not_mem_cons hfeedless
    rw [List.cons_append, LineStarts.behindFeeds, if_neg hc.symm, ih hline, Nat.add_assoc]
    rfl

lemma lt_of_mem_behindFeeds (h : n ∈ LineStarts.behindFeeds offset cs) : offset < n := by
  induction cs generalizing offset with
  | nil => cases h
  | cons c cs ih =>
    rw [LineStarts.behindFeeds] at h
    split at h
    · rcases List.mem_cons.1 h with rfl | h
      · exact Nat.lt_succ_self offset
      · exact Nat.lt_of_succ_lt (ih h)
    · exact Nat.lt_of_le_of_lt (Nat.le_add_right _ _) (ih h)

/-- Lines do not start before the first character ends. -/
lemma le_of_mem_behindFeeds (h : n ∈ LineStarts.behindFeeds offset (c :: cs)) :
    offset + c.utf8Size ≤ n := by
  rw [LineStarts.behindFeeds] at h
  split at h
  · rename_i hc
    subst hc
    rcases List.mem_cons.1 h with rfl | h
    · exact Nat.le_refl _
    · exact Nat.le_of_lt (lt_of_mem_behindFeeds h)
  · exact Nat.le_of_lt (lt_of_mem_behindFeeds h)

/-- In the list of lines, those in front of the one with the offset start before it, and those behind
it start after the offset. -/
lemma Cut.exists_lines (h : Cut cs n before line behind) :
    ∃ (earlier : List Line) (l : Line) (later : List Line),
      placeLines 0 (splitLines cs) = earlier ++ l :: later ∧
      earlier.length = before.count '\n' ∧ (∀ e ∈ earlier, e.start < l.start) ∧
      l.start = byteLength before ∧ (∀ e ∈ later, n < e.start) ∧
      charsIn? (n - byteLength before) l.chars =
        if byteLength (before ++ line) = n then some line.length else none := by
  obtain ⟨earlier, hlength, hstart, heq⟩ :=
    exists_placeLines_append h.full 0 (line ++ behind)
  obtain ⟨l, ls, hsplit, -⟩ := exists_splitLines behind
  have hline := splitLines_append h.feedless hsplit
  rw [Nat.zero_add] at hstart heq
  refine ⟨earlier, ⟨byteLength before, line ++ l⟩,
    placeLines (byteLength before + byteLength (line ++ l)) ls, ?_, hlength, hstart, rfl, ?_, ?_⟩
  · rw [h.text, List.append_assoc, heq, hline, placeLines]
  · -- the lines that start later start behind a line feed that ends later
    have hstarts := map_start_placeLines (byteLength before) (line ++ behind)
    rw [hline, placeLines, List.map_cons, List.cons.injEq, behindFeeds_append h.feedless] at hstarts
    have hlt := h.lt
    rw [byteLength_append] at hlt
    intro e he
    have hmem := List.mem_map_of_mem (f := Line.start) he
    rw [hstarts.2] at hmem
    cases hbehind : behind with
    | nil =>
      rw [hbehind] at hmem
      cases hmem
    | cons c rest =>
      rw [hbehind] at hmem
      exact Nat.lt_of_lt_of_le (hlt c rest hbehind) (le_of_mem_behindFeeds hmem)
  · refine h.charsIn?_eq fun c rest hc => ?_
    -- the line goes on with what stands behind the offset
    rw [hc] at hsplit
    obtain ⟨rest', hbehind⟩ := exists_cons_of_splitLines hsplit
    exact h.lt c rest' hbehind

/-! ### The table of line starts -/

/-- In the table of line starts, those in front of the line with the offset are smaller than its
start, and those behind it are greater than the offset. -/
lemma Cut.exists_starts (h : Cut cs n before line behind) :
    ∃ earlier later : List Nat,
      (LineStarts.ofChars cs).offsets = (earlier ++ byteLength before :: later).toArray ∧
      earlier.length = before.count '\n' ∧ (∀ m ∈ earlier, m < byteLength before) ∧
      ∀ m ∈ later, n < m := by
  obtain ⟨earlier, l, later, heq, hlength, hearlier, hstart, hlater, -⟩ := h.exists_lines
  refine ⟨earlier.map Line.start, later.map Line.start, ?_, ?_, ?_, ?_⟩
  · rw [LineStarts.ofChars, ← map_start_placeLines, heq, List.map_append, List.map_cons, hstart]
  · rw [List.length_map, hlength]
  · rw [← hstart]
    exact List.forall_mem_map.2 hearlier
  · exact List.forall_mem_map.2 hlater

/-- Where a number stands in a list tells how it compares with the one that is looked for. -/
lemma cases_of_getElem? {earlier later : List Nat} {m k i : Nat}
    (hearlier : ∀ x ∈ earlier, x < m) (hlater : ∀ x ∈ later, n < x)
    (h : (earlier ++ m :: later)[i]? = some k) :
    i < earlier.length ∧ k < m ∨ i = earlier.length ∧ k = m ∨ earlier.length < i ∧ n < k := by
  rcases Nat.lt_trichotomy i earlier.length with hi | hi | hi
  · rw [List.getElem?_append_left hi] at h
    exact Or.inl ⟨hi, hearlier k (List.mem_of_getElem? h)⟩
  · rw [List.getElem?_append_right (Nat.le_of_eq hi.symm), hi, Nat.sub_self] at h
    exact Or.inr (Or.inl ⟨hi, (Option.some.inj h).symm⟩)
  · obtain ⟨j, rfl⟩ := Nat.exists_eq_add_of_lt hi
    rw [List.getElem?_append_right (Nat.le_of_lt hi), Nat.add_assoc, Nat.add_sub_cancel_left] at h
    exact Or.inr (Or.inr ⟨hi, hlater k (List.mem_of_getElem? h)⟩)

/-- Halving a table finds the greatest number that is not greater than the one that is looked for, and
never reads outside of the table. -/
lemma search?_eq {table : Array Nat} {m place low high : Nat}
    (hcases : ∀ {i k}, table[i]? = some k →
      i < place ∧ k < m ∨ i = place ∧ k = m ∨ place < i ∧ n < k)
    (hm : m ≤ n) (hlow : low ≤ place + 1) (hfirst : m = n → low ≤ place) (hhigh : place + 1 ≤ high)
    (hsize : high ≤ table.size) :
    LineStarts.search? table n low high =
      some (if m = n then .ok place else .error (place + 1)) := by
  -- what is looked for stays between the two indexes
  fun_induction LineStarts.search? table n low high with
  | case1 low high hlt middle hnone =>
    have hmiddle : middle < table.size := by
      show low + (high - low) / 2 < _
      omega
    rw [Array.getElem?_eq_getElem hmiddle] at hnone
    cases hnone
  | case2 low high hlt middle hfound =>
    obtain ⟨hplace, hmn⟩ : middle = place ∧ m = n := by
      have hwhere := hcases hfound
      omega
    rw [if_pos hmn, hplace]
  | case3 low high hlt middle k hfound hne hless ih =>
    have hwhere := hcases hfound
    exact ih (by omega) (by omega) hhigh hsize
  | case4 low high hlt middle k hfound hne hless ih =>
    have hwhere := hcases hfound
    have hmiddle : middle ≤ high := by
      show low + (high - low) / 2 ≤ _
      omega
    exact ih hlow hfirst (by omega) (by omega)
  | case5 low high hle =>
    have hplace : low = place + 1 := by omega
    have hmn : m ≠ n := by
      intro heq
      have hle := hfirst heq
      omega
    rw [if_neg hmn, hplace]

/-- The line of an offset is found in the table of line starts, and so is its start. -/
lemma Cut.line?_eq (h : Cut cs n before line behind) :
    (LineStarts.ofChars cs).line? n = some (before.count '\n') ∧
      (LineStarts.ofChars cs).offsets[before.count '\n']? = some (byteLength before) := by
  obtain ⟨earlier, later, htable, hlength, hearlier, hlater⟩ := h.exists_starts
  have hle := h.le
  rw [byteLength_append] at hle
  have hsize : (LineStarts.ofChars cs).offsets.size = earlier.length + 1 + later.length := by
    rw [htable, List.size_toArray, List.length_append, List.length_cons]
    omega
  have hcases : ∀ {i k : Nat}, (LineStarts.ofChars cs).offsets[i]? = some k →
      i < earlier.length ∧ k < byteLength before ∨ i = earlier.length ∧ k = byteLength before ∨
        earlier.length < i ∧ n < k := by
    intro i k hk
    rw [htable, List.getElem?_toArray] at hk
    exact cases_of_getElem? hearlier hlater hk
  have hsearch : LineStarts.search? (LineStarts.ofChars cs).offsets n 0
      (LineStarts.ofChars cs).offsets.size =
        some (if byteLength before = n then .ok earlier.length else .error (earlier.length + 1)) :=
    search?_eq hcases (by omega) (by omega) (by omega) (by omega) (Nat.le_refl _)
  rw [← hlength]
  constructor
  · rw [LineStarts.line?, hsearch]
    split_ifs <;> simp
  · simp [htable]

/-- The column is counted in the piece of the text in front of the offset, or in bytes. -/
lemma Cut.distance?_eq (h : Cut cs n before line behind) :
    (LineStarts.ofChars cs).distance? (byteLength before) n = some (distanceOf n before line) := by
  have hle := h.le
  rw [byteLength_append] at hle
  have htext : cs = before ++ (line ++ behind) := by rw [h.text, List.append_assoc]
  have hstart : byteLength before ≤ n := by omega
  have hpiece : LineStarts.piece? cs (byteLength before) n =
      if byteLength (before ++ line) = n then some line else none := by
    rw [LineStarts.piece?, if_pos hstart, htext, charsIn?_byteLength, Option.bind_some,
      List.drop_left, h.charsIn?_eq h.lt]
    split_ifs
    · rw [Option.map_some, List.take_left]
    · rfl
  rw [LineStarts.distance?, distanceOf, LineStarts.ofChars, hpiece]
  split_ifs
  · rfl
  · rfl

/-! ### Positions -/

/-- The position of an offset that cuts the text. -/
def Position.ofCut (n : Nat) (before line : List Char) : Position :=
  ⟨1 + before.count '\n', 1 + distanceOf n before line⟩

/-- Going from line to line ends at the line in front of the first one that starts too late. -/
lemma lineAt_eq {first l : Line} {rest earlier later : List Line}
    (heq : first :: rest = earlier ++ l :: later) (hearlier : ∀ e ∈ earlier, e.start ≤ n)
    (hl : l.start ≤ n) (hlater : ∀ e ∈ later, n < e.start) :
    LineTable.lineAt n number first rest = (number + earlier.length, l) := by
  induction earlier generalizing first rest number with
  | nil =>
    obtain ⟨rfl, rfl⟩ := List.cons.inj heq
    cases rest with
    | nil => rfl
    | cons next rest =>
      have hnext := hlater next List.mem_cons_self
      rw [LineTable.lineAt, if_neg (Nat.not_le_of_gt hnext)]
      rfl
  | cons e earlier ih =>
    obtain ⟨rfl, hrest⟩ : first = e ∧ rest = earlier ++ l :: later := List.cons.inj heq
    obtain ⟨-, hearlier⟩ := List.forall_mem_cons.1 hearlier
    cases rest with
    | nil => simp at hrest
    | cons next rest =>
      have hnext : next.start ≤ n := by
        have hmem : next ∈ earlier ++ l :: later := hrest ▸ List.mem_cons_self
        cases earlier with
        | nil => rwa [(List.cons.inj hrest).1]
        | cons e earlier =>
          rw [(List.cons.inj hrest).1]
          exact (List.forall_mem_cons.1 hearlier).1
      rw [LineTable.lineAt, if_pos hnext, ih hrest hearlier, List.length_cons, Nat.add_assoc,
        Nat.add_comm 1]

/-- The position is found by going through the lines of a text. -/
lemma Cut.position_eq (h : Cut cs (min offset (byteLength cs)) before line behind) :
    (LineTable.ofChars cs).position offset =
      Position.ofCut (min offset (byteLength cs)) before line := by
  obtain ⟨earlier, l, later, heq, hlength, hearlier, hstart, hlater, hchars⟩ := h.exists_lines
  have hle := h.le
  rw [byteLength_append] at hle
  obtain ⟨first, rest, hlines⟩ : ∃ first rest, placeLines 0 (splitLines cs) = first :: rest :=
    List.exists_cons_of_ne_nil (by simp [heq])
  have hstarts : ∀ e ∈ earlier, e.start ≤ min offset (byteLength cs) := by
    intro e he
    have hlt := hearlier e he
    omega
  have hfound : LineTable.lineAt (min offset (byteLength cs)) 1 first rest =
      (1 + earlier.length, l) :=
    lineAt_eq (hlines ▸ heq) hstarts (by omega) hlater
  rw [LineTable.ofChars, LineTable.position, hlines, Position.ofCut, distanceOf]
  simp only [hfound, hstart, hchars, hlength]
  split_ifs <;> exact congrArg _ (Nat.add_comm _ _)

/-- The position is found by halving the table of line starts. -/
lemma Cut.position?_eq (h : Cut cs (min offset (byteLength cs)) before line behind) :
    (LineStarts.ofChars cs).position? offset =
      some (Position.ofCut (min offset (byteLength cs)) before line) := by
  obtain ⟨hline, hstart⟩ := h.line?_eq
  have htext : (LineStarts.ofChars cs).text = cs := rfl
  simp only [LineStarts.position?, htext, hline, Option.bind_some, hstart, h.distance?_eq,
    Option.map_some, Position.ofCut, Nat.add_comm 1]

/-! ### The theorem -/

lemma Position.Before.ne {p q : Position} (h : p.Before q) : p ≠ q := by
  rintro rfl
  unfold Position.Before at h
  omega

/-- Any byte offset has a position, and an offset past the end has that of the end.  Halving the table
of line starts finds it without fail.  Its line is one more than the number of line feeds that end by
the offset; its column is one more than the number of characters behind the last of them, or of bytes
if the offset falls within a character.  Between characters a greater offset has a later position, so
that different ones have different positions; and the position of the end is that of the number of
bytes. -/
theorem position_tells_line_and_column (source : String) :
    (∀ offset, ∃ before line behind,
      Cut source.toList (min offset source.utf8ByteSize) before line behind ∧
      (LineStarts.ofChars source.toList).position? offset =
        some ((LineTable.ofChars source.toList).position offset) ∧
      ((LineTable.ofChars source.toList).position offset).line =
        1 + (before ++ line).count '\n' ∧
      ((String.Pos.Raw.mk (min offset source.utf8ByteSize)).IsValid source →
        ((LineTable.ofChars source.toList).position offset).column = 1 + line.length) ∧
      (¬ (String.Pos.Raw.mk (min offset source.utf8ByteSize)).IsValid source →
        ((LineTable.ofChars source.toList).position offset).column =
          1 + (min offset source.utf8ByteSize - byteLength before))) ∧
    (∀ m n, (String.Pos.Raw.mk m).IsValid source → (String.Pos.Raw.mk n).IsValid source →
      (m < n → ((LineTable.ofChars source.toList).position m).Before
        ((LineTable.ofChars source.toList).position n)) ∧
      ((LineTable.ofChars source.toList).position m =
        (LineTable.ofChars source.toList).position n → m = n)) ∧
    (LineTable.ofChars source.toList).last =
      (LineTable.ofChars source.toList).position source.utf8ByteSize := by
  have hbefore : ∀ m n, (String.Pos.Raw.mk m).IsValid source → (String.Pos.Raw.mk n).IsValid source →
      m < n → ((LineTable.ofChars source.toList).position m).Before
        ((LineTable.ofChars source.toList).position n) := by
    intro m n hm hn hlt
    obtain ⟨a, b, hab, rfl⟩ := exists_of_isValid hm
    obtain ⟨c, d, hcd, rfl⟩ := exists_of_isValid hn
    have hposition := position_byteLength a b
    have hposition' := position_byteLength c d
    rw [← hab] at hposition
    rw [← hcd] at hposition'
    rw [hposition, hposition']
    exact before_of_byteLength_lt (hab.symm.trans hcd) hlt
  refine ⟨?_, ?_, ?_⟩
  · intro offset
    rw [utf8ByteSize_eq_byteLength]
    obtain ⟨before, line, behind, hcut⟩ :=
      exists_cut (Nat.min_le_right offset (byteLength source.toList))
    have hfeeds : (before ++ line).count '\n' = before.count '\n' := by
      rw [List.count_append, List.count_eq_zero.2 hcut.feedless, Nat.add_zero]
    refine ⟨before, line, behind, hcut, ?_, ?_, ?_, ?_⟩
    · rw [hcut.position?_eq, hcut.position_eq]
    · rw [hcut.position_eq, hfeeds]
      rfl
    · intro hvalid
      rw [hcut.position_eq, Position.ofCut, distanceOf, if_pos (hcut.isValid_iff.1 hvalid)]
    · intro hvalid
      rw [hcut.position_eq, Position.ofCut, distanceOf, if_neg (mt hcut.isValid_iff.2 hvalid)]
  · intro m n hm hn
    refine ⟨hbefore m n hm hn, fun heq => ?_⟩
    by_contra hne
    rcases Nat.lt_or_gt_of_ne hne with hlt | hlt
    · exact (hbefore m n hm hn hlt).ne heq
    · exact (hbefore n m hn hm hlt).ne heq.symm
  · rw [utf8ByteSize_eq_byteLength]
    rfl

/-- Behind a line feed and a letter of two bytes; the offset between these bytes is no boundary. -/
theorem position_tells_line_and_column_of_umlaut :
    (String.Pos.Raw.mk 2).IsValid "x\nö;" ∧ ¬ (String.Pos.Raw.mk 3).IsValid "x\nö;" ∧
      (String.Pos.Raw.mk 4).IsValid "x\nö;" ∧
      ((LineTable.ofChars "x\nö;".toList).position 2).Before
        ((LineTable.ofChars "x\nö;".toList).position 4) ∧
      [0, 1, 2, 3, 4, 5, 6].map (LineStarts.ofChars "x\nö;".toList).position? =
        [some ⟨1, 1⟩, some ⟨1, 2⟩, some ⟨2, 1⟩, some ⟨2, 2⟩, some ⟨2, 2⟩, some ⟨2, 3⟩,
          some ⟨2, 3⟩] := by
  have hbefore : (String.Pos.Raw.mk 2).IsValid "x\nö;" := by decide
  have hwithin : ¬ (String.Pos.Raw.mk 3).IsValid "x\nö;" := by decide
  have hbehind : (String.Pos.Raw.mk 4).IsValid "x\nö;" := by decide
  obtain ⟨-, horder, -⟩ := position_tells_line_and_column "x\nö;"
  exact ⟨hbefore, hwithin, hbehind, (horder 2 4 hbefore hbehind).1 (by decide), by decide +kernel⟩

end GrammarTree
