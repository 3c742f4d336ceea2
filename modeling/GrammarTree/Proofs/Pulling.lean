/-
# Pulling tokens from a text

Tokens can be pulled from a text one at a time, they can be collected, and the text can be cut into
segments.  All three agree.  Up to the first fault, each call gives what the next segment stands for;
from the first fault on every call gives that fault, and without a fault every call behind the last
segment gives the end of the input.

What a segment stands for is told from the characters that it covers (`Segment.answer`): the texts of
tokens are cut out of the source, and a fault is known by the character at which it starts.  What the
calls give is first put in terms of `Piece.classify`, call by call (`take_eq`), and this is then seen
to be the same.
-/
import Mathlib.Control.Monad.Basic
import GrammarTree.Proofs.Segmentation

namespace GrammarTree

/-! ### What a segment stands for -/

/-- The characters of a text from one byte to another one, if both lie between characters. -/
def slice (text : List Char) (start stop : Nat) : List Char :=
  match charsIn? start text, charsIn? stop text with
  | some i, some j => (text.take j).drop i
  | _, _ => []

/-- The error at a position where the given characters are at fault. -/
def ScanError.ofSlice (p : Position) : List Char → ScanError
  | '"' :: _ => unterminatedLiteral p
  | '\'' :: _ => unterminatedLiteral p
  | '(' :: '*' :: _ => unterminatedComment p
  | c :: _ => unexpectedCharacter c p
  | [] => unexpectedCharacter '\ufffd' p

/-- The token or the error that a segment of a text stands for.  Names and symbols have the covered
characters as their text, quoted texts and comments those between the delimiters. -/
def Segment.answer (text : List Char) (s : Segment) : Except ScanError Token :=
  let p := (LineTable.ofChars text).position s.start
  let covered := slice text s.start s.stop
  match s.piece with
  | .lexeme (.name _) => .ok ⟨.identifier, String.ofList covered, p⟩
  | .lexeme (.quoted _ _) => .ok ⟨.terminal, String.ofList covered.tail.dropLast, p⟩
  | .lexeme (.comment _) =>
    .ok ⟨.comment, String.ofList covered.tail.tail.dropLast.dropLast, p⟩
  | .lexeme (.symbol y) => .ok ⟨.symbol y, String.ofList covered, p⟩
  | .fault _ => .error (ScanError.ofSlice p covered)

lemma slice_append (before chars after : List Char) :
    slice (before ++ (chars ++ after)) (byteLength before)
      (byteLength before + byteLength chars) = chars := by
  have hstart := charsIn?_byteLength before (chars ++ after)
  have hstop := charsIn?_byteLength (before ++ chars) after
  rw [byteLength_append, List.append_assoc] at hstop
  rw [slice, hstart, hstop]
  dsimp only
  rw [← List.append_assoc, List.take_left, List.drop_left]

lemma Segment.LiesIn.slice_eq {text : List Char} {s : Segment} (h : s.LiesIn 0 text) :
    slice text s.start s.stop = s.piece.chars := by
  obtain ⟨before, after, rfl, hstart, hstop, -⟩ := h
  rw [hstop, hstart, Nat.zero_add, slice_append]

/-- A fault is told by the characters it covers. -/
lemma ScanError.ofSlice_chars {f : Fault} {rest : List Char} (h : f.StandsBefore rest)
    (p : Position) : ofSlice p f.chars = ofFault p f := by
  cases f with
  | openQuote q => cases q <;> rfl
  | openComment => rfl
  | stray c =>
    have hquote : ∀ q : Quote, q.char ≠ c := fun q hq => h.2 (Or.inr (Or.inl ⟨q, hq⟩))
    rw [Fault.chars, ofSlice, ofFault]
    · exact fun hc => hquote .double hc.symm
    · exact fun hc => hquote .single hc.symm
    · simp

/-- The characters that a segment covers tell what it stands for. -/
lemma Segment.LiesIn.answer_eq {text : List Char} {s : Segment} (h : s.LiesIn 0 text) :
    s.answer text = s.piece.classify ((LineTable.ofChars text).position s.start) := by
  have hslice := h.slice_eq
  obtain ⟨-, after, -, -, -, hstands⟩ := h
  unfold Segment.answer
  rw [hslice]
  cases hpiece : s.piece with
  | fault f =>
    rw [hpiece] at hstands
    exact congrArg Except.error (ScanError.ofSlice_chars hstands _)
  | lexeme l =>
    cases l with
    | name cs => rfl
    | quoted q content => simp [Piece.chars, Lexeme.chars, Piece.classify, Token.ofLexeme]
    | comment content =>
      have hcontent : (Lexeme.comment content).chars.tail.tail.dropLast.dropLast = content := by
        show (content ++ (['*'] ++ [')'])).dropLast.dropLast = content
        rw [← List.append_assoc, List.dropLast_concat, List.dropLast_concat]
      show Except.ok (Token.mk .comment
        (String.ofList (Lexeme.comment content).chars.tail.tail.dropLast.dropLast) _) = _
      rw [hcontent]
      rfl
    | symbol y => rfl

/-! ### Calls -/

/-- Whether a segment is a fault. -/
def Segment.isFault (s : Segment) : Bool :=
  match s.piece with
  | .fault _ => true
  | .lexeme _ => false

/-- The index of the first fault among some segments, or their number if there is none. -/
def firstFault (segs : List Segment) : Nat := segs.findIdx Segment.isFault

namespace Lexer

/-- What the call with the number `i` gives, if some segments are ahead. -/
def call (table : LineTable) (segs : List Segment) (i : Nat) : Except ScanError Token :=
  match segs[min i (firstFault segs)]? with
  | some s => s.piece.classify (table.position s.start)
  | none => .ok (Token.finish table.last)

variable {table : LineTable} {s : Segment} {segs : List Segment}

lemma call_nil (i : Nat) : call table [] i = .ok (Token.finish table.last) := by
  simp [call]

/-- Behind a fault there is nothing but the fault. -/
lemma call_fault {f : Fault} (h : s.piece = .fault f) (i : Nat) :
    call table (s :: segs) i = .error (ScanError.ofFault (table.position s.start) f) := by
  have hfault : s.isFault = true := by simp [Segment.isFault, h]
  have hfirst : firstFault (s :: segs) = 0 := by simp [firstFault, List.findIdx_cons, hfault]
  rw [call, hfirst]
  simp [h, Piece.classify]

lemma firstFault_lexeme {l : Lexeme} (h : s.piece = .lexeme l) :
    firstFault (s :: segs) = firstFault segs + 1 := by
  have hfault : s.isFault = false := by simp [Segment.isFault, h]
  simp [firstFault, List.findIdx_cons, hfault]

lemma call_zero {l : Lexeme} (h : s.piece = .lexeme l) :
    call table (s :: segs) 0 = .ok (Token.ofLexeme (table.position s.start) l) := by
  rw [call, firstFault_lexeme h]
  simp [h, Piece.classify]

lemma call_succ {l : Lexeme} (h : s.piece = .lexeme l) (i : Nat) :
    call table (s :: segs) (i + 1) = call table segs i := by
  rw [call, firstFault_lexeme h, Nat.add_min_add_right, List.getElem?_cons_succ]
  rfl

/-- A lexer that has met a fault gives it again and again. -/
lemma take_of_failure {lexer : Lexer} {e : ScanError} (h : lexer.failure = some e) (n : Nat) :
    take n lexer = List.replicate n (.error e) := by
  have hnext : lexer.next = (.error e, lexer) := by
    unfold next
    rw [h]
  induction n with
  | zero => rfl
  | succ n ih => rw [take, hnext, ih, List.replicate_succ]

/-- Blanks are passed over in the same way. -/
lemma segmentsFrom_skipBlanks (offset : Nat) (cs : List Char) :
    segmentsFrom offset cs =
      segmentsFrom (skipBlanks offset cs).1 (skipBlanks offset cs).2 := by
  induction cs generalizing offset with
  | nil => rfl
  | cons c cs ih =>
    rw [skipBlanks]
    split
    · rename_i hc
      rw [segmentsFrom, if_pos hc]
      exact ih _
    · rfl

lemma isBlank_of_skipBlanks {offset offset' : Nat} {cs cs' : List Char} {c : Char}
    (h : skipBlanks offset cs = (offset', c :: cs')) : isBlank c = false := by
  induction cs generalizing offset with
  | nil => cases h
  | cons d cs ih =>
    rw [skipBlanks] at h
    split at h
    · exact ih h
    · rename_i hd
      cases h
      simpa using hd

/-- A call reaches the end, or it passes the first segment ahead, or it meets a fault there. -/
lemma next_cases (table : LineTable) (offset : Nat) (cs : List Char) :
    (segmentsFrom offset cs = [] ∧ ∃ offset',
      next ⟨table, offset, cs, none⟩ =
        (.ok (Token.finish table.last), ⟨table, offset', [], none⟩)) ∨
    (∃ s l offset' rest, segmentsFrom offset cs = s :: segmentsFrom offset' rest ∧
      s.piece = .lexeme l ∧ next ⟨table, offset, cs, none⟩ =
        (.ok (Token.ofLexeme (table.position s.start) l), ⟨table, offset', rest, none⟩)) ∨
    ∃ s f segs lexer, segmentsFrom offset cs = s :: segs ∧ s.piece = .fault f ∧
      next ⟨table, offset, cs, none⟩ =
        (.error (ScanError.ofFault (table.position s.start) f), lexer) ∧
      lexer.failure = some (ScanError.ofFault (table.position s.start) f) := by
  rw [segmentsFrom_skipBlanks]
  cases hskip : skipBlanks offset cs with
  | mk offset' rest =>
    cases rest with
    | nil =>
      refine Or.inl ⟨by rw [segmentsFrom], offset', ?_⟩
      simp only [next, hskip]
    | cons c rest =>
      right
      have hsegments : segmentsFrom offset' (c :: rest) =
          (Piece.read c rest).1.segment offset' ::
            segmentsFrom (offset' + (Piece.read c rest).1.width) (Piece.read c rest).2 := by
        rw [segmentsFrom, isBlank_of_skipBlanks hskip]
        rfl
      cases hread : Piece.read c rest with
      | mk piece later =>
        rw [hread] at hsegments
        cases piece with
        | lexeme l =>
          refine Or.inl ⟨_, l, _, later, hsegments, rfl, ?_⟩
          simp only [next, hskip, hread, Piece.classify]
          rfl
        | fault f =>
          refine Or.inr ⟨_, f, _, ⟨table, offset' + (Piece.fault f).width, later, some _⟩,
            hsegments, rfl, ?_, rfl⟩
          simp only [next, hskip, hread, Piece.classify]
          rfl

/-- The results of some calls, one by one. -/
lemma take_eq (table : LineTable) (offset : Nat) (cs : List Char) (n : Nat) :
    take n ⟨table, offset, cs, none⟩ =
      (List.range n).map (call table (segmentsFrom offset cs)) := by
  induction n generalizing offset cs with
  | zero => rfl
  | succ n ih =>
    rw [take, List.range_succ_eq_map, List.map_cons, List.map_map]
    rcases next_cases table offset cs with ⟨hsegs, offset', hnext⟩ |
      ⟨s, l, offset', rest, hsegs, hpiece, hnext⟩ | ⟨s, f, segs, lexer, hsegs, hpiece, hnext, hfail⟩
    · have hnil : segmentsFrom offset' [] = [] := by rw [segmentsFrom]
      have htail : call table [] ∘ Nat.succ = call table [] := by
        funext i
        rw [Function.comp_apply, call_nil, call_nil]
      rw [hnext, ih, hsegs, hnil, call_nil, htail]
    · have htail : call table (s :: segmentsFrom offset' rest) ∘ Nat.succ =
          call table (segmentsFrom offset' rest) := by
        funext i
        exact call_succ hpiece i
      rw [hnext, ih, hsegs, htail, call_zero hpiece]
    · have htail : call table (s :: segs) ∘ Nat.succ =
          Function.const Nat (.error (ScanError.ofFault (table.position s.start) f)) := by
        funext i
        exact call_fault hpiece _
      rw [hnext, take_of_failure hfail, hsegs, htail, call_fault hpiece, List.map_const,
        List.length_range]

/-- The collected tokens are those of the calls up to the first fault or the end. -/
lemma toList_eq_mapM (table : LineTable) (segs : List Segment) :
    (Stream.ofSegments table segs).toList =
      ((List.range (firstFault segs + 1)).map (call table segs)).mapM id := by
  induction segs with
  | nil => rfl
  | cons s segs ih =>
    rw [Stream.ofSegments, List.range_succ_eq_map, List.map_cons, List.map_map, List.mapM_cons]
    cases hpiece : s.piece with
    | fault f =>
      rw [call_fault hpiece]
      rfl
    | lexeme l =>
      have htail : call table (s :: segs) ∘ Nat.succ = call table segs := by
        funext i
        exact call_succ hpiece i
      rw [call_zero hpiece, htail, firstFault_lexeme hpiece, ← ih]
      simp only [Piece.classify, Stream.toList]
      cases (Stream.ofSegments table segs).toList with
      | ok ts => rfl
      | error e => rfl

end Lexer

/-! ### Positions -/

lemma LineTable.last_ofChars (text : List Char) :
    (LineTable.ofChars text).last = Position.first.after text := by
  have hlast := position_byteLength text []
  rw [List.append_nil] at hlast
  exact hlast

/-- A segment stands at the position behind the characters in front of it. -/
lemma Segment.LiesIn.position_eq {text : List Char} {s : Segment} (h : s.LiesIn 0 text) :
    ∃ before rest, text = before ++ rest ∧ s.start = byteLength before ∧
      (LineTable.ofChars text).position s.start = Position.first.after before := by
  obtain ⟨before, after, htext, hstart, -⟩ := h
  rw [Nat.zero_add] at hstart
  refine ⟨before, _, htext, hstart, ?_⟩
  rw [htext, hstart, position_byteLength]

/-- Places in a text have positions in the same order. -/
lemma before_of_byteLength_lt {a b c d : List Char} (h : a ++ b = c ++ d)
    (hlt : byteLength a < byteLength c) :
    (Position.first.after a).Before (Position.first.after c) := by
  obtain ⟨e, rfl, -⟩ := exists_append_of_byteLength_le h (Nat.le_of_lt hlt)
  rw [Position.after_append]
  apply Position.before_after
  rintro rfl
  rw [List.append_nil] at hlt
  exact Nat.lt_irrefl _ hlt

/-- The position of the token or the error that a call gives. -/
def placeOf : Except ScanError Token → Position
  | .ok t => t.position
  | .error e => e.position

lemma placeOf_classify (p : Position) (piece : Piece) : placeOf (piece.classify p) = p := by
  cases piece with
  | lexeme l => exact position_ofLexeme p l
  | fault f => exact position_ofFault p f

/-- Where a call up to the first fault or the end gives its result. -/
lemma placeOf_call {table : LineTable} {segs : List Segment} {i : Nat}
    (h : i ≤ firstFault segs) :
    placeOf (Lexer.call table segs i) =
      (segs[i]?.map fun s => table.position s.start).getD table.last := by
  rw [Lexer.call, Nat.min_eq_left h]
  cases segs[i]? with
  | none => rfl
  | some s => exact placeOf_classify _ _

/-- Calls up to the first fault or the end give their results at later and later positions. -/
lemma before_call {source : String} {i j : Nat} (hij : i < j)
    (hj : j ≤ firstFault (segments source)) :
    (placeOf (Lexer.call (LineTable.ofChars source.toList) (segments source) i)).Before
      (placeOf (Lexer.call (LineTable.ofChars source.toList) (segments source) j)) := by
  have hcut := isSegmentation_segments source
  have hlength : firstFault (segments source) ≤ (segments source).length := List.findIdx_le_length
  have hi : i < (segments source).length := by omega
  have hlies := hcut.liesIn _ (List.getElem_mem hi)
  have hlt := hlies.start_lt_stop
  obtain ⟨a, b, hab, ha, hpos⟩ := hlies.position_eq
  rw [placeOf_call (Nat.le_trans (Nat.le_of_lt hij) hj), placeOf_call hj,
    List.getElem?_eq_getElem hi, Option.map_some, Option.getD_some, hpos]
  rcases Nat.lt_or_ge j (segments source).length with hj | hj
  · obtain ⟨c, d, hcd, hc, hpos'⟩ := (hcut.liesIn _ (List.getElem_mem hj)).position_eq
    rw [List.getElem?_eq_getElem hj, Option.map_some, Option.getD_some, hpos']
    have hle := List.pairwise_iff_getElem.1 hcut.ordered i j hi hj hij
    exact before_of_byteLength_lt (hab.symm.trans hcd) (by omega)
  · rw [List.getElem?_eq_none hj, Option.map_none, Option.getD_none, LineTable.last_ofChars]
    have hstop := hlies.stop_le
    have hend : a ++ b = source.toList ++ [] := by rw [List.append_nil, hab]
    exact before_of_byteLength_lt hend (by omega)

lemma take_ofSource (source : String) (n : Nat) :
    Lexer.take n (Lexer.ofSource source) =
      (List.range n).map (Lexer.call (LineTable.ofChars source.toList) (segments source)) :=
  Lexer.take_eq _ 0 source.toList n

lemma getElem?_take {source : String} {n i : Nat} (h : i < n) :
    (Lexer.take n (Lexer.ofSource source))[i]? =
      some (Lexer.call (LineTable.ofChars source.toList) (segments source) i) := by
  rw [take_ofSource, List.getElem?_map, List.getElem?_range h, Option.map_some]

/-- In front of the first fault a segment stands for a token. -/
lemma exists_answer {source : String} {i : Nat} {s : Segment}
    (hi : i < firstFault (segments source)) (hs : (segments source)[i]? = some s) :
    ∃ t, s.answer source.toList = .ok t ∧ t.isFinish = false := by
  have hlies := (isSegmentation_segments source).liesIn s (List.mem_of_getElem? hs)
  have hfault : s.isFault = false := by
    obtain ⟨hlt, rfl⟩ := List.getElem?_eq_some_iff.1 hs
    simpa using List.not_of_lt_findIdx hi
  cases hpiece : s.piece with
  | fault f => simp [Segment.isFault, hpiece] at hfault
  | lexeme l =>
    rw [hlies.answer_eq, hpiece]
    exact ⟨_, rfl, Stream.isFinish_ofLexeme _ l⟩

/-! ### The theorem -/

/-- Call by call, a lexer on a text gives what the segments of the text stand for, up to the first
fault.  From then on every call gives that fault or, if there is none, the end of the input at the
position behind the last character.  The tokens of the text are the results of the calls up to there,
or the fault, and their positions grow. -/
theorem pulled_tokens (source : String) :
    (∀ n i s, i < n → i < firstFault (segments source) → (segments source)[i]? = some s →
      (Lexer.take n (Lexer.ofSource source))[i]? = some (s.answer source.toList) ∧
      ∃ t, s.answer source.toList = .ok t ∧ t.isFinish = false) ∧
    (∀ n i, i < n → firstFault (segments source) ≤ i →
      (Lexer.take n (Lexer.ofSource source))[i]? =
        some (match (segments source)[firstFault (segments source)]? with
          | some s => s.answer source.toList
          | none => .ok (Token.finish (Position.first.after source.toList)))) ∧
    tokenize source =
      (Lexer.take (firstFault (segments source) + 1) (Lexer.ofSource source)).mapM id ∧
    ((Lexer.take (firstFault (segments source) + 1) (Lexer.ofSource source)).map
      placeOf).Pairwise Position.Before := by
  have hanswer : ∀ s ∈ segments source, s.answer source.toList =
      s.piece.classify ((LineTable.ofChars source.toList).position s.start) :=
    fun s hs => ((isSegmentation_segments source).liesIn s hs).answer_eq
  refine ⟨?_, ?_, ?_, ?_⟩
  · intro n i s hn hi hs
    refine ⟨?_, exists_answer hi hs⟩
    rw [getElem?_take hn, Lexer.call, Nat.min_eq_left (Nat.le_of_lt hi), hs,
      hanswer s (List.mem_of_getElem? hs)]
  · intro n i hn hi
    rw [getElem?_take hn, Lexer.call, Nat.min_eq_right hi]
    cases hs : (segments source)[firstFault (segments source)]? with
    | none => rw [LineTable.last_ofChars]
    | some s => exact congrArg some (hanswer s (List.mem_of_getElem? hs)).symm
  · rw [take_ofSource, ← Lexer.toList_eq_mapM]
    rfl
  · rw [take_ofSource, List.map_map, List.pairwise_map]
    refine List.pairwise_lt_range.imp_of_mem fun {i j} _ hj hij => ?_
    exact before_call hij (Nat.le_of_lt_succ (List.mem_range.1 hj))

/-- Two lines with a character of two bytes, a comment, and a fault that is met by the fifth call and
by the sixth. -/
theorem pulled_tokens_of_two_lines :
    firstFault (segments "a =\n 'é' (*b*) @ c") = 4 ∧
      (Lexer.take 6 (Lexer.ofSource "a =\n 'é' (*b*) @ c"))[3]? =
        some (.ok ⟨.comment, "b", ⟨2, 6⟩⟩) ∧
      (Lexer.take 6 (Lexer.ofSource "a =\n 'é' (*b*) @ c"))[5]? =
        some (.error (.unexpectedCharacter '@' ⟨2, 12⟩)) := by
  have hfirst : firstFault (segments "a =\n 'é' (*b*) @ c") = 4 := by decide +kernel
  have hcomment : (segments "a =\n 'é' (*b*) @ c")[3]? =
      some ⟨.lexeme (.comment ['b']), 10, 15⟩ := by decide +kernel
  have hfault : (segments "a =\n 'é' (*b*) @ c")[4]? =
      some ⟨.fault (.stray '@'), 16, 17⟩ := by decide +kernel
  obtain ⟨htokens, hlast, -, -⟩ := pulled_tokens "a =\n 'é' (*b*) @ c"
  refine ⟨hfirst, ?_, ?_⟩
  · rw [(htokens 6 3 _ (by decide) (by rw [hfirst]; decide) hcomment).1]
    decide +kernel
  · rw [hlast 6 5 (by decide) (by rw [hfirst]; decide), hfirst, hfault]
    decide +kernel

end GrammarTree
