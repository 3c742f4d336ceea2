/-
# The input of a parse

A state of the parser shows one token; behind it lies the rest of the stream, and beside it wait the
comments that were passed and not placed.  Two views of a state are used in what follows.

* `State.words`: the words from the current token on, comments included.  Together with the comments
  that wait they are the `State.input`.
* `State.upcoming`: the current token and the tokens behind it that are no comments.

Passing a token takes it off both views (`words_of_advance`, `upcoming_of_advance`), and it fails
only at a fault with nothing but comments in front of it (`advance_eq_error`).
-/
import GrammarTree.Proofs.Phrase

namespace GrammarTree.Parse

open Word

/-! ### Skipping comments -/

lemma skipComments_eq_ok {aside comments : List Token} {stream rest : Stream} {t : Token}
    (h : skipComments aside stream = .ok (t, rest, comments)) :
    ∃ passed : List Token, (∀ c ∈ passed, c.kind = .comment) ∧ comments = aside ++ passed ∧
      stream.tokens = passed ++ t :: (if t.isFinish then [] else rest.tokens) ∧
      t.kind ≠ .comment ∧ (if t.isFinish then none else rest.fault?) = stream.fault? := by
  induction stream generalizing aside with
  | finished p =>
    simp only [skipComments, Except.ok.injEq, Prod.mk.injEq] at h
    obtain ⟨rfl, rfl, rfl⟩ := h
    exact ⟨[], by simp, by simp, by simp [Stream.tokens], by simp [Token.finish],
      by simp [Stream.fault?]⟩
  | failed e => simp [skipComments] at h
  | next u stream ih =>
    rw [skipComments] at h
    split at h
    · rename_i hu
      obtain ⟨passed, hpassed, rfl, htokens, ht, hfault⟩ := ih h
      have hfin : u.isFinish = false := isFinish_of_kind hu (by simp)
      refine ⟨u :: passed, ?_, by simp, ?_, ht, ?_⟩
      · simpa using ⟨hu, hpassed⟩
      · simp [Stream.tokens, hfin, htokens]
      · simp [Stream.fault?, hfin, hfault]
    · rename_i hu
      simp only [Except.ok.injEq, Prod.mk.injEq] at h
      obtain ⟨rfl, rfl, rfl⟩ := h
      refine ⟨[], by simp, by simp, ?_, hu, rfl⟩
      simp only [Stream.tokens, List.nil_append]
      split <;> rfl

lemma skipComments_eq_error {aside : List Token} {stream : Stream} {e : SyntaxError}
    (h : skipComments aside stream = .error e) :
    ∃ f, e = .scan f ∧ stream.fault? = some f ∧ ∀ c ∈ stream.tokens, c.kind = .comment := by
  induction stream generalizing aside with
  | finished p => simp [skipComments] at h
  | failed f =>
    simp only [skipComments, Except.error.injEq] at h
    exact ⟨f, h.symm, rfl, by simp [Stream.tokens]⟩
  | next u stream ih =>
    rw [skipComments] at h
    split at h
    · rename_i hu
      obtain ⟨f, rfl, hfault, htokens⟩ := ih h
      have hfin : u.isFinish = false := isFinish_of_kind hu (by simp)
      refine ⟨f, rfl, by simp [Stream.fault?, hfin, hfault], ?_⟩
      simpa [Stream.tokens, hfin] using ⟨hu, htokens⟩
    · simp at h

namespace State

/-! ### Views of a state -/

/-- The texts of the comments that wait. -/
def texts (s : State) : List String := s.comments.map (·.text)

/-- The tokens from the current one on. -/
def ahead (s : State) : List Token :=
  s.current :: if s.current.isFinish then [] else s.rest.tokens

/-- The words from the current token on. -/
def words (s : State) : List Word := s.ahead.map Token.word

/-- The words that are neither placed nor passed. -/
def input (s : State) : List Word := Word.comments s.texts ++ s.words

/-- The current token and the tokens behind it that are no comments. -/
def upcoming (s : State) : List Token :=
  s.current :: if s.current.isFinish then [] else Token.significant s.rest.tokens

/-- The fault at which the tokens ahead end, if there is one. -/
def fault? (s : State) : Option ScanError := if s.current.isFinish then none else s.rest.fault?

/-- Whether the current token is no comment. -/
def Settled (s : State) : Prop := s.current.kind ≠ .comment

variable {s n : State}

lemma commentNodes_eq (s : State) : s.commentNodes = GrammarTree.commentNodes s.texts := by
  simp [commentNodes, GrammarTree.commentNodes, texts, Function.comp_def]

@[simp] lemma texts_placed (s : State) : s.placed.texts = [] := rfl

@[simp] lemma words_placed (s : State) : s.placed.words = s.words := rfl

@[simp] lemma nesting_placed (s : State) : s.placed.nesting = s.nesting := rfl

@[simp] lemma upcoming_placed (s : State) : s.placed.upcoming = s.upcoming := rfl

@[simp] lemma fault?_placed (s : State) : s.placed.fault? = s.fault? := rfl

@[simp] lemma input_placed (s : State) : s.placed.input = s.words := rfl

@[simp] lemma texts_ascend (s : State) (k : Nat) : (s.ascend k).texts = s.texts := rfl

@[simp] lemma current_ascend (s : State) (k : Nat) : (s.ascend k).current = s.current := rfl

@[simp] lemma words_ascend (s : State) (k : Nat) : (s.ascend k).words = s.words := rfl

@[simp] lemma nesting_ascend (s : State) (k : Nat) : (s.ascend k).nesting = s.nesting - k := rfl

@[simp] lemma upcoming_ascend (s : State) (k : Nat) : (s.ascend k).upcoming = s.upcoming := rfl

@[simp] lemma fault?_ascend (s : State) (k : Nat) : (s.ascend k).fault? = s.fault? := rfl

@[simp] lemma input_ascend (s : State) (k : Nat) : (s.ascend k).input = s.input := rfl

lemma input_of_texts (h : s.texts = []) : s.input = s.words := by
  simp [input, h]

lemma words_eq_cons (s : State) :
    s.words = s.current.word :: if s.current.isFinish then [] else s.rest.tokens.map Token.word := by
  unfold words ahead
  split <;> simp

/-- The kinds of the tokens to come are those of the words ahead. -/
lemma kinds_upcoming (hs : s.Settled) : s.upcoming.map (·.kind) = kinds s.words := by
  have hw : s.current.word.kind ≠ .comment := by rwa [Token.kind_word]
  rw [words_eq_cons, kinds_cons hw, upcoming]
  split
  · simp
  · simp [Token.significant, kinds, List.filter_map, Function.comp_def]

lemma significant_ahead (hs : s.Settled) : Token.significant s.ahead = s.upcoming := by
  unfold ahead upcoming
  rw [Token.significant_cons hs]
  split <;> rfl

/-! ### Passing a token -/

lemma advance_eq_ok (h : s.advance = .ok n) :
    ∃ passed : List Token, (∀ c ∈ passed, c.kind = .comment) ∧
      n.comments = s.comments ++ passed ∧ s.rest.tokens = passed ++ n.ahead ∧ n.Settled ∧
      n.nesting = s.nesting ∧ n.fault? = s.rest.fault? := by
  unfold advance at h
  split at h
  · rename_i t rest comments h'
    cases h
    obtain ⟨passed, hpassed, rfl, htokens, ht, hfault⟩ := skipComments_eq_ok h'
    exact ⟨passed, hpassed, rfl, htokens, ht, rfl, hfault⟩
  · cases h

lemma advance_eq_error {e : SyntaxError} (h : s.advance = .error e) :
    ∃ f, e = .scan f ∧ s.rest.fault? = some f ∧ ∀ c ∈ s.rest.tokens, c.kind = .comment := by
  unfold advance at h
  split at h
  · cases h
  · cases h
    exact skipComments_eq_error ‹_›

lemma settled_of_advance (h : s.advance = .ok n) : n.Settled := by
  obtain ⟨_, _, _, _, hn, _⟩ := advance_eq_ok h
  exact hn

lemma nesting_of_advance (h : s.advance = .ok n) : n.nesting = s.nesting := by
  obtain ⟨_, _, _, _, _, hn, _⟩ := advance_eq_ok h
  exact hn

lemma fault?_of_advance (hs : s.current.isFinish = false) (h : s.advance = .ok n) :
    n.fault? = s.fault? := by
  obtain ⟨_, _, _, _, _, _, hn⟩ := advance_eq_ok h
  rw [hn, fault?, hs]
  rfl

/-- Passing a token puts the comments behind it to those that wait. -/
lemma words_of_advance (hs : s.current.isFinish = false) (h : s.advance = .ok n) :
    ∃ ds, n.texts = s.texts ++ ds ∧ s.words = s.current.word :: Word.comments ds ++ n.words := by
  obtain ⟨passed, hpassed, hcomments, htokens, -⟩ := advance_eq_ok h
  refine ⟨passed.map (·.text), by simp [texts, hcomments], ?_⟩
  rw [words_eq_cons s, hs, htokens]
  simp [Token.map_word_of_comments hpassed, words]

lemma upcoming_of_advance (hs : s.current.isFinish = false) (h : s.advance = .ok n) :
    s.upcoming = s.current :: n.upcoming := by
  obtain ⟨passed, hpassed, -, htokens, hn, -⟩ := advance_eq_ok h
  simp [upcoming, hs, htokens, Token.significant_eq_nil hpassed, significant_ahead hn]

/-- A token can be passed if one that is no comment follows it. -/
lemma exists_advance {ds : List String} {v w : Word} {ws : List Word} (hw : w.kind ≠ .comment)
    (h : s.words = v :: Word.comments ds ++ w :: ws) :
    ∃ n, s.advance = .ok n ∧ n.texts = s.texts ++ ds ∧ n.words = w :: ws ∧
      n.nesting = s.nesting := by
  have hs : s.current.isFinish = false := by
    rw [Bool.eq_false_iff]
    intro hfin
    simp [words_eq_cons s, hfin] at h
  cases hadv : s.advance with
  | error e =>
    -- then only comments would follow
    obtain ⟨-, -, -, hall⟩ := advance_eq_error hadv
    have htail : s.rest.tokens.map Token.word = Word.comments ds ++ w :: ws := by
      rw [words_eq_cons, hs] at h
      exact (List.cons.inj h).2
    have hmem : w ∈ s.rest.tokens.map Token.word := by simp [htail]
    obtain ⟨t, ht, rfl⟩ := List.mem_map.1 hmem
    exact absurd (hall t ht) (by simpa using hw)
  | ok n =>
    obtain ⟨es, htexts, hwords⟩ := words_of_advance hs hadv
    have hn : n.current.word.kind ≠ .comment := by
      rw [Token.kind_word]
      exact settled_of_advance hadv
    rw [h, words_eq_cons n] at hwords
    simp only [List.cons_append, List.cons.injEq] at hwords
    obtain ⟨rfl, heq⟩ := comments_append_inj hw hn hwords.2
    exact ⟨n, rfl, htexts, by rw [words_eq_cons n, heq], nesting_of_advance hadv⟩

/-- A token can be passed if it is not the last of those to come. -/
lemma exists_advance_of_upcoming {t u : Token} {us : List Token} (h : s.upcoming = t :: u :: us) :
    ∃ n, s.advance = .ok n ∧ s.upcoming = s.current :: n.upcoming := by
  have hs : s.current.isFinish = false := by
    rw [Bool.eq_false_iff]
    intro hfin
    simp [upcoming, hfin] at h
  cases hadv : s.advance with
  | error e =>
    obtain ⟨-, -, -, hall⟩ := advance_eq_error hadv
    simp [upcoming, hs, Token.significant_eq_nil hall] at h
  | ok n => exact ⟨n, rfl, upcoming_of_advance hs hadv⟩

/-! ### The first token -/

lemma start_eq_advance (stream : Stream) (t : Token) :
    start stream = advance ⟨t, stream, [], 0⟩ := by
  unfold start advance
  rfl

/-! ### Opening a construct -/

/-- The state with one more construct open. -/
def deeper (s : State) : State := { s with nesting := s.nesting + 1 }

@[simp] lemma texts_deeper (s : State) : s.deeper.texts = s.texts := rfl

@[simp] lemma current_deeper (s : State) : s.deeper.current = s.current := rfl

@[simp] lemma words_deeper (s : State) : s.deeper.words = s.words := rfl

@[simp] lemma nesting_deeper (s : State) : s.deeper.nesting = s.nesting + 1 := rfl

@[simp] lemma upcoming_deeper (s : State) : s.deeper.upcoming = s.upcoming := rfl

@[simp] lemma fault?_deeper (s : State) : s.deeper.fault? = s.fault? := rfl

lemma descend_of_lt (h : s.nesting < maxNesting) : s.descend = .ok s.deeper := by
  unfold descend
  rw [if_neg (by omega)]
  rfl

lemma descend_of_le (h : maxNesting ≤ s.nesting) :
    s.descend = .error (s.unexpected .lessNesting) := by
  unfold descend
  rw [if_pos h]

lemma descend_eq_ok_iff {d : State} :
    s.descend = .ok d ↔ s.nesting < maxNesting ∧ d = s.deeper := by
  rcases Nat.lt_or_ge s.nesting maxNesting with h | h
  · rw [descend_of_lt h]
    simp [h, eq_comm]
  · rw [descend_of_le h]
    simp [Nat.not_lt.2 h]

end State

end GrammarTree.Parse
