/-
# The parser finds every phrase

Where the words of a phrase lie ahead, with room enough for what the phrase needs and something
behind it that does not continue it, the parser reads that phrase and returns what is built from it.
The proof is by induction on the phrase.  A term is read from left to right while the phrase of an
exception has its left part inside, so the induction for terms says how far the loop over the
exceptions has come.

Together with `exists_phrase_of_grammar` this gives `grammar_eq_ok_iff`: parsing a stream is finding
the grammar phrase that the stream spells.
-/
import GrammarTree.Proofs.Parse.Soundness

namespace GrammarTree

/-! ### What can stand behind a phrase -/

namespace Word

/-- Whether a word can open a term. -/
def startsTerm : Word → Bool
  | name _ => true
  | quoted _ => true
  | symbol y => y.isOpening
  | _ => false

/-- A word that does not continue a term. -/
structure EndsTerm (w : Word) : Prop where
  noComment : w.kind ≠ .comment
  noMinus : w ≠ .symbol .minus

/-- A word that does not continue a sequence. -/
structure EndsSequence (w : Word) : Prop extends EndsTerm w where
  noComma : w ≠ .symbol .comma
  noTerm : w.startsTerm = false

/-- A word that does not continue an expression. -/
structure EndsExpression (w : Word) : Prop extends EndsSequence w where
  noPipe : w ≠ .symbol .pipe

lemma endsTerm_of_startsTerm {w : Word} (h : w.startsTerm = true) : w.EndsTerm := by
  cases w with
  | name t => exact ⟨by simp, by simp⟩
  | quoted t => exact ⟨by simp, by simp⟩
  | symbol y =>
    refine ⟨by simp, ?_⟩
    rintro ⟨⟩
    cases h
  | comment t => cases h
  | finish => cases h

lemma ne_comma_of_startsTerm {w : Word} (h : w.startsTerm = true) : w ≠ .symbol .comma := by
  rintro rfl
  cases h

lemma endsTerm_comma : EndsTerm (.symbol .comma) := ⟨by simp, by simp⟩

lemma endsSequence_pipe : EndsSequence (.symbol .pipe) := ⟨⟨by simp, by simp⟩, by simp, rfl⟩

lemma endsExpression_closing (b : Enclosure) : EndsExpression (.symbol b.closing) := by
  cases b <;> exact ⟨⟨⟨by simp, by decide⟩, by decide, rfl⟩, by decide⟩

lemma endsExpression_of_isTerminator {y : Symbol} (h : y.isTerminator = true) :
    EndsExpression (.symbol y) := by
  cases y with
  | semicolon => exact ⟨⟨⟨by simp, by simp⟩, by simp, rfl⟩, by simp⟩
  | period => exact ⟨⟨⟨by simp, by simp⟩, by simp, rfl⟩, by simp⟩
  | _ => cases h

/-- What is not only comments is comments and a word that is none. -/
lemma exists_comments_append {ws : List Word} (h : ∃ w ∈ ws, w.kind ≠ .comment) :
    ∃ ds w vs, ws = comments ds ++ w :: vs ∧ w.kind ≠ .comment := by
  induction ws with
  | nil =>
    obtain ⟨w, hw, -⟩ := h
    cases hw
  | cons u us ih =>
    by_cases hu : u.kind = .comment
    · obtain ⟨w, hw, hk⟩ := h
      have hmem : w ∈ us := by
        rcases List.mem_cons.1 hw with rfl | hmem
        · exact absurd hu hk
        · exact hmem
      obtain ⟨ds, v, vs, rfl, hv⟩ := ih ⟨w, hmem, hk⟩
      cases u with
      | comment t => exact ⟨t :: ds, v, vs, rfl, hv⟩
      | _ => cases hu
    · exact ⟨[], u, us, rfl, hu⟩

end Word

lemma Token.startsTerm_eq (t : Token) : t.startsTerm = t.word.startsTerm := by
  unfold startsTerm word
  cases t.kind <;> rfl

lemma Token.isSymbol_eq (t : Token) (y : Symbol) : t.isSymbol y = true ↔ t.word = .symbol y := by
  constructor
  · exact word_of_isSymbol
  · intro h
    rw [isSymbol_iff, ← kind_word, h]
    rfl

/-- Every phrase begins with a word that can open a term. -/
lemma Phrase.exists_first {x : Nonterminal} (p : Phrase x) :
    ∃ w ws, p.words = w :: ws ∧ w.startsTerm = true := by
  induction p with
  | name t => exact ⟨_, _, rfl, rfl⟩
  | quoted t => exact ⟨_, _, rfl, rfl⟩
  | enclosed b ds e _ => exact ⟨_, _, rfl, b.isOpening_opening⟩
  | factor f ih => exact ih
  | except l ds es r ih _ | last l ds ih | comma l ds es r ih _ | beside l ds r ih _
    | choice l ds r ih _ =>
    obtain ⟨w, ws, hw, hstart⟩ := ih
    exact ⟨w, _, by rw [words, hw]; rfl, hstart⟩
  | single s ih => exact ih

namespace Parse

open Word State

/-- In the state `s` the comments `ds` wait, the words `ws` lie ahead, and `k` constructs are
open. -/
structure Shows (s : State) (ds : List String) (ws : List Word) (k : Nat) : Prop where
  texts : s.texts = ds
  words : s.words = ws
  nesting : s.nesting = k

namespace Shows

variable {s : State} {cs ds : List String} {v w : Word} {ws : List Word} {k : Nat}

lemma word (h : Shows s ds (w :: ws) k) : s.current.word = w := by
  have hw := h.words
  rw [words_eq_cons] at hw
  exact (List.cons.inj hw).1

lemma commentNodes (h : Shows s ds ws k) : s.commentNodes = GrammarTree.commentNodes ds := by
  rw [commentNodes_eq, h.texts]

lemma placed (h : Shows s ds ws k) : Shows s.placed [] ws k := ⟨rfl, h.words, h.nesting⟩

lemma advance (h : Shows s cs (v :: comments ds ++ w :: ws) k) (hw : w.kind ≠ .comment) :
    ∃ n, s.advance = .ok n ∧ Shows n (cs ++ ds) (w :: ws) k := by
  obtain ⟨n, hn, htexts, hwords, hnest⟩ := exists_advance hw h.words
  exact ⟨n, hn, by rw [htexts, h.texts], hwords, hnest.trans h.nesting⟩

lemma descend (h : Shows s ds ws k) (hk : k < maxNesting) :
    s.descend = .ok s.deeper ∧ Shows s.deeper ds ws (k + 1) :=
  ⟨descend_of_lt (by rw [h.nesting]; exact hk),
    ⟨h.texts, h.words, by rw [nesting_deeper, h.nesting]⟩⟩

lemma isSymbol_iff (h : Shows s ds (w :: ws) k) (y : Symbol) :
    s.current.isSymbol y = true ↔ w = .symbol y := by
  rw [Token.isSymbol_eq, h.word]

lemma startsTerm_eq (h : Shows s ds (w :: ws) k) : s.current.startsTerm = w.startsTerm := by
  rw [Token.startsTerm_eq, h.word]

end Shows

/-! ### Phrases below the rules -/

/-- A factor is found.  A term is found up to the loop over its exceptions, which has got to its end.
A sequence and an expression are found whole. -/
def Found : {x : Nonterminal} → Phrase x → Prop
  | .factor, f => ∀ (s : State) (ds : List String) (w : Word) (ws : List Word) (k : Nat),
    w.kind ≠ .comment → f.need ≤ maxNesting - k →
    Shows s [] (f.words ++ comments ds ++ w :: ws) k →
    ∃ n, plain (factor s) = .ok (f.build, n) ∧ Shows n ds (w :: ws) k
  | .term i, t => ∀ (s : State) (ds : List String) (w : Word) (ws : List Word) (k : Nat),
    w.kind ≠ .comment → t.need ≤ maxNesting - k →
    Shows s [] (t.words ++ comments ds ++ w :: ws) k →
    ∃ first s₁ n, plain (factor s) = .ok (first, s₁) ∧
      plain (exceptions first 0 s₁) = plain (exceptions t.build i n) ∧
      Shows n ds (w :: ws) (k + i)
  | .sequence, q => ∀ (s : State) (cs : List String) (w : Word) (ws : List Word) (k : Nat),
    w.EndsSequence → q.need ≤ maxNesting - k →
    Shows s cs (q.words ++ w :: ws) k →
    ∃ n, plain (terms s) = .ok ((q.build.1, GrammarTree.commentNodes cs ++ q.build.2), n) ∧
      Shows n [] (w :: ws) k
  | .expression, e => ∀ (s : State) (cs : List String) (w : Word) (ws : List Word) (k : Nat),
    w.EndsExpression → e.need ≤ maxNesting - k →
    Shows s cs (e.words ++ w :: ws) k →
    ∃ n, plain (alternatives s) = .ok (e.build (GrammarTree.commentNodes cs), n) ∧
      Shows n [] (w :: ws) k

lemma found_name (t : String) : Found (.name t) := by
  intro s ds w ws k hw _ hs
  obtain ⟨n, hn, hshow⟩ := Shows.advance (v := .name t) hs hw
  have hword := Shows.word (w := .name t) hs
  have hk : s.current.kind = .identifier := by rw [← Token.kind_word, hword]; rfl
  have ht : s.current.text = t := by
    rw [Token.word_of_identifier hk] at hword
    exact Word.name.inj hword
  refine ⟨n, ?_, hshow⟩
  rw [plain_factor_of_identifier hk, hn, ht]
  rfl

lemma found_quoted (t : String) : Found (.quoted t) := by
  intro s ds w ws k hw _ hs
  obtain ⟨n, hn, hshow⟩ := Shows.advance (v := .quoted t) hs hw
  have hword := Shows.word (w := .quoted t) hs
  have hk : s.current.kind = .terminal := by rw [← Token.kind_word, hword]; rfl
  have ht : s.current.text = t := by
    rw [Token.word_of_terminal hk] at hword
    exact Word.quoted.inj hword
  refine ⟨n, ?_, hshow⟩
  rw [plain_factor_of_terminal hk, hn, ht]
  rfl

lemma found_enclosed (b : Enclosure) (ds : List String) {e : Phrase .expression} (ih : Found e) :
    Found (.enclosed b ds e) := by
  intro s es w ws k hw hneed hs
  have hk : k < maxNesting := by
    simp only [Phrase.need] at hneed
    omega
  have hneed' : e.need ≤ maxNesting - (k + 1) := by
    simp only [Phrase.need] at hneed
    omega
  -- the token behind the opening one is the first of the expression
  obtain ⟨v, vs, hv, hstart⟩ := e.exists_first
  have hs' : Shows s [] (.symbol b.opening :: comments ds ++ v ::
      (vs ++ .symbol b.closing :: comments es ++ w :: ws)) k := by
    simpa [Phrase.words, hv] using hs
  have hopen : s.current.kind = .symbol b.opening := by
    rw [← Token.kind_word, hs'.word]
    rfl
  obtain ⟨hdesc, hdeep⟩ := hs'.descend hk
  obtain ⟨s₂, h₂, hs₂⟩ := hdeep.advance (endsTerm_of_startsTerm hstart).noComment
  have hs₂' : Shows s₂ ds (e.words ++ .symbol b.closing :: (comments es ++ w :: ws)) (k + 1) := by
    simpa [hv] using hs₂
  obtain ⟨s₃, h₃, hs₃⟩ := ih s₂ ds _ _ (k + 1) (endsExpression_closing b) hneed' hs₂'
  obtain ⟨s₄, h₄, hs₄⟩ := hs₃.placed.advance hw
  have hexpr : plain (expression s₂) =
      .ok (joinAlternatives (e.build (GrammarTree.commentNodes ds)), s₃) := by
    rw [plain_expression, h₃]
    rfl
  have hclose : s₃.current.isSymbol b.closing = true := (hs₃.isSymbol_iff _).2 rfl
  have hterm : s₂.current.startsTerm = true := by rw [hs₂.startsTerm_eq, hstart]
  refine ⟨s₄.ascend 1, ?_, ⟨hs₄.texts, hs₄.words, by simp [hs₄.nesting]⟩⟩
  rw [plain_factor_of_opening b hopen, plain_enclosed, hdesc, ok_bind, h₂, ok_bind, if_pos hterm,
    hexpr, ok_bind]
  dsimp only
  rw [if_pos hclose, h₄, ok_bind, hs₃.commentNodes]
  simp [Phrase.build, pure, Except.pure]

lemma found_factor {f : Phrase .factor} (ih : Found f) : Found (.factor f) := by
  intro s ds w ws k hw hneed hs
  obtain ⟨n, hn, hshow⟩ := ih s ds w ws k hw hneed hs
  exact ⟨f.build, n, n, hn, rfl, hshow⟩

lemma found_except {i : Nat} {l : Phrase (.term i)} (ds es : List String) {r : Phrase .factor}
    (ihl : Found l) (ihr : Found r) : Found (.except l ds es r) := by
  intro s fs w ws k hw hneed hs
  have hneedl : l.need ≤ maxNesting - k := Nat.le_trans (Nat.le_max_left _ _) hneed
  have hneedr : i + 1 + r.need ≤ maxNesting - k := Nat.le_trans (Nat.le_max_right _ _) hneed
  obtain ⟨v, vs, hv, hstart⟩ := r.exists_first
  have hs' : Shows s [] (l.words ++ comments ds ++ .symbol .minus ::
      (comments es ++ r.words ++ comments fs ++ w :: ws)) k := by
    simpa [Phrase.words] using hs
  obtain ⟨first, s₁, m, h₁, hloop, hm⟩ := ihl s ds (.symbol .minus) _ k (by simp) hneedl hs'
  -- one more turn of the loop
  have hminus : m.current.isSymbol .minus = true := (hm.isSymbol_iff _).2 rfl
  obtain ⟨hdesc, hdeep⟩ := hm.descend (by omega)
  have hdeep' : Shows m.deeper ds (.symbol .minus :: comments es ++ v ::
      (vs ++ comments fs ++ w :: ws)) (k + i + 1) := by
    simpa [hv] using hdeep
  obtain ⟨s₂, h₂, hs₂⟩ := hdeep'.advance (endsTerm_of_startsTerm hstart).noComment
  have hs₂' : Shows s₂.placed [] (r.words ++ comments fs ++ w :: ws) (k + i + 1) := by
    simpa [hv] using hs₂.placed
  obtain ⟨s₃, h₃, hs₃⟩ := ihr _ fs w ws (k + i + 1) hw (by omega) hs₂'
  refine ⟨first, s₁, s₃, h₁, ?_, hs₃⟩
  rw [hloop, plain_exceptions, if_pos hminus, hdesc, ok_bind, h₂, ok_bind, h₃, ok_bind,
    hs₂.commentNodes]
  rfl

/-- A term is found whole where no exception follows. -/
lemma term_of_found {i : Nat} {t : Phrase (.term i)} (ih : Found t) {s : State}
    {ds : List String} {w : Word} {ws : List Word} {k : Nat} (hw : w.EndsTerm)
    (hneed : t.need ≤ maxNesting - k) (hs : Shows s [] (t.words ++ comments ds ++ w :: ws) k) :
    ∃ n, plain (term s) = .ok (t.build, n) ∧ Shows n ds (w :: ws) k := by
  obtain ⟨first, s₁, n, h₁, hloop, hn⟩ := ih s ds w ws k hw.noComment hneed hs
  have hminus : ¬ n.current.isSymbol .minus = true := by
    rw [hn.isSymbol_iff]
    exact hw.noMinus
  refine ⟨n.ascend i, ?_, ⟨hn.texts, hn.words, by simp [hn.nesting]⟩⟩
  rw [plain_term, h₁, ok_bind]
  dsimp only
  rw [hloop, plain_exceptions, if_neg hminus]

lemma found_last {i : Nat} {t : Phrase (.term i)} (ds : List String) (ih : Found t) :
    Found (.last t ds) := by
  intro s cs w ws k hw hneed hs
  have hs' : Shows s.placed [] (t.words ++ comments ds ++ w :: ws) k := by
    simpa [Phrase.words] using hs.placed
  obtain ⟨n, hn, hshow⟩ := term_of_found ih hw.toEndsTerm hneed hs'
  have hcomma : ¬ n.current.isSymbol .comma = true := by
    rw [hshow.isSymbol_iff]
    exact hw.noComma
  have hterm : ¬ n.current.startsTerm = true := by
    rw [hshow.startsTerm_eq, hw.noTerm]
    simp
  refine ⟨n.placed, ?_, hshow.placed⟩
  rw [plain_terms, hn, ok_bind]
  dsimp only
  rw [if_neg hcomma, if_neg hterm, hs.commentNodes, hshow.commentNodes]
  rfl

lemma found_comma {i : Nat} {t : Phrase (.term i)} (ds es : List String) {r : Phrase .sequence}
    (iht : Found t) (ihr : Found r) : Found (.comma t ds es r) := by
  intro s cs w ws k hw hneed hs
  have hneedt : t.need ≤ maxNesting - k := Nat.le_trans (Nat.le_max_left _ _) hneed
  have hneedr : r.need ≤ maxNesting - k := Nat.le_trans (Nat.le_max_right _ _) hneed
  obtain ⟨v, vs, hv, hstart⟩ := r.exists_first
  have hs' : Shows s.placed [] (t.words ++ comments ds ++ .symbol .comma ::
      (comments es ++ r.words ++ w :: ws)) k := by
    simpa [Phrase.words] using hs.placed
  obtain ⟨s₁, h₁, hs₁⟩ := term_of_found iht endsTerm_comma hneedt hs'
  have hs₁' : Shows s₁ ds (.symbol .comma :: comments es ++ v :: (vs ++ w :: ws)) k := by
    simpa [hv] using hs₁
  obtain ⟨s₂, h₂, hs₂⟩ := hs₁'.advance (endsTerm_of_startsTerm hstart).noComment
  have hs₂' : Shows s₂ (ds ++ es) (r.words ++ w :: ws) k := by
    simpa [hv] using hs₂
  obtain ⟨n, hn, hshow⟩ := ihr s₂ (ds ++ es) w ws k hw hneedr hs₂'
  have hcomma : s₁.current.isSymbol .comma = true := (hs₁.isSymbol_iff _).2 rfl
  refine ⟨n, ?_, hshow⟩
  rw [plain_terms, h₁, ok_bind]
  dsimp only
  rw [if_pos hcomma, h₂, ok_bind, hn, ok_bind, hs.commentNodes]
  rfl

lemma found_beside {i : Nat} {t : Phrase (.term i)} (ds : List String) {r : Phrase .sequence}
    (iht : Found t) (ihr : Found r) : Found (.beside t ds r) := by
  intro s cs w ws k hw hneed hs
  have hneedt : t.need ≤ maxNesting - k := Nat.le_trans (Nat.le_max_left _ _) hneed
  have hneedr : r.need ≤ maxNesting - k := Nat.le_trans (Nat.le_max_right _ _) hneed
  obtain ⟨v, vs, hv, hstart⟩ := r.exists_first
  have hs' : Shows s.placed [] (t.words ++ comments ds ++ v :: (vs ++ w :: ws)) k := by
    simpa [Phrase.words, hv] using hs.placed
  obtain ⟨s₁, h₁, hs₁⟩ := term_of_found iht (endsTerm_of_startsTerm hstart) hneedt hs'
  have hs₁' : Shows s₁ ds (r.words ++ w :: ws) k := by
    simpa [hv] using hs₁
  obtain ⟨n, hn, hshow⟩ := ihr s₁ ds w ws k hw hneedr hs₁'
  have hcomma : ¬ s₁.current.isSymbol .comma = true := by
    rw [hs₁.isSymbol_iff]
    exact ne_comma_of_startsTerm hstart
  have hterm : s₁.current.startsTerm = true := by rw [hs₁.startsTerm_eq, hstart]
  refine ⟨n, ?_, hshow⟩
  rw [plain_terms, h₁, ok_bind]
  dsimp only
  rw [if_neg hcomma, if_pos hterm, hn, ok_bind, hs.commentNodes]
  rfl

/-- A sequence that is found is returned with its terms joined. -/
lemma sequence_of_found {q : Phrase .sequence} (ih : Found q) {s : State} {cs : List String}
    {w : Word} {ws : List Word} {k : Nat} (hw : w.EndsSequence) (hneed : q.need ≤ maxNesting - k)
    (hs : Shows s cs (q.words ++ w :: ws) k) :
    ∃ n, plain (sequence s) =
        .ok (joinTerms q.build.1 (GrammarTree.commentNodes cs ++ q.build.2), n) ∧
      Shows n [] (w :: ws) k := by
  obtain ⟨n, hn, hshow⟩ := ih s cs w ws k hw hneed hs
  refine ⟨n, ?_, hshow⟩
  rw [plain_sequence, hn]
  rfl

lemma found_single {q : Phrase .sequence} (ih : Found q) : Found (.single q) := by
  intro s cs w ws k hw hneed hs
  obtain ⟨n, hn, hshow⟩ := sequence_of_found ih hw.toEndsSequence hneed hs
  have hpipe : ¬ n.current.isSymbol .pipe = true := by
    rw [hshow.isSymbol_iff]
    exact hw.noPipe
  refine ⟨n, ?_, hshow⟩
  rw [plain_alternatives, hn, ok_bind]
  dsimp only
  rw [if_neg hpipe]
  rfl

lemma found_choice {q : Phrase .sequence} (ds : List String) {r : Phrase .expression}
    (ihq : Found q) (ihr : Found r) : Found (.choice q ds r) := by
  intro s cs w ws k hw hneed hs
  have hneedq : q.need ≤ maxNesting - k := Nat.le_trans (Nat.le_max_left _ _) hneed
  have hneedr : r.need ≤ maxNesting - k := Nat.le_trans (Nat.le_max_right _ _) hneed
  obtain ⟨v, vs, hv, hstart⟩ := r.exists_first
  have hs' : Shows s cs (q.words ++ .symbol .pipe :: (comments ds ++ r.words ++ w :: ws)) k := by
    simpa [Phrase.words] using hs
  obtain ⟨s₁, h₁, hs₁⟩ := sequence_of_found ihq endsSequence_pipe hneedq hs'
  have hs₁' : Shows s₁ [] (.symbol .pipe :: comments ds ++ v :: (vs ++ w :: ws)) k := by
    simpa [hv] using hs₁
  obtain ⟨s₂, h₂, hs₂⟩ := hs₁'.advance (endsTerm_of_startsTerm hstart).noComment
  have hs₂' : Shows s₂ ds (r.words ++ w :: ws) k := by
    simpa [hv] using hs₂
  obtain ⟨n, hn, hshow⟩ := ihr s₂ ds w ws k hw hneedr hs₂'
  have hpipe : s₁.current.isSymbol .pipe = true := (hs₁.isSymbol_iff _).2 rfl
  refine ⟨n, ?_, hshow⟩
  rw [plain_alternatives, h₁, ok_bind]
  dsimp only
  rw [if_pos hpipe, h₂, ok_bind, hn, ok_bind]
  rfl

/-- Every phrase is found. -/
lemma found {x : Nonterminal} (p : Phrase x) : Found p := by
  induction p with
  | name t => exact found_name t
  | quoted t => exact found_quoted t
  | enclosed b ds e ih => exact found_enclosed b ds ih
  | factor f ih => exact found_factor ih
  | except l ds es r ihl ihr => exact found_except ds es ihl ihr
  | last t ds ih => exact found_last ds ih
  | comma t ds es r iht ihr => exact found_comma ds es iht ihr
  | beside t ds r iht ihr => exact found_beside ds iht ihr
  | single q ih => exact found_single ih
  | choice q ds r ihq ihr => exact found_choice ds ihq ihr

/-! ### Rules and grammars -/

/-- A rule is found. -/
lemma rule_of_words (r : RulePhrase) (hr : r.leading = []) (hfit : r.Fits) {s : State}
    {ds : List String} {w : Word} {ws : List Word} (hw : w.kind ≠ .comment)
    (hs : Shows s [] (r.words ++ comments ds ++ w :: ws) 0)
    (hk : s.current.kind = .identifier) :
    ∃ n, plain (rule s hk) = .ok (r.node, n) ∧ Shows n ds (w :: ws) 0 := by
  obtain ⟨v, vs, hv, hstart⟩ := r.body.exists_first
  have hs' : Shows s [] (.name r.name :: comments r.before ++ .symbol r.definition ::
      (comments r.after ++ v :: (vs ++ .symbol r.terminator :: comments ds ++ w :: ws))) 0 := by
    simpa [RulePhrase.words, hr, hv] using hs
  have hname : s.current.text = r.name := by
    have hword := hs'.word
    rw [Token.word_of_identifier hk] at hword
    exact Word.name.inj hword
  obtain ⟨s₁, h₁, hs₁⟩ := hs'.advance (w := .symbol r.definition) (by simp)
  have hdef : isDefinition s₁.current.kind = true := by
    rw [← Token.kind_word, hs₁.word]
    exact r.isDefinition
  obtain ⟨s₂, h₂, hs₂⟩ := hs₁.advance (endsTerm_of_startsTerm hstart).noComment
  have hterm : s₂.current.startsTerm = true := by rw [hs₂.startsTerm_eq, hstart]
  have hs₂' : Shows s₂.placed []
      (r.body.words ++ .symbol r.terminator :: (comments ds ++ w :: ws)) 0 := by
    simpa [hv] using hs₂.placed
  obtain ⟨s₃, h₃, hs₃⟩ := found r.body s₂.placed [] _ _ 0
    (endsExpression_of_isTerminator r.isTerminator) hfit hs₂'
  have hexpr : plain (expression s₂.placed) = .ok (joinAlternatives (r.body.build []), s₃) := by
    rw [plain_expression, h₃]
    rfl
  have hend : isTerminator s₃.current.kind = true := by
    rw [← Token.kind_word, hs₃.word]
    exact r.isTerminator
  obtain ⟨s₄, h₄, hs₄⟩ := hs₃.placed.advance hw
  refine ⟨s₄, ?_, hs₄⟩
  rw [plain_rule, h₁, ok_bind, if_pos hdef, h₂, ok_bind, if_pos hterm, hexpr, ok_bind]
  dsimp only
  rw [if_pos hend, h₄, ok_bind, hs₂.commentNodes, hs₃.commentNodes, hname]
  simp [RulePhrase.node, pure, Except.pure]

/-- What waits and lies ahead in a state that looks at no comment. -/
lemma shows_of_input {s : State} (hset : s.Settled) {ds : List String} {w : Word}
    {ws : List Word} (hw : w.kind ≠ .comment) (hs : s.input = comments ds ++ w :: ws) :
    Shows s ds (w :: ws) s.nesting := by
  have hc : s.current.word.kind ≠ .comment := by
    rw [Token.kind_word]
    exact hset
  rw [input, words_eq_cons] at hs
  obtain ⟨htexts, hwords⟩ := comments_append_inj hc hw hs
  exact ⟨htexts, by rw [words_eq_cons, hwords], rfl⟩

lemma Shows.input {s : State} {ds : List String} {ws : List Word} {k : Nat}
    (h : Shows s ds ws k) : s.input = comments ds ++ ws := by
  rw [State.input, h.texts, h.words]

lemma Shows.settled {s : State} {ds : List String} {w : Word} {ws : List Word} {k : Nat}
    (h : Shows s ds (w :: ws) k) (hw : w.kind ≠ .comment) : s.Settled := by
  rw [Settled, ← Token.kind_word, h.word]
  exact hw

/-- Rules are found, in front of something that is no rule.  The comments `cs` stand before them. -/
lemma rules_of_words (rs : List RulePhrase) (hfits : ∀ r ∈ rs, r.Fits) {s : State}
    (hset : s.Settled) (hnest : s.nesting = 0) {cs es : List String} {w : Word} {ws : List Word}
    (hw : w.kind ≠ .comment) (hname : w.kind ≠ .identifier)
    (hs : s.input = comments cs ++ rs.flatMap (·.words) ++ comments es ++ w :: ws) :
    ∃ items n, rules s = .ok (items, n) ∧ n.words = w :: ws ∧ n.Settled ∧ n.nesting = 0 ∧
      items ++ n.commentNodes =
        GrammarTree.commentNodes cs ++ rs.flatMap (·.nodes) ++ GrammarTree.commentNodes es := by
  induction rs generalizing s cs with
  | nil =>
    have hs' : s.input = comments (cs ++ es) ++ w :: ws := by simpa using hs
    have hshow := shows_of_input hset hw hs'
    have hk : s.current.kind ≠ .identifier := by
      rw [← Token.kind_word, hshow.word]
      exact hname
    refine ⟨[], s, rules_of_not_identifier hk, hshow.words, hset, hnest, ?_⟩
    simp [hshow.commentNodes]
  | cons r rs ih =>
    -- what follows the rule is comments and something else
    have htail : ∃ v ∈ rs.flatMap (·.words) ++ comments es ++ w :: ws, v.kind ≠ .comment :=
      ⟨w, by simp, hw⟩
    obtain ⟨ds, u, us, htail, hu⟩ := exists_comments_append htail
    obtain ⟨v, vs, hv⟩ : ∃ v vs, RulePhrase.words { r with leading := [] } = .name v :: vs :=
      ⟨_, _, rfl⟩
    have hwords : r.words = comments r.leading ++ .name v :: vs := by
      rw [← hv]
      simp [RulePhrase.words]
    have hs' : s.input =
        comments (cs ++ r.leading) ++ .name v :: (vs ++ (comments ds ++ u :: us)) := by
      simp [hs, hwords, ← htail]
    have hshow := shows_of_input (w := .name v) hset (by simp) hs'
    have hk : s.current.kind = .identifier := by
      rw [← Token.kind_word, hshow.word]
      rfl
    have hplaced : Shows s.placed []
        (RulePhrase.words { r with leading := [] } ++ comments ds ++ u :: us) 0 := by
      have hp := hshow.placed
      rw [hnest] at hp
      simpa [hv] using hp
    obtain ⟨s₁, h₁, hs₁⟩ := rule_of_words { r with leading := [] } rfl (hfits r (by simp)) hu
      hplaced hk
    have hs₁' : s₁.input =
        comments [] ++ rs.flatMap (·.words) ++ comments es ++ w :: ws := by
      rw [hs₁.input, ← htail]
      simp
    obtain ⟨items, n, h₂, hnwords, hnset, hnnest, hnodes⟩ :=
      ih (fun r' hr' => hfits r' (by simp [hr'])) (hs₁.settled hu) hs₁.nesting hs₁'
    refine ⟨s.commentNodes ++ r.node :: items, n, ?_, hnwords, hnset, hnnest, ?_⟩
    · rw [rules_of_identifier hk, h₁, ok_bind]
      dsimp only
      rw [h₂, ok_bind]
      rfl
    · simp [hshow.commentNodes, hnodes, RulePhrase.nodes]

/-- A quoted text is found if there is one. -/
lemma quoted?_of_words (q : Option QuotedPhrase) {s : State} (hset : s.Settled)
    (hnest : s.nesting = 0) {ds : List String} {w : Word} {ws : List Word}
    (hw : w.kind ≠ .comment) (hquoted : w.kind ≠ .terminal)
    (hs : s.input = QuotedPhrase.wordsOf q ++ comments ds ++ w :: ws) :
    ∃ n, quoted? s = .ok (q.map (·.text), n) ∧
      Shows n (QuotedPhrase.leadingOf q ++ ds) (w :: ws) 0 := by
  cases q with
  | none =>
    have hshow := shows_of_input hset hw hs
    rw [hnest] at hshow
    have hk : s.current.kind ≠ .terminal := by
      rw [← Token.kind_word, hshow.word]
      exact hquoted
    refine ⟨s, ?_, hshow⟩
    rw [quoted?, if_neg hk]
    rfl
  | some q =>
    have hs' : s.input = comments q.leading ++ .quoted q.text :: (comments ds ++ w :: ws) := by
      simpa [QuotedPhrase.wordsOf] using hs
    have hshow := shows_of_input (w := .quoted q.text) hset (by simp) hs'
    rw [hnest] at hshow
    have hk : s.current.kind = .terminal := by
      rw [← Token.kind_word, hshow.word]
      rfl
    have ht : s.current.text = q.text := by
      have hword := hshow.word
      rw [Token.word_of_terminal hk] at hword
      exact Word.quoted.inj hword
    obtain ⟨n, hn, hs₁⟩ := hshow.advance hw
    refine ⟨n, ?_, hs₁⟩
    rw [quoted?, if_pos hk, hn, ht]
    rfl

/-- In front of any number of rules stands a name or what follows the rules. -/
lemma word_of_rules (rs : List RulePhrase) {s : State} (hset : s.Settled) {cs es : List String}
    {w : Word} {ws : List Word} (hw : w.kind ≠ .comment)
    (hs : s.input = comments cs ++ rs.flatMap (·.words) ++ comments es ++ w :: ws) :
    (∃ t, s.current.word = .name t) ∨ s.current.word = w := by
  cases rs with
  | nil =>
    have hs' : s.input = comments (cs ++ es) ++ w :: ws := by simpa using hs
    exact Or.inr (shows_of_input hset hw hs').word
  | cons r rs =>
    have hs' : ∃ vs, s.input = comments (cs ++ r.leading) ++ .name r.name :: vs := by
      rw [hs]
      simp [RulePhrase.words]
    obtain ⟨vs, hs'⟩ := hs'
    exact Or.inl ⟨r.name, (shows_of_input (w := .name r.name) hset (by simp) hs').word⟩

/-- Rules up to the end of the input are found.  The comments `cs` belong to the title. -/
lemma body_of_bareWords (rs : List RulePhrase) (hfits : ∀ r ∈ rs, r.Fits) {s : State}
    (hset : s.Settled) (hnest : s.nesting = 0) {cs es : List String}
    (hs : s.input = comments cs ++ rs.flatMap (·.words) ++ comments es ++ [.finish]) :
    body s = .ok (GrammarTree.commentNodes cs ++ rs.flatMap (·.nodes) ++
      GrammarTree.commentNodes es, none) := by
  have hopen : ¬ s.current.isSymbol .openBrace = true := by
    rw [Token.isSymbol_eq]
    rcases word_of_rules rs hset (w := .finish) (by simp) hs with ⟨t, hword⟩ | hword
    · simp [hword]
    · simp [hword]
  obtain ⟨items, n, h₁, hwords, -, -, hnodes⟩ :=
    rules_of_words rs hfits hset hnest (w := .finish) (by simp) (by simp) hs
  have hend : n.current.isFinish = true := by
    have hword : n.current.word = .finish := Shows.word ⟨rfl, hwords, rfl⟩
    rw [Token.isFinish_iff, ← Token.kind_word, hword]
    rfl
  rw [body, Bool.eq_false_iff.2 hopen]
  simp only [Bool.false_eq_true, if_false, pure_bind, h₁, ok_bind, hend, if_true]
  rw [hnodes]
  rfl

/-- Rules in a frame and what follows them are found.  The comments `cs` belong to the title. -/
lemma body_of_framedWords (f : Frame) (rs : List RulePhrase) (hfits : ∀ r ∈ rs, r.Fits)
    {s : State} (hset : s.Settled) (hnest : s.nesting = 0) {cs es : List String}
    (hs : s.input = comments (cs ++ f.opening) ++ .symbol .openBrace ::
      (rs.flatMap (·.words) ++ comments f.closing ++ .symbol .closeBrace ::
        (QuotedPhrase.wordsOf f.about ++ comments es ++ [.finish]))) :
    ∃ items, body s = .ok (items, f.about.map (·.text)) ∧
      items = GrammarTree.commentNodes (cs ++ f.opening) ++ rs.flatMap (·.nodes) ++
        GrammarTree.commentNodes f.closing ++
          GrammarTree.commentNodes (QuotedPhrase.leadingOf f.about ++ es) := by
  -- behind each brace stand comments and something else
  have hmem : ∃ w ∈ rs.flatMap (·.words) ++ comments f.closing ++ .symbol .closeBrace ::
      (QuotedPhrase.wordsOf f.about ++ comments es ++ [.finish]), w.kind ≠ .comment :=
    ⟨.finish, by simp, by simp⟩
  have hmem' : ∃ w ∈ QuotedPhrase.wordsOf f.about ++ comments es ++ [.finish],
      w.kind ≠ .comment :=
    ⟨.finish, by simp, by simp⟩
  obtain ⟨ds, u, us, htail, hu⟩ := exists_comments_append hmem
  obtain ⟨ds', v, vs, hlast, hv⟩ := exists_comments_append hmem'
  -- the opening brace
  have hshow := shows_of_input (w := .symbol .openBrace) hset (by simp) hs
  rw [hnest, htail] at hshow
  have hopen : s.current.isSymbol .openBrace = true := (hshow.isSymbol_iff _).2 rfl
  obtain ⟨s₁, h₁, hs₁⟩ := hshow.advance hu
  have hin₁ : s₁.input = comments (cs ++ f.opening) ++ rs.flatMap (·.words) ++
      comments f.closing ++ .symbol .closeBrace ::
        (QuotedPhrase.wordsOf f.about ++ comments es ++ [.finish]) := by
    rw [hs₁.input, comments_append, List.append_assoc, ← htail]
    simp
  -- the rules and the closing brace
  obtain ⟨items, s₂, h₂, hwords, -, hn₂, hnodes⟩ := rules_of_words rs hfits
    (hs₁.settled hu) hs₁.nesting (w := .symbol .closeBrace) (by simp) (by simp) hin₁
  have hs₂ : Shows s₂.placed [] (.symbol .closeBrace :: comments ds' ++ v :: vs) 0 :=
    ⟨rfl, by rw [words_placed, hwords, hlast]; rfl, hn₂⟩
  have hclose : s₂.placed.current.isSymbol .closeBrace = true := (hs₂.isSymbol_iff _).2 rfl
  obtain ⟨s₃, h₃, hs₃⟩ := hs₂.advance hv
  have hexpect : expect .closeBrace s₂.placed = .ok s₃ := by
    rw [expect, if_pos hclose, h₃]
  -- the meta text and the end of the input
  have hin₃ : s₃.input = QuotedPhrase.wordsOf f.about ++ comments es ++ [.finish] := by
    rw [hs₃.input, hlast, List.nil_append]
  obtain ⟨s₄, h₄, hs₄⟩ := quoted?_of_words f.about (hs₃.settled hv) hs₃.nesting
    (w := .finish) (by simp) (by simp) hin₃
  have hend : s₄.current.isFinish = true := by
    rw [Token.isFinish_iff, ← Token.kind_word, hs₄.word]
    rfl
  refine ⟨items ++ s₂.commentNodes ++ s₄.commentNodes, ?_, ?_⟩
  · rw [body, hopen]
    simp only [if_true, h₁, ok_bind, h₂, hexpect, h₄, hend]
    rfl
  · rw [hnodes, hs₄.commentNodes]

/-- The part of a grammar behind the title is found.  The comments `cs` belong to the title. -/
lemma body_of_words (g : GrammarPhrase) (hfit : g.Fits) {s : State} (hset : s.Settled)
    (hnest : s.nesting = 0) {cs : List String}
    (hs : s.input = comments cs ++ g.bodyWords ++ comments g.trailing ++ [.finish]) :
    body s = .ok (GrammarTree.commentNodes cs ++ g.bodyNodes ++
      GrammarTree.commentNodes g.trailing, (g.frame.bind (·.about)).map (·.text)) := by
  cases hframe : g.frame with
  | none =>
    have hs' : s.input =
        comments cs ++ g.rules.flatMap (·.words) ++ comments g.trailing ++ [.finish] := by
      simpa [GrammarPhrase.bodyWords, hframe] using hs
    rw [body_of_bareWords g.rules hfit hset hnest hs', GrammarPhrase.bodyNodes, hframe]
    rfl
  | some f =>
    have hs' : s.input = comments (cs ++ f.opening) ++ .symbol .openBrace ::
        (g.rules.flatMap (·.words) ++ comments f.closing ++ .symbol .closeBrace ::
          (QuotedPhrase.wordsOf f.about ++ comments g.trailing ++ [.finish])) := by
      rw [hs]
      simp [GrammarPhrase.bodyWords, hframe]
    obtain ⟨items, hbody, rfl⟩ := body_of_framedWords f g.rules hfit hset hnest hs'
    rw [hbody]
    simp [GrammarPhrase.bodyNodes, hframe]

/-- Behind the title stand comments and something that is no quoted text. -/
lemma exists_first_of_body (g : GrammarPhrase) :
    ∃ (ds : List String) (w : Word) (ws : List Word),
      g.bodyWords ++ comments g.trailing ++ [.finish] = comments ds ++ w :: ws ∧
      w.kind ≠ .comment ∧ w.kind ≠ .terminal := by
  obtain ⟨title, frame, rules, trailing⟩ := g
  cases frame with
  | none =>
    cases rules with
    | nil => exact ⟨trailing, .finish, [], rfl, by simp, by simp⟩
    | cons r rules =>
      have h : ∃ ws, GrammarPhrase.bodyWords ⟨title, none, r :: rules, trailing⟩ ++
          comments trailing ++ [.finish] = comments r.leading ++ .name r.name :: ws := by
        simp [GrammarPhrase.bodyWords, RulePhrase.words]
      obtain ⟨ws, h⟩ := h
      exact ⟨r.leading, .name r.name, ws, h, by simp, by simp⟩
  | some f =>
    have h : ∃ ws, GrammarPhrase.bodyWords ⟨title, some f, rules, trailing⟩ ++
        comments trailing ++ [.finish] = comments f.opening ++ .symbol .openBrace :: ws := by
      simp [GrammarPhrase.bodyWords]
    obtain ⟨ws, h⟩ := h
    exact ⟨f.opening, .symbol .openBrace, ws, h, by simp, by simp⟩

/-- A grammar is found. -/
lemma grammar_of_words (g : GrammarPhrase) (hfit : g.Fits) {stream : Stream}
    (hs : stream.tokens.map Token.word = g.words) : grammar stream = .ok g.node := by
  obtain ⟨ds, w, ws, hbody, hw, hterminal⟩ := exists_first_of_body g
  cases hstart : State.start stream with
  | error e =>
    -- the stream would have no tokens but comments
    rw [start_eq_advance stream ⟨.endOfInput, "", ⟨1, 1⟩⟩] at hstart
    obtain ⟨-, -, -, hall⟩ := advance_eq_error hstart
    have hmem : Word.finish ∈ stream.tokens.map Token.word := by simp [hs, GrammarPhrase.words]
    obtain ⟨t, ht, htw⟩ := List.mem_map.1 hmem
    have hk : t.kind = .endOfInput := by rw [← Token.kind_word, htw]; rfl
    rw [hall t ht] at hk
    cases hk
  | ok s =>
    obtain ⟨hin, hnest, -, hset⟩ := start_eq_ok hstart
    have hin' : s.input = QuotedPhrase.wordsOf g.title ++ comments ds ++ w :: ws := by
      rw [← hin, hs, GrammarPhrase.words, List.append_assoc, List.append_assoc,
        ← List.append_assoc g.bodyWords, hbody]
      simp
    obtain ⟨s₁, h₁, hs₁⟩ := quoted?_of_words g.title hset hnest hw hterminal hin'
    have hin₁ : s₁.input = comments (QuotedPhrase.leadingOf g.title) ++ g.bodyWords ++
        comments g.trailing ++ [.finish] := by
      rw [hs₁.input, comments_append, List.append_assoc, ← hbody]
      simp
    have hb := body_of_words g hfit (hs₁.settled hw) hs₁.nesting hin₁
    rw [grammar, hstart, ok_bind, h₁, ok_bind]
    dsimp only
    rw [hb, ok_bind]
    rfl

/-- Parsing a stream is finding the phrase that the stream spells. -/
theorem grammar_eq_ok_iff {stream : Stream} {tree : Node} :
    grammar stream = .ok tree ↔
      ∃ g : GrammarPhrase, g.Fits ∧ stream.tokens.map Token.word = g.words ∧ tree = g.node := by
  constructor
  · intro h
    obtain ⟨g, hfit, rfl, -, hwords⟩ := exists_phrase_of_grammar h
    exact ⟨g, hfit, hwords, rfl⟩
  · rintro ⟨g, hfit, hwords, rfl⟩
    exact grammar_of_words g hfit hwords

end Parse

end GrammarTree
