/-
# The parser reads phrases

Whatever a function of the parser returns, it has read a phrase: the words that lay ahead are those
of the phrase and then those that lie ahead now, what it returns is built from the phrase, and the
need of the phrase is within the limit.  This is proved for all functions at once, by the recursion
of their definitions; each step is a lemma of its own.  The functions for terms and factors are only
called when no comment waits.

The result is `exists_phrase_of_grammar`: the tree of a grammar is that of a grammar phrase with the
words of the stream.
-/
import GrammarTree.Proofs.Parse.Input
import GrammarTree.Proofs.Parse.Outcome

namespace GrammarTree.Parse

open Word State

/-- From the state `s` the phrase `p` is read, and `n` is the state behind it. -/
structure Reads {x : Nonterminal} (s : State) (p : Phrase x) (n : State) : Prop where
  words : s.words = p.words ++ n.input
  need : p.need ≤ maxNesting - s.nesting
  nesting : n.nesting = s.nesting
  fault : n.fault? = s.fault?
  settled : n.Settled

/-- From the state `s` the word `w` is passed and the comments `ds` behind it, and `n` is the state
behind them. -/
structure Steps (s : State) (w : Word) (ds : List String) (n : State) : Prop where
  texts : n.texts = s.texts ++ ds
  words : s.words = w :: (comments ds ++ n.words)
  nesting : n.nesting = s.nesting
  fault : n.fault? = s.fault?
  settled : n.Settled
  pending : n.pending < s.pending

lemma exists_steps {s n : State} (h : s.advance = .ok n) (hfin : s.current.isFinish = false) :
    ∃ ds, Steps s s.current.word ds n := by
  obtain ⟨ds, htexts, hwords⟩ := words_of_advance hfin h
  exact ⟨ds, htexts, hwords, nesting_of_advance h, fault?_of_advance hfin h, settled_of_advance h,
    pending_advance h hfin⟩

lemma exists_steps_of_isSymbol {s n : State} {y : Symbol} (h : s.advance = .ok n)
    (hy : s.current.isSymbol y = true) : ∃ ds, Steps s (.symbol y) ds n := by
  rw [← Token.word_of_isSymbol hy]
  exact exists_steps h (isFinish_of_isSymbol hy)

lemma exists_steps_of_symbol {s n : State} {y : Symbol} (h : s.advance = .ok n)
    (hy : s.current.kind = .symbol y) : ∃ ds, Steps s (.symbol y) ds n := by
  rw [← Token.word_of_symbol hy]
  exact exists_steps h (isFinish_of_symbol hy)

/-! ### What each function does -/

/-- An expression is read as a phrase. -/
def ReadsExpression (s : State) : Prop :=
  ∀ found n, plain (expression s) = .ok (found, n) →
    ∃ e : Phrase .expression, found = joinAlternatives (e.build s.commentNodes) ∧ Reads s e n ∧
      n.texts = []

/-- Alternatives are read as a phrase. -/
def ReadsAlternatives (s : State) : Prop :=
  ∀ found n, plain (alternatives s) = .ok (found, n) →
    ∃ e : Phrase .expression, found = e.build s.commentNodes ∧ Reads s e n ∧ n.texts = []

/-- A sequence is read as a phrase. -/
def ReadsSequence (s : State) : Prop :=
  ∀ found n, plain (sequence s) = .ok (found, n) →
    ∃ q : Phrase .sequence, found = joinTerms q.build.1 (s.commentNodes ++ q.build.2) ∧
      Reads s q n ∧ n.texts = []

/-- The terms of a sequence are read as a phrase. -/
def ReadsTerms (s : State) : Prop :=
  ∀ k items n, plain (terms s) = .ok ((k, items), n) →
    ∃ q : Phrase .sequence, k = q.build.1 ∧ items = s.commentNodes ++ q.build.2 ∧ Reads s q n ∧
      n.texts = []

/-- A term is read as a phrase. -/
def ReadsTerm (s : State) : Prop :=
  s.texts = [] → ∀ found n, plain (term s) = .ok (found, n) →
    ∃ i, ∃ t : Phrase (.term i), found = t.build ∧ Reads s t n

/-- Exceptions extend a phrase that was read from `base` open constructs on. -/
def ReadsExceptions (left : Node) (chained : Nat) (s : State) : Prop :=
  ∀ (t : Phrase (.term chained)) (base : Nat), left = t.build → s.nesting = base + chained →
    t.need ≤ maxNesting - base → s.Settled →
    ∀ found n, plain (exceptions left chained s) = .ok (found, n) →
      ∃ i, ∃ t' : Phrase (.term i), found = t'.build ∧ t.words ++ s.input = t'.words ++ n.input ∧
        t'.need ≤ maxNesting - base ∧ n.nesting = base ∧ n.fault? = s.fault? ∧ n.Settled

/-- A factor is read as a phrase. -/
def ReadsFactor (s : State) : Prop :=
  s.texts = [] → ∀ found n, plain (factor s) = .ok (found, n) →
    ∃ f : Phrase .factor, found = f.build ∧ Reads s f n

/-- An enclosure is read as a phrase. -/
def ReadsEnclosed (content : Content) (close : Symbol) (s : State)
    (h : s.current.isFinish = false) : Prop :=
  s.texts = [] → ∀ b : Enclosure, content = b.content → close = b.closing →
    s.current.kind = .symbol b.opening →
    ∀ found n, plain (enclosed content close s h) = .ok (found, n) →
      ∃ f : Phrase .factor, found = f.build ∧ Reads s f n

/-! ### The steps -/

lemma readsExpression {s : State} (ih : ReadsAlternatives s) : ReadsExpression s := by
  intro found n h
  rw [plain_expression] at h
  obtain ⟨⟨alts, s₁⟩, h₁, h⟩ := bind_eq_ok h
  cases h
  obtain ⟨e, rfl, he, hn⟩ := ih _ _ h₁
  exact ⟨e, rfl, he, hn⟩

lemma readsAlternatives {s : State} (ihs : ReadsSequence s)
    (iha : ∀ s₁ s₂ : State, s₁.pending < s.pending → s₂.pending < s₁.pending →
      ReadsAlternatives s₂) : ReadsAlternatives s := by
  intro found n h
  rw [plain_alternatives] at h
  obtain ⟨⟨items, s₁⟩, h₁, h⟩ := bind_eq_ok h
  obtain ⟨q, rfl, hq, ht₁⟩ := ihs _ _ h₁
  dsimp only at h
  split at h
  · rename_i hp
    obtain ⟨s₂, h₂, h⟩ := bind_eq_ok h
    obtain ⟨⟨others, s₃⟩, h₃, h⟩ := bind_eq_ok h
    cases h
    obtain ⟨ds, hpipe⟩ := exists_steps_of_isSymbol h₂ hp
    obtain ⟨e, rfl, he, ht₃⟩ := iha s₁ s₂ (pending_of_plain h₁) hpipe.pending _ _ h₃
    refine ⟨.choice q ds e, ?_, ⟨?_, ?_, ?_, ?_, he.settled⟩, ht₃⟩
    · simp [Phrase.build, commentNodes_eq, hpipe.texts, ht₁]
    · rw [hq.words, input_of_texts ht₁, hpipe.words, he.words]
      simp [Phrase.words]
    · have hneed := he.need
      rw [hpipe.nesting, hq.nesting] at hneed
      exact Nat.max_le.2 ⟨hq.need, hneed⟩
    · rw [he.nesting, hpipe.nesting, hq.nesting]
    · rw [he.fault, hpipe.fault, hq.fault]
  · cases h
    exact ⟨.single q, rfl, ⟨hq.words, hq.need, hq.nesting, hq.fault, hq.settled⟩, ht₁⟩

lemma readsSequence {s : State} (ih : ReadsTerms s) : ReadsSequence s := by
  intro found n h
  rw [plain_sequence] at h
  obtain ⟨⟨⟨k, items⟩, s₁⟩, h₁, h⟩ := bind_eq_ok h
  cases h
  obtain ⟨q, rfl, rfl, hq, hn⟩ := ih _ _ _ h₁
  exact ⟨q, rfl, hq, hn⟩

lemma readsTerms {s : State} (iht : ReadsTerm s.placed)
    (ihc : ∀ s₁ s₂ : State, s₁.pending < s.placed.pending → s₂.pending < s₁.pending →
      ReadsTerms s₂)
    (ihb : ∀ s₁ : State, s₁.pending < s.placed.pending → ReadsTerms s₁) : ReadsTerms s := by
  intro k items n h
  rw [plain_terms] at h
  obtain ⟨⟨first, s₁⟩, h₁, h⟩ := bind_eq_ok h
  obtain ⟨i, t, rfl, ht⟩ := iht rfl _ _ h₁
  have hlt := pending_of_plain h₁
  have hword : s.words = t.words ++ comments s₁.texts ++ s₁.words := by
    simpa [input] using ht.words
  dsimp only at h
  split at h
  · rename_i hc
    obtain ⟨s₂, h₂, h⟩ := bind_eq_ok h
    obtain ⟨⟨⟨k', items'⟩, s₃⟩, h₃, h⟩ := bind_eq_ok h
    cases h
    obtain ⟨ds, hcomma⟩ := exists_steps_of_isSymbol h₂ hc
    obtain ⟨q, rfl, rfl, hq, hn⟩ := ihc s₁ s₂ hlt hcomma.pending _ _ _ h₃
    refine ⟨.comma t s₁.texts ds q, rfl, ?_, ⟨?_, ?_, ?_, ?_, hq.settled⟩, hn⟩
    · simp [Phrase.build, commentNodes_eq, hcomma.texts]
    · rw [hword, hcomma.words, hq.words]
      simp [Phrase.words]
    · have hneed := hq.need
      rw [hcomma.nesting, ht.nesting] at hneed
      exact Nat.max_le.2 ⟨ht.need, hneed⟩
    · rw [hq.nesting, hcomma.nesting, ht.nesting]
      rfl
    · rw [hq.fault, hcomma.fault, ht.fault]
      rfl
  · split at h
    · obtain ⟨⟨⟨k', items'⟩, s₂⟩, h₂, h⟩ := bind_eq_ok h
      cases h
      obtain ⟨q, rfl, rfl, hq, hn⟩ := ihb s₁ hlt _ _ _ h₂
      refine ⟨.beside t s₁.texts q, rfl, ?_, ⟨?_, ?_, ?_, ?_, hq.settled⟩, hn⟩
      · simp [Phrase.build, commentNodes_eq]
      · rw [hword, hq.words]
        simp [Phrase.words]
      · have hneed := hq.need
        rw [ht.nesting] at hneed
        exact Nat.max_le.2 ⟨ht.need, hneed⟩
      · rw [hq.nesting, ht.nesting]
        rfl
      · rw [hq.fault, ht.fault]
        rfl
    · cases h
      refine ⟨.last t s₁.texts, rfl, ?_, ⟨?_, ht.need, ht.nesting, ht.fault, ht.settled⟩, rfl⟩
      · simp [Phrase.build, commentNodes_eq]
      · rw [hword]
        simp [Phrase.words]

lemma readsTerm {s : State} (ihf : ReadsFactor s)
    (ihe : ∀ (first : Node) (s₁ : State), s₁.pending < s.pending → ReadsExceptions first 0 s₁) :
    ReadsTerm s := by
  intro hs found n h
  rw [plain_term] at h
  obtain ⟨⟨first, s₁⟩, h₁, h⟩ := bind_eq_ok h
  obtain ⟨f, rfl, hf⟩ := ihf hs _ _ h₁
  obtain ⟨i, t, rfl, hw, hneed, hn, hfault, hset⟩ :=
    ihe _ s₁ (pending_of_plain h₁) (.factor f) s.nesting rfl hf.nesting hf.need hf.settled _ _ h
  refine ⟨i, t, rfl, ⟨?_, hneed, hn, hfault.trans hf.fault, hset⟩⟩
  exact hf.words.trans hw

lemma readsExceptions_step {left : Node} {chained : Nat} {s : State}
    (hm : s.current.isSymbol .minus = true)
    (ihf : ∀ s₁ s₂ : State, s₁.pending = s.pending → s₂.pending < s₁.pending →
      ReadsFactor s₂.placed)
    (ihe : ∀ s₁ s₂ : State, s₁.pending = s.pending → s₂.pending < s₁.pending →
      ∀ (right : Node) (s₃ : State), s₃.pending < s₂.placed.pending →
        ReadsExceptions (.node .exception (left :: s₂.commentNodes ++ [right])) (chained + 1) s₃) :
    ReadsExceptions left chained s := by
  intro t base hleft hbase hneed hset found n h
  subst hleft
  rw [plain_exceptions, if_pos hm] at h
  obtain ⟨s₁, h₁, h⟩ := bind_eq_ok h
  obtain ⟨s₂, h₂, h⟩ := bind_eq_ok h
  obtain ⟨⟨right, s₃⟩, h₃, h⟩ := bind_eq_ok h
  obtain ⟨hroom, rfl⟩ := descend_eq_ok_iff.1 h₁
  obtain ⟨ds, hminus⟩ := exists_steps_of_isSymbol h₂ hm
  obtain ⟨r, rfl, hr⟩ := ihf _ _ rfl hminus.pending rfl _ _ h₃
  have hn₂ : s₂.nesting = base + chained + 1 := by
    rw [hminus.nesting, nesting_deeper, hbase]
  -- the exception that has been read so far
  have hbuild : Tree.node .exception (t.build :: s₂.commentNodes ++ [r.build]) =
      (Phrase.except t s.texts ds r).build := by
    rw [commentNodes_eq, hminus.texts]
    rfl
  have hneed' : (Phrase.except t s.texts ds r).need ≤ maxNesting - base := by
    have := hr.need
    simp only [nesting_placed, hn₂] at this
    exact Nat.max_le.2 ⟨hneed, by omega⟩
  obtain ⟨i, t', rfl, hw, hneed'', hn, hfault, hset'⟩ :=
    ihe _ _ rfl hminus.pending _ s₃ (pending_of_plain h₃) (.except t s.texts ds r) base hbuild
      (by rw [hr.nesting, nesting_placed, hn₂]; omega) hneed' hr.settled _ _ h
  refine ⟨i, t', rfl, ?_, hneed'', hn, ?_, hset'⟩
  · have hws : s.words = .symbol .minus :: (comments ds ++ (r.words ++ s₃.input)) := by
      rw [← hr.words, words_placed, ← hminus.words, words_deeper]
    rw [← hw, input, hws]
    simp [Phrase.words]
  · rw [hfault, hr.fault, fault?_placed, hminus.fault, fault?_deeper]

lemma readsExceptions_done {left : Node} {chained : Nat} {s : State}
    (hm : ¬ s.current.isSymbol .minus = true) : ReadsExceptions left chained s := by
  intro t base hleft hbase hneed hset found n h
  rw [plain_exceptions, if_neg hm] at h
  cases h
  exact ⟨chained, t, hleft, rfl, hneed, by simp [hbase], rfl, hset⟩

/-- A factor that consists of one token is read by passing this token. -/
lemma reads_leaf {s n : State} {f : Phrase .factor} (hw : f.words = [s.current.word])
    (hneed : f.need = 0) (hs : s.texts = []) (hfin : s.current.isFinish = false)
    (h : s.advance = .ok n) : Reads s f n := by
  obtain ⟨ds, hleaf⟩ := exists_steps h hfin
  refine ⟨?_, by simp [hneed], hleaf.nesting, hleaf.fault, hleaf.settled⟩
  rw [hleaf.words, hw, input, hleaf.texts, hs]
  simp

lemma readsFactor_identifier {s : State} (hk : s.current.kind = .identifier) : ReadsFactor s := by
  intro hs found n h
  rw [plain_factor_of_identifier hk] at h
  obtain ⟨s₁, h₁, h⟩ := bind_eq_ok h
  cases h
  have hw := Token.word_of_identifier hk
  exact ⟨.name s.current.text, rfl, reads_leaf (by rw [hw]; rfl) rfl hs (isFinish_of_name hk) h₁⟩

lemma readsFactor_terminal {s : State} (hk : s.current.kind = .terminal) : ReadsFactor s := by
  intro hs found n h
  rw [plain_factor_of_terminal hk] at h
  obtain ⟨s₁, h₁, h⟩ := bind_eq_ok h
  cases h
  have hw := Token.word_of_terminal hk
  exact ⟨.quoted s.current.text, rfl,
    reads_leaf (by rw [hw]; rfl) rfl hs (isFinish_of_kind hk (by simp)) h₁⟩

lemma readsFactor_opening {s : State} (b : Enclosure) (hk : s.current.kind = .symbol b.opening)
    (ih : ReadsEnclosed b.content b.closing s (isFinish_of_symbol hk)) : ReadsFactor s := by
  intro hs found n h
  rw [plain_factor_of_opening b hk] at h
  exact ih hs b rfl rfl hk found n h

lemma readsFactor_other {s : State} (hk : s.current.startsTerm = false) : ReadsFactor s := by
  intro hs found n h
  rw [plain_factor_of_not_startsTerm hk] at h
  cases h

lemma readsEnclosed {content : Content} {close : Symbol} {s : State}
    {hfin : s.current.isFinish = false}
    (ih : ∀ s₁ s₂ : State, s₁.pending = s.pending → s₂.pending < s₁.pending →
      ReadsExpression s₂) : ReadsEnclosed content close s hfin := by
  rintro hs b rfl rfl hk found n h
  rw [plain_enclosed] at h
  obtain ⟨s₁, h₁, h⟩ := bind_eq_ok h
  obtain ⟨hroom, rfl⟩ := descend_eq_ok_iff.1 h₁
  obtain ⟨s₂, h₂, h⟩ := bind_eq_ok h
  obtain ⟨ds, hopen⟩ := exists_steps_of_symbol h₂ hk
  split at h
  · obtain ⟨⟨items, s₃⟩, h₃, h⟩ := bind_eq_ok h
    obtain ⟨e, rfl, he, ht₃⟩ := ih s.deeper s₂ rfl hopen.pending _ _ h₃
    dsimp only at h
    split at h
    · rename_i hx
      obtain ⟨s₄, h₄, h⟩ := bind_eq_ok h
      cases h
      obtain ⟨es, hclose⟩ := exists_steps_of_isSymbol h₄ hx
      have hn₂ : s₂.nesting = s.nesting + 1 := by rw [hopen.nesting, nesting_deeper]
      refine ⟨.enclosed b ds e, ?_, ⟨?_, ?_, ?_, ?_, hclose.settled⟩⟩
      · rw [commentNodes_eq, commentNodes_eq, ht₃, hopen.texts, texts_deeper, hs]
        simp [Phrase.build]
      · rw [← words_deeper, hopen.words, he.words, input_of_texts ht₃, ← words_placed,
          hclose.words, input_ascend, input, hclose.texts, texts_placed]
        simp [Phrase.words]
      · have hneed := he.need
        rw [hn₂] at hneed
        simp only [Phrase.need]
        omega
      · rw [nesting_ascend, hclose.nesting, nesting_placed, he.nesting, hn₂]
        rfl
      · rw [fault?_ascend, hclose.fault, fault?_placed, he.fault, hopen.fault, fault?_deeper]
    · cases h
  · cases h

/-- A token that is none of those that open a factor does not open a term. -/
lemma startsTerm_of_others {t : Token} (h₁ : t.kind = .identifier → False)
    (h₂ : t.kind = .terminal → False) (h₃ : t.kind = .symbol .openParen → False)
    (h₄ : t.kind = .symbol .openBracket → False) (h₅ : t.kind = .symbol .openBrace → False) :
    t.startsTerm = false := by
  rw [Bool.eq_false_iff]
  intro hstart
  rcases Token.startsTerm_cases hstart with hk | hk | ⟨b, hk⟩
  · exact h₁ hk
  · exact h₂ hk
  · cases b with
    | group => exact h₃ hk
    | optional => exact h₄ hk
    | repetition => exact h₅ hk

/-- Everything that the functions below the rules return has been read as a phrase. -/
lemma reads_all : (∀ s, ReadsExpression s) ∧ (∀ s, ReadsAlternatives s) ∧
    (∀ s, ReadsSequence s) ∧ (∀ s, ReadsTerms s) ∧ (∀ s, ReadsTerm s) ∧
    (∀ left chained s, ReadsExceptions left chained s) ∧ (∀ s, ReadsFactor s) ∧
    ∀ content close s h, ReadsEnclosed content close s h := by
  apply expression.mutual_induct
  case case1 => exact fun s ih => readsExpression ih
  case case2 => exact fun s ihs iha => readsAlternatives ihs fun s₁ s₂ h₁ => iha [] s₁ h₁ s₂
  case case3 => exact fun s ih => readsSequence ih
  case case4 =>
    intro s iht ihc ihb
    have node : Node := Tree.leaf .sequence
    exact readsTerms iht (fun s₁ s₂ h₁ => ihc node s₁ h₁ s₂) fun s₁ h₁ => ihb node s₁ h₁
  case case5 => exact fun s ihf ihe => readsTerm ihf ihe
  case case6 =>
    intro left chained s hm ihf ihe
    exact readsExceptions_step hm (fun s₁ s₂ h₁ => ihf s₁ h₁ s₂)
      fun s₁ s₂ h₁ h₂ right s₃ h₃ => ihe s₁ h₁ s₂ h₂ right s₃ h₃
  case case7 => exact fun left chained s hm => readsExceptions_done hm
  case case8 => exact fun s hk => readsFactor_identifier hk
  case case9 => exact fun s hk => readsFactor_terminal hk
  case case10 => exact fun s hk ih => readsFactor_opening .group hk ih
  case case11 => exact fun s hk ih => readsFactor_opening .optional hk ih
  case case12 => exact fun s hk ih => readsFactor_opening .repetition hk ih
  case case13 =>
    intro s h₁ h₂ h₃ h₄ h₅
    exact readsFactor_other (startsTerm_of_others h₁ h₂ h₃ h₄ h₅)
  case case14 => exact fun content close s h ih => readsEnclosed fun s₁ s₂ h₁ => ih s₁ h₁ s₂

/-! ### Rules and grammars -/

/-- A rule is read as a phrase without comments in front. -/
lemma exists_phrase_of_rule {s n : State} {hk : s.current.kind = .identifier} {found : Node}
    (hs : s.texts = []) (hnest : s.nesting = 0) (h : plain (rule s hk) = .ok (found, n)) :
    ∃ r : RulePhrase, r.leading = [] ∧ found = r.node ∧ r.Fits ∧ s.words = r.words ++ n.input ∧
      n.nesting = 0 ∧ n.fault? = s.fault? ∧ n.Settled := by
  rw [plain_rule] at h
  obtain ⟨s₁, h₁, h⟩ := bind_eq_ok h
  split at h
  · rename_i hdef
    obtain ⟨y, hy, hydef⟩ := exists_of_isDefinition hdef
    obtain ⟨s₂, h₂, h⟩ := bind_eq_ok h
    split at h
    · obtain ⟨⟨items, s₃⟩, h₃, h⟩ := bind_eq_ok h
      obtain ⟨e, rfl, he, ht₃⟩ := reads_all.1 _ _ _ h₃
      dsimp only at h
      split at h
      · rename_i hterm
        obtain ⟨z, hz, hzterm⟩ := exists_of_isTerminator hterm
        obtain ⟨s₄, h₄, h⟩ := bind_eq_ok h
        cases h
        obtain ⟨ds, hname⟩ := exists_steps h₁ (isFinish_of_name hk)
        obtain ⟨es, hdefinition⟩ := exists_steps_of_symbol h₂ hy
        obtain ⟨fs, hterminator⟩ := exists_steps_of_symbol h₄ hz
        rw [Token.word_of_identifier hk] at hname
        have hn₃ : s₃.nesting = 0 := by
          rw [he.nesting, nesting_placed, hdefinition.nesting, hname.nesting, hnest]
        refine ⟨⟨[], s.current.text, ds, y, es, e, z, hydef, hzterm⟩, rfl, ?_, ?_, ?_, ?_, ?_,
          hterminator.settled⟩
        · rw [commentNodes_eq s₂, commentNodes_eq s₃, ht₃, hdefinition.texts, hname.texts, hs]
          simp [RulePhrase.node, State.commentNodes, placed]
        · exact Nat.le_trans he.need (Nat.sub_le _ _)
        · have hwe : s₂.words = e.words ++ s₃.input := he.words
          rw [hname.words, hdefinition.words, hwe, input_of_texts ht₃, ← words_placed,
            hterminator.words, input, hterminator.texts]
          simp [RulePhrase.words]
        · rw [hterminator.nesting, nesting_placed, hn₃]
        · rw [hterminator.fault, fault?_placed, he.fault, fault?_placed, hdefinition.fault,
            hname.fault]
      · cases h
    · cases h
  · cases h

/-- Rules are read as phrases.  Of the comments that wait in front of them, `cs` may belong to what
stands before. -/
lemma exists_phrases_of_rules (s : State) :
    s.nesting = 0 → s.Settled → ∀ cs ds, s.texts = cs ++ ds →
    ∀ items n, rules s = .ok (items, n) →
    ∃ (rs : List RulePhrase) (es : List String), (∀ r ∈ rs, r.Fits) ∧
      comments ds ++ s.words = rs.flatMap (·.words) ++ comments es ++ n.words ∧
      items ++ n.commentNodes = commentNodes cs ++ rs.flatMap (·.nodes) ++ commentNodes es ∧
      n.nesting = 0 ∧ n.fault? = s.fault? ∧ n.Settled := by
  induction s using rules.induct with
  | case1 s hk ih =>
    intro hnest hset cs ds hs items n h
    rw [rules_of_identifier hk] at h
    obtain ⟨⟨found, s₁⟩, h₁, h⟩ := bind_eq_ok h
    obtain ⟨⟨others, s₂⟩, h₂, h⟩ := bind_eq_ok h
    cases h
    obtain ⟨r, hr, rfl, hfit, hw, hn₁, hf₁, hset₁⟩ :=
      exists_phrase_of_rule (texts_placed s) hnest h₁
    obtain ⟨rs, es, hfits, hws, hnodes, hn, hf, hset'⟩ :=
      ih r.node s₁ (pending_of_plain h₁) hn₁ hset₁ [] s₁.texts rfl _ _ h₂
    -- the comments in front of the rule are read before the rule and belong to its phrase
    refine ⟨{ r with leading := ds } :: rs, es, ?_, ?_, ?_, hn, hf.trans hf₁, hset'⟩
    · simpa using ⟨hfit, hfits⟩
    · have hlead : comments ds ++ r.words = RulePhrase.words { r with leading := ds } := by
        simp [RulePhrase.words, hr]
      rw [words_placed] at hw
      rw [hw, input, hws, List.flatMap_cons, ← hlead]
      simp
    · have hnode : RulePhrase.node { r with leading := ds } = r.node := rfl
      rw [commentNodes_eq s, hs]
      simp [RulePhrase.nodes, hnode, hnodes]
  | case2 s hk =>
    intro hnest hset cs ds hs items n h
    rw [rules_of_not_identifier hk] at h
    cases h
    exact ⟨[], ds, by simp, by simp, by simp [commentNodes_eq, hs], hnest, rfl, hset⟩

/-- A quoted text that may be absent is read as a phrase. -/
lemma exists_phrase_of_quoted? {s n : State} {found : Option String} (hset : s.Settled)
    (h : quoted? s = .ok (found, n)) :
    ∃ (q : Option QuotedPhrase) (ds : List String), found = q.map (·.text) ∧
      n.texts = QuotedPhrase.leadingOf q ++ ds ∧
      s.input = QuotedPhrase.wordsOf q ++ comments ds ++ n.words ∧
      n.nesting = s.nesting ∧ n.fault? = s.fault? ∧ n.Settled := by
  unfold quoted? at h
  split at h
  · rename_i hk
    obtain ⟨s₁, h₁, h⟩ := bind_eq_ok h
    cases h
    obtain ⟨ds, hquoted⟩ := exists_steps h₁ (isFinish_of_kind hk (by simp))
    refine ⟨some ⟨s.texts, s.current.text⟩, ds, rfl, hquoted.texts, ?_, hquoted.nesting,
      hquoted.fault, hquoted.settled⟩
    rw [input, hquoted.words, Token.word_of_terminal hk]
    simp [QuotedPhrase.wordsOf]
  · cases h
    exact ⟨none, s.texts, rfl, rfl, rfl, rfl, rfl, hset⟩

lemma words_of_isFinish {s : State} (h : s.current.isFinish = true) : s.words = [.finish] := by
  rw [words_eq_cons, h, Token.word_of_isFinish h]
  rfl

lemma fault?_of_isFinish {s : State} (h : s.current.isFinish = true) : s.fault? = none := by
  rw [State.fault?, h]
  rfl

lemma expect_eq_ok {y : Symbol} {s n : State} (h : expect y s = .ok n) :
    s.current.isSymbol y = true ∧ s.advance = .ok n := by
  unfold expect at h
  split at h
  · exact ⟨‹_›, h⟩
  · cases h

/-- What is read behind the title at `s` comes from the phrase `g`.  Of the comments that wait, `cs`
belong to the title and `ds` do not. -/
structure IsBody (g : GrammarPhrase) (s : State) (cs ds : List String) (items : List Node)
    (about : Option String) : Prop where
  fits : g.Fits
  fault : s.fault? = none
  words : comments ds ++ s.words = g.bodyWords ++ comments g.trailing ++ [.finish]
  items : items = commentNodes cs ++ g.bodyNodes ++ commentNodes g.trailing
  about : about = (g.frame.bind (·.about)).map (·.text)

section Body

variable {s : State} {items : List Node} {about : Option String} {cs ds : List String}

/-- Rules up to the end of the input are read as a phrase. -/
lemma exists_phrase_of_bareBody (hnest : s.nesting = 0) (hset : s.Settled)
    (hs : s.texts = cs ++ ds) (hopen : s.current.isSymbol .openBrace = false)
    (h : body s = .ok (items, about)) : ∃ g, IsBody g s cs ds items about := by
  rw [body, hopen] at h
  obtain ⟨s₁, h₁, h⟩ := bind_eq_ok h
  cases h₁
  obtain ⟨⟨found, s₂⟩, h₂, h⟩ := bind_eq_ok h
  obtain ⟨rs, es, hfits, hw, hnodes, -, hf, -⟩ :=
    exists_phrases_of_rules s hnest hset cs ds hs _ _ h₂
  simp only [Bool.false_eq_true, if_false] at h
  split at h
  · rename_i hend
    cases h
    refine ⟨⟨none, none, rs, es⟩, hfits, ?_, ?_, ?_, rfl⟩
    · rw [← hf, fault?_of_isFinish hend]
    · rw [hw, words_of_isFinish hend]
      rfl
    · rw [hnodes]
      rfl
  · cases h

/-- Rules in a frame and what follows them are read as a phrase. -/
lemma exists_phrase_of_framedBody (hnest : s.nesting = 0) (hs : s.texts = cs ++ ds)
    (hopen : s.current.isSymbol .openBrace = true) (h : body s = .ok (items, about)) :
    ∃ g, IsBody g s cs ds items about := by
  rw [body, hopen] at h
  obtain ⟨s₁, h₁, h⟩ := bind_eq_ok h
  obtain ⟨⟨found, s₂⟩, h₂, h⟩ := bind_eq_ok h
  simp only [if_true] at h h₁
  obtain ⟨s₃, h₃, h⟩ := bind_eq_ok h
  obtain ⟨⟨text, s₄⟩, h₄, h⟩ := bind_eq_ok h
  obtain ⟨fs, hbrace⟩ := exists_steps_of_isSymbol h₁ hopen
  have hn₁ : s₁.nesting = 0 := hbrace.nesting.trans hnest
  obtain ⟨rs, es, hfits, hw₂, hnodes, -, hf₂, -⟩ :=
    exists_phrases_of_rules s₁ hn₁ hbrace.settled (cs ++ ds) fs (by rw [hbrace.texts, hs]) _ _ h₂
  obtain ⟨hclose, h₃⟩ := expect_eq_ok h₃
  obtain ⟨ds₃, hbrace'⟩ := exists_steps_of_isSymbol h₃ hclose
  obtain ⟨q, ds₄, rfl, ht₄, hw₄, -, hf₄, -⟩ := exists_phrase_of_quoted? hbrace'.settled h₄
  rw [input, hbrace'.texts, texts_placed, List.nil_append] at hw₄
  dsimp only at h
  split at h
  · rename_i hend
    cases h
    refine ⟨⟨none, some ⟨ds, es, q⟩, rs, ds₄⟩, hfits, ?_, ?_, ?_, rfl⟩
    · rw [← hbrace.fault, ← hf₂, ← fault?_placed, ← hbrace'.fault, ← hf₄,
        fault?_of_isFinish hend]
    · rw [hbrace.words, hw₂, ← words_placed, hbrace'.words, hw₄, words_of_isFinish hend]
      simp [GrammarPhrase.bodyWords]
    · rw [hnodes, commentNodes_eq s₄, ht₄]
      simp [GrammarPhrase.bodyNodes]
  · cases h

/-- The part of a grammar behind the title is read as a phrase. -/
lemma exists_phrase_of_body (hnest : s.nesting = 0) (hset : s.Settled) (hs : s.texts = cs ++ ds)
    (h : body s = .ok (items, about)) : ∃ g, IsBody g s cs ds items about := by
  cases hopen : s.current.isSymbol .openBrace with
  | false => exact exists_phrase_of_bareBody hnest hset hs hopen h
  | true => exact exists_phrase_of_framedBody hnest hs hopen h

end Body

/-- The first state of a parse looks at the first token that is no comment. -/
lemma start_eq_ok {stream : Stream} {s : State} (h : State.start stream = .ok s) :
    stream.tokens.map Token.word = s.input ∧ s.nesting = 0 ∧ s.fault? = stream.fault? ∧
      s.Settled := by
  rw [start_eq_advance stream ⟨.endOfInput, "", ⟨1, 1⟩⟩] at h
  obtain ⟨passed, hpassed, hcomments, htokens, hset, hnest, hfault⟩ := advance_eq_ok h
  refine ⟨?_, hnest, hfault, hset⟩
  have htexts : s.texts = passed.map (·.text) := by
    rw [texts, hcomments]
    rfl
  have htokens' : stream.tokens = passed ++ s.ahead := htokens
  rw [htokens', List.map_append, Token.map_word_of_comments hpassed, ← htexts]
  rfl

/-- A tree that is parsed is the tree of a phrase that the stream spells. -/
lemma exists_phrase_of_grammar {stream : Stream} {tree : Node} (h : grammar stream = .ok tree) :
    ∃ g : GrammarPhrase, g.Fits ∧ tree = g.node ∧ stream.fault? = none ∧
      stream.tokens.map Token.word = g.words := by
  unfold grammar at h
  obtain ⟨s, h₀, h⟩ := bind_eq_ok h
  obtain ⟨⟨title, s₁⟩, h₁, h⟩ := bind_eq_ok h
  obtain ⟨⟨items, about⟩, h₂, h⟩ := bind_eq_ok h
  cases h
  obtain ⟨hw, hnest, hf, hset⟩ := start_eq_ok h₀
  obtain ⟨q, ds, rfl, ht₁, hw₁, hn₁, hf₁, hset₁⟩ := exists_phrase_of_quoted? hset h₁
  obtain ⟨g, hfit, hnone, hw₂, rfl, rfl⟩ := exists_phrase_of_body (hn₁.trans hnest) hset₁ ht₁ h₂
  refine ⟨{ g with title := q }, hfit, ?_, ?_, ?_⟩
  · simp [GrammarPhrase.node, GrammarPhrase.bodyNodes, GrammarPhrase.titleText,
      GrammarPhrase.aboutText]
  · rw [← hf, ← hf₁, hnone]
  · rw [hw, hw₁, List.append_assoc, hw₂]
    simp [GrammarPhrase.words, GrammarPhrase.bodyWords]

end GrammarTree.Parse
