/-
# What the parser accepts up to a complaint

When the parser complains about a token, the tokens in front of it are the beginning of a grammar,
and with the token that it complains about they are not.  The second half is that another text with
these kinds of tokens fails as well (`Follows`); the first half, which is proved here along with it,
is that what has been read for a nonterminal can always be completed (`Viable`).

The statements are proved for all functions at once, by the recursion of their definitions, and they
end with `exists_of_unexpected`.
-/
import GrammarTree.Proofs.Parse.Locality
import GrammarTree.Proofs.Parse.Soundness

namespace GrammarTree

/-! ### Beginnings of derivations -/

/-- Some kinds can be completed to something derived from `x` that can be read where `k` constructs
are open. -/
def Viable (x : Nonterminal) (k : Nat) (ks : List TokenKind) : Prop :=
  ∃ n ls, Derives x n (ks ++ ls) ∧ n ≤ maxNesting - k

namespace Viable

variable {x : Nonterminal} {i k m : Nat} {ks ts : List TokenKind}

lemma of_derives (h : Derives x m ks) (hm : m ≤ maxNesting - k) : Viable x k ks :=
  ⟨m, [], by rwa [List.append_nil], hm⟩

lemma nil_factor : Viable .factor k [] := ⟨0, _, .identifier, Nat.zero_le _⟩

lemma enclosed (b : Enclosure) (hk : k < maxNesting) (h : Viable .expression (k + 1) ks) :
    Viable .factor k (.symbol b.opening :: ks) := by
  obtain ⟨n, ls, he, hn⟩ := h
  refine ⟨1 + n, ls ++ [.symbol b.closing], ?_, by omega⟩
  simpa using Derives.enclosed b he

lemma enclosed_nil (b : Enclosure) (hk : k < maxNesting) : Viable .factor k [.symbol b.opening] :=
  enclosed b hk ⟨0, _, .sequence (.term (.factor .identifier)), Nat.zero_le _⟩

lemma term_of_factor (h : Viable .factor k ks) : Viable (.term 0) k ks := by
  obtain ⟨n, ls, hf, hn⟩ := h
  exact ⟨n, ls, .factor hf, hn⟩

lemma except (ht : Derives (.term i) m ts) (hm : m ≤ maxNesting - k) (hk : k + i < maxNesting)
    (h : Viable .factor (k + i + 1) ks) :
    Viable (.term (i + 1)) k (ts ++ .symbol .minus :: ks) := by
  obtain ⟨n, ls, hf, hn⟩ := h
  refine ⟨max m (i + 1 + n), ls, ?_, Nat.max_le.2 ⟨hm, by omega⟩⟩
  simpa using Derives.except ht hf

lemma sequence_of_term (h : Viable (.term i) k ks) : Viable .sequence k ks := by
  obtain ⟨n, ls, ht, hn⟩ := h
  exact ⟨n, ls, .term ht, hn⟩

lemma comma (ht : Derives (.term i) m ts) (hm : m ≤ maxNesting - k) (h : Viable .sequence k ks) :
    Viable .sequence k (ts ++ .symbol .comma :: ks) := by
  obtain ⟨n, ls, hs, hn⟩ := h
  refine ⟨max m n, ls, ?_, Nat.max_le.2 ⟨hm, hn⟩⟩
  simpa using Derives.comma ht hs

lemma beside (ht : Derives (.term i) m ts) (hm : m ≤ maxNesting - k) (h : Viable .sequence k ks) :
    Viable .sequence k (ts ++ ks) := by
  obtain ⟨n, ls, hs, hn⟩ := h
  refine ⟨max m n, ls, ?_, Nat.max_le.2 ⟨hm, hn⟩⟩
  simpa using Derives.beside ht hs

lemma expression_of_sequence (h : Viable .sequence k ks) : Viable .expression k ks := by
  obtain ⟨n, ls, hs, hn⟩ := h
  exact ⟨n, ls, .sequence hs, hn⟩

lemma choice (hs : Derives .sequence m ts) (hm : m ≤ maxNesting - k)
    (h : Viable .expression k ks) : Viable .expression k (ts ++ .symbol .pipe :: ks) := by
  obtain ⟨n, ls, he, hn⟩ := h
  refine ⟨max m n, ls, ?_, Nat.max_le.2 ⟨hm, hn⟩⟩
  simpa using Derives.choice hs he

end Viable

namespace Parse

open State

/-! ### What has been passed -/

/-- From `s` to `n` something has been passed that can be derived from `x`. -/
structure Covers (x : Nonterminal) (s : State) (us : List Token) (n : State) : Prop where
  derives : ∃ m, Derives x m (us.map (·.kind)) ∧ m ≤ maxNesting - s.nesting
  nesting : n.nesting = s.nesting
  settled : n.Settled

variable {s n : State} {us : List Token}

/-- The kinds of what lies between two states. -/
lemma kinds_passed (hs : s.Settled) (hn : n.Settled) (hup : s.upcoming = us ++ n.upcoming)
    {ws : List Word} (hw : Word.kinds s.words = Word.kinds ws ++ Word.kinds n.words) :
    us.map (·.kind) = Word.kinds ws := by
  rw [← kinds_upcoming hs, ← kinds_upcoming hn, hup, List.map_append] at hw
  exact List.append_cancel_right hw

lemma Reads.covers {x : Nonterminal} {p : Phrase x} (hp : Reads s p n) (hs : s.Settled)
    (hup : s.upcoming = us ++ n.upcoming) : Covers x s us n := by
  refine ⟨⟨p.need, ?_, hp.need⟩, hp.nesting, hp.settled⟩
  have hw : Word.kinds s.words = Word.kinds p.words ++ Word.kinds n.words := by
    simp [hp.words, input]
  rw [kinds_passed hs hp.settled hup hw]
  exact p.derives

lemma covers_of_expression (hs : s.Settled) (h : behind (plain (expression s)) = .ok n)
    (hup : s.upcoming = us ++ n.upcoming) : Covers .expression s us n := by
  obtain ⟨found, h⟩ := exists_of_behind h
  obtain ⟨e, -, he, -⟩ := reads_all.1 _ _ _ h
  exact he.covers hs hup

lemma covers_of_sequence (hs : s.Settled) (h : behind (plain (sequence s)) = .ok n)
    (hup : s.upcoming = us ++ n.upcoming) : Covers .sequence s us n := by
  obtain ⟨found, h⟩ := exists_of_behind h
  obtain ⟨q, -, hq, -⟩ := reads_all.2.2.1 _ _ _ h
  exact hq.covers hs hup

lemma covers_of_term (ht : s.texts = []) (hs : s.Settled) (h : behind (plain (term s)) = .ok n)
    (hup : s.upcoming = us ++ n.upcoming) : ∃ i, Covers (.term i) s us n := by
  obtain ⟨found, h⟩ := exists_of_behind h
  obtain ⟨i, t, -, ht⟩ := reads_all.2.2.2.2.1 _ ht _ _ h
  exact ⟨i, ht.covers hs hup⟩

lemma covers_of_factor (ht : s.texts = []) (hs : s.Settled)
    (h : behind (plain (factor s)) = .ok n) (hup : s.upcoming = us ++ n.upcoming) :
    Covers .factor s us n := by
  obtain ⟨found, h⟩ := exists_of_behind h
  obtain ⟨f, -, hf⟩ := reads_all.2.2.2.2.2.2.1 _ ht _ _ h
  exact hf.covers hs hup

/-! ### What each function does -/

/-- An expression can always be completed. -/
def FollowsExpression (s : State) : Prop :=
  s.Settled → Follows (Viable .expression s.nesting) (fun t => behind (plain (expression t))) s

/-- Alternatives can always be completed. -/
def FollowsAlternatives (s : State) : Prop :=
  s.Settled → Follows (Viable .expression s.nesting) (fun t => behind (plain (alternatives t))) s

/-- A sequence can always be completed. -/
def FollowsSequence (s : State) : Prop :=
  s.Settled → Follows (Viable .sequence s.nesting) (fun t => behind (plain (sequence t))) s

/-- The terms of a sequence can always be completed. -/
def FollowsTerms (s : State) : Prop :=
  s.Settled → Follows (Viable .sequence s.nesting) (fun t => behind (plain (terms t))) s

/-- A term can always be completed. -/
def FollowsTerm (s : State) : Prop :=
  s.texts = [] → s.Settled →
    Follows (fun ks => ∃ i, Viable (.term i) s.nesting ks) (fun t => behind (plain (term t))) s

/-- Exceptions can always be completed to a term with what stands before them, which was read from
`base` open constructs on. -/
def FollowsExceptions (chained : Nat) (s : State) : Prop :=
  ∀ (base m : Nat) (ts : List TokenKind), Derives (.term chained) m ts →
    m ≤ maxNesting - base → s.nesting = base + chained → s.Settled →
    ∀ left, Follows (fun ks => ∃ i, Viable (.term i) base (ts ++ ks))
      (fun t => behind (plain (exceptions left chained t))) s

/-- A factor can always be completed. -/
def FollowsFactor (s : State) : Prop :=
  s.texts = [] → s.Settled →
    Follows (Viable .factor s.nesting) (fun t => behind (plain (factor t))) s

/-! ### The steps -/

lemma isSymbol_congr (y : Symbol) (t u : Token) (h : t.kind = u.kind) :
    t.isSymbol y = true ↔ u.isSymbol y = true := by
  rw [Token.isSymbol_iff, Token.isSymbol_iff, h]

lemma startsTerm_congr (t u : Token) (h : t.kind = u.kind) :
    t.startsTerm = true ↔ u.startsTerm = true := by
  unfold Token.startsTerm
  rw [h]

lemma followsExpression (ih : FollowsAlternatives s) : FollowsExpression s := by
  intro hset
  exact (ih hset).congr fun t _ => behind_expression t

lemma followsAlternatives (ihs : FollowsSequence s)
    (iha : ∀ s₁ s₂ : State, s₁.pending < s.pending → s₂.pending < s₁.pending →
      FollowsAlternatives s₂) : FollowsAlternatives s := by
  intro hset
  refine Follows.congr (fun t _ => behind_alternatives t) ?_
  refine Follows.bind ((ihs hset).mono fun ks => Viable.expression_of_sequence) ?_
  intro s₁ us h₁ hup
  obtain ⟨⟨m, hm, hneed⟩, hnest, -⟩ := covers_of_sequence hset h₁ hup
  obtain ⟨items, h₁⟩ := exists_of_behind h₁
  refine Follows.ite (isSymbol_congr .pipe) ?_ ?_
  · intro hp
    have hfin := isFinish_of_isSymbol hp
    refine Follows.advance (Token.isSymbol_iff.1 hp) (by simp) ?_
    intro s₂ h₂
    have ih := iha s₁ s₂ (pending_of_plain h₁) (pending_advance h₂ hfin) (settled_of_advance h₂)
    refine ih.mono fun ks hks => ?_
    rw [nesting_of_advance h₂, hnest] at hks
    exact Viable.choice hm hneed hks
  · intro _
    exact follows_ok (fun _ => rfl) (fun _ => rfl) fun _ h => h

lemma followsSequence (ih : FollowsTerms s) : FollowsSequence s := by
  intro hset
  exact (ih hset).congr fun t _ => behind_sequence t

lemma followsTerms (iht : FollowsTerm s.placed)
    (ihc : ∀ s₁ s₂ : State, s₁.pending < s.placed.pending → s₂.pending < s₁.pending →
      FollowsTerms s₂)
    (ihb : ∀ s₁ : State, s₁.pending < s.placed.pending → FollowsTerms s₁) : FollowsTerms s := by
  intro hset
  refine Follows.congr (fun t _ => behind_terms t) ?_
  have hterm : Follows (Viable .sequence s.nesting)
      (fun t => behind (plain (term t.placed))) s := by
    refine ((iht rfl hset).mono ?_).placed
    rintro ks ⟨i, hi⟩
    exact hi.sequence_of_term
  refine Follows.bind hterm ?_
  intro s₁ us h₁ hup
  obtain ⟨i, ⟨m, hm, hneed⟩, hnest, hset₁⟩ := covers_of_term (s := s.placed) rfl hset h₁ hup
  obtain ⟨first, h₁⟩ := exists_of_behind h₁
  have hlt := pending_of_plain h₁
  refine Follows.ite (isSymbol_congr .comma) ?_ ?_
  · intro hc
    have hfin := isFinish_of_isSymbol hc
    refine Follows.advance (Token.isSymbol_iff.1 hc) (by simp) ?_
    intro s₂ h₂
    have ih := ihc s₁ s₂ hlt (pending_advance h₂ hfin) (settled_of_advance h₂)
    refine ih.mono fun ks hks => ?_
    rw [nesting_of_advance h₂, hnest] at hks
    exact Viable.comma hm hneed hks
  · intro _
    refine Follows.ite startsTerm_congr ?_ ?_
    · intro _
      refine (ihb s₁ hlt hset₁).mono fun ks hks => ?_
      rw [hnest] at hks
      exact Viable.beside hm hneed hks
    · intro _
      exact follows_ok (fun _ => rfl) (fun _ => rfl) fun _ h => h

lemma followsTerm (ihf : FollowsFactor s)
    (ihe : ∀ s₁ : State, s₁.pending < s.pending → FollowsExceptions 0 s₁) : FollowsTerm s := by
  intro htexts hset
  refine Follows.congr (fun t _ => behind_term (Tree.leaf .sequence) t) ?_
  have hfactor : Follows (fun ks => ∃ i, Viable (.term i) s.nesting ks)
      (fun t => behind (plain (factor t))) s :=
    (ihf htexts hset).mono fun ks hks => ⟨0, hks.term_of_factor⟩
  refine Follows.bind hfactor ?_
  intro s₁ us h₁ hup
  obtain ⟨⟨m, hm, hneed⟩, hnest, hset₁⟩ := covers_of_factor htexts hset h₁ hup
  obtain ⟨first, h₁⟩ := exists_of_behind h₁
  exact ihe s₁ (pending_of_plain h₁) s.nesting m _ (.factor hm) hneed hnest hset₁ _

lemma followsExceptions_step {chained : Nat} (hm : s.current.isSymbol .minus = true)
    (ihf : ∀ s₁ s₂ : State, s₁.pending = s.pending → s₂.pending < s₁.pending →
      FollowsFactor s₂.placed)
    (ihe : ∀ s₁ s₂ : State, s₁.pending = s.pending → s₂.pending < s₁.pending →
      ∀ s₃ : State, s₃.pending < s₂.placed.pending → FollowsExceptions (chained + 1) s₃) :
    FollowsExceptions chained s := by
  intro base m ts hts hneed hbase hset left
  refine Follows.congr (fun t _ => behind_exceptions left chained t) ?_
  refine Follows.ite (isSymbol_congr .minus) ?_ fun hm' => absurd hm hm'
  intro _
  -- what has been read so far is a term, should there be no room for one more construct
  have hV : ∃ i, Viable (.term i) base (ts ++ []) :=
    ⟨chained, Viable.of_derives (by rwa [List.append_nil]) hneed⟩
  refine Follows.descend hV ?_
  intro hroom
  refine Follows.advance (Token.isSymbol_iff.1 hm) (by simp) ?_
  intro s₂ h₂
  have hlt := pending_advance h₂ (isFinish_of_isSymbol hm)
  have hset₂ : State.Settled (placed s₂) := (settled_of_advance h₂ : s₂.Settled)
  have hn₂ : s₂.placed.nesting = base + chained + 1 := by
    rw [nesting_placed, nesting_of_advance h₂, nesting_deeper, hbase]
  have hfactor : Follows (fun ks => ∃ i, Viable (.term i) base (ts ++ .symbol .minus :: ks))
      (fun t => behind (plain (factor t.placed))) s₂ := by
    refine ((ihf _ _ rfl hlt rfl hset₂).mono fun ks hks => ?_).placed
    rw [hn₂] at hks
    exact ⟨chained + 1, Viable.except hts hneed (by omega) hks⟩
  refine Follows.bind hfactor ?_
  intro s₃ ws h₃ hup₃
  obtain ⟨⟨n, hn, hneed₃⟩, hnest₃, hset₃⟩ := covers_of_factor rfl hset₂ h₃ hup₃
  obtain ⟨right, h₃⟩ := exists_of_behind h₃
  have hneed' : max m (chained + 1 + n) ≤ maxNesting - base := Nat.max_le.2 ⟨hneed, by omega⟩
  have hbase' : s₃.nesting = base + (chained + 1) := by omega
  have ih := ihe _ _ rfl hlt s₃ (pending_of_plain h₃) base _ _ (.except hts hn) hneed' hbase'
    hset₃ left
  exact ih.mono fun ks hks => by simpa using hks

lemma followsExceptions_done {chained : Nat} (hm : ¬ s.current.isSymbol .minus = true) :
    FollowsExceptions chained s := by
  intro base m ts hts hneed hbase hset left
  refine Follows.congr (fun t _ => behind_exceptions left chained t) ?_
  refine Follows.ite (isSymbol_congr .minus) (fun hm' => absurd hm' hm) ?_
  intro _
  refine follows_ok (fun _ => rfl) (fun _ => rfl) fun t ht => ?_
  rw [nesting_ascend, nesting_ascend, ht]

lemma followsFactor_leaf (hk : s.current.kind = .identifier ∨ s.current.kind = .terminal) :
    FollowsFactor s := by
  intro _ _
  have hfin : s.current.isFinish = false := by
    rcases hk with hk | hk
    · exact isFinish_of_kind hk (by simp)
    · exact isFinish_of_kind hk (by simp)
  refine Follows.congr (fun t ht => behind_factor_of_leaf ?_) (follows_advance hfin)
  rwa [ht]

lemma followsFactor_opening (b : Enclosure) (hk : s.current.kind = .symbol b.opening)
    (ih : ∀ s₁ s₂ : State, s₁.pending = s.pending → s₂.pending < s₁.pending →
      FollowsExpression s₂) : FollowsFactor s := by
  intro htexts hset
  refine Follows.congr (fun t ht => behind_factor_of_opening b (ht.trans hk)) ?_
  refine Follows.descend Viable.nil_factor ?_
  intro hroom
  refine Follows.advance hk (by simp) ?_
  intro s₂ h₂
  have hlt := pending_advance h₂ (isFinish_of_symbol hk)
  have hset₂ := settled_of_advance h₂
  have hn₂ : s₂.nesting = s.nesting + 1 := by rw [nesting_of_advance h₂, nesting_deeper]
  refine Follows.ite startsTerm_congr ?_ ?_
  · intro _
    have hexpr : Follows (fun ks => Viable .factor s.nesting (.symbol b.opening :: ks))
        (fun t => behind (plain (expression t))) s₂ := by
      refine (ih s.deeper s₂ rfl hlt hset₂).mono fun ks hks => ?_
      rw [hn₂] at hks
      exact hks.enclosed b hroom
    refine Follows.bind hexpr ?_
    intro s₃ ws h₃ hup₃
    obtain ⟨⟨m, hm, hneed⟩, -, -⟩ := covers_of_expression hset₂ h₃ hup₃
    refine Follows.ite (isSymbol_congr b.closing) ?_ ?_
    · intro hx
      have hfin₃ : s₃.placed.current.isFinish = false := isFinish_of_isSymbol hx
      refine Follows.bind (follows_advance hfin₃).placed ?_
      intro s₄ xs h₄ hup₄
      refine follows_ok (fun _ => rfl) (fun _ => rfl) fun t ht => ?_
      rw [nesting_ascend, nesting_ascend, ht]
    · intro _
      refine follows_unexpected ?_ _
      rw [List.append_nil]
      rw [hn₂] at hneed
      exact (Viable.of_derives hm hneed).enclosed b hroom
  · intro _
    exact follows_unexpected (Viable.enclosed_nil b hroom) _

lemma followsFactor_other (hk : s.current.startsTerm = false) : FollowsFactor s := by
  intro _ _
  refine Follows.congr (fun t ht => ?_) (follows_unexpected Viable.nil_factor .term)
  have hterm : t.current.startsTerm = false := by
    rw [Bool.eq_false_iff] at hk ⊢
    intro hstart
    exact hk ((startsTerm_congr _ _ ht).1 hstart)
  rw [plain_factor_of_not_startsTerm hterm]
  rfl

/-- Whatever the functions below the rules have passed can be completed where they complain. -/
lemma follows_all : (∀ s, FollowsExpression s) ∧ (∀ s, FollowsAlternatives s) ∧
    (∀ s, FollowsSequence s) ∧ (∀ s, FollowsTerms s) ∧ (∀ s, FollowsTerm s) ∧
    (∀ (_ : Node) chained s, FollowsExceptions chained s) ∧ (∀ s, FollowsFactor s) ∧
    ∀ (_ : Content) (_ : Symbol) s (_ : s.current.isFinish = false) (b : Enclosure),
      s.current.kind = .symbol b.opening → FollowsFactor s := by
  -- the hypotheses of the induction ask for nodes, on which nothing here depends
  have node : Node := Tree.leaf .sequence
  apply expression.mutual_induct
  case case1 => exact fun s ih => followsExpression ih
  case case2 => exact fun s ihs iha => followsAlternatives ihs fun s₁ s₂ h₁ => iha [] s₁ h₁ s₂
  case case3 => exact fun s ih => followsSequence ih
  case case4 =>
    intro s iht ihc ihb
    exact followsTerms iht (fun s₁ s₂ h₁ => ihc node s₁ h₁ s₂) fun s₁ h₁ => ihb node s₁ h₁
  case case5 => exact fun s ihf ihe => followsTerm ihf fun s₁ h₁ => ihe node s₁ h₁
  case case6 =>
    intro left chained s hm ihf ihe
    exact followsExceptions_step hm (fun s₁ s₂ h₁ => ihf s₁ h₁ s₂)
      fun s₁ s₂ h₁ h₂ s₃ h₃ => ihe s₁ h₁ s₂ h₂ node s₃ h₃
  case case7 => exact fun left chained s hm => followsExceptions_done hm
  case case8 => exact fun s hk => followsFactor_leaf (Or.inl hk)
  case case9 => exact fun s hk => followsFactor_leaf (Or.inr hk)
  case case10 => exact fun s hk ih => ih .group hk
  case case11 => exact fun s hk ih => ih .optional hk
  case case12 => exact fun s hk ih => ih .repetition hk
  case case13 =>
    intro s h₁ h₂ h₃ h₄ h₅
    exact followsFactor_other (startsTerm_of_others h₁ h₂ h₃ h₄ h₅)
  case case14 =>
    intro content close s h ih b hk
    exact followsFactor_opening b hk fun s₁ s₂ h₁ => ih s₁ h₁ s₂

/-! ### Rules and grammars -/

/-- Some kinds can be completed to a rule. -/
def BeginsRule (ks : List TokenKind) : Prop := ∃ ls, IsRule (ks ++ ls)

/-- Some kinds can be completed to rules. -/
def BeginsRules (ks : List TokenKind) : Prop := ∃ ls, AreRules (ks ++ ls)

/-- Some kinds can be completed to a sentence. -/
def BeginsSentence (ks : List TokenKind) : Prop := ∃ ls, IsSentence (ks ++ ls)

lemma beginsRule_body {y : Symbol} {ks : List TokenKind} (hy : y.isDefinition = true)
    (h : Viable .expression 0 ks) : BeginsRule (.identifier :: .symbol y :: ks) := by
  obtain ⟨n, ls, he, hn⟩ := h
  refine ⟨ls ++ [.symbol .semicolon], ?_⟩
  simpa using IsRule.mk hy he hn (z := .semicolon) rfl

lemma viable_nil : Viable .expression 0 [] :=
  ⟨0, _, .sequence (.term (.factor .identifier)), Nat.zero_le _⟩

lemma beginsRule_name : BeginsRule [.identifier] := by
  obtain ⟨ls, h⟩ := beginsRule_body (y := .equals) rfl viable_nil
  exact ⟨.symbol .equals :: ls, h⟩

lemma follows_rule (hnest : s.nesting = 0)
    (hk : s.current.kind = .identifier) : Follows BeginsRule courseOfRule s := by
  refine Follows.advance hk (by simp) ?_
  intro s₁ h₁
  have hn₁ : s₁.nesting = 0 := (nesting_of_advance h₁).trans hnest
  refine Follows.ite (p := fun t => isDefinition t.kind = true) (fun t u h => by rw [h]) ?_ ?_
  · intro hdef
    obtain ⟨y, hy, hydef⟩ := exists_of_isDefinition hdef
    refine Follows.advance hy (by simp) ?_
    intro s₂ h₂
    have hn₂ : s₂.nesting = 0 := (nesting_of_advance h₂).trans hn₁
    have hset₂ : s₂.Settled := settled_of_advance h₂
    refine Follows.ite startsTerm_congr ?_ ?_
    · intro _
      have hexpr : Follows (fun ks => BeginsRule (.identifier :: .symbol y :: ks))
          (fun t => behind (plain (expression t.placed))) s₂ := by
        refine ((follows_all.1 s₂.placed hset₂).mono fun ks hks => ?_).placed
        rw [nesting_placed, hn₂] at hks
        exact beginsRule_body hydef hks
      refine Follows.bind hexpr ?_
      intro s₃ ws h₃ hup₃
      obtain ⟨⟨m, hm, hneed⟩, -, -⟩ := covers_of_expression (s := s₂.placed) hset₂ h₃ hup₃
      refine Follows.ite (p := fun t => isTerminator t.kind = true) (fun t u h => by rw [h]) ?_ ?_
      · intro hterm
        obtain ⟨z, hz, -⟩ := exists_of_isTerminator hterm
        have hfin₃ : s₃.placed.current.isFinish = false := isFinish_of_kind hz (by simp)
        exact (follows_advance hfin₃).placed
      · intro _
        refine follows_unexpected ?_ _
        rw [List.append_nil]
        rw [nesting_placed, hn₂] at hneed
        exact beginsRule_body hydef (Viable.of_derives hm hneed)
    · intro _
      exact follows_unexpected (beginsRule_body hydef viable_nil) _
  · intro _
    exact follows_unexpected beginsRule_name _

lemma isRule_of_course (hset : s.Settled) (hnest : s.nesting = 0) (htexts : s.texts = [])
    (hk : s.current.kind = .identifier) (h : courseOfRule s = .ok n)
    (hup : s.upcoming = us ++ n.upcoming) :
    IsRule (us.map (·.kind)) ∧ n.nesting = 0 ∧ n.Settled ∧ n.pending < s.pending := by
  rw [← behind_rule s hk] at h
  obtain ⟨found, h⟩ := exists_of_behind h
  have hlt := pending_of_plain h
  obtain ⟨r, -, -, hfit, hw, hn, -, hset'⟩ := exists_phrase_of_rule htexts hnest h
  have hkinds : Word.kinds s.words = Word.kinds r.words ++ Word.kinds n.words := by
    simp [hw, input]
  refine ⟨?_, hn, hset', hlt⟩
  rw [kinds_passed hset hset' hup hkinds]
  exact RulePhrase.isRule hfit

lemma follows_rules (s : State) (hset : s.Settled) (hnest : s.nesting = 0) :
    Follows BeginsRules (fun t => behind (rules t)) s := by
  induction hp : s.pending using Nat.strongRecOn generalizing s with
  | ind p ih =>
    by_cases hk : s.current.kind = .identifier
    · refine Follows.congr (fun t ht => behind_rules_of_identifier (ht.trans hk)) ?_
      have hrule : Follows BeginsRules (fun t => courseOfRule t.placed) s := by
        refine ((follows_rule (s := s.placed) hnest hk).mono ?_).placed
        rintro ks ⟨ls, hr⟩
        exact ⟨ls, by simpa using AreRules.cons hr .nil⟩
      refine Follows.bind hrule ?_
      intro s₁ us h₁ hup₁
      obtain ⟨hr, hn₁, hset₁, hlt⟩ := isRule_of_course (s := s.placed) hset hnest rfl hk h₁ hup₁
      rw [pending_placed, hp] at hlt
      refine (ih s₁.pending hlt s₁ hset₁ hn₁ rfl).mono ?_
      rintro ks ⟨ls, hrs⟩
      exact ⟨ls, by simpa using AreRules.cons hr hrs⟩
    · -- no rule stands here, so nothing is passed
      have hrules : ∀ t : State, t.current.kind = s.current.kind → behind (rules t) = .ok t := by
        intro t ht
        exact behind_rules_of_not_identifier (by rwa [ht])
      exact Follows.congr hrules (follows_ok (fun _ => rfl) (fun _ => rfl) fun _ h => h)

lemma areRules_of_behind (hset : s.Settled) (hnest : s.nesting = 0)
    (h : behind (rules s) = .ok n) (hup : s.upcoming = us ++ n.upcoming) :
    AreRules (us.map (·.kind)) ∧ n.Settled := by
  obtain ⟨items, h⟩ := exists_of_behind h
  obtain ⟨rs, es, hfits, hw, -, -, -, hset'⟩ :=
    exists_phrases_of_rules s hnest hset [] s.texts rfl _ _ h
  have hkinds : Word.kinds s.words =
      Word.kinds (rs.flatMap (·.words)) ++ Word.kinds n.words := by
    have hw' := congrArg Word.kinds hw
    simpa using hw'
  rw [kinds_passed hset hset' hup hkinds]
  exact ⟨GrammarPhrase.areRules hfits, hset'⟩

lemma follows_quoted? {V : List TokenKind → Prop} : Follows V (fun t => behind (quoted? t)) s := by
  refine Follows.congr (fun t _ => behind_quoted? t) ?_
  refine Follows.ite (p := fun t => t.kind = .terminal) (fun t u h => by rw [h]) ?_ ?_
  · intro hk
    exact follows_advance (isFinish_of_kind hk (by simp))
  · intro _
    exact follows_ok (fun _ => rfl) (fun _ => rfl) fun _ h => h

lemma isOptionalTerminal_of_behind (hset : s.Settled) (h : behind (quoted? s) = .ok n)
    (hup : s.upcoming = us ++ n.upcoming) :
    IsOptionalTerminal (us.map (·.kind)) ∧ n.nesting = s.nesting ∧ n.Settled := by
  obtain ⟨found, h⟩ := exists_of_behind h
  obtain ⟨q, ds, -, -, hw, hn, -, hset'⟩ := exists_phrase_of_quoted? hset h
  have hkinds : Word.kinds s.words =
      Word.kinds (QuotedPhrase.wordsOf q) ++ Word.kinds n.words := by
    have hw' := congrArg Word.kinds hw
    simpa [input] using hw'
  rw [kinds_passed hset hset' hup hkinds]
  exact ⟨QuotedPhrase.isOptionalTerminal q, hn, hset'⟩

lemma isFinish_congr (t u : Token) (h : t.kind = u.kind) :
    t.isFinish = true ↔ u.isFinish = true := by
  rw [Token.isFinish_iff, Token.isFinish_iff, h]

/-- The part of a framed grammar behind the rules can always be completed. -/
lemma fails_frame {title rs : List TokenKind} (htitle : IsOptionalTerminal title)
    (hrs : AreRules rs) :
    Fails (fun ks => BeginsSentence (title ++ .symbol .openBrace :: (rs ++ ks)))
      (fun t => (do
        let s₃ ← expect .closeBrace t.placed
        let s₄ ← behind (quoted? s₃)
        if s₄.current.isFinish then .ok () else .error (s₄.unexpected .endOfInput) :
          Except SyntaxError Unit)) s := by
  have hclose : Follows (fun ks => BeginsSentence (title ++ .symbol .openBrace :: (rs ++ ks)))
      (fun t => expect .closeBrace t.placed) s := by
    refine Follows.placed (g := expect .closeBrace) ?_
    refine Follows.ite (isSymbol_congr .closeBrace) ?_ ?_
    · intro hx
      exact follows_advance (isFinish_of_isSymbol hx)
    · intro _
      refine follows_unexpected ⟨.symbol .closeBrace :: [.endOfInput], ?_⟩ _
      simpa using IsSentence.framed htitle hrs .absent
  refine Fails.bind hclose ?_
  intro s₃ us₃ h₃ hup₃
  obtain ⟨hx, h₃⟩ := expect_eq_ok h₃
  have hfin : s.placed.current.isFinish = false := isFinish_of_isSymbol hx
  obtain rfl := passed_of_advance hfin h₃ hup₃
  have hk : s.placed.current.kind = .symbol .closeBrace := Token.isSymbol_iff.1 hx
  refine Fails.bind follows_quoted? ?_
  intro s₄ us₄ h₄ hup₄
  obtain ⟨habout, -, -⟩ := isOptionalTerminal_of_behind (settled_of_advance h₃) h₄ hup₄
  refine Fails.ite isFinish_congr (fun _ => fails_ok ()) ?_
  intro _
  refine fails_unexpected ⟨[.endOfInput], ?_⟩ _
  rw [List.map_cons, List.map_nil, hk]
  simpa using IsSentence.framed htitle hrs habout

/-- The part of a grammar behind the title can always be completed. -/
lemma fails_body {title : List TokenKind} (htitle : IsOptionalTerminal title) (hset : s.Settled)
    (hnest : s.nesting = 0) :
    Fails (fun ks => BeginsSentence (title ++ ks)) (fun t => verdict (body t)) s := by
  refine Fails.congr (fun t _ => verdict_body t) ?_
  refine Fails.ite (isSymbol_congr .openBrace) ?_ ?_
  · intro hopen
    refine Fails.advance (Token.isSymbol_iff.1 hopen) (by simp) ?_
    intro s₁ h₁
    have hset₁ := settled_of_advance h₁
    have hn₁ : s₁.nesting = 0 := (nesting_of_advance h₁).trans hnest
    have hrules : Follows (fun ks => BeginsSentence (title ++ .symbol .openBrace :: ks))
        (fun t => behind (rules t)) s₁ := by
      refine (follows_rules s₁ hset₁ hn₁).mono ?_
      rintro ks ⟨ls, hrs⟩
      refine ⟨ls ++ .symbol .closeBrace :: [.endOfInput], ?_⟩
      simpa using IsSentence.framed htitle hrs .absent
    refine Fails.bind hrules ?_
    intro s₂ us₂ h₂ hup₂
    exact fails_frame htitle (areRules_of_behind hset₁ hn₁ h₂ hup₂).1
  · intro _
    have hrules : Follows (fun ks => BeginsSentence (title ++ ks))
        (fun t => behind (rules t)) s := by
      refine (follows_rules s hset hnest).mono ?_
      rintro ks ⟨ls, hrs⟩
      refine ⟨ls ++ [.endOfInput], ?_⟩
      simpa using IsSentence.plain htitle hrs
    refine Fails.bind hrules ?_
    intro s₂ us₂ h₂ hup₂
    obtain ⟨hrs, -⟩ := areRules_of_behind hset hnest h₂ hup₂
    refine Fails.ite isFinish_congr (fun _ => fails_ok ()) ?_
    intro _
    refine fails_unexpected ⟨[.endOfInput], ?_⟩ _
    simpa using IsSentence.plain htitle hrs

lemma upcoming_of_start {stream : Stream} (h : State.start stream = .ok s) :
    s.upcoming = Token.significant stream.tokens := by
  rw [start_eq_advance stream ⟨.endOfInput, "", ⟨1, 1⟩⟩] at h
  obtain ⟨passed, hpassed, -, htokens, hset, -, -⟩ := advance_eq_ok h
  have htokens' : stream.tokens = passed ++ s.ahead := htokens
  rw [htokens', Token.significant_append, Token.significant_eq_nil hpassed, significant_ahead hset]
  rfl

/-- What is known of a failure at the first token. -/
lemma blames_grammar {stream : Stream} {e : SyntaxError} (hstart : State.start stream = .ok s)
    (h : grammar stream = .error e) :
    Blames BeginsSentence (fun t => behind (quoted? t) >>= fun s₁ => verdict (body s₁)) s e := by
  obtain ⟨-, hnest, -, hset⟩ := start_eq_ok hstart
  have hfails : Fails BeginsSentence
      (fun t => behind (quoted? t) >>= fun s₁ => verdict (body s₁)) s := by
    refine Fails.bind follows_quoted? ?_
    intro s₁ us h₁ hup₁
    obtain ⟨htitle, hn₁, hset₁⟩ := isOptionalTerminal_of_behind hset h₁ hup₁
    exact fails_body htitle hset₁ (hn₁.trans hnest)
  apply hfails
  rw [← verdict_eq_error, verdict_grammar, hstart] at h
  exact h

/-- A failure of the scanner is the fault of the stream. -/
lemma fault?_of_grammar {stream : Stream} {f : ScanError}
    (h : grammar stream = .error (.scan f)) : stream.fault? = some f := by
  cases hstart : State.start stream with
  | error e =>
    rw [grammar, hstart, error_bind, Except.error.injEq] at h
    rw [start_eq_advance stream ⟨.endOfInput, "", ⟨1, 1⟩⟩, h] at hstart
    obtain ⟨f', hf, hfault, -⟩ := advance_eq_error hstart
    cases hf
    exact hfault
  | ok s =>
    obtain ⟨-, -, hfault, -⟩ := start_eq_ok hstart
    rw [← hfault]
    exact blames_grammar hstart h

/-- The tokens in front of one that is complained about begin a sentence, and every stream that
begins with tokens of these kinds and of the kind of that token is refused, the same being
expected. -/
lemma exists_of_unexpected {stream : Stream} {expected : Expected} {tok : Token}
    (h : grammar stream = .error (.unexpected expected tok)) :
    ∃ us later, Token.significant stream.tokens = us ++ tok :: later ∧
      BeginsSentence (us.map (·.kind)) ∧
      ∀ other : Stream, (us ++ [tok]).map (·.kind) <+:
        (Token.significant other.tokens).map (·.kind) →
        ∃ found, grammar other = .error (.unexpected expected found) := by
  cases hstart : State.start stream with
  | error e =>
    -- the first step fails only at a fault
    rw [grammar, hstart, error_bind, Except.error.injEq] at h
    rw [start_eq_advance stream ⟨.endOfInput, "", ⟨1, 1⟩⟩, h] at hstart
    obtain ⟨f, hf, -, -⟩ := advance_eq_error hstart
    cases hf
  | ok s =>
    obtain ⟨us, later, hup, hbegins, hagain⟩ := blames_grammar hstart h
    obtain ⟨-, hnest, -, -⟩ := start_eq_ok hstart
    rw [upcoming_of_start hstart] at hup
    refine ⟨us, later, hup, hbegins, fun other hother => ?_⟩
    cases hstart' : State.start other with
    | error e =>
      -- there is a token that is no comment, so that the first step succeeds
      rw [start_eq_advance other ⟨.endOfInput, "", ⟨1, 1⟩⟩] at hstart'
      obtain ⟨-, -, -, hall⟩ := advance_eq_error hstart'
      have hnone : Token.significant other.tokens = [] := Token.significant_eq_nil hall
      simp [hnone] at hother
    | ok t =>
      obtain ⟨-, hnest', -, -⟩ := start_eq_ok hstart'
      have hkinds : (us ++ [tok]).map (·.kind) <+: t.kinds := by
        rwa [State.kinds, upcoming_of_start hstart']
      obtain ⟨found, hfound⟩ := hagain t ⟨hnest'.trans hnest.symm, hkinds⟩
      refine ⟨found, ?_⟩
      rw [← verdict_eq_error, verdict_grammar, hstart']
      exact hfound

end Parse

end GrammarTree
