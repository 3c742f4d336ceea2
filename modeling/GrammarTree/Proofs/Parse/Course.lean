/-
# The course of a parse

What a function of the parser builds has no influence on which tokens it passes and where it fails.
`behind` forgets what was built and keeps the state behind it, `verdict` keeps only the failure.  The
equations below describe the course of each function in terms of the courses of the others.
-/
import GrammarTree.Proofs.Parse.Input
import GrammarTree.Proofs.Parse.Outcome

namespace GrammarTree.Parse

open State

section Behind

variable {ε α β : Type}

/-- The state behind what was read. -/
def behind : Except ε (α × State) → Except ε State
  | .ok r => .ok r.2
  | .error e => .error e

lemma behind_bind (x : Except ε (α × State)) (f : α × State → Except ε (β × State))
    (g : State → Except ε State) (h : ∀ a n, behind (f (a, n)) = g n) :
    behind (x >>= f) = behind x >>= g := by
  cases x with
  | error e => rfl
  | ok r => exact h r.1 r.2

lemma behind_step (x : Except ε State) (f : State → Except ε (β × State))
    (g : State → Except ε State) (h : ∀ n, behind (f n) = g n) :
    behind (x >>= f) = x >>= g := by
  cases x with
  | error e => rfl
  | ok n => exact h n

lemma exists_of_behind {x : Except ε (α × State)} {n : State} (h : behind x = .ok n) :
    ∃ a, x = .ok (a, n) := by
  cases x with
  | error e => cases h
  | ok r =>
    obtain ⟨a, m⟩ := r
    cases h
    exact ⟨a, rfl⟩

/-- Whether something was read, and what the failure is otherwise. -/
def verdict : Except ε α → Except ε Unit
  | .ok _ => .ok ()
  | .error e => .error e

lemma verdict_bind (x : Except ε (α × State)) (f : α × State → Except ε β)
    (g : State → Except ε Unit) (h : ∀ a n, verdict (f (a, n)) = g n) :
    verdict (x >>= f) = behind x >>= g := by
  cases x with
  | error e => rfl
  | ok r => exact h r.1 r.2

lemma verdict_step (x : Except ε State) (f : State → Except ε β) (g : State → Except ε Unit)
    (h : ∀ n, verdict (f n) = g n) : verdict (x >>= f) = x >>= g := by
  cases x with
  | error e => rfl
  | ok n => exact h n

lemma verdict_eq_error {x : Except ε α} {e : ε} : verdict x = .error e ↔ x = .error e := by
  cases x with
  | error e' => simp [verdict]
  | ok a => simp [verdict]

end Behind

/-! ### Below the rules -/

lemma behind_expression (s : State) :
    behind (plain (expression s)) = behind (plain (alternatives s)) := by
  rw [plain_expression]
  cases plain (alternatives s) with
  | error e => rfl
  | ok r => rfl

lemma behind_alternatives (s : State) :
    behind (plain (alternatives s)) = (do
      let s₁ ← behind (plain (sequence s))
      if s₁.current.isSymbol .pipe then
        let s₂ ← s₁.advance
        behind (plain (alternatives s₂))
      else .ok s₁) := by
  rw [plain_alternatives]
  refine behind_bind _ _ _ fun items s₁ => ?_
  dsimp only
  split
  · refine behind_step _ _ _ fun s₂ => ?_
    cases plain (alternatives s₂) with
    | error e => rfl
    | ok r => rfl
  · rfl

lemma behind_sequence (s : State) :
    behind (plain (sequence s)) = behind (plain (terms s)) := by
  rw [plain_sequence]
  cases plain (terms s) with
  | error e => rfl
  | ok r => rfl

lemma behind_terms (s : State) :
    behind (plain (terms s)) = (do
      let s₁ ← behind (plain (term s.placed))
      if s₁.current.isSymbol .comma then
        let s₂ ← s₁.advance
        behind (plain (terms s₂))
      else if s₁.current.startsTerm then behind (plain (terms s₁))
      else .ok s₁.placed) := by
  rw [plain_terms]
  refine behind_bind _ _ _ fun first s₁ => ?_
  dsimp only
  split
  · refine behind_step _ _ _ fun s₂ => ?_
    cases plain (terms s₂) with
    | error e => rfl
    | ok r => rfl
  · split
    · cases plain (terms s₁) with
      | error e => rfl
      | ok r => rfl
    · rfl

/-- What the exceptions are taken from has no influence on their course. -/
lemma behind_exceptions_left (left left' : Node) (chained : Nat) (s : State) :
    behind (plain (exceptions left chained s)) = behind (plain (exceptions left' chained s)) := by
  -- by induction on the number of tokens that are not yet passed
  suffices h : ∀ p s left left' chained, State.pending s = p →
      behind (plain (exceptions left chained s)) = behind (plain (exceptions left' chained s)) from
    h _ s left left' chained rfl
  intro p
  induction p using Nat.strongRecOn with
  | ind p ih =>
    intro s left left' chained hp
    rw [plain_exceptions, plain_exceptions left']
    split
    · rename_i hm
      cases h₁ : s.descend with
      | error e => rfl
      | ok s₁ =>
        rw [ok_bind, ok_bind]
        cases h₂ : s₁.advance with
        | error e => rfl
        | ok s₂ =>
          rw [ok_bind, ok_bind]
          cases h₃ : plain (factor s₂.placed) with
          | error e => rfl
          | ok r =>
            have hfin : s₁.current.isFinish = false := by
              rw [descend_eq_ok h₁]
              exact isFinish_of_isSymbol hm
            have hlt₂ := pending_advance h₂ hfin
            have hlt₃ : r.2.pending < s₂.placed.pending := pending_of_plain h₃
            rw [pending_descend h₁] at hlt₂
            rw [pending_placed] at hlt₃
            exact ih r.2.pending (by omega) _ _ _ _ rfl
    · rfl

lemma behind_term (left : Node) (s : State) :
    behind (plain (term s)) = (do
      let s₁ ← behind (plain (factor s))
      behind (plain (exceptions left 0 s₁))) := by
  rw [plain_term]
  exact behind_bind _ _ _ fun first s₁ => behind_exceptions_left first left 0 s₁

lemma behind_exceptions (left : Node) (chained : Nat) (s : State) :
    behind (plain (exceptions left chained s)) =
      (if s.current.isSymbol .minus then do
        let s₁ ← s.descend
        let s₂ ← s₁.advance
        let s₃ ← behind (plain (factor s₂.placed))
        behind (plain (exceptions left (chained + 1) s₃))
      else .ok (s.ascend chained)) := by
  rw [plain_exceptions]
  split
  · refine behind_step _ _ _ fun s₁ => ?_
    refine behind_step _ _ _ fun s₂ => ?_
    exact behind_bind _ _ _ fun right s₃ => behind_exceptions_left _ left _ s₃
  · rfl

lemma behind_factor_of_leaf {s : State}
    (h : s.current.kind = .identifier ∨ s.current.kind = .terminal) :
    behind (plain (factor s)) = s.advance := by
  rcases h with h | h
  · rw [plain_factor_of_identifier h]
    cases s.advance with
    | error e => rfl
    | ok n => rfl
  · rw [plain_factor_of_terminal h]
    cases s.advance with
    | error e => rfl
    | ok n => rfl

lemma behind_enclosed (content : Content) (close : Symbol) (s : State)
    (h : s.current.isFinish = false) :
    behind (plain (enclosed content close s h)) = (do
      let s₁ ← s.descend
      let s₂ ← s₁.advance
      if s₂.current.startsTerm then
        let s₃ ← behind (plain (expression s₂))
        if s₃.current.isSymbol close then
          let s₄ ← s₃.placed.advance
          .ok (s₄.ascend 1)
        else .error (s₃.unexpected (.symbol close))
      else .error (s₂.unexpected .expression)) := by
  rw [plain_enclosed]
  refine behind_step _ _ _ fun s₁ => ?_
  refine behind_step _ _ _ fun s₂ => ?_
  split
  · refine behind_bind _ _ _ fun items s₃ => ?_
    dsimp only
    split
    · exact behind_step _ _ _ fun s₄ => rfl
    · rfl
  · rfl

lemma behind_factor_of_opening {s : State} (b : Enclosure)
    (h : s.current.kind = .symbol b.opening) :
    behind (plain (factor s)) = (do
      let s₁ ← s.descend
      let s₂ ← s₁.advance
      if s₂.current.startsTerm then
        let s₃ ← behind (plain (expression s₂))
        if s₃.current.isSymbol b.closing then
          let s₄ ← s₃.placed.advance
          .ok (s₄.ascend 1)
        else .error (s₃.unexpected (.symbol b.closing))
      else .error (s₂.unexpected .expression)) := by
  rw [plain_factor_of_opening b h, behind_enclosed]

/-! ### Rules and grammars -/

/-- The course of a rule. -/
def courseOfRule (s : State) : Except SyntaxError State := do
  let s₁ ← s.advance
  if isDefinition s₁.current.kind then
    let s₂ ← s₁.advance
    if s₂.current.startsTerm then
      let s₃ ← behind (plain (expression s₂.placed))
      if isTerminator s₃.current.kind then s₃.placed.advance
      else .error (s₃.unexpected .terminator)
    else .error (s₂.unexpected .expression)
  else .error (s₁.unexpected .definition)

lemma behind_rule (s : State) (h : s.current.kind = .identifier) :
    behind (plain (rule s h)) = courseOfRule s := by
  rw [plain_rule, courseOfRule]
  refine behind_step _ _ _ fun s₁ => ?_
  split
  · refine behind_step _ _ _ fun s₂ => ?_
    split
    · refine behind_bind _ _ _ fun items s₃ => ?_
      dsimp only
      split
      · cases s₃.placed.advance with
        | error e => rfl
        | ok s₄ => rfl
      · rfl
    · rfl
  · rfl

lemma behind_rules_of_identifier {s : State} (h : s.current.kind = .identifier) :
    behind (rules s) = (do
      let s₁ ← courseOfRule s.placed
      behind (rules s₁)) := by
  rw [rules_of_identifier h, ← behind_rule s.placed h]
  refine behind_bind _ _ _ fun found s₁ => ?_
  dsimp only
  cases rules s₁ with
  | error e => rfl
  | ok r => rfl

lemma behind_rules_of_not_identifier {s : State} (h : s.current.kind ≠ .identifier) :
    behind (rules s) = .ok s := by
  rw [rules_of_not_identifier h]
  rfl

lemma behind_quoted? (s : State) :
    behind (quoted? s) = if s.current.kind = .terminal then s.advance else .ok s := by
  unfold quoted?
  split
  · cases s.advance with
    | error e => rfl
    | ok n => rfl
  · rfl

lemma verdict_body (s : State) :
    verdict (body s) =
      (if s.current.isSymbol .openBrace then do
        let s₁ ← s.advance
        let s₂ ← behind (rules s₁)
        let s₃ ← expect .closeBrace s₂.placed
        let s₄ ← behind (quoted? s₃)
        if s₄.current.isFinish then .ok () else .error (s₄.unexpected .endOfInput)
      else do
        let s₂ ← behind (rules s)
        if s₂.current.isFinish then .ok () else .error (s₂.unexpected .rule)) := by
  unfold body
  cases hframe : s.current.isSymbol .openBrace with
  | true =>
    simp only [if_true]
    refine verdict_step _ _ _ fun s₁ => ?_
    refine verdict_bind _ _ _ fun items s₂ => ?_
    refine verdict_step _ _ _ fun s₃ => ?_
    refine verdict_bind _ _ _ fun about s₄ => ?_
    dsimp only
    split
    · rfl
    · rfl
  | false =>
    simp only [Bool.false_eq_true, if_false, pure_bind]
    refine verdict_bind _ _ _ fun items s₂ => ?_
    dsimp only
    split
    · rfl
    · rfl

lemma verdict_grammar (stream : Stream) :
    verdict (grammar stream) = (do
      let s ← State.start stream
      let s₁ ← behind (quoted? s)
      verdict (body s₁)) := by
  unfold grammar
  refine verdict_step _ _ _ fun s => ?_
  refine verdict_bind _ _ _ fun title s₁ => ?_
  dsimp only
  cases body s₁ with
  | error e => rfl
  | ok r => rfl

end GrammarTree.Parse
