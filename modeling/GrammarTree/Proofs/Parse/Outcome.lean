/-
# Outcomes of the parser

The functions of the parser return, beside a result and the state behind it, the proof that they
moved on; this is what makes them terminate.  Arguments about what they return are better off without
that proof.  `plain` takes it away, and this file gives for each function the equation that its plain
outcome satisfies.  The equations are the definitions again, with `State.advance` and
`State.descend` where the definitions have `pass` and `enter`.
-/
import Mathlib.Tactic.Lemma
import GrammarTree.Parse
import GrammarTree.Proofs.Derivation

namespace GrammarTree.Parse

section Plain

variable {ε β γ : Type} {p : β → Prop} {q : γ → Prop}

/-- An outcome without what is known of it. -/
def plain : Except ε { b : β // p b } → Except ε β
  | .ok r => .ok r.1
  | .error e => .error e

lemma plain_bind (x : Except ε { b : β // p b })
    (f : { b : β // p b } → Except ε { c : γ // q c }) (g : β → Except ε γ)
    (h : ∀ b, plain (f b) = g b.1) : plain (x >>= f) = plain x >>= g := by
  cases x with
  | error e => rfl
  | ok b => exact h b

/-- A computation that succeeds in two steps succeeds in each of them. -/
lemma bind_eq_ok {x : Except ε β} {f : β → Except ε γ} {c : γ} (h : (x >>= f) = .ok c) :
    ∃ b, x = .ok b ∧ f b = .ok c := by
  cases x with
  | error e => cases h
  | ok b => exact ⟨b, rfl, h⟩

@[simp] lemma ok_bind (b : β) (f : β → Except ε γ) : ((.ok b : Except ε β) >>= f) = f b := rfl

@[simp] lemma error_bind (e : ε) (f : β → Except ε γ) :
    ((.error e : Except ε β) >>= f) = .error e := rfl

end Plain

/-- What succeeds has moved on. -/
lemma pending_of_plain {α : Type} {s n : State} {x : Parsed α s} {a : α}
    (h : plain x = .ok (a, n)) : n.pending < s.pending := by
  cases x with
  | error e => cases h
  | ok r =>
    have hr : r.1 = (a, n) := Except.ok.inj h
    have hlt := r.2
    rwa [hr] at hlt

lemma plain_pass (s : State) (h : s.current.isFinish = false) : plain (pass s h) = s.advance := by
  unfold pass
  split
  · rename_i h'
    exact h'.symm
  · rename_i h'
    exact h'.symm

lemma plain_enter (s : State) : plain (enter s) = s.descend := by
  unfold enter
  split
  · rename_i h'
    exact h'.symm
  · rename_i h'
    exact h'.symm

/-! ### The productions below the rules -/

lemma plain_expression (s : State) :
    plain (expression s) = (do
      let (found, s₁) ← plain (alternatives s)
      return (joinAlternatives found, s₁)) := by
  rw [expression]
  exact plain_bind _ _ _ fun _ => rfl

lemma plain_alternatives (s : State) :
    plain (alternatives s) = (do
      let (items, s₁) ← plain (sequence s)
      if s₁.current.isSymbol .pipe then
        let s₂ ← s₁.advance
        let (others, s₃) ← plain (alternatives s₂)
        return (items :: others, s₃)
      else return ([items], s₁)) := by
  rw [alternatives]
  refine plain_bind _ _ _ ?_
  rintro ⟨⟨items, s₁⟩, h₁⟩
  dsimp only
  split
  · rename_i hp
    rw [← plain_pass s₁ (isFinish_of_isSymbol hp)]
    refine plain_bind _ _ _ fun _ => ?_
    exact plain_bind _ _ _ fun _ => rfl
  · rfl

lemma plain_sequence (s : State) :
    plain (sequence s) = (do
      let ((n, items), s₁) ← plain (terms s)
      return (joinTerms n items, s₁)) := by
  rw [sequence]
  exact plain_bind _ _ _ fun _ => rfl

lemma plain_terms (s : State) :
    plain (terms s) = (do
      let (first, s₁) ← plain (term s.placed)
      if s₁.current.isSymbol .comma then
        let s₂ ← s₁.advance
        let ((n, items), s₃) ← plain (terms s₂)
        return ((n + 1, s.commentNodes ++ first :: items), s₃)
      else if s₁.current.startsTerm then
        let ((n, items), s₂) ← plain (terms s₁)
        return ((n + 1, s.commentNodes ++ first :: items), s₂)
      else return ((1, s.commentNodes ++ first :: s₁.commentNodes), s₁.placed)) := by
  rw [terms]
  refine plain_bind _ _ _ ?_
  rintro ⟨⟨first, s₁⟩, h₁⟩
  dsimp only
  split
  · rename_i hc
    rw [← plain_pass s₁ (isFinish_of_isSymbol hc)]
    refine plain_bind _ _ _ fun _ => ?_
    exact plain_bind _ _ _ fun _ => rfl
  · split
    · exact plain_bind _ _ _ fun _ => rfl
    · rfl

lemma plain_term (s : State) :
    plain (term s) = (do
      let (first, s₁) ← plain (factor s)
      plain (exceptions first 0 s₁)) := by
  rw [term]
  refine plain_bind _ _ _ ?_
  rintro ⟨⟨first, s₁⟩, h₁⟩
  dsimp only
  cases exceptions first 0 s₁ with
  | error e => rfl
  | ok r => rfl

lemma plain_exceptions (left : Node) (chained : Nat) (s : State) :
    plain (exceptions left chained s) =
      (if s.current.isSymbol .minus then do
        let s₁ ← s.descend
        let s₂ ← s₁.advance
        let (right, s₃) ← plain (factor s₂.placed)
        plain (exceptions (.node .exception (left :: s₂.commentNodes ++ [right])) (chained + 1) s₃)
      else .ok (left, s.ascend chained)) := by
  rw [exceptions]
  split
  · rename_i hm
    rw [← plain_enter]
    refine plain_bind _ _ _ ?_
    rintro ⟨s₁, h₁, hc⟩
    rw [← plain_pass s₁ (by rw [hc]; exact isFinish_of_isSymbol hm)]
    refine plain_bind _ _ _ ?_
    rintro ⟨s₂, h₂⟩
    refine plain_bind _ _ _ ?_
    rintro ⟨⟨right, s₃⟩, h₃⟩
    dsimp only
    cases exceptions (.node .exception (left :: s₂.commentNodes ++ [right])) (chained + 1) s₃ with
    | error e => rfl
    | ok r => rfl
  · rfl

lemma plain_enclosed (content : Content) (close : Symbol) (s : State)
    (h : s.current.isFinish = false) :
    plain (enclosed content close s h) = (do
      let s₁ ← s.descend
      let s₂ ← s₁.advance
      if s₂.current.startsTerm then
        let (items, s₃) ← plain (expression s₂)
        if s₃.current.isSymbol close then
          let s₄ ← s₃.placed.advance
          return (.node content (items ++ s₃.commentNodes), s₄.ascend 1)
        else .error (s₃.unexpected (.symbol close))
      else .error (s₂.unexpected .expression)) := by
  rw [enclosed, ← plain_enter]
  refine plain_bind _ _ _ ?_
  rintro ⟨s₁, h₁, hc⟩
  rw [← plain_pass s₁ (by rw [hc]; exact h)]
  refine plain_bind _ _ _ ?_
  rintro ⟨s₂, h₂⟩
  dsimp only
  split
  · refine plain_bind _ _ _ ?_
    rintro ⟨⟨items, s₃⟩, h₃⟩
    dsimp only
    split
    · rename_i hx
      rw [← plain_pass s₃.placed (isFinish_of_isSymbol hx)]
      exact plain_bind _ _ _ fun _ => rfl
    · rfl
  · rfl

lemma plain_factor_of_identifier {s : State} (h : s.current.kind = .identifier) :
    plain (factor s) = (do
      let s₁ ← s.advance
      return (Tree.leaf (.identifier s.current.text), s₁)) := by
  rw [factor]
  split
  · rw [← plain_pass s (State.isFinish_of_name h)]
    exact plain_bind _ _ _ fun _ => rfl
  all_goals simp_all

lemma plain_factor_of_terminal {s : State} (h : s.current.kind = .terminal) :
    plain (factor s) = (do
      let s₁ ← s.advance
      return (Tree.leaf (.terminal s.current.text), s₁)) := by
  rw [factor]
  split
  · simp_all
  · rw [← plain_pass s (isFinish_of_kind h (by simp))]
    exact plain_bind _ _ _ fun _ => rfl
  all_goals simp_all

lemma plain_factor_of_opening {s : State} (b : Enclosure)
    (h : s.current.kind = .symbol b.opening) :
    plain (factor s) = plain (enclosed b.content b.closing s (State.isFinish_of_symbol h)) := by
  rw [factor]
  cases b with
  | group =>
    split
    case h_3 => rfl
    all_goals exfalso; simp_all [Enclosure.opening]
  | optional =>
    split
    case h_4 => rfl
    all_goals exfalso; simp_all [Enclosure.opening]
  | repetition =>
    split
    case h_5 => rfl
    all_goals exfalso; simp_all [Enclosure.opening]

lemma plain_factor_of_not_startsTerm {s : State} (h : s.current.startsTerm = false) :
    plain (factor s) = .error (s.unexpected .term) := by
  rw [factor]
  unfold Token.startsTerm at h
  split
  case h_6 => rfl
  all_goals simp_all [Symbol.isOpening]

/-! ### Rules -/

/-- Whether tokens of a kind can stand behind the name of a rule. -/
def isDefinition : TokenKind → Bool
  | .symbol y => y.isDefinition
  | _ => false

/-- Whether tokens of a kind can end a rule. -/
def isTerminator : TokenKind → Bool
  | .symbol y => y.isTerminator
  | _ => false

lemma exists_of_isDefinition {k : TokenKind} (h : isDefinition k = true) :
    ∃ y, k = .symbol y ∧ y.isDefinition = true := by
  cases k with
  | symbol y => exact ⟨y, rfl, h⟩
  | _ => cases h

lemma exists_of_isTerminator {k : TokenKind} (h : isTerminator k = true) :
    ∃ y, k = .symbol y ∧ y.isTerminator = true := by
  cases k with
  | symbol y => exact ⟨y, rfl, h⟩
  | _ => cases h

lemma plain_rule (s : State) (h : s.current.kind = .identifier) :
    plain (rule s h) = (do
      let s₁ ← s.advance
      if isDefinition s₁.current.kind then
        let s₂ ← s₁.advance
        if s₂.current.startsTerm then
          let (items, s₃) ← plain (expression s₂.placed)
          if isTerminator s₃.current.kind then
            let s₄ ← s₃.placed.advance
            return (.node (.rule s.current.text) (Tree.leaf (.identifier s.current.text) ::
              s₂.commentNodes ++ items ++ s₃.commentNodes), s₄)
          else .error (s₃.unexpected .terminator)
        else .error (s₂.unexpected .expression)
      else .error (s₁.unexpected .definition)) := by
  rw [rule, ← plain_pass s (State.isFinish_of_name h)]
  refine plain_bind _ _ _ ?_
  rintro ⟨s₁, h₁⟩
  dsimp only
  -- the definition takes the symbols apart where the equation tests them
  split
  · rename_i y hy
    simp only [hy, isDefinition]
    split
    · rw [← plain_pass s₁ (State.isFinish_of_symbol hy)]
      refine plain_bind _ _ _ ?_
      rintro ⟨s₂, h₂⟩
      dsimp only
      split
      · refine plain_bind _ _ _ ?_
        rintro ⟨⟨items, s₃⟩, h₃⟩
        dsimp only
        split
        · rename_i z hz
          simp only [hz, isTerminator]
          split
          · rw [← plain_pass s₃.placed (isFinish_of_kind hz (by simp))]
            exact plain_bind _ _ _ fun _ => rfl
          · rfl
        · rename_i hz
          rw [if_neg]
          · rfl
          · intro hterm
            obtain ⟨z, hz', -⟩ := exists_of_isTerminator hterm
            exact hz z hz'
      · rfl
    · rfl
  · rename_i hy
    rw [if_neg]
    · rfl
    · intro hdef
      obtain ⟨y, hy', -⟩ := exists_of_isDefinition hdef
      exact hy y hy'

lemma rules_of_identifier {s : State} (h : s.current.kind = .identifier) :
    rules s = (do
      let (found, s₁) ← plain (rule s.placed h)
      let (others, s₂) ← rules s₁
      return (s.commentNodes ++ found :: others, s₂)) := by
  rw [rules, dif_pos h]
  cases rule s.placed h with
  | error e => rfl
  | ok r => rfl

lemma rules_of_not_identifier {s : State} (h : s.current.kind ≠ .identifier) :
    rules s = .ok ([], s) := by
  rw [rules, dif_neg h]
  rfl

end GrammarTree.Parse
