/-
# The parser as a machine

The functions of the parser call each other, and what a run looks like in between cannot be seen from
what they return.  Here the same parser is a machine with a stack.  On the stack lies what is still to
be done: moving on, placing the comments that were put aside, opening and closing constructs,
complaining, and calling parts of the parser.  A call is replaced by the program of the part, which is
chosen by the current token; the tree is left out.  So the places that a run comes by are those that
the machine comes by, whether the run succeeds or not.

The machine takes the course of the parser.  Whatever lies under a call on the stack, the machine
works it off and ends in the state behind the part, or it stops with the complaint of the part
(`takes_all`, `takes_grammar`).  The proof follows the recursion of the parser, with one lemma for each
part; `Performs` says it for instructions that stand in a row.
-/
import Mathlib.Computability.StateTransition
import GrammarTree.Proofs.Parse.Course
import GrammarTree.Proofs.Parse.Soundness

namespace GrammarTree.Parse

namespace Machine

open State StateTransition

/-! ### Programs -/

/-- The parts of the parser.  Where a function looks at the current token once more behind a call,
what follows is a part of its own. -/
inductive Part where
  | grammar
  /-- What stands behind the title. -/
  | body
  /-- The end of the input. -/
  | finish (expected : Expected)
  /-- A quoted text that may be absent. -/
  | quoted
  | rules
  | rule
  /-- What stands behind the name of a rule. -/
  | definition
  /-- What stands behind the definition symbol of a rule. -/
  | meaning
  | terminator
  | expression
  | alternatives
  /-- What stands behind an alternative. -/
  | moreAlternatives
  | sequence
  | terms
  /-- What stands behind a term. -/
  | moreTerms
  | term
  /-- The exceptions behind a factor, some of which have been read. -/
  | exceptions (chained : Nat)
  | factor
  /-- An expression in brackets with its opening one. -/
  | enclosed (close : Symbol)
  /-- An expression in brackets behind its opening one. -/
  | inside (close : Symbol)
  /-- A symbol that has to stand here. -/
  | symbol (y : Symbol)
deriving DecidableEq

/-- What the machine can be told to do. -/
inductive Instruction where
  /-- Move to the next token that is no comment. -/
  | advance
  /-- Place the comments that were put aside. -/
  | place
  /-- Open a construct. -/
  | descend
  /-- Close some constructs. -/
  | ascend (n : Nat)
  /-- Complain about the current token. -/
  | refuse (expected : Expected)
  /-- Go through a part of the parser. -/
  | call (p : Part)
deriving DecidableEq

/-- What a part consists of where `t` is the current token. -/
def Part.program : Part → Token → List Instruction
  | grammar, _ => [.advance, .call quoted, .call body]
  | body, t =>
    if t.isSymbol .openBrace then
      [.advance, .call rules, .place, .call (symbol .closeBrace), .call quoted, .place,
        .call (finish .endOfInput)]
    else [.call rules, .place, .call (finish .rule)]
  | finish expected, t => if t.isFinish then [] else [.refuse expected]
  | quoted, t => if t.kind = .terminal then [.advance] else []
  | rules, t => if t.kind = .identifier then [.place, .call rule, .call rules] else []
  | rule, _ => [.advance, .call definition]
  | definition, t =>
    if isDefinition t.kind then [.advance, .call meaning] else [.refuse .definition]
  | meaning, t =>
    if t.startsTerm then [.place, .call expression, .place, .call terminator]
    else [.refuse .expression]
  | terminator, t => if isTerminator t.kind then [.advance] else [.refuse .terminator]
  | expression, _ => [.call alternatives]
  | alternatives, _ => [.call sequence, .call moreAlternatives]
  | moreAlternatives, t => if t.isSymbol .pipe then [.advance, .call alternatives] else []
  | sequence, _ => [.call terms]
  | terms, _ => [.place, .call term, .call moreTerms]
  | moreTerms, t =>
    if t.isSymbol .comma then [.advance, .call terms]
    else if t.startsTerm then [.call terms]
    else [.place]
  | term, _ => [.call factor, .call (exceptions 0)]
  | exceptions chained, t =>
    if t.isSymbol .minus then
      [.descend, .advance, .place, .call factor, .call (exceptions (chained + 1))]
    else [.ascend chained]
  | factor, t =>
    match t.kind with
    | .identifier | .terminal => [.advance]
    | .symbol .openParen => [.call (enclosed .closeParen)]
    | .symbol .openBracket => [.call (enclosed .closeBracket)]
    | .symbol .openBrace => [.call (enclosed .closeBrace)]
    | _ => [.refuse .term]
  | enclosed close, _ => [.descend, .advance, .call (inside close)]
  | inside close, t =>
    if t.startsTerm then [.call expression, .place, .call (symbol close), .ascend 1]
    else [.refuse .expression]
  | symbol y, t => if t.isSymbol y then [.advance] else [.refuse (.symbol y)]

/-! ### Runs -/

/-- Where the machine stands. -/
structure Config where
  /-- Where the parse stands. -/
  state : State
  /-- The tokens that were moved past. -/
  passed : List Token
  /-- What is still to be done. -/
  stack : List Instruction

namespace Config

/-- What the machine does next, if anything is left to do. -/
def step (c : Config) : Option (Except SyntaxError Config) :=
  match c.stack with
  | [] => none
  | .advance :: rest =>
    some (c.state.advance.map fun n => ⟨n, c.passed ++ [c.state.current], rest⟩)
  | .place :: rest => some (.ok ⟨c.state.placed, c.passed, rest⟩)
  | .descend :: rest => some (c.state.descend.map fun n => ⟨n, c.passed, rest⟩)
  | .ascend n :: rest => some (.ok ⟨c.state.ascend n, c.passed, rest⟩)
  | .refuse expected :: _ => some (.error (c.state.unexpected expected))
  | .call p :: rest => some (.ok ⟨c.state, c.passed, p.program c.state.current ++ rest⟩)

/-- The place that the machine comes to next, unless it has ended or complains. -/
def next (c : Config) : Option Config :=
  match c.step with
  | some (.ok d) => some d
  | _ => none

/-- The machine comes by `d` on its way from `c`. -/
def Leads (c d : Config) : Prop := Reaches next c d

/-- The place that the machine comes to after some steps. -/
def after : Nat → Config → Option Config
  | 0, c => some c
  | n + 1, c => c.next.bind (after n)

/-- From `c` the machine comes to an end as `x` says: behind what was to be done before `rest`, or
with a complaint. -/
def Arrives (c : Config) (rest : List Instruction) : Except SyntaxError State → Prop
  | .ok n => ∃ us, c.Leads ⟨n, us, rest⟩
  | .error e => ∃ d, c.Leads d ∧ d.step = some (.error e)

/-- What a step that succeeds does. -/
inductive Moves : Config → Config → Prop
  | advance {s n : State} {us : List Token} {is : List Instruction} (h : s.advance = .ok n) :
    Moves ⟨s, us, .advance :: is⟩ ⟨n, us ++ [s.current], is⟩
  | place {s : State} {us : List Token} {is : List Instruction} :
    Moves ⟨s, us, .place :: is⟩ ⟨s.placed, us, is⟩
  | descend {s : State} {us : List Token} {is : List Instruction} (h : s.nesting < maxNesting) :
    Moves ⟨s, us, .descend :: is⟩ ⟨s.deeper, us, is⟩
  | ascend {s : State} {us : List Token} {is : List Instruction} (n : Nat) :
    Moves ⟨s, us, .ascend n :: is⟩ ⟨s.ascend n, us, is⟩
  | call {s : State} {us : List Token} {is : List Instruction} (p : Part) :
    Moves ⟨s, us, .call p :: is⟩ ⟨s, us, p.program s.current ++ is⟩

lemma moves_of_step {c d : Config} (h : c.step = some (.ok d)) : Moves c d := by
  obtain ⟨s, us, stack⟩ := c
  unfold step at h
  dsimp only at h
  split at h
  · cases h
  · cases hadv : s.advance with
    | error e =>
      rw [hadv] at h
      cases h
    | ok n =>
      rw [hadv] at h
      cases h
      exact .advance hadv
  · cases h
    exact .place
  · cases hdesc : s.descend with
    | error e =>
      rw [hdesc] at h
      cases h
    | ok n =>
      rw [hdesc] at h
      cases h
      obtain ⟨hlt, rfl⟩ := descend_eq_ok_iff.1 hdesc
      exact .descend hlt
  · cases h
    exact .ascend _
  · cases h
  · cases h
    exact .call _

/-- What is true at the start of a run and kept by each step is true all along the run. -/
lemma Leads.invariant {I : Config → Prop} {c d : Config} (h : c.Leads d) (hc : I c)
    (hmove : ∀ a b : Config, Moves a b → I a → I b) : I d := by
  induction h with
  | refl => exact hc
  | @tail a b _ hab ih =>
    refine hmove a b (moves_of_step ?_) ih
    have hnext : a.next = some b := hab
    unfold next at hnext
    split at hnext
    · cases hnext
      assumption
    · cases hnext

lemma leads_of_after (n : Nat) {c d : Config} (h : after n c = some d) : c.Leads d := by
  induction n generalizing c with
  | zero =>
    cases h
    exact .refl
  | succ n ih =>
    obtain ⟨e, he, h⟩ := Option.bind_eq_some_iff.1 h
    exact Relation.ReflTransGen.head he (ih h)

lemma Leads.head {c d e : Config} (hstep : c.step = some (.ok d)) (h : d.Leads e) : c.Leads e := by
  refine Relation.ReflTransGen.head ?_ h
  show c.next = some d
  rw [next, hstep]

lemma Arrives.of_leads {c d : Config} {rest : List Instruction} {x : Except SyntaxError State}
    (hcd : c.Leads d) (h : d.Arrives rest x) : c.Arrives rest x := by
  cases x with
  | ok n =>
    obtain ⟨us, hd⟩ := h
    exact ⟨us, hcd.trans hd⟩
  | error e =>
    obtain ⟨d', hd, hstep⟩ := h
    exact ⟨d', hcd.trans hd, hstep⟩

lemma Arrives.head {c d : Config} {rest : List Instruction} {x : Except SyntaxError State}
    (hstep : c.step = some (.ok d)) (h : d.Arrives rest x) : c.Arrives rest x :=
  h.of_leads (.head hstep .refl)

end Config

open Config

/-! ### Instructions in a row -/

/-- Whatever lies under them on the stack, the instructions `is` are worked off from `s` on as `x`
says. -/
def Performs (is : List Instruction) (s : State) (x : Except SyntaxError State) : Prop :=
  ∀ us rest, Arrives ⟨s, us, is ++ rest⟩ rest x

section

variable {s : State} {is : List Instruction} {p : Part}

lemma performs_nil : Performs [] s (.ok s) := fun us _ => ⟨us, .refl⟩

/-- Instructions are worked off one after the other. -/
lemma Performs.cons {i : Instruction} {x : Except SyntaxError State}
    {f : State → Except SyntaxError State} (hi : Performs [i] s x)
    (his : ∀ n, x = .ok n → Performs is n (f n)) : Performs (i :: is) s (x >>= f) := by
  intro us rest
  have hfirst := hi us (is ++ rest)
  cases x with
  | ok n =>
    obtain ⟨vs, hn⟩ := hfirst
    exact (his n rfl vs rest).of_leads hn
  | error e => exact hfirst

lemma performs_advance : Performs [.advance] s s.advance := by
  intro us rest
  cases h : s.advance with
  | ok n => exact ⟨_, .head (by simp [step, h]; rfl) .refl⟩
  | error e => exact ⟨_, .refl, by simp [step, h]; rfl⟩

lemma performs_descend : Performs [.descend] s s.descend := by
  intro us rest
  cases h : s.descend with
  | ok n => exact ⟨_, .head (by simp [step, h]; rfl) .refl⟩
  | error e => exact ⟨_, .refl, by simp [step, h]; rfl⟩

lemma Performs.place {x : Except SyntaxError State} (h : Performs is s.placed x) :
    Performs (.place :: is) s x :=
  fun us rest => (h us rest).head rfl

lemma performs_ascend (k : Nat) : Performs [.ascend k] s (.ok (s.ascend k)) :=
  fun us _ => ⟨us, .head rfl .refl⟩

lemma performs_refuse (expected : Expected) :
    Performs (.refuse expected :: is) s (.error (s.unexpected expected)) :=
  fun _ _ => ⟨_, .refl, rfl⟩

/-- A part is gone through by its program. -/
lemma Performs.call {x : Except SyntaxError State} (h : Performs (p.program s.current) s x) :
    Performs [.call p] s x :=
  fun us rest => (h us rest).head rfl

end

/-! ### Below the rules -/

section

variable {s : State} {α : Type}

/-- A call of a part takes the course of `x`. -/
def Takes (p : Part) (s : State) (x : Except SyntaxError (α × State)) : Prop :=
  Performs [.call p] s (behind x)

lemma takes_expression (ih : Takes .alternatives s (plain (alternatives s))) :
    Takes .expression s (plain (expression s)) := by
  rw [Takes, behind_expression]
  exact .call ih

/-- The course behind an alternative. -/
lemma performs_moreAlternatives
    (ih : ∀ s₂ : State, s₂.pending < s.pending → Takes .alternatives s₂ (plain (alternatives s₂))) :
    Performs [.call .moreAlternatives] s
      (if s.current.isSymbol .pipe then do
        let s₂ ← s.advance
        behind (plain (alternatives s₂))
      else .ok s) := by
  refine .call ?_
  rw [Part.program]
  split
  · rename_i hp
    exact performs_advance.cons fun s₂ h₂ => ih s₂ (pending_advance h₂ (isFinish_of_isSymbol hp))
  · exact performs_nil

lemma takes_alternatives (ihs : Takes .sequence s (plain (sequence s)))
    (iha : ∀ s₁ s₂ : State, s₁.pending < s.pending → s₂.pending < s₁.pending →
      Takes .alternatives s₂ (plain (alternatives s₂))) :
    Takes .alternatives s (plain (alternatives s)) := by
  rw [Takes, behind_alternatives]
  refine .call (ihs.cons fun s₁ h₁ => performs_moreAlternatives fun s₂ => iha s₁ s₂ ?_)
  obtain ⟨items, h₁⟩ := exists_of_behind h₁
  exact pending_of_plain h₁

lemma takes_sequence (ih : Takes .terms s (plain (terms s))) :
    Takes .sequence s (plain (sequence s)) := by
  rw [Takes, behind_sequence]
  exact .call ih

/-- The course behind a term. -/
lemma performs_moreTerms
    (ihc : ∀ s₂ : State, s₂.pending < s.pending → Takes .terms s₂ (plain (terms s₂)))
    (ihb : Takes .terms s (plain (terms s))) :
    Performs [.call .moreTerms] s
      (if s.current.isSymbol .comma then do
        let s₂ ← s.advance
        behind (plain (terms s₂))
      else if s.current.startsTerm then behind (plain (terms s))
      else .ok s.placed) := by
  refine .call ?_
  rw [Part.program]
  split
  · rename_i hc
    exact performs_advance.cons fun s₂ h₂ => ihc s₂ (pending_advance h₂ (isFinish_of_isSymbol hc))
  · split
    · exact ihb
    · exact .place performs_nil

lemma takes_terms (iht : Takes .term s.placed (plain (term s.placed)))
    (ihc : ∀ s₁ s₂ : State, s₁.pending < s.pending → s₂.pending < s₁.pending →
      Takes .terms s₂ (plain (terms s₂)))
    (ihb : ∀ s₁ : State, s₁.pending < s.pending → Takes .terms s₁ (plain (terms s₁))) :
    Takes .terms s (plain (terms s)) := by
  rw [Takes, behind_terms]
  refine .call (.place (iht.cons fun s₁ h₁ => ?_))
  obtain ⟨first, h₁⟩ := exists_of_behind h₁
  have hlt : s₁.pending < s.pending := pending_of_plain h₁
  exact performs_moreTerms (fun s₂ => ihc s₁ s₂ hlt) (ihb s₁ hlt)

lemma takes_term (ihf : Takes .factor s (plain (factor s)))
    (ihe : ∀ (first : Node) (s₁ : State), s₁.pending < s.pending →
      Takes (.exceptions 0) s₁ (plain (exceptions first 0 s₁))) :
    Takes .term s (plain (term s)) := by
  rw [Takes, behind_term (Tree.leaf .sequence)]
  refine .call (ihf.cons fun s₁ h₁ => ?_)
  obtain ⟨first, h₁⟩ := exists_of_behind h₁
  exact ihe _ s₁ (pending_of_plain h₁)

lemma takes_exceptions_step {left : Node} {chained : Nat}
    (hm : s.current.isSymbol .minus = true)
    (ihf : ∀ s₁ s₂ : State, s₁.pending = s.pending → s₂.pending < s₁.pending →
      Takes .factor s₂.placed (plain (factor s₂.placed)))
    (ihe : ∀ s₁ s₂ : State, s₁.pending = s.pending → s₂.pending < s₁.pending →
      ∀ (right : Node) (s₃ : State), s₃.pending < s₂.placed.pending →
        Takes (.exceptions (chained + 1)) s₃
          (plain (exceptions (.node .exception (left :: s₂.commentNodes ++ [right]))
            (chained + 1) s₃))) :
    Takes (.exceptions chained) s (plain (exceptions left chained s)) := by
  rw [Takes, behind_exceptions, if_pos hm]
  refine .call ?_
  rw [Part.program, if_pos hm]
  refine performs_descend.cons fun s₁ h₁ => performs_advance.cons fun s₂ h₂ => ?_
  have hpend := pending_descend h₁
  have hlt : s₂.pending < s₁.pending := by
    refine pending_advance h₂ ?_
    rw [descend_eq_ok h₁]
    exact isFinish_of_isSymbol hm
  refine .place ((ihf s₁ s₂ hpend hlt).cons fun s₃ h₃ => ?_)
  obtain ⟨right, h₃⟩ := exists_of_behind h₃
  -- the course is the same whatever the exceptions are taken from
  rw [behind_exceptions_left left (.node .exception (left :: s₂.commentNodes ++ [right]))]
  exact ihe s₁ s₂ hpend hlt right s₃ (pending_of_plain h₃)

lemma takes_exceptions_done {left : Node} {chained : Nat}
    (hm : ¬ s.current.isSymbol .minus = true) :
    Takes (.exceptions chained) s (plain (exceptions left chained s)) := by
  rw [Takes, behind_exceptions, if_neg hm]
  refine .call ?_
  rw [Part.program, if_neg hm]
  exact performs_ascend chained

lemma takes_factor_leaf (hk : s.current.kind = .identifier ∨ s.current.kind = .terminal) :
    Takes .factor s (plain (factor s)) := by
  rw [Takes, behind_factor_of_leaf hk]
  refine .call ?_
  have hprogram : Part.factor.program s.current = [.advance] := by
    rcases hk with hk | hk <;> rw [Part.program, hk]
  rw [hprogram]
  exact performs_advance

lemma takes_factor_opening (b : Enclosure) (hk : s.current.kind = .symbol b.opening)
    (ih : Takes (.enclosed b.closing) s
      (plain (enclosed b.content b.closing s (isFinish_of_symbol hk)))) :
    Takes .factor s (plain (factor s)) := by
  rw [Takes, plain_factor_of_opening b hk]
  refine .call ?_
  have hprogram : Part.factor.program s.current = [.call (.enclosed b.closing)] := by
    cases b <;> rw [Part.program, hk] <;> rfl
  rw [hprogram]
  exact ih

lemma takes_factor_other (h₁ : s.current.kind = .identifier → False)
    (h₂ : s.current.kind = .terminal → False) (h₃ : s.current.kind = .symbol .openParen → False)
    (h₄ : s.current.kind = .symbol .openBracket → False)
    (h₅ : s.current.kind = .symbol .openBrace → False) : Takes .factor s (plain (factor s)) := by
  rw [Takes, plain_factor_of_not_startsTerm (startsTerm_of_others h₁ h₂ h₃ h₄ h₅)]
  refine .call ?_
  have hprogram : Part.factor.program s.current = [.refuse .term] := by
    rw [Part.program]
    split <;> simp_all
  rw [hprogram]
  exact performs_refuse .term

/-- A symbol that has to stand here is passed, or it is complained that it does not. -/
lemma performs_symbol (y : Symbol) :
    Performs [.call (.symbol y)] s
      (if s.current.isSymbol y then s.advance else .error (s.unexpected (.symbol y))) := by
  refine .call ?_
  rw [Part.program]
  split
  · exact performs_advance
  · exact performs_refuse (.symbol y)

lemma takes_enclosed {content : Content} {close : Symbol} {h : s.current.isFinish = false}
    (ih : ∀ s₁ s₂ : State, s₁.pending = s.pending → s₂.pending < s₁.pending →
      Takes .expression s₂ (plain (expression s₂))) :
    Takes (.enclosed close) s (plain (enclosed content close s h)) := by
  rw [Takes, behind_enclosed]
  refine .call (performs_descend.cons fun s₁ h₁ => performs_advance.cons fun s₂ h₂ => .call ?_)
  have hlt : s₂.pending < s₁.pending := by
    refine pending_advance h₂ ?_
    rw [descend_eq_ok h₁]
    exact h
  rw [Part.program]
  split
  · refine (ih s₁ s₂ (pending_descend h₁) hlt).cons fun s₃ _ => ?_
    have hclose := (performs_symbol close (s := s₃.placed)).cons fun s₄ _ =>
      performs_ascend 1 (s := s₄)
    refine .place ?_
    cases hx : s₃.current.isSymbol close with
    | true => rwa [current_placed, hx] at hclose
    | false => rwa [current_placed, hx] at hclose
  · exact performs_refuse .expression

/-- Each part below the rules takes the course of the function that reads it. -/
lemma takes_all : (∀ s, Takes .expression s (plain (expression s))) ∧
    (∀ s, Takes .alternatives s (plain (alternatives s))) ∧
    (∀ s, Takes .sequence s (plain (sequence s))) ∧ (∀ s, Takes .terms s (plain (terms s))) ∧
    (∀ s, Takes .term s (plain (term s))) ∧
    (∀ left chained s, Takes (.exceptions chained) s (plain (exceptions left chained s))) ∧
    (∀ s, Takes .factor s (plain (factor s))) ∧
    ∀ content close s h, Takes (.enclosed close) s (plain (enclosed content close s h)) := by
  apply expression.mutual_induct
  case case1 => exact fun s ih => takes_expression ih
  case case2 => exact fun s ihs iha => takes_alternatives ihs fun s₁ s₂ h₁ => iha [] s₁ h₁ s₂
  case case3 => exact fun s ih => takes_sequence ih
  case case4 =>
    intro s iht ihc ihb
    have node : Node := Tree.leaf .sequence
    exact takes_terms iht (fun s₁ s₂ h₁ => ihc node s₁ h₁ s₂) fun s₁ h₁ => ihb node s₁ h₁
  case case5 => exact fun s ihf ihe => takes_term ihf ihe
  case case6 =>
    intro left chained s hm ihf ihe
    exact takes_exceptions_step hm (fun s₁ s₂ h₁ => ihf s₁ h₁ s₂)
      fun s₁ s₂ h₁ h₂ right s₃ h₃ => ihe s₁ h₁ s₂ h₂ right s₃ h₃
  case case7 => exact fun left chained s hm => takes_exceptions_done hm
  case case8 => exact fun s hk => takes_factor_leaf (Or.inl hk)
  case case9 => exact fun s hk => takes_factor_leaf (Or.inr hk)
  case case10 => exact fun s hk ih => takes_factor_opening .group hk ih
  case case11 => exact fun s hk ih => takes_factor_opening .optional hk ih
  case case12 => exact fun s hk ih => takes_factor_opening .repetition hk ih
  case case13 => exact fun s h₁ h₂ h₃ h₄ h₅ => takes_factor_other h₁ h₂ h₃ h₄ h₅
  case case14 => exact fun content close s h ih => takes_enclosed fun s₁ s₂ h₁ => ih s₁ h₁ s₂

/-! ### Rules and grammars -/

lemma performs_rule : Performs [.call .rule] s (courseOfRule s) := by
  refine .call (performs_advance.cons fun s₁ _ => .call ?_)
  rw [Part.program]
  split
  · refine performs_advance.cons fun s₂ _ => .call ?_
    rw [Part.program]
    split
    · refine .place ((takes_all.1 s₂.placed).cons fun s₃ _ => .place (.call ?_))
      rw [Part.program, current_placed]
      split
      · exact performs_advance
      · exact performs_refuse .terminator
    · exact performs_refuse .expression
  · exact performs_refuse .definition

lemma takes_rules (s : State) : Takes .rules s (rules s) := by
  induction s using rules.induct with
  | case1 s hk ih =>
    rw [Takes, behind_rules_of_identifier hk]
    refine .call ?_
    rw [Part.program, if_pos hk]
    refine .place (performs_rule.cons fun s₁ h₁ => ?_)
    rw [← behind_rule s.placed hk] at h₁
    obtain ⟨found, h₁⟩ := exists_of_behind h₁
    exact ih found s₁ (pending_of_plain h₁)
  | case2 s hk =>
    rw [Takes, behind_rules_of_not_identifier hk]
    refine .call ?_
    rw [Part.program, if_neg hk]
    exact performs_nil

lemma takes_quoted : Takes .quoted s (quoted? s) := by
  rw [Takes, behind_quoted?]
  refine .call ?_
  rw [Part.program]
  split
  · exact performs_advance
  · exact performs_nil

lemma performs_finish (expected : Expected) :
    Performs [.call (.finish expected)] s
      (if s.current.isFinish then .ok s else .error (s.unexpected expected)) := by
  refine .call ?_
  rw [Part.program]
  split
  · exact performs_nil
  · exact performs_refuse expected

/-- The course behind the title. -/
def courseOfBody (s : State) : Except SyntaxError State :=
  if s.current.isSymbol .openBrace then do
    let s₁ ← s.advance
    let s₂ ← behind (rules s₁)
    let s₃ ← expect .closeBrace s₂.placed
    let s₄ ← behind (quoted? s₃)
    if s₄.placed.current.isFinish then .ok s₄.placed
    else .error (s₄.placed.unexpected .endOfInput)
  else do
    let s₁ ← behind (rules s)
    if s₁.placed.current.isFinish then .ok s₁.placed else .error (s₁.placed.unexpected .rule)

/-- The course of a grammar. -/
def courseOfGrammar (stream : Stream) : Except SyntaxError State := do
  let s ← State.start stream
  let s₁ ← behind (quoted? s)
  courseOfBody s₁

lemma performs_body : Performs [.call .body] s (courseOfBody s) := by
  refine .call ?_
  rw [Part.program, courseOfBody]
  split
  · refine performs_advance.cons fun s₁ _ => (takes_rules s₁).cons fun s₂ _ => .place ?_
    exact (performs_symbol .closeBrace).cons fun s₃ _ => takes_quoted.cons fun s₄ _ =>
      .place (performs_finish .endOfInput)
  · exact (takes_rules s).cons fun s₁ _ => .place (performs_finish .rule)

lemma verdict_courseOfBody : verdict (courseOfBody s) = verdict (body s) := by
  rw [verdict_body, courseOfBody]
  split
  · refine verdict_step _ _ _ fun s₁ => verdict_step _ _ _ fun s₂ => ?_
    refine verdict_step _ _ _ fun s₃ => verdict_step _ _ _ fun s₄ => ?_
    rw [current_placed]
    split
    · rfl
    · rfl
  · refine verdict_step _ _ _ fun s₁ => ?_
    rw [current_placed]
    split
    · rfl
    · rfl

lemma verdict_courseOfGrammar (stream : Stream) :
    verdict (courseOfGrammar stream) = verdict (grammar stream) := by
  rw [verdict_grammar, courseOfGrammar]
  refine verdict_step _ _ _ fun s => verdict_step _ _ _ fun s₁ => ?_
  exact verdict_courseOfBody

/-- Where a parse stands before its first step. -/
def fresh (stream : Stream) : State := ⟨Token.finish ⟨0, 0⟩, stream, [], 0⟩

lemma performs_grammar (stream : Stream) :
    Performs [.call .grammar] (fresh stream) (courseOfGrammar stream) := by
  rw [courseOfGrammar, start_eq_advance stream (Token.finish ⟨0, 0⟩)]
  exact .call (performs_advance.cons fun s _ => takes_quoted.cons fun s₁ _ => performs_body)

/-! ### Whole runs -/

/-- The machine before it goes through a part. -/
def Config.call (p : Part) (s : State) : Config := ⟨s, [], [.call p]⟩

/-- What a function of the parser for a part below the rules returns, as far as its course goes. -/
inductive Returns : Part → State → Except SyntaxError State → Prop
  | expression (s : State) : Returns .expression s (behind (plain (Parse.expression s)))
  | sequence (s : State) : Returns .sequence s (behind (plain (Parse.sequence s)))
  | term (s : State) : Returns .term s (behind (plain (Parse.term s)))
  | factor (s : State) : Returns .factor s (behind (plain (Parse.factor s)))
  | enclosed (content : Content) (close : Symbol) (s : State) (h : s.current.isFinish = false) :
    Returns (.enclosed close) s (behind (plain (Parse.enclosed content close s h)))

/-- Wherever a part is called, the machine goes through it as the parser does. -/
lemma Returns.performs {p : Part} {x : Except SyntaxError State} (h : Returns p s x) :
    Performs [.call p] s x := by
  obtain ⟨hexpression, -, hsequence, -, hterm, -, hfactor, henclosed⟩ := takes_all
  cases h with
  | expression => exact hexpression s
  | sequence => exact hsequence s
  | term => exact hterm s
  | factor => exact hfactor s
  | enclosed content close _ h => exact henclosed content close s h

/-- From `c` the machine comes to an end as `x` says: either nothing is left to do, or it stops with
a complaint. -/
def Config.Ends (c : Config) : Except SyntaxError Unit → Prop
  | .ok _ => ∃ d, c.Leads d ∧ d.stack = []
  | .error e => ∃ d, c.Leads d ∧ d.step = some (.error e)

/-- The machine goes through a grammar as the parser does. -/
lemma ends_grammar (stream : Stream) :
    Ends (.call .grammar (fresh stream)) (verdict (grammar stream)) := by
  have harrives := performs_grammar stream [] []
  rw [← verdict_courseOfGrammar]
  cases hx : courseOfGrammar stream with
  | error e =>
    rw [hx] at harrives
    exact harrives
  | ok n =>
    rw [hx] at harrives
    obtain ⟨us, hn⟩ := harrives
    exact ⟨_, hn, rfl⟩

end

end Machine

end GrammarTree.Parse
