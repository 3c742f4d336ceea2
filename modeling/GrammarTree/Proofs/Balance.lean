/-
# What a run of the parser keeps

The parser counts the constructs that are open and puts comments aside, and it changes both as it goes
along: an enclosure is counted until its closing bracket, the exceptions of a term are counted one by
one and given back together, and comments wait until something is built.  Here this is followed step
by step, on the machine of `Proofs/Parse/Machine`.  For each of the following there is a condition on
what lies on the stack, which programs meet and steps keep.

* `Closes`: as many constructs are closed as are open above those at the start, and at no point more
  than are open.
* `Tidy`: a factor is called only after the comments were placed.
* `Reading`: what cannot be read without a token is still on the stack, or a token was passed.
* `Tracks`: no step moves past the end, so what was passed and what is to come make up the input.

So a production that succeeds leaves the count as it was and has passed a token, and in between the
count is never too large or too small (`count_kept_along_runs`).
-/
import GrammarTree.Proofs.Parse.Machine

namespace GrammarTree.Parse.Machine

open State Config

/-! ### Open constructs -/

/-- The number of constructs that a part closes beyond those that it opens. -/
def Part.debt : Part → Nat
  | exceptions chained => chained
  | inside _ => 1
  | _ => 0

/-- Where `m` constructs are open, the instructions close all of them, and at no point more than are
open.  Behind a complaint nothing is asked, since the machine stops there. -/
def Closes : List Instruction → Nat → Prop
  | [], m => m = 0
  | .descend :: is, m => Closes is (m + 1)
  | .ascend n :: is, m => n ≤ m ∧ Closes is (m - n)
  | .call p :: is, m => p.debt ≤ m ∧ Closes is (m - p.debt)
  | .advance :: is, m => Closes is m
  | .place :: is, m => Closes is m
  | .refuse _ :: _, _ => True

lemma Closes.append {is js : List Instruction} {m k : Nat} (his : Closes is m)
    (hjs : Closes js k) : Closes (is ++ js) (m + k) := by
  induction is generalizing m with
  | nil =>
    rw [Closes] at his
    rwa [his, Nat.zero_add]
  | cons i is ih =>
    cases i with
    | advance | place => exact ih his
    | refuse => trivial
    | descend =>
      rw [List.cons_append, Closes, Nat.add_right_comm]
      exact ih his
    | ascend n =>
      obtain ⟨hle, his⟩ := his
      refine ⟨Nat.le_add_right_of_le hle, ?_⟩
      rw [Nat.sub_add_comm hle]
      exact ih his
    | call p =>
      obtain ⟨hle, his⟩ := his
      refine ⟨Nat.le_add_right_of_le hle, ?_⟩
      rw [Nat.sub_add_comm hle]
      exact ih his

/-- The program of a part closes what the part owes. -/
lemma closes_program (p : Part) (t : Token) : Closes (p.program t) p.debt := by
  fun_cases Part.program p t <;> simp [Closes, Part.debt]

/-- From a start with `k` open constructs on, the count is within its limits. -/
structure Counted (k : Nat) (c : Config) : Prop where
  ge : k ≤ c.state.nesting
  le : c.state.nesting ≤ maxNesting
  closes : Closes c.stack (c.state.nesting - k)

lemma counted_call {p : Part} {s : State} (hp : p.debt = 0) (hs : s.nesting ≤ maxNesting) :
    Counted s.nesting (.call p s) := by
  refine ⟨Nat.le_refl _, hs, ?_⟩
  simp [Config.call, Closes, hp]

lemma Counted.move {k : Nat} {c d : Config} (hmove : Moves c d) (h : Counted k c) :
    Counted k d := by
  obtain ⟨hge, hle, hcloses⟩ := h
  cases hmove with
  | advance hadv =>
    rw [← nesting_of_advance hadv] at hge hle hcloses
    exact ⟨hge, hle, hcloses⟩
  | place => exact ⟨hge, hle, hcloses⟩
  | @descend s us is hlt =>
    refine ⟨Nat.le_succ_of_le hge, hlt, ?_⟩
    dsimp only at hge ⊢
    rw [nesting_deeper, Nat.sub_add_comm hge]
    exact hcloses
  | @ascend s us is n =>
    obtain ⟨hn, hcloses⟩ := hcloses
    dsimp only at hge hle hn hcloses
    refine ⟨?_, ?_, ?_⟩
    · show k ≤ s.nesting - n
      omega
    · show s.nesting - n ≤ maxNesting
      omega
    · show Closes is (s.nesting - n - k)
      rwa [Nat.sub_right_comm]
  | @call s us is p =>
    obtain ⟨hdebt, hcloses⟩ := hcloses
    refine ⟨hge, hle, ?_⟩
    have happend := (closes_program p s.current).append hcloses
    rwa [Nat.add_sub_cancel' hdebt] at happend

/-! ### Comments -/

/-- Whether an instruction wants the comments to be placed. -/
def Instruction.wantsPlaced : Instruction → Bool
  | .call .term => true
  | .call .factor => true
  | _ => false

/-- What wants the comments to be placed comes right behind their placing. -/
def PlacedBefore (i j : Instruction) : Prop := j.wantsPlaced = true → i = .place

/-- Where a term or a factor is next, no comments wait, and all others on the stack come right behind
the placing of comments. -/
structure Tidy (c : Config) : Prop where
  chain : c.stack.IsChain PlacedBefore
  first : ∀ i ∈ c.stack.head?, i.wantsPlaced = true → c.state.comments = []

lemma isChain_program (p : Part) (t : Token) : (p.program t).IsChain PlacedBefore := by
  fun_cases Part.program p t <;> simp [PlacedBefore, Instruction.wantsPlaced]

/-- A program begins with a term or a factor only if it is that of a term. -/
lemma eq_term_of_head {p : Part} {t : Token} {i : Instruction} (hi : i ∈ (p.program t).head?)
    (hwants : i.wantsPlaced = true) : p = .term := by
  revert hi
  fun_cases Part.program p t <;> simp <;> rintro rfl <;> cases hwants

lemma tidy_call {p : Part} (s : State) (hp : (Instruction.call p).wantsPlaced = false) :
    Tidy (.call p s) := by
  refine ⟨List.IsChain.singleton _, ?_⟩
  intro i hi hwants
  cases hi
  rw [hp] at hwants
  cases hwants

/-- What lies right under something else than the placing of comments does not want them placed. -/
lemma not_wantsPlaced_of_isChain {i j : Instruction} {is : List Instruction}
    (h : (i :: is).IsChain PlacedBefore) (hi : i ≠ .place) (hj : j ∈ is.head?) :
    j.wantsPlaced = false := by
  rw [Bool.eq_false_iff]
  intro hwants
  exact hi ((List.isChain_cons.1 h).1 j hj hwants)

lemma Tidy.move {c d : Config} (hmove : Moves c d) (h : Tidy c) : Tidy d := by
  obtain ⟨hchain, hfirst⟩ := h
  have hunder : ∀ i is, c.stack = i :: is → i ≠ .place → ∀ j ∈ is.head?,
      j.wantsPlaced = false := by
    intro i is hstack hi j hj
    exact not_wantsPlaced_of_isChain (hstack ▸ hchain) hi hj
  cases hmove with
  | place => exact ⟨hchain.tail, fun _ _ _ => rfl⟩
  | advance | descend | ascend =>
    refine ⟨hchain.tail, fun j hj hwants => ?_⟩
    rw [hunder _ _ rfl (by simp) j hj] at hwants
    cases hwants
  | @call s us is p =>
    refine ⟨?_, ?_⟩
    · refine List.isChain_append.2 ⟨isChain_program p s.current, hchain.tail, ?_⟩
      intro i _ j hj hwants
      rw [hunder _ _ rfl (by simp) j hj] at hwants
      cases hwants
    · intro j hj hwants
      dsimp only at hj ⊢
      cases hprogram : (p.program s.current).head? with
      | some i =>
        -- only the program of a term begins so, and then no comments waited before
        rw [List.head?_append, hprogram] at hj
        cases hj
        cases eq_term_of_head hprogram hwants
        exact hfirst _ rfl rfl
      | none =>
        rw [List.head?_append, hprogram] at hj
        rw [hunder _ _ rfl (by simp) j hj] at hwants
        cases hwants

/-! ### Tokens that have to be read -/

/-- Whether a part reads something within a rule, which it cannot do without a token. -/
def Part.reads : Part → Bool
  | expression | alternatives | sequence | terms | term | factor | enclosed _ | inside _ => true
  | _ => false

/-- Whether an instruction does not get by without a token; a complaint does not get by at all. -/
def Instruction.reads : Instruction → Bool
  | .call p => p.reads
  | .refuse _ => true
  | _ => false

/-- A token was passed, or there is one that has to be passed. -/
def Reading (c : Config) : Prop :=
  (∃ t ∈ c.passed, t.kind ≠ .comment) ∨ (∃ i ∈ c.stack, i.reads = true) ∨
    ∃ is, c.stack = .advance :: is ∧ c.state.current.kind ≠ .comment

/-- What does not get by without a token asks for one, or moves past one of the right kind. -/
lemma reads_program {p : Part} (hp : p.reads = true) (t : Token) :
    (∃ i ∈ p.program t, i.reads = true) ∨ p.program t = [.advance] ∧ t.kind ≠ .comment := by
  revert hp
  fun_cases Part.program p t <;> simp_all [Part.reads, Instruction.reads]

lemma reading_call {p : Part} (s : State) (hp : p.reads = true) : Reading (.call p s) :=
  Or.inr (Or.inl ⟨_, List.mem_singleton_self _, hp⟩)

lemma Reading.move {c d : Config} (hmove : Moves c d) (h : Reading c) : Reading d := by
  cases hmove with
  | @advance s n us is hadv =>
    rcases h with ⟨t, ht, hk⟩ | ⟨i, hi, hreads⟩ | ⟨js, -, hk⟩
    · exact Or.inl ⟨t, List.mem_append_left _ ht, hk⟩
    · rcases List.mem_cons.1 hi with rfl | hi
      · cases hreads
      · exact Or.inr (Or.inl ⟨i, hi, hreads⟩)
    · exact Or.inl ⟨s.current, List.mem_append_right _ (List.mem_singleton_self _), hk⟩
  | place | descend | ascend =>
    rcases h with hpassed | ⟨i, hi, hreads⟩ | ⟨js, hstack, -⟩
    · exact Or.inl hpassed
    · rcases List.mem_cons.1 hi with rfl | hi
      · cases hreads
      · exact Or.inr (Or.inl ⟨i, hi, hreads⟩)
    · cases hstack
  | @call s us is p =>
    rcases h with hpassed | ⟨i, hi, hreads⟩ | ⟨js, hstack, -⟩
    · exact Or.inl hpassed
    · rcases List.mem_cons.1 hi with rfl | hi
      · rcases reads_program hreads s.current with ⟨j, hj, hreads⟩ | ⟨hprogram, hk⟩
        · exact Or.inr (Or.inl ⟨j, List.mem_append_left _ hj, hreads⟩)
        · refine Or.inr (Or.inr ⟨is, ?_, hk⟩)
          rw [hprogram]
          rfl
      · exact Or.inr (Or.inl ⟨i, List.mem_append_right _ hi, hreads⟩)
    · cases hstack

/-- Where nothing is left to do, a token was passed. -/
lemma Reading.exists_of_nil {c : Config} (h : Reading c) (hstack : c.stack = []) :
    ∃ t ∈ c.passed, t.kind ≠ .comment := by
  rcases h with hpassed | ⟨i, hi, -⟩ | ⟨is, h, -⟩
  · exact hpassed
  · rw [hstack] at hi
    cases hi
  · rw [hstack] at h
    cases h

/-! ### The end of the input -/

/-- Whether instructions move on before they look at the current token. -/
def movesBlindly : List Instruction → Bool
  | .advance :: _ => true
  | .call .grammar :: _ => true
  | .call .rule :: _ => true
  | .call (.enclosed _) :: _ => true
  | .place :: is | .descend :: is | .ascend _ :: is => movesBlindly is
  | _ => false

/-- Whether another token may be the current one behind an instruction. -/
def Instruction.mayMove : Instruction → Bool
  | .advance => true
  | .call _ => true
  | _ => false

/-- Wherever another token may be the current one, it is looked at before it is passed. -/
def Looks : List Instruction → Prop
  | [] => True
  | i :: is => (i.mayMove = true → movesBlindly is = false) ∧ Looks is

lemma looks_program {p : Part} {t : Token} {is : List Instruction} (h : Looks is)
    (hblind : movesBlindly is = false) : Looks (p.program t ++ is) := by
  fun_cases Part.program p t <;> simp_all [Looks, movesBlindly, Instruction.mayMove]

/-- A program moves past the current token only if it knows that this is not the end. -/
lemma isFinish_of_program {p : Part} {t : Token} {is : List Instruction}
    (hblind : movesBlindly is = false) (hp : movesBlindly (.call p :: is) = true → t.isFinish = false)
    (h : movesBlindly (p.program t ++ is) = true) : t.isFinish = false := by
  cases hfin : t.isFinish with
  | false => rfl
  | true =>
    -- at the end, no program of the others moves on
    have hk : t.kind = .endOfInput := Token.isFinish_iff.1 hfin
    exfalso
    revert h hp
    fun_cases Part.program p t <;>
      simp_all [movesBlindly, Token.isSymbol, isDefinition, isTerminator]

/-- On the way from a start with the tokens `us` to come, no step has moved past the end. -/
structure Tracks (us : List Token) (c : Config) : Prop where
  looks : Looks c.stack
  blind : movesBlindly c.stack = true → c.state.current.isFinish = false
  upcoming : us = c.passed ++ c.state.upcoming

lemma tracks_call {p : Part} {s : State} {x : Except SyntaxError State} (h : Returns p s x) :
    Tracks s.upcoming (.call p s) := by
  refine ⟨⟨fun _ => rfl, trivial⟩, fun hblind => ?_, rfl⟩
  cases h with
  | enclosed content close _ hfin => exact hfin
  | expression | sequence | term | factor => cases hblind

lemma Tracks.move {us : List Token} {c d : Config} (hmove : Moves c d) (h : Tracks us c) :
    Tracks us d := by
  cases hmove with
  | @advance s n vs is hadv =>
    obtain ⟨hlook, hlooks⟩ := h.looks
    refine ⟨hlooks, fun hblind => ?_, ?_⟩
    · dsimp only at hblind
      rw [hlook rfl] at hblind
      cases hblind
    · rw [h.upcoming, upcoming_of_advance (h.blind rfl) hadv, List.append_assoc]
      rfl
  | place | descend | ascend => exact ⟨h.looks.2, h.blind, h.upcoming⟩
  | @call s vs is p =>
    obtain ⟨hlook, hlooks⟩ := h.looks
    exact ⟨looks_program hlooks (hlook rfl), isFinish_of_program (hlook rfl) h.blind, h.upcoming⟩

/-! ### The theorem -/

/-- The parts that are productions within a rule. -/
def Part.isProduction : Part → Bool
  | expression | sequence | term | factor | enclosed _ => true
  | _ => false

/-- The count of open constructs is within its limit, and where some of them are about to be closed,
as many are open. -/
structure Config.Fits (c : Config) : Prop where
  le : c.state.nesting ≤ maxNesting
  closes : ∀ n rest, c.stack = .ascend n :: rest → n ≤ c.state.nesting

lemma Counted.fits {k : Nat} {c : Config} (h : Counted k c) : c.Fits := by
  refine ⟨h.le, fun n rest hstack => ?_⟩
  have hcloses := h.closes
  rw [hstack] at hcloses
  exact Nat.le_trans hcloses.1 (Nat.sub_le _ _)

lemma Counted.nesting_eq {k : Nat} {c : Config} (h : Counted k c) (hstack : c.stack = []) :
    c.state.nesting = k := by
  have hcloses := h.closes
  rw [hstack, Closes] at hcloses
  have hge := h.ge
  omega

variable {p : Part} {s : State}

lemma debt_of_isProduction (hp : p.isProduction = true) : p.debt = 0 := by
  cases p <;> first | rfl | cases hp

lemma reads_of_isProduction (hp : p.isProduction = true) : p.reads = true := by
  cases p <;> first | rfl | cases hp

/-- The machine goes through the parts of the parser as the parser does, so what is said of its runs is
said of those of the parser.

Let a production within a rule be gone through from a state with at most `maxNesting` open constructs.
If it succeeds, as many constructs are open behind it as before, and a token that is no comment has been
passed; the tokens passed are those that were taken off the input.  All along the run, also if it fails
later, at most `maxNesting` constructs are open, and never are more closed than are open.  The latter
holds for the run of a whole grammar, too, and there a factor is only ever called while no comments
wait. -/
theorem count_kept_along_runs (hp : p.isProduction = true) (hs : s.nesting ≤ maxNesting)
    (stream : Stream) :
    (∀ x, Returns p s x → Performs [.call p] s x) ∧
    (∀ n, Returns p s (.ok n) → n.nesting = s.nesting ∧
      ∃ us, (Config.call p s).Leads ⟨n, us, []⟩ ∧ (∃ t ∈ us, t.kind ≠ .comment) ∧
        s.upcoming = us ++ n.upcoming) ∧
    (∀ c, (Config.call p s).Leads c → c.Fits) ∧
    Ends (.call .grammar (fresh stream)) (verdict (grammar stream)) ∧
    ∀ c, (Config.call .grammar (fresh stream)).Leads c →
      c.Fits ∧ ∀ rest, c.stack = .call .factor :: rest → c.state.comments = [] := by
  have hcounted : ∀ c, (Config.call p s).Leads c → Counted s.nesting c := fun c h =>
    h.invariant (counted_call (debt_of_isProduction hp) hs) fun _ _ => Counted.move
  refine ⟨fun _ hx => hx.performs, fun n hn => ?_, fun c h => (hcounted c h).fits,
    ends_grammar stream, fun c h => ⟨?_, fun rest hstack => ?_⟩⟩
  · obtain ⟨us, h⟩ := hn.performs [] []
    have htracks := h.invariant (tracks_call hn) fun _ _ => Tracks.move
    have hreading := h.invariant (reading_call s (reads_of_isProduction hp)) fun _ _ => Reading.move
    exact ⟨(hcounted _ h).nesting_eq rfl, us, h, hreading.exists_of_nil rfl, htracks.upcoming⟩
  · exact (h.invariant (counted_call rfl (Nat.zero_le _)) fun _ _ => Counted.move).fits
  · have htidy : Tidy c := h.invariant (tidy_call _ rfl) fun _ _ => Tidy.move
    exact htidy.first (.call .factor) (by rw [hstack]; rfl) rfl

/-- An exception is read where 127 constructs are open already, and a factor behind a comment. -/
theorem count_kept_along_runs_of_exception :
    ∃ (s : State) (c : Config) (n : State) (us : List Token),
      s.nesting = 127 ∧ (Config.call .expression s).Leads c ∧ c.state.nesting = 128 ∧ c.Fits ∧
      behind (plain (expression s)) = .ok n ∧ n.nesting = 127 ∧ n.current.text = ";" ∧
      s.upcoming = us ++ n.upcoming ∧ (∃ t ∈ us, t.kind ≠ .comment) ∧
      ∃ (stream : Stream) (d : Config) (rest : List Instruction),
        (Config.call .grammar (fresh stream)).Leads d ∧ d.stack = .call .factor :: rest ∧
        d.passed.length = 5 ∧ d.state.comments = [] := by
  let behindName : Stream := .next ⟨.symbol .minus, "-", ⟨1, 7⟩⟩ <|
    .next ⟨.comment, "x", ⟨1, 9⟩⟩ <| .next ⟨.identifier, "c", ⟨1, 15⟩⟩ <|
    .next ⟨.symbol .semicolon, ";", ⟨1, 17⟩⟩ <| .finished ⟨1, 18⟩
  let s : State := ⟨⟨.identifier, "b", ⟨1, 5⟩⟩, behindName, [], 127⟩
  let stream : Stream := .next ⟨.identifier, "a", ⟨1, 1⟩⟩ <|
    .next ⟨.symbol .equals, "=", ⟨1, 3⟩⟩ <| .next s.current behindName
  have htext : (behind (plain (expression s))).map (·.current.text) = .ok ";" := by
    decide +kernel
  obtain ⟨n, hn, hend⟩ : ∃ n, behind (plain (expression s)) = .ok n ∧ n.current.text = ";" := by
    cases hx : behind (plain (expression s)) with
    | error e =>
      rw [hx] at htext
      cases htext
    | ok n =>
      rw [hx] at htext
      exact ⟨n, rfl, Except.ok.inj htext⟩
  obtain ⟨-, hsuccess, hfits, -, hcomments⟩ :=
    count_kept_along_runs (p := .expression) (s := s) rfl (by decide) stream
  obtain ⟨hkept, us, -, hpassed, hup⟩ := hsuccess n (hn ▸ .expression s)
  obtain ⟨c, hc, hnesting⟩ : ∃ c,
      (Config.call .expression s).Leads c ∧ c.state.nesting = 128 :=
    ⟨_, leads_of_after 10 rfl, rfl⟩
  obtain ⟨d, rest, hd, hstack, hcount⟩ : ∃ d rest,
      (Config.call .grammar (fresh stream)).Leads d ∧ d.stack = .call .factor :: rest ∧
        d.passed.length = 5 :=
    ⟨_, _, leads_of_after 24 rfl, rfl, rfl⟩
  exact ⟨s, c, n, us, rfl, hc, hnesting, hfits c hc, hn, hkept, hend, hup, hpassed, stream, d, rest,
    hd, hstack, hcount, (hcomments d hd).2 rest hstack⟩

end GrammarTree.Parse.Machine
