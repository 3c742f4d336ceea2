/-
# What a parse depends on

The parser looks at the kinds of the tokens only, and never behind the token that it looks at.  So
two runs of one of its functions go the same way as long as the kinds are the same: where one run
gets by some tokens, so does the other, and where one complains about a token, the other complains
that the same was expected.  `Follows` says this of a function at a state, together with two facts
about its failures: the tokens in front of one that is complained about have kinds `V`, and a failure
of the scanner is that of the stream.

The rules below let `Follows` be proved along the definition of a function.
-/
import GrammarTree.Proofs.Parse.Course

namespace GrammarTree.Parse

open State

/-- The kinds of the tokens to come. -/
def State.kinds (s : State) : List TokenKind := s.upcoming.map (·.kind)

/-- The state `t` has as many open constructs as `s` and begins with tokens of the kinds of `us`. -/
structure Begins (us : List Token) (s t : State) : Prop where
  nesting : t.nesting = s.nesting
  kinds : us.map (·.kind) <+: t.kinds

section

variable {α : Type} {V W : List TokenKind → Prop} {s : State}
  {g g' h : State → Except SyntaxError State} {x x' : State → Except SyntaxError α}

/-- What is known of a failure at `s`. -/
def Blames (V : List TokenKind → Prop) (x : State → Except SyntaxError α) (s : State) :
    SyntaxError → Prop
  | .scan f => s.fault? = some f
  | .unexpected expected tok => ∃ us later, s.upcoming = us ++ tok :: later ∧
      V (us.map (·.kind)) ∧
      ∀ t, Begins (us ++ [tok]) s t → ∃ other, x t = .error (.unexpected expected other)

/-- A failure at `s` depends on the kinds of the tokens up to the one that is complained about. -/
def Fails (V : List TokenKind → Prop) (x : State → Except SyntaxError α) (s : State) : Prop :=
  ∀ e, x s = .error e → Blames V x s e

/-- From `s` the tokens `us` are passed, and this depends only on the kinds of these tokens and of
the one behind them. -/
structure Passes (g : State → Except SyntaxError State) (s : State) (us : List Token)
    (n : State) : Prop where
  upcoming : s.upcoming = us ++ n.upcoming
  fault : n.fault? = s.fault?
  again : ∀ t, Begins (us ++ [n.current]) s t →
    ∃ m, g t = .ok m ∧ m.nesting = n.nesting ∧ t.kinds = us.map (·.kind) ++ m.kinds

/-- Whatever a function does at `s`, it depends only on the kinds of the tokens it looks at. -/
structure Follows (V : List TokenKind → Prop) (g : State → Except SyntaxError State)
    (s : State) : Prop where
  fails : Fails V g s
  passes : ∀ n, g s = .ok n → ∃ us, Passes g s us n

/-! ### Two runs side by side -/

/-- At the beginning both runs look at tokens of the same kind. -/
lemma Begins.kind {us later : List Token} {tok : Token} {t : State}
    (hs : s.upcoming = us ++ tok :: later) (ht : Begins (us ++ [tok]) s t) :
    t.current.kind = s.current.kind := by
  obtain ⟨rest, hrest⟩ := ht.kinds
  rw [State.kinds, State.upcoming, List.map_cons] at hrest
  rw [State.upcoming] at hs
  cases us with
  | nil =>
    have hk : tok.kind = t.current.kind := (List.cons.inj hrest).1
    rw [← hk, (List.cons.inj hs).1]
  | cons u us =>
    have hk : u.kind = t.current.kind := (List.cons.inj hrest).1
    rw [← hk, (List.cons.inj hs).1]

/-- Where the first run has passed `us` and still has `vs` in front of a token, the second run can
pass what the first has passed, and it begins there as the first does. -/
lemma Passes.begins {us vs later : List Token} {n t : State} {tok : Token}
    (hp : Passes g s us n) (hn : n.upcoming = vs ++ tok :: later)
    (ht : Begins (us ++ vs ++ [tok]) s t) :
    ∃ m, g t = .ok m ∧ t.kinds = us.map (·.kind) ++ m.kinds ∧ Begins (vs ++ [tok]) n m := by
  have hcurrent : [n.current] <+: vs ++ [tok] := by
    rw [State.upcoming] at hn
    cases vs with
    | nil =>
      rw [(List.cons.inj hn).1]
      exact List.prefix_refl _
    | cons v vs =>
      rw [(List.cons.inj hn).1]
      exact ⟨vs ++ [tok], rfl⟩
  have hfirst : Begins (us ++ [n.current]) s t := by
    refine ⟨ht.nesting, List.IsPrefix.trans ?_ ht.kinds⟩
    rw [List.append_assoc]
    exact ((List.prefix_append_right_inj us).2 hcurrent).map _
  obtain ⟨m, hm, hnest, hkinds⟩ := hp.again t hfirst
  refine ⟨m, hm, hkinds, hnest, ?_⟩
  have hall := ht.kinds
  rw [hkinds, List.append_assoc, List.map_append] at hall
  exact (List.prefix_append_right_inj _).1 hall

/-! ### Rules -/

lemma Blames.mono (hVW : ∀ ks, V ks → W ks) {e : SyntaxError} (he : Blames V x s e) :
    Blames W x s e := by
  cases e with
  | scan f => exact he
  | unexpected e tok =>
    obtain ⟨us, later, hs, hV, hagain⟩ := he
    exact ⟨us, later, hs, hVW _ hV, hagain⟩

lemma Fails.mono (hVW : ∀ ks, V ks → W ks) (hx : Fails V x s) : Fails W x s :=
  fun e he => (hx e he).mono hVW

lemma Follows.mono (hVW : ∀ ks, V ks → W ks) (hg : Follows V g s) : Follows W g s :=
  ⟨hg.fails.mono hVW, hg.passes⟩

/-- Functions can be exchanged if they agree where the current token has the same kind. -/
lemma Fails.congr (hxx : ∀ t : State, t.current.kind = s.current.kind → x t = x' t)
    (hx : Fails V x' s) : Fails V x s := by
  intro e he
  rw [hxx s rfl] at he
  have hblame := hx e he
  cases e with
  | scan f => exact hblame
  | unexpected e tok =>
    obtain ⟨us, later, hs, hV, hagain⟩ := hblame
    refine ⟨us, later, hs, hV, fun t ht => ?_⟩
    rw [hxx t (ht.kind hs)]
    exact hagain t ht

lemma Follows.congr (hgg : ∀ t : State, t.current.kind = s.current.kind → g t = g' t)
    (hg : Follows V g' s) : Follows V g s := by
  refine ⟨hg.fails.congr hgg, fun n hn => ?_⟩
  rw [hgg s rfl] at hn
  obtain ⟨us, hp⟩ := hg.passes n hn
  refine ⟨us, hp.upcoming, hp.fault, fun t ht => ?_⟩
  rw [hgg t (ht.kind hp.upcoming)]
  exact hp.again t ht

lemma Fails.bind (hg : Follows V g s)
    (hx : ∀ n us, g s = .ok n → s.upcoming = us ++ n.upcoming →
      Fails (fun ks => V (us.map (·.kind) ++ ks)) x n) :
    Fails V (fun t => g t >>= x) s := by
  intro e he
  dsimp only at he
  cases hn : g s with
  | error e' =>
    rw [hn, error_bind] at he
    obtain rfl := Except.error.inj he
    have hblame := hg.fails e' hn
    cases e' with
    | scan f => exact hblame
    | unexpected e tok =>
      obtain ⟨us, later, hs, hV, hagain⟩ := hblame
      refine ⟨us, later, hs, hV, fun t ht => ?_⟩
      obtain ⟨other, he⟩ := hagain t ht
      exact ⟨other, by dsimp only; rw [he, error_bind]⟩
  | ok n =>
    rw [hn, ok_bind] at he
    obtain ⟨us, hp⟩ := hg.passes n hn
    have hblame := hx n us hn hp.upcoming e he
    cases e with
    | scan f => exact hp.fault.symm.trans hblame
    | unexpected e tok =>
      -- the second function complains behind what the first one has passed
      obtain ⟨vs, later, hn', hV, hagain⟩ := hblame
      refine ⟨us ++ vs, later, ?_, ?_, fun t ht => ?_⟩
      · rw [hp.upcoming, hn', List.append_assoc]
      · rw [List.map_append]
        exact hV
      · obtain ⟨m, hm, -, hbegins⟩ := hp.begins hn' ht
        obtain ⟨other, he⟩ := hagain m hbegins
        exact ⟨other, by dsimp only; rw [hm, ok_bind, he]⟩

lemma Follows.bind (hg : Follows V g s)
    (hh : ∀ n us, g s = .ok n → s.upcoming = us ++ n.upcoming →
      Follows (fun ks => V (us.map (·.kind) ++ ks)) h n) :
    Follows V (fun t => g t >>= h) s := by
  refine ⟨Fails.bind hg fun n us hn hs => (hh n us hn hs).fails, fun o ho => ?_⟩
  obtain ⟨n, hn, ho⟩ := bind_eq_ok ho
  obtain ⟨us, hp⟩ := hg.passes n hn
  obtain ⟨vs, hq⟩ := (hh n us hn hp.upcoming).passes o ho
  refine ⟨us ++ vs, ?_, hq.fault.trans hp.fault, fun t ht => ?_⟩
  · rw [hp.upcoming, hq.upcoming, List.append_assoc]
  · obtain ⟨m, hm, hkinds, hbegins⟩ := hp.begins hq.upcoming ht
    obtain ⟨q, hq', hnest, hkinds'⟩ := hq.again m hbegins
    refine ⟨q, by rw [hm, ok_bind, hq'], hnest, ?_⟩
    rw [hkinds, hkinds', List.map_append, List.append_assoc]

/-- Changing a state without moving. -/
lemma follows_ok {f : State → State} (hup : ∀ t, (f t).upcoming = t.upcoming)
    (hfault : ∀ t, (f t).fault? = t.fault?)
    (hnest : ∀ t, t.nesting = s.nesting → (f t).nesting = (f s).nesting) :
    Follows V (fun t => .ok (f t)) s := by
  constructor
  · intro e he
    cases he
  · intro n hn
    cases hn
    refine ⟨[], by rw [hup, List.nil_append], hfault s, fun t ht => ?_⟩
    exact ⟨f t, rfl, hnest t ht.nesting, by rw [State.kinds, State.kinds, hup]; rfl⟩

lemma fails_ok (a : α) : Fails V (fun _ => .ok a) s := by
  intro e he
  cases he

/-- A complaint about the current token. -/
lemma fails_unexpected (hV : V []) (expected : Expected) :
    Fails V (fun t => (.error (t.unexpected expected) : Except SyntaxError α)) s := by
  intro e he
  cases he
  exact ⟨[], _, rfl, hV, fun t _ => ⟨_, rfl⟩⟩

lemma follows_unexpected (hV : V []) (expected : Expected) :
    Follows V (fun t => .error (t.unexpected expected)) s := by
  refine ⟨fails_unexpected hV expected, fun n hn => ?_⟩
  cases hn

lemma follows_advance (hs : s.current.isFinish = false) : Follows V State.advance s := by
  constructor
  · intro e he
    obtain ⟨f, rfl, hfault, -⟩ := advance_eq_error he
    show s.fault? = some f
    rw [State.fault?, hs]
    exact hfault
  · intro n hn
    have hup := upcoming_of_advance hs hn
    refine ⟨[s.current], hup, fault?_of_advance hs hn, fun t ht => ?_⟩
    -- the second run has a token behind the current one as well
    obtain ⟨rest, hrest⟩ := ht.kinds
    obtain ⟨u, v, us, hus⟩ : ∃ u v us, t.upcoming = u :: v :: us := by
      cases hu : t.upcoming with
      | nil => simp [State.kinds, hu] at hrest
      | cons u us =>
        cases us with
        | nil => simp [State.kinds, hu] at hrest
        | cons v us => exact ⟨u, v, us, rfl⟩
    obtain ⟨m, hm, hup'⟩ := exists_advance_of_upcoming hus
    refine ⟨m, hm, ?_, ?_⟩
    · rw [nesting_of_advance hm, nesting_of_advance hn, ht.nesting]
    · have hs' : s.upcoming = [s.current] ++ n.upcoming := hup
      have hk : t.current.kind = s.current.kind := ht.kind hs'
      simp [State.kinds, hup', hk]

lemma passed_of_advance {us : List Token} {n : State} (hs : s.current.isFinish = false)
    (h : s.advance = .ok n) (hup : s.upcoming = us ++ n.upcoming) : us = [s.current] := by
  have hup' : [s.current] ++ n.upcoming = us ++ n.upcoming := by
    rw [← hup, upcoming_of_advance hs h]
    rfl
  exact (List.append_cancel_right hup').symm

/-- A token of a known kind is passed, and then something is done. -/
lemma Fails.advance {k : TokenKind} (hk : s.current.kind = k) (hfin : k ≠ .endOfInput)
    (hx : ∀ n, s.advance = .ok n → Fails (fun ks => V (k :: ks)) x n) :
    Fails V (fun t => t.advance >>= x) s := by
  have hs := isFinish_of_kind hk hfin
  refine Fails.bind (follows_advance hs) ?_
  intro n us hn hup
  obtain rfl := passed_of_advance hs hn hup
  refine (hx n hn).mono fun ks hks => ?_
  rwa [← hk] at hks

lemma Follows.advance {k : TokenKind} (hk : s.current.kind = k) (hfin : k ≠ .endOfInput)
    (hh : ∀ n, s.advance = .ok n → Follows (fun ks => V (k :: ks)) h n) :
    Follows V (fun t => t.advance >>= h) s := by
  have hs := isFinish_of_kind hk hfin
  refine Follows.bind (follows_advance hs) ?_
  intro n us hn hup
  obtain rfl := passed_of_advance hs hn hup
  refine (hh n hn).mono fun ks hks => ?_
  rwa [← hk] at hks

lemma follows_descend (hV : V []) : Follows V State.descend s := by
  -- both runs have as many open constructs, so that there is room in both or in none
  rcases Nat.lt_or_ge s.nesting maxNesting with hlt | hle
  · have hd : ∀ t : State, t.nesting = s.nesting → t.descend = .ok t.deeper :=
      fun t ht => descend_of_lt (by omega)
    refine ⟨fun e he => ?_, fun n hn => ?_⟩
    · rw [hd s rfl] at he
      cases he
    · rw [hd s rfl] at hn
      cases hn
      refine ⟨[], rfl, rfl, fun t ht => ⟨t.deeper, hd t ht.nesting, ?_, rfl⟩⟩
      rw [nesting_deeper, nesting_deeper, ht.nesting]
  · have hd : ∀ t : State, t.nesting = s.nesting → t.descend = .error (t.unexpected .lessNesting) :=
      fun t ht => descend_of_le (by omega)
    refine ⟨fun e he => ?_, fun n hn => ?_⟩
    · rw [hd s rfl] at he
      cases he
      exact ⟨[], _, rfl, hV, fun t ht => ⟨_, hd t ht.nesting⟩⟩
    · rw [hd s rfl] at hn
      cases hn

/-- One more construct is opened, and then something is done. -/
lemma Follows.descend (hV : V []) (hh : s.nesting < maxNesting → Follows V h s.deeper) :
    Follows V (fun t => t.descend >>= h) s := by
  refine Follows.bind (follows_descend hV) ?_
  intro n us hn hup
  obtain ⟨hlt, rfl⟩ := descend_eq_ok_iff.1 hn
  rw [upcoming_deeper] at hup
  obtain rfl := List.self_eq_append_left.1 hup
  exact hh hlt

/-- Placing comments changes nothing for the tokens. -/
lemma Follows.placed (hg : Follows V g s.placed) : Follows V (fun t => g t.placed) s := by
  constructor
  · intro e he
    have hblame := hg.fails e he
    cases e with
    | scan f => exact hblame
    | unexpected e tok =>
      obtain ⟨us, later, hs, hV, hagain⟩ := hblame
      exact ⟨us, later, hs, hV, fun t ht => hagain t.placed ⟨ht.nesting, ht.kinds⟩⟩
  · intro n hn
    obtain ⟨us, hp⟩ := hg.passes n hn
    exact ⟨us, hp.upcoming, hp.fault, fun t ht => hp.again t.placed ⟨ht.nesting, ht.kinds⟩⟩

/-- A test of the kind of the current token has the same result in both runs. -/
lemma Fails.ite {p : Token → Prop} [DecidablePred p]
    (hp : ∀ t u : Token, t.kind = u.kind → (p t ↔ p u)) {y : State → Except SyntaxError α}
    (hx : p s.current → Fails V x s) (hy : ¬ p s.current → Fails V y s) :
    Fails V (fun t => if p t.current then x t else y t) s := by
  by_cases h : p s.current
  · exact (hx h).congr fun t ht => if_pos ((hp _ _ ht).2 h)
  · exact (hy h).congr fun t ht => if_neg fun h' => h ((hp _ _ ht).1 h')

lemma Follows.ite {p : Token → Prop} [DecidablePred p]
    (hp : ∀ t u : Token, t.kind = u.kind → (p t ↔ p u))
    (hg : p s.current → Follows V g s) (hh : ¬ p s.current → Follows V h s) :
    Follows V (fun t => if p t.current then g t else h t) s := by
  by_cases h : p s.current
  · exact (hg h).congr fun t ht => if_pos ((hp _ _ ht).2 h)
  · exact (hh h).congr fun t ht => if_neg fun h' => h ((hp _ _ ht).1 h')

end

end GrammarTree.Parse
