/-
# Parsing into a forest agrees with parsing into a tree

The two parsers run side by side.  Where the one that puts trees together fails, the one that makes
nodes fails with the same complaint; where it succeeds, the other one does, too, in the same state of
the parse, and the nodes that it hands back stand in the forest as the trees say (`Agrees`).  A part
of the parser only adds growths to those that are there: whatever the forest consists of before, it
consists of this and of the new growths afterwards.  So this is proved for all functions at once, by
the recursion of those that put trees together.  The number of tokens that are pending bounds this
recursion, and so the limit for calls is not reached if it is above the same bound.

At the end nothing is loose.  The result is `grow_eq`: if a text is parsed to a tree, the forest that
grows from the text consists of one growth, which has this tree.
-/
import GrammarTree.Proofs.Forest.Growth
import GrammarTree.Proofs.Parse.Outcome
import GrammarTree.Proofs.Parse.Soundness

namespace GrammarTree

open Growth Forest Parse

namespace Parse

/-! ### Running two parsers side by side -/

section Agrees

variable {α β γ δ : Type} {x : Except SyntaxError α} {site : Site} {s : State} {f : Forest}

/-- What a part of the parser comes to, if it comes to an end. -/
def Grow.outcome (m : Grower β) (site : Site) : Option (Except SyntaxError (β × Site)) :=
  (m.run site).run

lemma outcome_bind_ok {m : Grower β} {k : β → Grower δ} {b : β} {site' : Site}
    (h : Grow.outcome m site = some (.ok (b, site'))) :
    Grow.outcome (m >>= k) site = Grow.outcome (k b) site' := by
  have hrun : m site = some (.ok (b, site')) := h
  show Option.bind (m site) _ = _
  rw [hrun]
  rfl

lemma outcome_bind_error {m : Grower β} {k : β → Grower δ} {e : SyntaxError}
    (h : Grow.outcome m site = some (.error e)) :
    Grow.outcome (m >>= k) site = some (.error e) := by
  have hrun : m site = some (.error e) := h
  show Option.bind (m site) _ = _
  rw [hrun]
  rfl

/-- From `site` the part `m` of the parser comes to an end, and it ends as `x` does: with the same
complaint, or with results that `R` relates. -/
def Agrees (x : Except SyntaxError α) (m : Grower β) (site : Site) (R : α → β → Site → Prop) :
    Prop :=
  match x with
  | .ok a => ∃ b site', Grow.outcome m site = some (.ok (b, site')) ∧ R a b site'
  | .error e => Grow.outcome m site = some (.error e)

/-- Both parsers are in the same state behind results that `R` relates. -/
def Along (R : α → β → Forest → Prop) (r : α × State) (b : β) (site : Site) : Prop :=
  site.state = r.2 ∧ R r.1 b site.forest

lemma agrees_pure {R : α → β → Forest → Prop} {a : α} {b : β} (h : R a b f) :
    Agrees (.ok (a, s)) (pure b) ⟨s, f⟩ (Along R) :=
  ⟨b, ⟨s, f⟩, rfl, rfl, h⟩

lemma agrees_refuse {R : α → β → Site → Prop} (expected : Expected) :
    Agrees (.error (s.unexpected expected)) (Grow.refuse expected) ⟨s, f⟩ R :=
  rfl

/-- The first parser puts something around its result. -/
lemma Agrees.map {r : Except SyntaxError (α × State)} {m : Grower β} {R : α → β → Forest → Prop}
    {R' : γ → β → Forest → Prop} {g : α → γ} (h : Agrees r m site (Along R))
    (hR : ∀ a b f, R a b f → R' (g a) b f) :
    Agrees (r >>= fun r => .ok (g r.1, r.2)) m site (Along R') := by
  cases r with
  | error e => exact h
  | ok r =>
    obtain ⟨b, site', hrun, hstate, hb⟩ := h
    exact ⟨b, site', hrun, hstate, hR _ _ _ hb⟩

/-- What follows agrees from the place on that both parsers have reached. -/
lemma Agrees.bind {r : Except SyntaxError (α × State)} {m : Grower β}
    {R : α → β → Forest → Prop} {next : α × State → Except SyntaxError γ} {k : β → Grower δ}
    {R' : γ → δ → Site → Prop} (h : Agrees r m site (Along R))
    (hnext : ∀ a n b f, r = .ok (a, n) → R a b f → Agrees (next (a, n)) (k b) ⟨n, f⟩ R') :
    Agrees (r >>= next) (m >>= k) site R' := by
  cases r with
  | error e => exact outcome_bind_error h
  | ok r =>
    obtain ⟨a, n⟩ := r
    obtain ⟨b, ⟨n', f⟩, hrun, hstate, hb⟩ := h
    cases hstate
    have hrest := hnext a n b f rfl hb
    rw [ok_bind]
    unfold Agrees at hrest ⊢
    rwa [outcome_bind_ok hrun]

/-- A step that does not touch the parse comes before the rest. -/
lemma Agrees.after {m : Grower β} {k : β → Grower δ} {b : β} {site' : Site}
    {R : α → δ → Site → Prop} (hrun : Grow.outcome m site = some (.ok (b, site')))
    (h : Agrees x (k b) site' R) : Agrees x (m >>= k) site R := by
  unfold Agrees at h ⊢
  rwa [outcome_bind_ok hrun]

lemma Agrees.current {k : Token → Grower β} {R : α → β → Site → Prop}
    (h : Agrees x (k s.current) ⟨s, f⟩ R) : Agrees x (Grow.current >>= k) ⟨s, f⟩ R :=
  h.after rfl

lemma Agrees.change {k : Unit → Grower β} {R : α → β → Site → Prop} {step : Forest → Forest}
    (h : Agrees x (k ()) ⟨s, step f⟩ R) : Agrees x (Grow.change step >>= k) ⟨s, f⟩ R :=
  h.after rfl

lemma Agrees.make {k : Nat → Grower β} {R : α → β → Site → Prop} {c : Content}
    {parent : Option Nat} (h : Agrees x (k f.size) ⟨s, f.create c parent⟩ R) :
    Agrees x (Grow.make c parent >>= k) ⟨s, f⟩ R :=
  h.after rfl

/-- The contents of the comments that were put aside. -/
def State.commentContents (s : State) : List Content := s.comments.map fun t => .comment t.text

lemma map_leaf_commentContents (s : State) :
    s.commentContents.map Tree.leaf = s.commentNodes := by
  simp [State.commentContents, State.commentNodes]

lemma commentContents_ne_grammar (s : State) : ∀ c ∈ s.commentContents, c.kind ≠ .grammar := by
  intro c hc
  obtain ⟨t, -, rfl⟩ := List.mem_map.1 hc
  nofun

lemma Agrees.makeComments {k : List Nat → Grower β} {R : α → β → Site → Prop}
    {parent : Option Nat}
    (h : Agrees x (k (f.createAll parent s.commentContents).1)
      ⟨s.placed, (f.createAll parent s.commentContents).2⟩ R) :
    Agrees x (Grow.makeComments parent >>= k) ⟨s, f⟩ R :=
  h.after rfl

lemma outcome_move (step : State → Except SyntaxError State) :
    Grow.outcome (Grow.move step) ⟨s, f⟩ = some ((step s).map fun n => ((), ⟨n, f⟩)) := by
  have hget : Grow.outcome (get : Grower Site) ⟨s, f⟩ = some (.ok (⟨s, f⟩, ⟨s, f⟩)) := rfl
  rw [Grow.move, outcome_bind_ok hget]
  dsimp only
  cases step s with
  | ok n => rfl
  | error e => rfl

/-- Both parsers change the state of the parse, and the forest is left as it is. -/
lemma Agrees.step {r : Except SyntaxError State} {m : Grower Unit}
    {next : State → Except SyntaxError α} {k : Unit → Grower β} {R : α → β → Site → Prop}
    (hrun : Grow.outcome m ⟨s, f⟩ = some (r.map fun n => ((), ⟨n, f⟩)))
    (h : ∀ n, r = .ok n → Agrees (next n) (k ()) ⟨n, f⟩ R) :
    Agrees (r >>= next) (m >>= k) ⟨s, f⟩ R := by
  cases r with
  | error e => exact outcome_bind_error hrun
  | ok n =>
    rw [ok_bind]
    exact (h n rfl).after hrun

lemma Agrees.move {step : State → Except SyntaxError State}
    {next : State → Except SyntaxError α} {k : Unit → Grower β}
    {R : α → β → Site → Prop} (h : ∀ n, step s = .ok n → Agrees (next n) (k ()) ⟨n, f⟩ R) :
    Agrees (step s >>= next) (Grow.move step >>= k) ⟨s, f⟩ R :=
  Agrees.step (outcome_move step) h

/-- Both parsers end with a change of the state of the parse. -/
lemma agrees_move {step : State → Except SyntaxError State} {R : α → Unit → Forest → Prop} {a : α}
    (h : R a () f) :
    Agrees (step s >>= fun n => .ok (a, n)) (Grow.move step) ⟨s, f⟩ (Along R) := by
  have hmove := outcome_move (s := s) (f := f) step
  cases hstep : step s with
  | error e =>
    rw [hstep] at hmove
    exact hmove
  | ok n =>
    rw [hstep] at hmove
    exact ⟨(), ⟨n, f⟩, hmove, rfl, h⟩

/-- The state of the parse is changed in a way that cannot fail. -/
lemma Agrees.shift {step : State → State} {k : Unit → Grower β} {R : α → β → Site → Prop}
    (h : Agrees x (k ()) ⟨step s, f⟩ R) :
    Agrees x (Grow.move (fun s => .ok (step s)) >>= k) ⟨s, f⟩ R :=
  h.after rfl

lemma outcome_expect (y : Symbol) :
    Grow.outcome (Grow.expect y) ⟨s, f⟩ = some ((expect y s).map fun n => ((), ⟨n, f⟩)) := by
  have hcurrent : Grow.outcome Grow.current ⟨s, f⟩ = some (.ok (s.current, ⟨s, f⟩)) := rfl
  rw [Grow.expect, outcome_bind_ok hcurrent, expect]
  split
  · exact outcome_move State.advance
  · rfl

lemma expect_bind (y : Symbol) (s : State) (next : State → Except SyntaxError α) :
    (expect y s >>= next) =
      if s.current.isSymbol y then s.advance >>= next else .error (s.unexpected (.symbol y)) := by
  rw [Parse.expect]
  split
  · rfl
  · rfl

lemma Agrees.expect {y : Symbol} {next : State → Except SyntaxError α}
    {k : Unit → Grower β} {R : α → β → Site → Prop}
    (h : ∀ n, Parse.expect y s = .ok n → Agrees (next n) (k ()) ⟨n, f⟩ R) :
    Agrees (if s.current.isSymbol y then s.advance >>= next else .error (s.unexpected (.symbol y)))
      (Grow.expect y >>= k) ⟨s, f⟩ R := by
  rw [← expect_bind]
  exact Agrees.step (outcome_expect y) h

end Agrees

/-! ### What each function does -/

/-- The nodes `ids` are loose and stand for the trees; beside them the forest consists of `gs`. -/
def Grown (gs : List Growth) (trees : List Node) (ids : List Nat) (f : Forest) : Prop :=
  ∃ hs : List Growth, ids = hs.map top ∧ hs.map Growth.tree = trees ∧ f.Consists (hs ++ gs)

/-- The node `i` is loose and stands for the tree; beside it the forest consists of `gs`. -/
def GrownNode (gs : List Growth) (t : Node) (i : Nat) (f : Forest) : Prop :=
  ∃ g : Growth, i = top g ∧ g.tree = t ∧ f.Consists (g :: gs)

lemma GrownNode.grown {gs : List Growth} {t : Node} {i : Nat} {f : Forest}
    (h : GrownNode gs t i f) : Grown gs [t] [i] f := by
  obtain ⟨g, rfl, rfl, hg⟩ := h
  exact ⟨[g], rfl, rfl, hg⟩

/-- Parsing an expression makes its nodes. -/
def GrowsExpression (s : State) : Prop :=
  ∀ limit, s.pending * 8 + 6 < limit → ∀ f gs, f.Consists gs → rootId ∈ idsOf gs →
    Agrees (plain (expression s)) (Grow.expression limit) ⟨s, f⟩ (Along (Grown gs))

/-- Parsing alternatives makes the nodes of each of them. -/
def GrowsAlternatives (s : State) : Prop :=
  ∀ limit, s.pending * 8 + 5 < limit → ∀ f gs, f.Consists gs → rootId ∈ idsOf gs →
    Agrees (plain (alternatives s)) (Grow.alternatives limit) ⟨s, f⟩ (Along fun found idss f' =>
      ∃ hss : List (List Growth), idss = hss.map (·.map top) ∧
        hss.map (·.map Growth.tree) = found ∧ f'.Consists (hss.flatten ++ gs))

/-- Parsing a sequence makes its nodes. -/
def GrowsSequence (s : State) : Prop :=
  ∀ limit, s.pending * 8 + 4 < limit → ∀ f gs, f.Consists gs → rootId ∈ idsOf gs →
    Agrees (plain (sequence s)) (Grow.sequence limit) ⟨s, f⟩ (Along (Grown gs))

/-- Parsing the terms of a sequence makes the nodes of its items. -/
def GrowsTerms (s : State) : Prop :=
  ∀ limit, s.pending * 8 + 3 < limit → ∀ f gs, f.Consists gs → rootId ∈ idsOf gs →
    Agrees (plain (terms s)) (Grow.terms limit) ⟨s, f⟩ (Along fun found made f' =>
      made.1 = found.1 ∧ Grown gs found.2 made.2 f')

/-- Parsing a term makes its node. -/
def GrowsTerm (s : State) : Prop :=
  ∀ limit, s.pending * 8 + 2 < limit → ∀ f gs, f.Consists gs → rootId ∈ idsOf gs →
    Agrees (plain (term s)) (Grow.term limit) ⟨s, f⟩ (Along (GrownNode gs))

/-- Parsing exceptions takes a loose node and makes another one. -/
def GrowsExceptions (left : Node) (chained : Nat) (s : State) : Prop :=
  ∀ limit, s.pending * 8 + 7 < limit → ∀ f gs g, f.Consists (g :: gs) → rootId ∈ idsOf gs →
    g.tree = left → Agrees (plain (exceptions left chained s))
      (Grow.exceptions limit (top g) chained) ⟨s, f⟩ (Along (GrownNode gs))

/-- Parsing a factor makes its node. -/
def GrowsFactor (s : State) : Prop :=
  ∀ limit, s.pending * 8 + 1 < limit → ∀ f gs, f.Consists gs → rootId ∈ idsOf gs →
    Agrees (plain (factor s)) (Grow.factor limit) ⟨s, f⟩ (Along (GrownNode gs))

/-- Parsing an enclosure fills a loose node. -/
def GrowsEnclosed (content : Content) (close : Symbol) (s : State)
    (h : s.current.isFinish = false) : Prop :=
  ∀ limit, s.pending * 8 < limit → ∀ f gs i, f.Consists (Tree.leaf (i, content) :: gs) →
    rootId ∈ idsOf gs → Agrees (plain (enclosed content close s h)) (Grow.enclosed limit i close)
      ⟨s, f⟩ (Along (GrownNode gs))

/-! ### The steps -/

variable {s : State} {f : Forest} {gs hs : List Growth}

lemma root_mem_append (hs : List Growth) (hroot : rootId ∈ idsOf gs) :
    rootId ∈ idsOf (hs ++ gs) := by
  rw [idsOf_append]
  exact List.mem_append_right _ hroot

/-- The comments that were put aside become loose nodes. -/
lemma exists_comments (h : f.Consists gs) (s : State) :
    ∃ cs : List Growth, (f.createAll none s.commentContents).1 = cs.map top ∧
      cs.map Growth.tree = s.commentNodes ∧
      (f.createAll none s.commentContents).2.Consists (cs ++ gs) := by
  rw [← map_leaf_commentContents]
  exact h.createAll (commentContents_ne_grammar s)

/-- Some loose nodes are put below a new one. -/
lemma grown_gathered (h : f.Consists (hs ++ gs)) (hroot : rootId ∈ idsOf gs) {c : Content}
    (hc : c.kind ≠ .grammar) :
    GrownNode gs (.node c (hs.map Growth.tree)) f.size
      ((f.create c none).appendAll f.size (hs.map top)) := by
  have hmade : (f.create c none).Consists (within none (.node (f.size, c) []) :: (hs ++ gs)) :=
    h.create hc
  exact ⟨.node (f.size, c) hs, rfl, by simp, hmade.appendAll (root_mem_append [_] hroot)⟩

lemma agrees_join {hss : List (List Growth)} (h : f.Consists (hss.flatten ++ gs))
    (hroot : rootId ∈ idsOf gs) :
    Agrees (.ok (joinAlternatives (hss.map (·.map Growth.tree)), s))
      (Grow.join (hss.map (·.map top))) ⟨s, f⟩ (Along (Grown gs)) := by
  match hss with
  | [] => exact agrees_pure ⟨[], rfl, rfl, h⟩
  | [hs] =>
    rw [List.flatten_singleton] at h
    exact agrees_pure ⟨hs, rfl, rfl, h⟩
  | hs :: hs' :: hss =>
    refine Agrees.make (Agrees.change (agrees_pure ?_))
    have hgrown := (grown_gathered h hroot (c := .choice) (by simp [Content.kind])).grown
    rw [List.map_flatten, List.map_flatten] at hgrown
    exact hgrown

lemma growsExpression (ih : GrowsAlternatives s) : GrowsExpression s := by
  intro limit hlimit f gs h hroot
  obtain ⟨limit, rfl⟩ := Nat.exists_eq_add_one_of_ne_zero (Nat.ne_zero_of_lt hlimit)
  rw [plain_expression, Grow.expression]
  refine (ih limit (by omega) f gs h hroot).bind ?_
  rintro found n idss f₁ - ⟨hss, rfl, rfl, h₁⟩
  exact agrees_join h₁ hroot

lemma growsAlternatives (ihs : GrowsSequence s)
    (iha : ∀ s₁ s₂ : State, s₁.pending < s.pending → s₂.pending < s₁.pending →
      GrowsAlternatives s₂) : GrowsAlternatives s := by
  intro limit hlimit f gs h hroot
  obtain ⟨limit, rfl⟩ := Nat.exists_eq_add_one_of_ne_zero (Nat.ne_zero_of_lt hlimit)
  rw [plain_alternatives, Grow.alternatives]
  refine (ihs limit (by omega) f gs h hroot).bind ?_
  rintro items s₁ ids f₁ hx ⟨hs, rfl, rfl, h₁⟩
  refine Agrees.current ?_
  dsimp only
  split
  · rename_i hp
    refine Agrees.move fun s₂ hs₂ => ?_
    have hlt := pending_of_plain hx
    have hlt' := State.pending_advance hs₂ (isFinish_of_isSymbol hp)
    refine (iha s₁ s₂ hlt hlt' limit (by omega) f₁ (hs ++ gs) h₁ (root_mem_append hs hroot)).bind ?_
    rintro others s₃ idss f₂ - ⟨hss, rfl, rfl, h₂⟩
    refine agrees_pure ⟨hs :: hss, rfl, rfl, h₂.perm ?_⟩
    rw [List.flatten_cons, ← List.append_assoc]
    exact List.perm_append_comm.append_right gs
  · exact agrees_pure ⟨[hs], rfl, rfl, by simpa using h₁⟩

lemma growsSequence (ih : GrowsTerms s) : GrowsSequence s := by
  intro limit hlimit f gs h hroot
  obtain ⟨limit, rfl⟩ := Nat.exists_eq_add_one_of_ne_zero (Nat.ne_zero_of_lt hlimit)
  rw [plain_sequence, Grow.sequence]
  refine (ih limit (by omega) f gs h hroot).bind ?_
  rintro ⟨k, items⟩ n ⟨k', ids⟩ f₁ - ⟨rfl, hs, rfl, rfl, h₁⟩
  dsimp only [joinTerms]
  split
  · exact agrees_pure ⟨hs, rfl, rfl, h₁⟩
  · refine Agrees.make (Agrees.change (agrees_pure ?_))
    exact (grown_gathered h₁ hroot (by simp [Content.kind])).grown

/-- A term stands between comments and more items. -/
lemma perm_items (cs items : List Growth) (g : Growth) (gs : List Growth) :
    (items ++ g :: (cs ++ gs)).Perm (cs ++ g :: items ++ gs) := by
  refine List.perm_iff_count.2 fun k => ?_
  simp only [List.count_append, List.count_cons]
  omega

lemma growsTerms (iht : GrowsTerm s.placed)
    (ihc : ∀ s₁ s₂ : State, s₁.pending < s.placed.pending → s₂.pending < s₁.pending →
      GrowsTerms s₂)
    (ihb : ∀ s₁ : State, s₁.pending < s.placed.pending → GrowsTerms s₁) : GrowsTerms s := by
  intro limit hlimit f gs h hroot
  obtain ⟨limit, rfl⟩ := Nat.exists_eq_add_one_of_ne_zero (Nat.ne_zero_of_lt hlimit)
  rw [plain_terms, Grow.terms]
  refine Agrees.makeComments ?_
  obtain ⟨cs, hids, htrees, h₀⟩ := exists_comments h s
  rw [hids, ← htrees]
  have hplaced : s.placed.pending = s.pending := State.pending_placed s
  refine (iht limit (by omega) _ _ h₀ (root_mem_append cs hroot)).bind ?_
  rintro first s₁ i f₁ hx ⟨g, rfl, rfl, h₁⟩
  have hlt := pending_of_plain hx
  have hroot₁ : rootId ∈ idsOf (g :: (cs ++ gs)) :=
    root_mem_append [g] (root_mem_append cs hroot)
  refine Agrees.current ?_
  dsimp only
  split
  · rename_i hc
    refine Agrees.move fun s₂ hs₂ => ?_
    have hlt' := State.pending_advance hs₂ (isFinish_of_isSymbol hc)
    refine (ihc s₁ s₂ hlt hlt' limit (by omega) f₁ _ h₁ hroot₁).bind ?_
    rintro ⟨k, items⟩ s₃ ⟨k', ids⟩ f₂ - ⟨rfl, hs, rfl, rfl, h₂⟩
    refine agrees_pure ⟨rfl, cs ++ g :: hs, by simp, by simp, h₂.perm (perm_items cs hs g gs)⟩
  · refine Agrees.current ?_
    split
    · refine (ihb s₁ hlt limit (by omega) f₁ _ h₁ hroot₁).bind ?_
      rintro ⟨k, items⟩ s₂ ⟨k', ids⟩ f₂ - ⟨rfl, hs, rfl, rfl, h₂⟩
      exact agrees_pure ⟨rfl, cs ++ g :: hs, by simp, by simp, h₂.perm (perm_items cs hs g gs)⟩
    · refine Agrees.makeComments ?_
      obtain ⟨ds, hids', htrees', h₂⟩ := exists_comments h₁ s₁
      rw [hids', ← htrees']
      exact agrees_pure ⟨rfl, cs ++ g :: ds, by simp, by simp, h₂.perm (perm_items cs ds g gs)⟩

lemma growsTerm (ihf : GrowsFactor s)
    (ihe : ∀ (first : Node) (s₁ : State), s₁.pending < s.pending → GrowsExceptions first 0 s₁) :
    GrowsTerm s := by
  intro limit hlimit f gs h hroot
  obtain ⟨limit, rfl⟩ := Nat.exists_eq_add_one_of_ne_zero (Nat.ne_zero_of_lt hlimit)
  rw [plain_term, Grow.term]
  refine (ihf limit (by omega) f gs h hroot).bind ?_
  rintro first s₁ i f₁ hx ⟨g, rfl, rfl, h₁⟩
  have hlt := pending_of_plain hx
  exact ihe _ s₁ hlt limit (by omega) f₁ gs g h₁ hroot rfl

lemma growsExceptions_step {left : Node} {chained : Nat} (hm : s.current.isSymbol .minus = true)
    (ihf : ∀ s₁ s₂ : State, s₁.pending = s.pending → s₂.pending < s₁.pending →
      GrowsFactor s₂.placed)
    (ihe : ∀ s₁ s₂ : State, s₁.pending = s.pending → s₂.pending < s₁.pending →
      ∀ (right : Node) (s₃ : State), s₃.pending < s₂.placed.pending →
        GrowsExceptions (.node .exception (left :: s₂.commentNodes ++ [right])) (chained + 1) s₃) :
    GrowsExceptions left chained s := by
  rintro limit hlimit f gs g h hroot rfl
  obtain ⟨limit, rfl⟩ := Nat.exists_eq_add_one_of_ne_zero (Nat.ne_zero_of_lt hlimit)
  rw [plain_exceptions, if_pos hm, Grow.exceptions]
  refine Agrees.current ?_
  rw [if_pos hm]
  refine Agrees.move fun s₁ hs₁ => ?_
  refine Agrees.make (Agrees.change ?_)
  -- the exception, with what it is taken from below it
  have h₁ : ((f.create .exception none).append f.size (top g)).Consists
      (within none (.node (f.size, .exception) [g]) :: gs) := by
    have hmade : (f.create .exception none).Consists
        (within none (.node (f.size, .exception) []) :: g :: gs) := h.create (by simp [Content.kind])
    exact hmade.append (root_mem_append [_] hroot)
  refine Agrees.move fun s₂ hs₂ => ?_
  have hfin : s₁.current.isFinish = false := by
    rw [State.descend_eq_ok hs₁]
    exact isFinish_of_isSymbol hm
  have hp₁ := State.pending_descend hs₁
  have hp₂ := State.pending_advance hs₂ hfin
  refine Agrees.makeComments (Agrees.change ?_)
  obtain ⟨cs, hids, htrees, h₂⟩ := exists_comments h₁ s₂
  rw [hids]
  have h₃ := (h₂.perm List.perm_middle).appendAll (root_mem_append [_] hroot)
  have hplaced : s₂.placed.pending = s₂.pending := State.pending_placed s₂
  refine (ihf s₁ s₂ hp₁ hp₂ limit (by omega) _ _ h₃ (root_mem_append [_] hroot)).bind ?_
  rintro right s₃ i f₄ hx ⟨r, rfl, rfl, h₄⟩
  refine Agrees.change ?_
  have h₅ := (h₄.perm (.swap _ _ _)).append (root_mem_append [_] hroot)
  have hp₃ := pending_of_plain hx
  have hrest := ihe s₁ s₂ hp₁ hp₂ r.tree s₃ hp₃ limit (by omega) _ gs _ h₅ hroot
  exact hrest (by simp [within, htrees])

lemma growsExceptions_done {left : Node} {chained : Nat}
    (hm : ¬ s.current.isSymbol .minus = true) : GrowsExceptions left chained s := by
  rintro limit hlimit f gs g h hroot rfl
  obtain ⟨limit, rfl⟩ := Nat.exists_eq_add_one_of_ne_zero (Nat.ne_zero_of_lt hlimit)
  rw [plain_exceptions, if_neg hm, Grow.exceptions]
  refine Agrees.current ?_
  rw [if_neg hm]
  exact Agrees.shift (agrees_pure ⟨g, rfl, rfl, h⟩)

/-- A factor that consists of one token becomes a node behind this token. -/
lemma agrees_leaf (h : f.Consists gs) {c : Content} (hc : c.kind ≠ .grammar) :
    Agrees (s.advance >>= fun n => .ok (Tree.leaf c, n))
      (Grow.move State.advance >>= fun _ => Grow.make c none) ⟨s, f⟩ (Along (GrownNode gs)) := by
  refine Agrees.move fun n _ => ?_
  exact ⟨f.size, ⟨n, f.create c none⟩, rfl, rfl, Tree.leaf (f.size, c), rfl, rfl, h.create hc⟩

lemma growsFactor_identifier (hk : s.current.kind = .identifier) : GrowsFactor s := by
  intro limit hlimit f gs h hroot
  obtain ⟨limit, rfl⟩ := Nat.exists_eq_add_one_of_ne_zero (Nat.ne_zero_of_lt hlimit)
  rw [plain_factor_of_identifier hk, Grow.factor]
  refine Agrees.current ?_
  simp only [hk]
  exact agrees_leaf h (by simp [Content.kind])

lemma growsFactor_terminal (hk : s.current.kind = .terminal) : GrowsFactor s := by
  intro limit hlimit f gs h hroot
  obtain ⟨limit, rfl⟩ := Nat.exists_eq_add_one_of_ne_zero (Nat.ne_zero_of_lt hlimit)
  rw [plain_factor_of_terminal hk, Grow.factor]
  refine Agrees.current ?_
  simp only [hk]
  exact agrees_leaf h (by simp [Content.kind])

lemma growsFactor_opening (b : Enclosure) (hk : s.current.kind = .symbol b.opening)
    (ih : GrowsEnclosed b.content b.closing s (State.isFinish_of_symbol hk)) : GrowsFactor s := by
  intro limit hlimit f gs h hroot
  obtain ⟨limit, rfl⟩ := Nat.exists_eq_add_one_of_ne_zero (Nat.ne_zero_of_lt hlimit)
  have hmade : (f.create b.content none).Consists (Tree.leaf (f.size, b.content) :: gs) :=
    h.create (by cases b <;> simp [Enclosure.content, Content.kind])
  have hrest := ih limit (by omega) _ gs _ hmade hroot
  rw [plain_factor_of_opening b hk, Grow.factor]
  refine Agrees.current ?_
  simp only [hk]
  cases b with
  | group => exact Agrees.make hrest
  | optional => exact Agrees.make hrest
  | repetition => exact Agrees.make hrest

lemma growsFactor_other (hk : s.current.startsTerm = false) : GrowsFactor s := by
  intro limit hlimit f gs h hroot
  obtain ⟨limit, rfl⟩ := Nat.exists_eq_add_one_of_ne_zero (Nat.ne_zero_of_lt hlimit)
  rw [plain_factor_of_not_startsTerm hk, Grow.factor]
  refine Agrees.current ?_
  split
  case h_6 => exact agrees_refuse .term
  all_goals simp_all [Token.startsTerm, Symbol.isOpening]

lemma growsEnclosed {content : Content} {close : Symbol} {hfin : s.current.isFinish = false}
    (ih : ∀ s₁ s₂ : State, s₁.pending = s.pending → s₂.pending < s₁.pending →
      GrowsExpression s₂) : GrowsEnclosed content close s hfin := by
  intro limit hlimit f gs i h hroot
  obtain ⟨limit, rfl⟩ := Nat.exists_eq_add_one_of_ne_zero (Nat.ne_zero_of_lt hlimit)
  rw [plain_enclosed, Grow.enclosed]
  refine Agrees.move fun s₁ hs₁ => ?_
  refine Agrees.move fun s₂ hs₂ => ?_
  have hfin₁ : s₁.current.isFinish = false := by
    rw [State.descend_eq_ok hs₁]
    exact hfin
  refine Agrees.current ?_
  split
  · have hp₁ := State.pending_descend hs₁
    have hp₂ := State.pending_advance hs₂ hfin₁
    have hexpr := ih s₁ s₂ hp₁ hp₂ limit (by omega) f _ h (root_mem_append [_] hroot)
    refine hexpr.bind ?_
    rintro items s₃ ids f₁ - ⟨hs, rfl, rfl, h₁⟩
    refine Agrees.change (Agrees.makeComments ?_)
    have hopen : f₁.Consists (within none (.node (i, content) []) :: (hs ++ gs)) :=
      h₁.perm List.perm_middle
    have h₂ := hopen.appendAll (root_mem_append [_] hroot)
    obtain ⟨cs, htrees, h₃⟩ := h₂.createAll_below (commentContents_ne_grammar s₃)
    rw [map_leaf_commentContents] at htrees
    refine Agrees.expect (s := s₃.placed) fun s₄ _ => ?_
    refine Agrees.shift (agrees_pure ⟨_, rfl, ?_, h₃⟩)
    simp [within, htrees]
  · exact agrees_refuse .expression

/-- All functions below the rules make the nodes of what they return. -/
lemma grows_all : (∀ s, GrowsExpression s) ∧ (∀ s, GrowsAlternatives s) ∧
    (∀ s, GrowsSequence s) ∧ (∀ s, GrowsTerms s) ∧ (∀ s, GrowsTerm s) ∧
    (∀ left chained s, GrowsExceptions left chained s) ∧ (∀ s, GrowsFactor s) ∧
    ∀ content close s h, GrowsEnclosed content close s h := by
  apply expression.mutual_induct
  case case1 => exact fun s ih => growsExpression ih
  case case2 => exact fun s ihs iha => growsAlternatives ihs fun s₁ s₂ h₁ => iha [] s₁ h₁ s₂
  case case3 => exact fun s ih => growsSequence ih
  case case4 =>
    intro s iht ihc ihb
    have node : Node := Tree.leaf .sequence
    exact growsTerms iht (fun s₁ s₂ h₁ => ihc node s₁ h₁ s₂) fun s₁ h₁ => ihb node s₁ h₁
  case case5 => exact fun s ihf ihe => growsTerm ihf ihe
  case case6 =>
    intro left chained s hm ihf ihe
    exact growsExceptions_step hm (fun s₁ s₂ h₁ => ihf s₁ h₁ s₂)
      fun s₁ s₂ h₁ h₂ right s₃ h₃ => ihe s₁ h₁ s₂ h₂ right s₃ h₃
  case case7 => exact fun left chained s hm => growsExceptions_done hm
  case case8 => exact fun s hk => growsFactor_identifier hk
  case case9 => exact fun s hk => growsFactor_terminal hk
  case case10 => exact fun s hk ih => growsFactor_opening .group hk ih
  case case11 => exact fun s hk ih => growsFactor_opening .optional hk ih
  case case12 => exact fun s hk ih => growsFactor_opening .repetition hk ih
  case case13 =>
    intro s h₁ h₂ h₃ h₄ h₅
    exact growsFactor_other (startsTerm_of_others h₁ h₂ h₃ h₄ h₅)
  case case14 => exact fun content close s h ih => growsEnclosed fun s₁ s₂ h₁ => ih s₁ h₁ s₂

/-! ### Rules and grammars -/

/-- The forest consists of a grammar with the given trees below its root. -/
def Rooted (title about : String) (f : Forest) (trees : List Node) : Prop :=
  ∃ rs : List Growth, rs.map Growth.tree = trees ∧
    f.Consists [.node (rootId, .grammar title about) rs]

/-- Comments become nodes below the root. -/
lemma Rooted.comments {title about : String} {trees : List Node} (h : Rooted title about f trees)
    (s : State) :
    Rooted title about (f.createAll (some rootId) s.commentContents).2
      (trees ++ s.commentNodes) := by
  obtain ⟨rs, rfl, h⟩ := h
  have hroot : f.Consists (within none (.node (rootId, .grammar title about) rs) :: []) := h
  obtain ⟨cs, htrees, h₁⟩ := hroot.createAll_below (commentContents_ne_grammar s)
  rw [map_leaf_commentContents] at htrees
  exact ⟨rs ++ cs, by rw [List.map_append, htrees], h₁⟩

/-- A symbol of some class has to stand here. -/
lemma agrees_symbol {α β : Type} {x : Except SyntaxError α} {m : Grower β}
    {R : α → β → Site → Prop} {expected : Expected} {isOne : TokenKind → Bool}
    (test : Symbol → Bool)
    (htest : ∀ k, isOne k = match k with | .symbol y => test y | _ => false)
    (h : isOne s.current.kind = true → Agrees x m ⟨s, f⟩ R) :
    Agrees (if isOne s.current.kind then x else .error (s.unexpected expected))
      (match s.current.kind with
        | .symbol y => if test y then m else Grow.refuse expected
        | _ => Grow.refuse expected) ⟨s, f⟩ R := by
  rw [htest] at h ⊢
  cases hk : s.current.kind with
  | symbol y =>
    rw [hk] at h
    by_cases hy : test y = true
    · simp only [hy, if_true]
      exact h hy
    · simp only [hy, Bool.false_eq_true, if_false]
      exact agrees_refuse expected
  | _ => exact agrees_refuse expected

/-- Parsing a rule puts its node behind those below the root. -/
lemma agrees_rule {title about : String} {trees : List Node} (h : Rooted title about f trees)
    (hk : s.current.kind = .identifier) {limit : Nat} (hlimit : s.pending * 8 < limit) :
    Agrees (plain (rule s hk)) (Grow.rule limit) ⟨s, f⟩
      (Along fun t _ f' => Rooted title about f' (trees ++ [t])) := by
  obtain ⟨rs, rfl, h⟩ := h
  rw [plain_rule, Grow.rule]
  refine Agrees.current (Agrees.move fun s₁ hs₁ => ?_)
  have hp₁ := State.pending_advance hs₁ (State.isFinish_of_name hk)
  refine Agrees.make (Agrees.make (Agrees.current ?_))
  -- the rule stays the last node below the root while it is filled
  have hroot : f.Consists [within none (.node (rootId, .grammar title about) rs)] := h
  have h₁ : (f.create (.rule s.current.text) (some rootId)).Consists
      [within (some ((rootId, .grammar title about), rs))
        (.node (f.size, .rule s.current.text) [])] :=
    hroot.create_below (by simp [Content.kind])
  have h₂ := h₁.create_below (d := .identifier s.current.text) (by simp [Content.kind])
  refine agrees_symbol Symbol.isDefinition (fun k => by cases k <;> rfl) fun hdef => ?_
  obtain ⟨y, hy, -⟩ := exists_of_isDefinition hdef
  refine Agrees.move fun s₂ hs₂ => Agrees.current ?_
  have hp₂ := State.pending_advance hs₂ (State.isFinish_of_symbol hy)
  split
  · refine Agrees.makeComments ?_
    obtain ⟨cs, hcs, h₃⟩ := h₂.createAll_below (commentContents_ne_grammar s₂)
    rw [map_leaf_commentContents] at hcs
    have hplaced : s₂.placed.pending = s₂.pending := State.pending_placed s₂
    refine (grows_all.1 s₂.placed limit (by omega) _ _ h₃ h₃.root_mem).bind ?_
    rintro items s₃ ids f₄ - ⟨hs, rfl, rfl, h₄⟩
    refine Agrees.change (Agrees.makeComments (Agrees.current ?_))
    have h₅ := (h₄.perm List.perm_middle).appendAll h₃.root_mem
    obtain ⟨ds, hds, h₆⟩ := h₅.createAll_below (commentContents_ne_grammar s₃)
    rw [map_leaf_commentContents] at hds
    refine agrees_symbol (s := s₃.placed) Symbol.isTerminator (fun k => by cases k <;> rfl)
      fun _ => ?_
    refine agrees_move ⟨_, ?_, h₆⟩
    simp [hcs, hds]
  · exact agrees_refuse .expression

/-- Parsing rules puts their nodes and the comments before them below the root. -/
lemma agrees_rules (s : State) : ∀ {title about : String} {f : Forest} {trees : List Node}
    {limit : Nat}, Rooted title about f trees → s.pending * 8 + 1 < limit →
    Agrees (rules s) (Grow.rules limit) ⟨s, f⟩
      (Along fun items _ f' => Rooted title about f' (trees ++ items)) := by
  induction s using rules.induct with
  | case1 s hk ih =>
    intro title about f trees limit h hlimit
    obtain ⟨limit, rfl⟩ := Nat.exists_eq_add_one_of_ne_zero (Nat.ne_zero_of_lt hlimit)
    rw [rules_of_identifier hk, Grow.rules]
    refine Agrees.current ?_
    rw [if_pos hk]
    refine Agrees.makeComments ?_
    have hplaced : s.placed.pending = s.pending := State.pending_placed s
    refine (agrees_rule (s := s.placed) (h.comments s) hk (by omega)).bind ?_
    rintro found s₁ - f₁ hx h₁
    have hlt := pending_of_plain hx
    refine (ih found s₁ hlt h₁ (by omega)).map
      (g := fun others => s.commentNodes ++ found :: others) ?_
    rintro others - f₂ h₂
    rwa [List.append_assoc, List.append_assoc] at h₂
  | case2 s hk =>
    intro title about f trees limit h hlimit
    obtain ⟨limit, rfl⟩ := Nat.exists_eq_add_one_of_ne_zero (Nat.ne_zero_of_lt hlimit)
    rw [rules_of_not_identifier hk, Grow.rules]
    refine Agrees.current ?_
    rw [if_neg hk]
    exact agrees_pure (by rwa [List.append_nil])

lemma pending_of_quoted? {n : State} {found : Option String} (h : quoted? s = .ok (found, n)) :
    n.pending ≤ s.pending := by
  unfold quoted? at h
  split at h
  · rename_i hk
    obtain ⟨s₁, h₁, h⟩ := bind_eq_ok h
    cases h
    exact Nat.le_of_lt (State.pending_advance h₁ (isFinish_of_kind hk (by simp)))
  · cases h
    exact Nat.le_refl _

/-- A quoted text is put into the root. -/
lemma agrees_quoted {put : Forest → String → Forest} {R : Option String → Forest → Prop}
    (hnone : R none f) (hsome : ∀ text, R (some text) (put f text)) :
    Agrees (quoted? s) (Grow.quoted put) ⟨s, f⟩ (Along fun found _ => R found) := by
  rw [quoted?, Grow.quoted]
  refine Agrees.current ?_
  split
  · refine Agrees.move fun n _ => ?_
    exact ⟨(), ⟨n, put f s.current.text⟩, rfl, rfl, hsome _⟩
  · exact agrees_pure hnone

/-- The last comments are put below the root, and then the input has to end. -/
lemma agrees_finish {α : Type} {title about : String} {trees : List Node}
    {R : α → Unit → Site → Prop} {a : α} (h : Rooted title about f trees) (expected : Expected)
    (hR : ∀ f', Rooted title about f' (trees ++ s.commentNodes) → R a () ⟨s.placed, f'⟩) :
    Agrees (if s.current.isFinish then .ok a else .error (s.unexpected expected))
      (Grow.finish expected) ⟨s, f⟩ R := by
  refine Agrees.makeComments (Agrees.current ?_)
  rw [State.current_placed]
  cases s.current.isFinish with
  | true => exact ⟨(), _, rfl, hR _ (h.comments s)⟩
  | false => exact agrees_refuse (s := s.placed) expected

/-- What both parsers have read of a grammar behind the title. -/
def HasBody (title : String) (r : List Node × Option String) (_ : Unit) (site : Site) : Prop :=
  Rooted title (r.2.getD Content.defaultMeta) site.forest r.1

/-- A grammar may give its meta text. -/
lemma Rooted.about {title about : String} {trees : List Node} (h : Rooted title about f trees)
    (text : String) : Rooted title text (f.setMeta text) trees := by
  obtain ⟨rs, rfl, h⟩ := h
  exact ⟨rs, rfl, h.setMeta⟩

lemma agrees_body {title : String} {limit : Nat} (h : Rooted title Content.defaultMeta f [])
    (hlimit : s.pending * 8 + 1 < limit) :
    Agrees (body s) (Grow.body limit) ⟨s, f⟩ (HasBody title) := by
  rw [body, Grow.body]
  refine Agrees.current ?_
  cases hopen : s.current.isSymbol .openBrace with
  | false =>
    refine (agrees_rules s h hlimit).bind ?_
    rintro items s₂ - f₂ - h₂
    refine agrees_finish h₂ .rule ?_
    intro f₃ h₃
    exact h₃
  | true =>
    refine Agrees.move fun s₁ hs₁ => ?_
    have hlt := State.pending_advance hs₁ (isFinish_of_isSymbol hopen)
    refine (agrees_rules s₁ h (by omega)).bind ?_
    rintro items s₂ - f₂ - h₂
    refine Agrees.makeComments ?_
    have h₃ := h₂.comments s₂
    simp only [if_true, expect_bind]
    refine Agrees.expect fun s₃ _ => ?_
    refine (agrees_quoted
      (R := fun found f => Rooted title (found.getD Content.defaultMeta) f _) h₃ h₃.about).bind ?_
    rintro about s₄ - f₄ - h₄
    refine agrees_finish h₄ .endOfInput ?_
    intro f₅ h₅
    exact h₅

/-- The forest of a grammar holds its tree and nothing else. -/
lemma agrees_grammar (s : State) {limit : Nat} (hlimit : s.pending * 8 + 1 < limit) :
    Agrees (do
        let (title, s₁) ← quoted? s
        let (items, about) ← body s₁
        return Tree.node (.grammar (title.getD "") (about.getD Content.defaultMeta)) items)
      (Grow.grammar limit) ⟨s, .empty⟩
      fun t _ site => ∃ g : Growth, site.forest.Consists [g] ∧ top g = rootId ∧ g.tree = t := by
  have hempty : Rooted "" Content.defaultMeta .empty [] := ⟨[], rfl, consists_empty⟩
  have htitle : ∀ text, Rooted text Content.defaultMeta (Forest.empty.setTitle text) [] :=
    fun text => ⟨[], rfl, consists_empty.setTitle⟩
  refine (agrees_quoted (R := fun found f => Rooted (found.getD "") Content.defaultMeta f [])
    hempty htitle).bind ?_
  rintro title s₁ - f₁ hx₁ h₁
  have hle := pending_of_quoted? hx₁
  have hlimit₁ : s₁.pending * 8 + 1 < limit := by omega
  have hbody := agrees_body h₁ hlimit₁
  dsimp only
  cases hx : body s₁ with
  | error e =>
    rw [hx] at hbody
    exact hbody
  | ok r =>
    rw [hx] at hbody
    obtain ⟨_, site, hrun, rs, htrees, hrooted⟩ := hbody
    refine ⟨_, site, hrun, _, hrooted, rfl, ?_⟩
    rw [tree_node, htrees]

end Parse

/-- A text that is parsed to a tree grows to a forest that consists of this tree; a text that is
refused is refused with the same complaint. -/
lemma grow_eq (source : String) :
    (∃ e, parse source = .error e ∧ grow source = some (.error e)) ∨
      ∃ t f g, parse source = .ok t ∧ grow source = some (.ok f) ∧ f.Consists [g] ∧
        top g = rootId ∧ g.tree = t := by
  rw [parse, grammar, grow]
  cases State.start (Stream.ofSource source) with
  | error e => exact Or.inl ⟨e, rfl, rfl⟩
  | ok s =>
    have hlimit : s.pending * 8 + 1 < s.pending * 8 + 8 := by omega
    have hgrammar := agrees_grammar s hlimit
    unfold Agrees at hgrammar
    split at hgrammar
    · rename_i t heq
      obtain ⟨_, site, hrun, g, hconsists, htop, htree⟩ := hgrammar
      refine Or.inr ⟨t, site.forest, g, heq, ?_, hconsists, htop, htree⟩
      exact congrArg (Option.map (Except.map (·.2.forest))) hrun
    · rename_i e heq
      exact Or.inl ⟨e, heq, congrArg (Option.map (Except.map (·.2.forest))) hgrammar⟩

lemma reachable_of_grow {source : String} {f : Forest} (h : grow source = some (.ok f)) :
    f.Reachable := by
  rcases grow_eq source with ⟨e, -, hgrow⟩ | ⟨t, f', g, -, hgrow, hconsists, -, -⟩
  · rw [h] at hgrow
    cases hgrow
  · rw [h] at hgrow
    cases hgrow
    exact hconsists.reached

/-- A text that is refused does not grow, for the same reason. -/
lemma grow_of_error {source : String} {e : SyntaxError} (h : parse source = .error e) :
    grow source = some (.error e) := by
  rcases grow_eq source with ⟨e', hparse, hgrow⟩ | ⟨t, f, g, hparse, -⟩
  · cases h.symm.trans hparse
    exact hgrow
  · cases h.symm.trans hparse

/-- A parsed text grows to a forest that holds the parsed tree, and every node of the forest is met
once below the root. -/
lemma exists_forest_perm_of_parse {source : String} {tree : Node} (h : parse source = .ok tree) :
    ∃ f : Forest, grow source = some (.ok f) ∧ f.tree = tree ∧
      ((f.below rootId).preorder.map (·.label)).Perm (List.range f.size) := by
  rcases grow_eq source with ⟨e, hparse, -⟩ | ⟨t, f, g, hparse, hgrow, hconsists, htop, htree⟩
  · cases h.symm.trans hparse
  · cases h.symm.trans hparse
    exact ⟨f, hgrow, (hconsists.tree_eq htop).trans htree, hconsists.perm_below htop⟩

/-- A parsed text grows to a forest that holds the parsed tree and no further nodes. -/
lemma exists_forest_of_parse {source : String} {tree : Node} (h : parse source = .ok tree) :
    ∃ f : Forest, grow source = some (.ok f) ∧ f.tree = tree ∧ f.size = tree.preorder.length := by
  obtain ⟨f, hgrow, htree, hperm⟩ := exists_forest_perm_of_parse h
  refine ⟨f, hgrow, htree, ?_⟩
  have hlength := hperm.length_eq
  rw [List.length_map, List.length_range] at hlength
  rw [← htree, Forest.tree, Forest.treeAt, Tree.preorder_map, List.length_map, hlength]

end GrammarTree
