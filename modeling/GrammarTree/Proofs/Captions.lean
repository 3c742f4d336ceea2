/-
# What captions count

In a drawing, the caption of a choice says a number of alternatives and the caption of a sequence a
number of terms.  These numbers can be found in the text of a grammar without parsing it: brackets
tell what belongs together, bars separate alternatives, and a term is a chain of operands with a
minus between any two of them.  `Joint.sizes` lists them in this way for the rules of a text, each
number at the place where its choice or its sequence begins.

The choices and the sequences of a parsed tree, in reading order, have as many parts as these lists
say (`Joint.sizes_grammar`).  A caption does not count the parts of its node, though, but its
children.  So it says too much wherever there are comments among the parts
(`captions_count_comments`).
-/
import GrammarTree.Proofs.Drawing
import GrammarTree.Proofs.Place
import GrammarTree.Proofs.ReadBack
import GrammarTree.Proofs.Shape

namespace GrammarTree

open Parse Node Drawing

/-! ### Counting in a text -/

namespace Word

/-- Whether a word opens an enclosure. -/
def opens : Word → Bool
  | symbol y => y.isOpening
  | _ => false

/-- Whether a word closes an enclosure. -/
def closes : Word → Bool
  | symbol .closeParen | symbol .closeBracket | symbol .closeBrace => true
  | _ => false

/-- Whether a word stands in front of the expression of a rule. -/
def defines : Word → Bool
  | symbol y => y.isDefinition
  | _ => false

/-- Whether a word ends the expression in front of it. -/
def ends : Word → Bool
  | symbol y => (symbol y).closes || y.isTerminator
  | _ => false

/-- Whether an operand begins with a word. -/
def startsOperand : Word → Bool
  | name _ | quoted _ => true
  | w => w.opens

end Word

/-- The words of the expression that stands here, up to what ends it.  Of an enclosure in it there
is only the opening bracket; `level` is the number of enclosures that are to be closed first. -/
def ownWords : Nat → List Word → List Word
  | _, [] => []
  | 0, w :: ws => if w.ends then [] else w :: ownWords (if w.opens then 1 else 0) ws
  | level + 1, w :: ws =>
    ownWords (if w.closes then level else if w.opens then level + 2 else level + 1) ws

/-- The number of alternatives of the expression that stands here: one more than its bars. -/
def alternativesFrom (ws : List Word) : Nat := (ownWords 0 ws).count (.symbol .pipe) + 1

/-- The number of terms of the alternative that stands here: its operands, except for those behind a
minus. -/
def termsFrom (ws : List Word) : Nat :=
  let own := (ownWords 0 ws).takeWhile (· ≠ .symbol .pipe)
  own.countP Word.startsOperand - own.count (.symbol .minus)

/-- The two kinds of nodes that stand for several parts side by side. -/
inductive Joint where
  | choice
  | sequence

namespace Joint

/-- The kind of the nodes. -/
def kind : Joint → Kind
  | choice => .choice
  | sequence => .sequence

/-- What the parts are called in a caption. -/
def unit : Joint → String
  | choice => " alternatives"
  | sequence => " terms"

/-- Whether the parts begin behind a word. -/
def begins : Joint → Word → Bool
  | choice, w => w.opens || w.defines
  | sequence, w => w.opens || w.defines || w = .symbol .pipe

/-- The number of the parts that begin here. -/
def count : Joint → List Word → Nat
  | choice => alternativesFrom
  | sequence => termsFrom

/-- The numbers of parts, wherever there are several of them. -/
def sizes (j : Joint) : List Word → List Nat
  | [] => []
  | w :: ws =>
    if j.begins w ∧ 1 < j.count ws then j.count ws :: j.sizes ws else j.sizes ws

end Joint

/-! ### Own words of phrases -/

namespace Phrase

/-- The words of a phrase outside its enclosures, each of which leaves its opening bracket. -/
def own : {x : Nonterminal} → Phrase x → List Word
  | _, name t => [.name t]
  | _, quoted t => [.quoted t]
  | _, enclosed b _ _ => [.symbol b.opening]
  | _, factor f => f.own
  | _, except l _ _ r => l.own ++ .symbol .minus :: r.own
  | _, last t _ => t.own
  | _, comma t _ _ r => t.own ++ .symbol .comma :: r.own
  | _, beside t _ r => t.own ++ r.own
  | _, single s => s.own
  | _, choice s _ r => s.own ++ .symbol .pipe :: r.own

end Phrase

@[simp] lemma ownWords_opening (b : Enclosure) (ws : List Word) :
    ownWords 0 (.symbol b.opening :: ws) = .symbol b.opening :: ownWords 1 ws := by
  cases b <;> rfl

@[simp] lemma ownWords_succ_opening (level : Nat) (b : Enclosure) (ws : List Word) :
    ownWords (level + 1) (.symbol b.opening :: ws) = ownWords (level + 2) ws := by
  cases b <;> rfl

@[simp] lemma ownWords_closing (b : Enclosure) (ws : List Word) :
    ownWords 0 (.symbol b.closing :: ws) = [] := by
  cases b <;> rfl

@[simp] lemma ownWords_succ_closing (level : Nat) (b : Enclosure) (ws : List Word) :
    ownWords (level + 1) (.symbol b.closing :: ws) = ownWords level ws := by
  cases b <;> rfl

/-- The symbols between operands neither open nor end anything. -/
lemma ownWords_between {y : Symbol} (hy : y = .minus ∨ y = .comma ∨ y = .pipe) (ws : List Word) :
    ownWords 0 (.symbol y :: ws) = .symbol y :: ownWords 0 ws := by
  rcases hy with rfl | rfl | rfl <;> rfl

lemma ownWords_succ_between {y : Symbol} (hy : y = .minus ∨ y = .comma ∨ y = .pipe) (level : Nat)
    (ws : List Word) : ownWords (level + 1) (.symbol y :: ws) = ownWords (level + 1) ws := by
  rcases hy with rfl | rfl | rfl <;> rfl

/-- What is enclosed is passed over. -/
lemma ownWords_succ_words {x : Nonterminal} (p : Phrase x) (level : Nat) (rest : List Word) :
    ownWords (level + 1) (bare p.words ++ rest) = ownWords (level + 1) rest := by
  induction p generalizing level rest with
  | name t => rfl
  | quoted t => rfl
  | enclosed b ds e ih => simp [Phrase.words, ih]
  | factor f ih => exact ih level rest
  | except l ds es r ihl ihr => simp [Phrase.words, ihl, ihr, ownWords_succ_between]
  | last t ds ih => simp [Phrase.words, ih]
  | comma t ds es r iht ihr => simp [Phrase.words, iht, ihr, ownWords_succ_between]
  | beside t ds r iht ihr => simp [Phrase.words, iht, ihr]
  | single s ih => exact ih level rest
  | choice s ds r ihs ihr => simp [Phrase.words, ihs, ihr, ownWords_succ_between]

/-- The own words of a phrase come first where it stands. -/
lemma ownWords_words {x : Nonterminal} (p : Phrase x) (rest : List Word) :
    ownWords 0 (bare p.words ++ rest) = p.own ++ ownWords 0 rest := by
  induction p generalizing rest with
  | name t => rfl
  | quoted t => rfl
  | enclosed b ds e ih => simp [Phrase.words, Phrase.own, ownWords_succ_words]
  | factor f ih => exact ih rest
  | except l ds es r ihl ihr => simp [Phrase.words, Phrase.own, ihl, ihr, ownWords_between]
  | last t ds ih => simp [Phrase.words, Phrase.own, ih]
  | comma t ds es r iht ihr => simp [Phrase.words, Phrase.own, iht, ihr, ownWords_between]
  | beside t ds r iht ihr => simp [Phrase.words, Phrase.own, iht, ihr]
  | single s ih => exact ih rest
  | choice s ds r ihs ihr => simp [Phrase.words, Phrase.own, ihs, ihr, ownWords_between]

@[simp] lemma startsOperand_symbol (y : Symbol) :
    (Word.symbol y).startsOperand = y.isOpening := rfl

/-- How many operands, minuses and bars a phrase has for itself. -/
def Tallied : {x : Nonterminal} → Phrase x → Prop
  | .factor, f => f.own.countP Word.startsOperand = 1 ∧ f.own.count (.symbol .minus) = 0 ∧
    .symbol .pipe ∉ f.own
  | .term _, t => t.own.countP Word.startsOperand = t.own.count (.symbol .minus) + 1 ∧
    .symbol .pipe ∉ t.own
  | .sequence, q => q.own.countP Word.startsOperand = q.own.count (.symbol .minus) + q.build.1 ∧
    .symbol .pipe ∉ q.own
  | .expression, e =>
    ∀ lead, e.own.count (.symbol .pipe) + 1 = (e.build lead).length

lemma tallied {x : Nonterminal} (p : Phrase x) : Tallied p := by
  induction p with
  | name t => exact ⟨rfl, rfl, by simp [Phrase.own]⟩
  | quoted t => exact ⟨rfl, rfl, by simp [Phrase.own]⟩
  | enclosed b ds e ih => cases b <;> exact ⟨rfl, rfl, by simp [Phrase.own, Enclosure.opening]⟩
  | factor f ih =>
    obtain ⟨hone, hzero, hpipe⟩ := ih
    exact ⟨by rw [Phrase.own, hone, hzero], hpipe⟩
  | except l ds es r ihl ihr =>
    obtain ⟨hl, hlpipe⟩ := ihl
    obtain ⟨hone, hzero, hrpipe⟩ := ihr
    refine ⟨?_, by simp [Phrase.own, hlpipe, hrpipe]⟩
    simp [Phrase.own, hl, hone, hzero, Symbol.isOpening]
  | last t ds ih => exact ih
  | comma t ds es r iht ihr =>
    obtain ⟨ht, htpipe⟩ := iht
    obtain ⟨hr, hrpipe⟩ := ihr
    refine ⟨?_, by simp [Phrase.own, htpipe, hrpipe]⟩
    simp [Phrase.own, ht, hr, Symbol.isOpening, Phrase.build]
    omega
  | beside t ds r iht ihr =>
    obtain ⟨ht, htpipe⟩ := iht
    obtain ⟨hr, hrpipe⟩ := ihr
    refine ⟨?_, by simp [Phrase.own, htpipe, hrpipe]⟩
    simp [Phrase.own, ht, hr, Phrase.build]
    omega
  | single q ih =>
    intro lead
    rw [Phrase.own, List.count_eq_zero.2 ih.2]
    rfl
  | choice q ds r ihq ihr =>
    intro lead
    have hcount := ihr (commentNodes ds)
    rw [Phrase.own, List.count_append, List.count_eq_zero.2 ihq.2, List.count_cons_self,
      Nat.zero_add, hcount]
    rfl

/-- In front of what ends an expression, the alternatives are those of the expression. -/
lemma alternativesFrom_words (e : Phrase .expression) (lead : List Node) {rest : List Word}
    (hrest : ownWords 0 rest = []) :
    alternativesFrom (bare e.words ++ rest) = (e.build lead).length := by
  rw [alternativesFrom, ownWords_words, hrest, List.append_nil]
  exact tallied e lead

/-- In front of what ends an alternative, the terms are those of the alternative. -/
lemma termsFrom_words (q : Phrase .sequence) {rest : List Word}
    (hrest : (ownWords 0 rest).takeWhile (· ≠ .symbol .pipe) = []) :
    termsFrom (bare q.words ++ rest) = q.build.1 := by
  obtain ⟨hterms, hpipe⟩ := tallied q
  have hown : (ownWords 0 (bare q.words ++ rest)).takeWhile (· ≠ .symbol .pipe) = q.own := by
    have hall : ∀ w ∈ q.own, decide (w ≠ .symbol .pipe) = true := by
      intro w hw
      rw [decide_eq_true_iff]
      rintro rfl
      exact hpipe hw
    rw [ownWords_words, List.takeWhile_append_of_pos hall, hrest, List.append_nil]
  rw [termsFrom, hown, hterms, Nat.add_sub_cancel_left]

/-! ### Numbers of parts -/

/-- The numbers of parts of the nodes of a kind, in reading order. -/
def partCounts (k : Kind) (ts : List Node) : List Nat :=
  ((Tree.preorderOf ts).filter (·.label.kind = k)).map fun u => (parts u.children).length

section PartCounts

variable {k : Kind}

@[simp] lemma partCounts_nil (k : Kind) : partCounts k [] = [] := by
  simp [partCounts]

@[simp] lemma partCounts_append (k : Kind) (ts us : List Node) :
    partCounts k (ts ++ us) = partCounts k ts ++ partCounts k us := by
  simp [partCounts, Tree.preorderOf_append]

lemma partCounts_cons (k : Kind) (t : Node) (ts : List Node) :
    partCounts k (t :: ts) = partCounts k [t] ++ partCounts k ts :=
  partCounts_append k [t] ts

lemma partCounts_of_kind_eq {c : Content} (h : c.kind = k) (ts : List Node) :
    partCounts k [.node c ts] = (parts ts).length :: partCounts k ts := by
  have hwalk : Tree.preorderOf [.node c ts] = .node c ts :: Tree.preorderOf ts :=
    Tree.preorder_node c ts
  simp [partCounts, hwalk, h]

lemma partCounts_of_kind_ne {c : Content} (h : c.kind ≠ k) (ts : List Node) :
    partCounts k [.node c ts] = partCounts k ts := by
  have hwalk : Tree.preorderOf [.node c ts] = .node c ts :: Tree.preorderOf ts :=
    Tree.preorder_node c ts
  simp [partCounts, hwalk, h]

end PartCounts

namespace Joint

variable (j : Joint)

/-- The numbers that some terms add where they are put together. -/
def ofTerms : Joint → Nat → List Nat
  | choice, _ => []
  | sequence, n => if 1 < n then [n] else []

/-- The numbers that some alternatives add where they are put together. -/
def ofAlternatives : Joint → Nat → List Nat
  | choice, n => if 1 < n then [n] else []
  | sequence, _ => []

@[simp] lemma partCounts_leaf (c : Content) (h : c.kind ≠ j.kind) :
    partCounts j.kind [Tree.leaf c] = [] := by
  rw [Tree.leaf, partCounts_of_kind_ne h, partCounts_nil]

lemma kind_ne_comment : Kind.comment ≠ j.kind := by
  cases j <;> decide

@[simp] lemma partCounts_commentNodes (ds : List String) :
    partCounts j.kind (commentNodes ds) = [] := by
  induction ds with
  | nil => exact partCounts_nil _
  | cons d ds ih =>
    have hcons : commentNodes (d :: ds) = Tree.leaf (.comment d) :: commentNodes ds := rfl
    rw [hcons, partCounts_cons, ih, partCounts_leaf j (.comment d) (kind_ne_comment j)]
    rfl

lemma partCounts_joinTerms {n : Nat} {items : List Node} (h : AreItems n items) (hn : 1 ≤ n) :
    partCounts j.kind (joinTerms n items) = j.ofTerms n ++ partCounts j.kind items := by
  unfold joinTerms
  cases j with
  | choice =>
    split
    · rfl
    · exact partCounts_of_kind_ne (by decide) items
  | sequence =>
    split
    · rename_i hone
      simp [ofTerms, hone]
    · have hmany : 1 < n := by omega
      have hnode : partCounts sequence.kind [.node .sequence items] =
          (parts items).length :: partCounts sequence.kind items :=
        partCounts_of_kind_eq (c := .sequence) rfl items
      rw [hnode, h.count, ofTerms, if_pos hmany, List.singleton_append]

lemma partCounts_joinAlternatives {alts : List (List Node)} (hne : alts ≠ [])
    (h : ∀ alt ∈ alts, IsAlternative alt) : partCounts j.kind (joinAlternatives alts) =
      j.ofAlternatives alts.length ++ partCounts j.kind alts.flatten := by
  unfold joinAlternatives
  split
  · exact absurd rfl hne
  · cases j <;> simp [ofAlternatives]
  · rename_i hmany
    have htwo : 1 < alts.length := by
      match alts with
      | [] => exact absurd rfl hne
      | [items] => exact absurd rfl (hmany items)
      | _ :: _ :: _ => simp
    cases j with
    | choice =>
      have hnode : partCounts choice.kind [.node .choice alts.flatten] =
          (parts alts.flatten).length :: partCounts choice.kind alts.flatten :=
        partCounts_of_kind_eq (c := .choice) rfl alts.flatten
      rw [hnode, (parts_flatten h).1, ofAlternatives, if_pos htwo, List.singleton_append]
    | sequence => exact partCounts_of_kind_ne (by decide) _

/-! ### The numbers in a text and in its tree -/

variable {j}

/-- Nothing begins behind most words. -/
lemma sizes_cons {w : Word} (h : j.begins w = false) (ws : List Word) :
    j.sizes (w :: ws) = j.sizes ws := by
  simp [sizes, h]

/-- An expression begins behind an opening bracket and behind a definition symbol. -/
lemma sizes_cons_of_begins {w : Word} (h : w.opens = true ∨ w.defines = true) (ws : List Word) :
    j.sizes (w :: ws) = j.ofAlternatives (alternativesFrom ws) ++ j.ofTerms (termsFrom ws) ++
      j.sizes ws := by
  have hbegins : j.begins w = true := by
    cases j <;> rcases h with h | h <;> simp [begins, h]
  rw [sizes, hbegins]
  cases j <;> simp only [count, ofAlternatives, ofTerms, true_and] <;> split <;> simp

/-- Behind a bar another alternative begins. -/
lemma sizes_pipe (ws : List Word) :
    j.sizes (.symbol .pipe :: ws) = j.ofTerms (termsFrom ws) ++ j.sizes ws := by
  cases j with
  | choice => rfl
  | sequence =>
    have hbegins : sequence.begins (.symbol .pipe) = true := rfl
    simp only [sizes, hbegins, count, ofTerms, true_and]
    split <;> simp

/-- What is built from a phrase has the numbers of parts that are found where the phrase stands.
The number of alternatives of an expression is counted in front of it, and so is the number of terms
of an alternative. -/
def Counted (j : Joint) : {x : Nonterminal} → Phrase x → Prop
  | .factor, f => ∀ rest,
    j.sizes (bare f.words ++ rest) = partCounts j.kind [f.build] ++ j.sizes rest
  | .term _, t => ∀ rest,
    j.sizes (bare t.words ++ rest) = partCounts j.kind [t.build] ++ j.sizes rest
  | .sequence, q => ∀ rest,
    j.sizes (bare q.words ++ rest) = partCounts j.kind q.build.2 ++ j.sizes rest
  | .expression, e => ∀ ds rest, ownWords 0 rest = [] →
    j.ofTerms (termsFrom (bare e.words ++ rest)) ++ j.sizes (bare e.words ++ rest) =
      partCounts j.kind (e.build (commentNodes ds)).flatten ++ j.sizes rest

/-- An expression with the word in front of it. -/
lemma Counted.expression {e : Phrase .expression} (h : Counted j e) {w : Word}
    (hw : w.opens = true ∨ w.defines = true) (ds : List String) {rest : List Word}
    (hrest : ownWords 0 rest = []) : j.sizes (w :: (bare e.words ++ rest)) =
      partCounts j.kind (joinAlternatives (e.build (commentNodes ds))) ++ j.sizes rest := by
  obtain ⟨hne, hall⟩ := (shaped e : Shaped e) ds
  rw [sizes_cons_of_begins hw, List.append_assoc, h ds rest hrest,
    alternativesFrom_words e (commentNodes ds) hrest, partCounts_joinAlternatives j hne hall,
    List.append_assoc]

lemma counted_enclosed (b : Enclosure) (ds : List String) {e : Phrase .expression}
    (ih : Counted j e) : Counted j (.enclosed b ds e) := by
  intro rest
  have hopen : (Word.symbol b.opening).opens = true := b.isOpening_opening
  have hclose : j.begins (.symbol b.closing) = false := by cases j <;> cases b <;> rfl
  have hkind : b.content.kind ≠ j.kind := by cases j <;> cases b <;> decide
  have hwords : bare (Phrase.enclosed b ds e).words ++ rest =
      .symbol b.opening :: (bare e.words ++ .symbol b.closing :: rest) := by simp [Phrase.words]
  rw [hwords, Counted.expression ih (Or.inl hopen) ds (ownWords_closing b rest), sizes_cons hclose,
    Phrase.build, partCounts_of_kind_ne hkind]

lemma counted_except {i : Nat} {l : Phrase (.term i)} {r : Phrase .factor} (ihl : Counted j l)
    (ihr : Counted j r) (ds es : List String) : Counted j (.except l ds es r) := by
  intro rest
  have hminus : j.begins (.symbol .minus) = false := by cases j <;> rfl
  have hkind : Content.exception.kind ≠ j.kind := by cases j <;> decide
  have hwords : bare (Phrase.except l ds es r).words ++ rest =
      bare l.words ++ .symbol .minus :: (bare r.words ++ rest) := by simp [Phrase.words]
  rw [hwords, ihl, sizes_cons hminus, ihr, Phrase.build, partCounts_of_kind_ne hkind,
    List.cons_append, partCounts_cons j.kind l.build (_ ++ _), partCounts_append,
    partCounts_commentNodes, List.nil_append, List.append_assoc]

/-- An alternative with the number of its terms. -/
lemma Counted.alternative {q : Phrase .sequence} (h : Counted j q) (ds : List String)
    {rest : List Word} (hrest : (ownWords 0 rest).takeWhile (· ≠ .symbol .pipe) = []) :
    j.ofTerms (termsFrom (bare q.words ++ rest)) ++ j.sizes (bare q.words ++ rest) =
      partCounts j.kind (joinTerms q.build.1 (commentNodes ds ++ q.build.2)) ++ j.sizes rest := by
  obtain ⟨hitems, hone⟩ : Shaped q := shaped q
  rw [termsFrom_words q hrest, h rest, partCounts_joinTerms j (hitems.comments ds) hone,
    partCounts_append, partCounts_commentNodes, List.nil_append, List.append_assoc]

/-- A term in front of more terms, with comments between them. -/
lemma counted_cons {i : Nat} {t : Phrase (.term i)} {q : Phrase .sequence} (iht : Counted j t)
    (ihq : Counted j q) (ds : List String) (rest : List Word) :
    j.sizes (bare t.words ++ (bare q.words ++ rest)) =
      partCounts j.kind (t.build :: (commentNodes ds ++ q.build.2)) ++ j.sizes rest := by
  rw [iht, ihq, partCounts_cons j.kind t.build (_ ++ _), partCounts_append,
    partCounts_commentNodes, List.nil_append, List.append_assoc]

/-- A leaf is not counted. -/
lemma counted_leaf {w : Word} {c : Content} (hw : j.begins w = false) (hc : c.kind ≠ j.kind)
    (rest : List Word) : j.sizes (w :: rest) = partCounts j.kind [Tree.leaf c] ++ j.sizes rest := by
  rw [sizes_cons hw, partCounts_leaf j c hc, List.nil_append]

/-- Every phrase is counted. -/
lemma counted {x : Nonterminal} (p : Phrase x) : Counted j p := by
  induction p with
  | name t =>
    exact counted_leaf (w := .name t) (c := .identifier t) (by cases j <;> rfl)
      (by cases j <;> exact nofun)
  | quoted t =>
    exact counted_leaf (w := .quoted t) (c := .terminal t) (by cases j <;> rfl)
      (by cases j <;> exact nofun)
  | enclosed b ds e ih => exact counted_enclosed b ds ih
  | factor f ih => exact ih
  | except l ds es r ihl ihr => exact counted_except ihl ihr ds es
  | last t ds ih =>
    intro rest
    have hwords : bare (Phrase.last t ds).words = bare t.words := by simp [Phrase.words]
    rw [hwords, ih, Phrase.build, partCounts_cons j.kind t.build (commentNodes ds),
      partCounts_commentNodes, List.append_nil]
  | comma t ds es r iht ihr =>
    intro rest
    have hcomma : j.begins (.symbol .comma) = false := by cases j <;> rfl
    have hwords : bare (Phrase.comma t ds es r).words ++ rest =
        bare t.words ++ .symbol .comma :: (bare r.words ++ rest) := by simp [Phrase.words]
    rw [hwords, iht, sizes_cons hcomma, ← iht]
    exact counted_cons iht ihr (ds ++ es) rest
  | beside t ds r iht ihr =>
    intro rest
    have hwords : bare (Phrase.beside t ds r).words ++ rest =
        bare t.words ++ (bare r.words ++ rest) := by simp [Phrase.words]
    rw [hwords]
    exact counted_cons iht ihr ds rest
  | single q ih =>
    intro ds rest hrest
    have hend : (ownWords 0 rest).takeWhile (· ≠ .symbol .pipe) = [] := by
      rw [hrest, List.takeWhile_nil]
    have hflat : (Phrase.build (.single q) (commentNodes ds)).flatten =
        joinTerms q.build.1 (commentNodes ds ++ q.build.2) := List.append_nil _
    rw [hflat]
    exact Counted.alternative ih ds hend
  | choice q ds r ihq ihr =>
    intro ds' rest hrest
    -- the terms of the first alternative end at the bar, and those of the second begin there
    have hend : (ownWords 0 (.symbol .pipe :: (bare r.words ++ rest))).takeWhile
        (· ≠ .symbol .pipe) = [] := by
      rw [ownWords_between (Or.inr (Or.inr rfl)), List.takeWhile_cons_of_neg (by decide)]
    have hwords : bare (Phrase.choice q ds r).words ++ rest =
        bare q.words ++ .symbol .pipe :: (bare r.words ++ rest) := by simp [Phrase.words]
    have hflat : (Phrase.build (.choice q ds r) (commentNodes ds')).flatten =
        joinTerms q.build.1 (commentNodes ds' ++ q.build.2) ++
          (r.build (commentNodes ds)).flatten := List.flatten_cons
    rw [hwords, hflat, Counted.alternative ihq ds' hend, sizes_pipe, ihr ds rest hrest,
      partCounts_append, List.append_assoc]

/-! ### Rules and grammars -/

lemma sizes_rule (r : RulePhrase) (rest : List Word) :
    j.sizes (bare r.words ++ rest) = partCounts j.kind r.nodes ++ j.sizes rest := by
  have hname : j.begins (.name r.name) = false := by cases j <;> rfl
  have hend : j.begins (.symbol r.terminator) = false ∧
      ownWords 0 (.symbol r.terminator :: rest) = [] := by
    have hterminator := r.isTerminator
    cases hy : r.terminator with
    | semicolon | period => cases j <;> exact ⟨rfl, rfl⟩
    | _ =>
      rw [hy] at hterminator
      cases hterminator
  have hdefines : (Word.symbol r.definition).defines = true := r.isDefinition
  have hrule : (Content.rule r.name).kind ≠ j.kind := by cases j <;> exact nofun
  have hidentifier : (Content.identifier r.name).kind ≠ j.kind := by cases j <;> exact nofun
  have hwords : bare r.words ++ rest = .name r.name :: .symbol r.definition ::
      (bare r.body.words ++ .symbol r.terminator :: rest) := by
    simp [RulePhrase.words, bare_cons (w := .name r.name) (by simp)]
  rw [hwords, sizes_cons hname, (counted r.body).expression (Or.inr hdefines) [] hend.2,
    sizes_cons hend.1, RulePhrase.nodes, RulePhrase.node, partCounts_append,
    partCounts_commentNodes, partCounts_of_kind_ne hrule, List.cons_append,
    partCounts_cons j.kind (Tree.leaf _) (_ ++ _), partCounts_leaf j _ hidentifier,
    partCounts_append, partCounts_commentNodes]
  rfl

lemma sizes_rules (rs : List RulePhrase) :
    j.sizes (bare (rs.flatMap (·.words))) = partCounts j.kind (rs.flatMap (·.nodes)) := by
  induction rs with
  | nil => rw [List.flatMap_nil, List.flatMap_nil, partCounts_nil, bare_nil, sizes]
  | cons r rs ih =>
    rw [List.flatMap_cons, List.flatMap_cons, bare_append, sizes_rule, ih, partCounts_append]

/-- The numbers of parts in the tree of a grammar are those found in its rules. -/
lemma sizes_grammar (g : GrammarPhrase) :
    j.sizes (bare (g.rules.flatMap (·.words))) = partCounts j.kind [g.node] := by
  have hkind : (Content.grammar g.titleText g.aboutText).kind ≠ j.kind := by
    cases j <;> exact nofun
  have hbody : partCounts j.kind g.bodyNodes = partCounts j.kind (g.rules.flatMap (·.nodes)) := by
    unfold GrammarPhrase.bodyNodes
    cases g.frame with
    | none => rfl
    | some f => simp
  rw [sizes_rules, GrammarPhrase.node, partCounts_of_kind_ne hkind, partCounts_append,
    partCounts_append, partCounts_commentNodes, partCounts_commentNodes, hbody, List.nil_append,
    List.append_nil]

end Joint

/-! ### Captions -/

/-- The nodes that are comments. -/
def remarks (ts : List Node) : List Node := ts.filter (·.label.kind = .comment)

lemma length_parts_add_length_remarks (ts : List Node) :
    (parts ts).length + (remarks ts).length = ts.length := by
  have hlength := List.length_eq_length_filter_add (l := ts) (·.label.kind ≠ .comment)
  simpa [parts, remarks] using hlength.symm

/-- A caption that is not cut says the number of children. -/
lemma shown_of_kind {j : Joint} {width : Nat} {u : Node} (hkind : u.label.kind = j.kind)
    (hwidth : (caption u.label u.children.length).length ≤ width) :
    shown width u = toString u.children.length ++ j.unit := by
  have hcaption : caption u.label u.children.length =
      (toString u.children.length ++ j.unit).toList := by
    cases hlabel : u.label with
    | choice =>
      rw [hlabel] at hkind
      cases j with
      | choice => rfl
      | sequence => cases hkind
    | sequence =>
      rw [hlabel] at hkind
      cases j with
      | choice => cases hkind
      | sequence => rfl
    | _ =>
      rw [hlabel] at hkind
      cases j <;> cases hkind
  rw [shown, cut, if_neg (Nat.not_lt.2 hwidth), hcaption, String.ofList_toList]

/-! ### The theorem -/

/-- The choices and the sequences in the tree of a text, in reading order, have as many parts as
there are alternatives and terms in the text.  The line of such a node says this number together
with the number of comments among its parts, unless it is cut.  So it says the number of parts
exactly if there are no comments among them. -/
theorem captions_count_comments {source : String} {tree : Node} (h : parse source = .ok tree)
    (j : Joint) :
    ∃ tokens, tokenize source = .ok tokens ∧
      ((tree.preorder.filter (·.label.kind = j.kind)).map fun u => (parts u.children).length) =
        j.sizes (Layout.ofTokens tokens).rules ∧
      (∀ width, render tree width = String.join ((tree.ways.zip tree.preorder).map fun (way, u) =>
        guide tree way ++ icon u.label.kind ++ " " ++ shown width u ++ "\n")) ∧
      ∀ u ∈ tree.preorder, u.label.kind = j.kind →
        ∀ width, (caption u.label u.children.length).length ≤ width →
          shown width u =
            toString ((parts u.children).length + (remarks u.children).length) ++ j.unit ∧
          (shown width u = toString (parts u.children).length ++ j.unit ↔
            ∀ t ∈ u.children, t.label.kind ≠ .comment) := by
  obtain ⟨g, -, rfl, hfault, hwords⟩ := exists_phrase_of_grammar h
  refine ⟨_, tokenize_eq_ok_iff.2 ⟨hfault, rfl⟩, ?_, ?_, ?_⟩
  · rw [Layout.ofTokens, map_word_significant, hwords, layout_of_grammar, Joint.sizes_grammar]
    rfl
  · intro width
    rw [render_eq, List.map_map]
    rfl
  · intro u _ hkind width hwidth
    have hlength := length_parts_add_length_remarks u.children
    rw [shown_of_kind hkind hwidth, ← hlength]
    refine ⟨rfl, ?_⟩
    rw [String.append_left_inj, toString_injective.eq_iff, Nat.add_eq_left, List.length_eq_zero_iff,
      remarks, List.filter_eq_nil_iff]
    simp

/-- The comment stands between two terms, and so the number of alternatives is right. -/
theorem captions_count_comments_of_two_terms :
    ∃ tree u tokens, parse "a = b | c (*d*) e;" = .ok tree ∧ u ∈ tree.preorder ∧
      u.label = .choice ∧ tokenize "a = b | c (*d*) e;" = .ok tokens ∧
      Joint.choice.sizes (Layout.ofTokens tokens).rules = [2] ∧
      shown 30 u = "2 alternatives" := by
  have hparse : parse "a = b | c (*d*) e;" = .ok
      (.node (.grammar "" Content.defaultMeta) [.node (.rule "a") [.leaf (.identifier "a"),
        .node .choice [.leaf (.identifier "b"), .node .sequence
          [.leaf (.identifier "c"), .leaf (.comment "d"), .leaf (.identifier "e")]]]]) := by
    decide +kernel
  obtain ⟨tokens, htokens, hsizes, -, hshown⟩ := captions_count_comments hparse .choice
  refine ⟨_, .node .choice [.leaf (.identifier "b"), .node .sequence
    [.leaf (.identifier "c"), .leaf (.comment "d"), .leaf (.identifier "e")]], tokens, hparse,
    by decide +kernel, rfl, htokens, ?_, ?_⟩
  · rw [← hsizes]
    decide +kernel
  · exact ((hshown _ (by decide +kernel) rfl 30 (by decide +kernel)).2).2 (by decide +kernel)

/-- A comment behind a bar is among the parts of the choice, and a comment between two terms is
among the parts of the sequence.  Each is counted as a part. -/
theorem caption_of_commented_choice :
    (tokenize "a = b (*c*) d | (*e*) f;").map (fun tokens =>
        (Joint.choice.sizes (Layout.ofTokens tokens).rules,
          Joint.sequence.sizes (Layout.ofTokens tokens).rules)) = .ok ([2], [2]) ∧
      (parse "a = b (*c*) d | (*e*) f;").map (render · 30) = .ok
        ("⧉ Grammar\n└─ ≔ a\n  ├─ ◦ a\n  └─ | 3 alternatives\n" ++
          "    ├─ ⋯ 3 terms\n    │ ├─ ◦ b\n    │ ├─ ※ c\n    │ └─ ◦ d\n" ++
          "    ├─ ※ e\n    └─ ◦ f\n") := by
  constructor <;> decide +kernel

end GrammarTree
