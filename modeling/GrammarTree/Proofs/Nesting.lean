/-
# How deep parsed trees are nested

A *way* leads down from a node by child indexes.  The constructs that the parser counts are the
groups, options, repetitions and exceptions; at most `maxNesting` of them are open at a time.  A way
meets more of them than that only where it *overhangs*: where it leaves an exception by the first
part and meets an enclosure in there (`constructs_le_of_parse`).  The first part was read, and its
enclosures were closed, before the exception was counted, so the exception is put on top of
constructs that are no longer counted.

The parser counts `i` exceptions as open when it reads the `i`-th factor of a chain.  So a chain
with an enclosure as its first factor can be as long as the parser has room for, and there can be
another such chain in each enclosure, with room for one exception less.  This gives the limit for the
number of overhangs, `overhangLimit`, and there is a text that reaches it (`exists_constructs_eq`).
-/
import Mathlib.Tactic.Ring
import GrammarTree.Proofs.Acceptance
import GrammarTree.Proofs.Shape

namespace GrammarTree

open Parse

/-! ### Ways down a tree -/

namespace Tree

variable {α : Type}

/-- The labels on a way down from the topmost node, as far as there are nodes on it. -/
def along : Tree α → List Nat → List α
  | t, [] => [t.label]
  | t, i :: way =>
    match t.children[i]? with
    | some child => t.label :: along child way
    | none => [t.label]

end Tree

namespace Content

/-- A group, an option or a repetition. -/
def isEnclosure : Content → Bool
  | group | optional | repetition => true
  | _ => false

/-- A group, an option, a repetition or an exception. -/
def isConstruct : Content → Bool
  | group | optional | repetition | exception => true
  | _ => false

end Content

/-- The number of groups, options, repetitions and exceptions on a way. -/
def constructs (t : Node) (way : List Nat) : Nat := (t.along way).countP (·.isConstruct)

/-- Whether there is a group, an option or a repetition on a way. -/
def meetsEnclosure (t : Node) (way : List Nat) : Bool := (t.along way).any (·.isEnclosure)

/-- The number of exceptions that a way leaves by their first part and in which it then meets an
enclosure. -/
def overhangs : Node → List Nat → Nat
  | _, [] => 0
  | t, i :: way =>
    match t.children[i]? with
    | some child =>
      overhangs child way +
        if t.label = .exception ∧ i = 0 ∧ meetsEnclosure child way = true then 1 else 0
    | none => 0

variable {c : Content} {t : Node} {ts us : List Node}

section

variable {i : Nat} (hi : ts[i]? = some t) (way : List Nat)
include hi

lemma constructs_cons :
    constructs (.node c ts) (i :: way) = constructs t way + if c.isConstruct then 1 else 0 := by
  simp [constructs, Tree.along, hi, List.countP_cons]

lemma meetsEnclosure_cons :
    meetsEnclosure (.node c ts) (i :: way) = (c.isEnclosure || meetsEnclosure t way) := by
  simp [meetsEnclosure, Tree.along, hi]

lemma overhangs_cons :
    overhangs (.node c ts) (i :: way) = overhangs t way +
      if c = .exception ∧ i = 0 ∧ meetsEnclosure t way = true then 1 else 0 := by
  simp only [overhangs, Tree.children_node, hi]
  rfl

end

/-- A way ends at a node, or it goes on in one of the trees below it. -/
lemma way_cases (c : Content) (ts : List Node) (way : List Nat) :
    (constructs (.node c ts) way = (if c.isConstruct then 1 else 0) ∧
        meetsEnclosure (.node c ts) way = c.isEnclosure ∧ overhangs (.node c ts) way = 0) ∨
      ∃ i t rest, ts[i]? = some t ∧
        constructs (.node c ts) way = constructs t rest + (if c.isConstruct then 1 else 0) ∧
        meetsEnclosure (.node c ts) way = (c.isEnclosure || meetsEnclosure t rest) ∧
        overhangs (.node c ts) way = overhangs t rest +
          if c = .exception ∧ i = 0 ∧ meetsEnclosure t rest = true then 1 else 0 := by
  cases way with
  | nil =>
    refine Or.inl ⟨?_, ?_, rfl⟩
    · simp [constructs, Tree.along, List.countP_cons]
    · simp [meetsEnclosure, Tree.along]
  | cons i rest =>
    cases hi : ts[i]? with
    | none =>
      refine Or.inl ⟨?_, ?_, ?_⟩
      · simp [constructs, Tree.along, hi, List.countP_cons]
      · simp [meetsEnclosure, Tree.along, hi]
      · simp [overhangs, hi]
    | some t =>
      exact Or.inr ⟨i, t, rest, hi, constructs_cons hi rest, meetsEnclosure_cons hi rest,
        overhangs_cons hi rest⟩

/-- The greatest number of overhangs where so many constructs may be open. -/
def overhangLimit (room : Nat) : Nat := room * (room + 1) / 2

/-- A construct more that may be open is one more for the longest chain. -/
lemma overhangLimit_succ (room : Nat) :
    overhangLimit (room + 1) = room + 1 + overhangLimit room := by
  have hprod : (room + 1) * (room + 1 + 1) = room * (room + 1) + 2 * (room + 1) := by ring
  rw [overhangLimit, overhangLimit, hprod, Nat.add_mul_div_left _ _ (by omega), Nat.add_comm]

/-- What the ways below a node meet if so many constructs may be open around it. -/
structure Bounded (room : Nat) (t : Node) : Prop where
  constructs_le : ∀ way, constructs t way ≤ room + overhangs t way
  overhangs_le : ∀ way, overhangs t way ≤ overhangLimit room

/-- What the ways below a term with `n` exceptions meet. -/
structure BoundedTerm (n room : Nat) (t : Node) : Prop where
  fits : n ≤ room
  /-- Without an enclosure there are no constructs but those of the chain. -/
  chain_le : ∀ way, meetsEnclosure t way = false → constructs t way ≤ n
  constructs_le : ∀ way, constructs t way ≤ room + overhangs t way
  overhangs_le : ∀ way, overhangs t way ≤ n + overhangLimit (room - 1)

variable {n room : Nat}

lemma BoundedTerm.bounded (h : BoundedTerm n room t) : Bounded room t := by
  refine ⟨h.constructs_le, fun way => ?_⟩
  have hn := h.fits
  have hoverhangs := h.overhangs_le way
  cases room with
  | zero =>
    rw [Nat.le_zero.1 hn] at hoverhangs
    simpa [overhangLimit] using hoverhangs
  | succ room =>
    rw [overhangLimit_succ]
    rw [Nat.add_sub_cancel] at hoverhangs
    omega

/-! ### Nodes -/

/-- A leaf that is no construct. -/
lemma boundedTerm_leaf (hc : c.isConstruct = false) (room : Nat) :
    BoundedTerm 0 room (Tree.leaf c) := by
  have hway : ∀ way, constructs (Tree.leaf c) way = 0 ∧ overhangs (Tree.leaf c) way = 0 := by
    intro way
    rcases way_cases c [] way with ⟨hcount, -, hover⟩ | ⟨i, child, rest, hi, -⟩
    · rw [hc] at hcount
      exact ⟨hcount, hover⟩
    · cases hi
  refine ⟨Nat.zero_le room, fun way _ => ?_, fun way => ?_, fun way => ?_⟩
  · exact Nat.le_of_eq (hway way).1
  · rw [(hway way).1]
    exact Nat.zero_le _
  · rw [(hway way).2]
    exact Nat.zero_le _

/-- A node that is no construct does not count. -/
lemma bounded_node (hc : c.isConstruct = false) (h : ∀ t ∈ ts, Bounded room t) :
    Bounded room (.node c ts) := by
  have hexception : c ≠ .exception := by
    rintro rfl
    cases hc
  have hway : ∀ way, (constructs (.node c ts) way = 0 ∧ overhangs (.node c ts) way = 0) ∨
      ∃ t ∈ ts, ∃ rest, constructs (.node c ts) way = constructs t rest ∧
        overhangs (.node c ts) way = overhangs t rest := by
    intro way
    rcases way_cases c ts way with ⟨hcount, -, hover⟩ | ⟨i, t, rest, hi, hcount, -, hover⟩
    · exact Or.inl ⟨by simpa [hc] using hcount, hover⟩
    · refine Or.inr ⟨t, List.mem_of_getElem? hi, rest, ?_, ?_⟩
      · simpa [hc] using hcount
      · simpa [hexception] using hover
  constructor
  · intro way
    rcases hway way with ⟨hcount, -⟩ | ⟨t, ht, rest, hcount, hover⟩
    · omega
    · rw [hcount, hover]
      exact (h t ht).constructs_le rest
  · intro way
    rcases hway way with ⟨-, hover⟩ | ⟨t, ht, rest, -, hover⟩
    · omega
    · rw [hover]
      exact (h t ht).overhangs_le rest

/-- An enclosure takes the room of one construct. -/
lemma boundedTerm_enclosure (b : Enclosure) (h : ∀ t ∈ ts, Bounded room t) :
    BoundedTerm 0 (room + 1) (.node b.content ts) := by
  have hc : b.content.isEnclosure = true ∧ b.content.isConstruct = true ∧
      b.content ≠ .exception := by
    cases b <;> decide
  have hway : ∀ way, meetsEnclosure (.node b.content ts) way = true ∧
      ((constructs (.node b.content ts) way = 1 ∧ overhangs (.node b.content ts) way = 0) ∨
        ∃ t ∈ ts, ∃ rest, constructs (.node b.content ts) way = constructs t rest + 1 ∧
          overhangs (.node b.content ts) way = overhangs t rest) := by
    intro way
    rcases way_cases b.content ts way with
      ⟨hcount, hmeets, hover⟩ | ⟨i, t, rest, hi, hcount, hmeets, hover⟩
    · exact ⟨by simpa [hc.1] using hmeets, Or.inl ⟨by simpa [hc.2.1] using hcount, hover⟩⟩
    · refine ⟨by simpa [hc.1] using hmeets, Or.inr ⟨t, List.mem_of_getElem? hi, rest, ?_, ?_⟩⟩
      · simpa [hc.2.1] using hcount
      · simpa [hc.2.2] using hover
  refine ⟨Nat.zero_le _, fun way hbare => ?_, fun way => ?_, fun way => ?_⟩
  · rw [(hway way).1] at hbare
    cases hbare
  · rcases (hway way).2 with ⟨hcount, -⟩ | ⟨t, ht, rest, hcount, hover⟩
    · omega
    · have hle := (h t ht).constructs_le rest
      omega
  · rcases (hway way).2 with ⟨-, hover⟩ | ⟨t, ht, rest, -, hover⟩
    · omega
    · have hle := (h t ht).overhangs_le rest
      rw [hover, Nat.add_sub_cancel]
      omega

lemma overhangLimit_mono {m n : Nat} (h : m ≤ n) : overhangLimit m ≤ overhangLimit n := by
  induction h with
  | refl => exact Nat.le_refl _
  | step _ ih =>
    rw [overhangLimit_succ]
    omega

/-- An exception more in a chain: the part in front of it has all the room that the chain has, the
part behind it only what the exceptions so far leave. -/
lemma boundedTerm_exception (ht : BoundedTerm n room t) (hn : n + 1 ≤ room)
    (hus : ∀ u ∈ us, BoundedTerm 0 (room - (n + 1)) u) :
    BoundedTerm (n + 1) room (.node .exception (t :: us)) := by
  have hway : ∀ way,
      (constructs (.node .exception (t :: us)) way = 1 ∧
        overhangs (.node .exception (t :: us)) way = 0) ∨
      (∃ rest, constructs (.node .exception (t :: us)) way = constructs t rest + 1 ∧
        meetsEnclosure (.node .exception (t :: us)) way = meetsEnclosure t rest ∧
        overhangs (.node .exception (t :: us)) way =
          overhangs t rest + if meetsEnclosure t rest = true then 1 else 0) ∨
      ∃ u ∈ us, ∃ rest, constructs (.node .exception (t :: us)) way = constructs u rest + 1 ∧
        meetsEnclosure (.node .exception (t :: us)) way = meetsEnclosure u rest ∧
        overhangs (.node .exception (t :: us)) way = overhangs u rest := by
    intro way
    rcases way_cases .exception (t :: us) way with
      ⟨hcount, -, hover⟩ | ⟨i, u, rest, hi, hcount, hmeets, hover⟩
    · exact Or.inl ⟨hcount, hover⟩
    · cases i with
      | zero =>
        obtain rfl : t = u := by simpa using hi
        exact Or.inr (Or.inl ⟨rest, hcount, hmeets, by simpa using hover⟩)
      | succ i =>
        have hu : u ∈ us := List.mem_of_getElem? (by simpa using hi)
        exact Or.inr (Or.inr ⟨u, hu, rest, hcount, hmeets, by simpa using hover⟩)
  refine ⟨hn, fun way hbare => ?_, fun way => ?_, fun way => ?_⟩
  · rcases hway way with ⟨hcount, -⟩ | ⟨rest, hcount, hmeets, -⟩ | ⟨u, hu, rest, hcount, hmeets, -⟩
    · omega
    · have hle := ht.chain_le rest (hmeets ▸ hbare)
      omega
    · have hle := (hus u hu).chain_le rest (hmeets ▸ hbare)
      omega
  · rcases hway way with ⟨hcount, -⟩ | ⟨rest, hcount, -, hover⟩ | ⟨u, hu, rest, hcount, -, hover⟩
    · omega
    · -- the exception overhangs, unless there are only those of the chain
      cases hmeets : meetsEnclosure t rest with
      | false =>
        have hle := ht.chain_le rest hmeets
        omega
      | true =>
        have hle := ht.constructs_le rest
        rw [hmeets, if_pos rfl] at hover
        omega
    · have hle := (hus u hu).constructs_le rest
      omega
  · rcases hway way with ⟨-, hover⟩ | ⟨rest, -, -, hover⟩ | ⟨u, hu, rest, -, -, hover⟩
    · omega
    · have hle := ht.overhangs_le rest
      split at hover <;> omega
    · have hle := (hus u hu).overhangs_le rest
      have hmono : overhangLimit (room - (n + 1) - 1) ≤ overhangLimit (room - 1) :=
        overhangLimit_mono (by omega)
      omega

/-! ### Phrases -/

lemma bounded_commentNodes {ds : List String} (ht : t ∈ commentNodes ds) (room : Nat) :
    BoundedTerm 0 room t := by
  obtain ⟨d, -, rfl⟩ := List.mem_map.1 ht
  exact boundedTerm_leaf rfl room

lemma bounded_joinTerms {items : List Node} (h : ∀ t ∈ items, Bounded room t) (n : Nat) :
    ∀ t ∈ joinTerms n items, Bounded room t := by
  unfold joinTerms
  split
  · exact h
  · intro t ht
    cases List.mem_singleton.1 ht
    exact bounded_node rfl h

lemma bounded_joinAlternatives {alts : List (List Node)}
    (h : ∀ alt ∈ alts, ∀ t ∈ alt, Bounded room t) :
    ∀ t ∈ joinAlternatives alts, Bounded room t := by
  unfold joinAlternatives
  split
  · simp
  · rename_i items
    exact h items (by simp)
  · intro t ht
    cases List.mem_singleton.1 ht
    refine bounded_node rfl fun u hu => ?_
    obtain ⟨alt, halt, hu⟩ := List.mem_flatten.1 hu
    exact h alt halt u hu

/-- What is built from a phrase is bounded by any room in which the phrase can be read. -/
def Limited : {x : Nonterminal} → Phrase x → Prop
  | .factor, f => ∀ room, f.need ≤ room → BoundedTerm 0 room f.build
  | .term n, t => ∀ room, t.need ≤ room → BoundedTerm n room t.build
  | .sequence, q => ∀ room, q.need ≤ room → ∀ t ∈ q.build.2, Bounded room t
  | .expression, e => ∀ room, e.need ≤ room → ∀ ds, ∀ alt ∈ e.build (commentNodes ds),
    ∀ t ∈ alt, Bounded room t

lemma Limited.alternative {q : Phrase .sequence} (h : Limited q) (hroom : q.need ≤ room)
    (ds : List String) :
    ∀ t ∈ joinTerms q.build.1 (commentNodes ds ++ q.build.2), Bounded room t := by
  refine bounded_joinTerms (fun t ht => ?_) _
  rcases List.mem_append.1 ht with ht | ht
  · exact (bounded_commentNodes ht room).bounded
  · exact h room hroom t ht

/-- A term in front of more terms, with comments between them. -/
lemma limited_cons {i : Nat} {p : Phrase (.term i)} {q : Phrase .sequence} (hp : Limited p)
    (hq : Limited q) (ds : List String) (hroom : max p.need q.need ≤ room) :
    ∀ t ∈ p.build :: (commentNodes ds ++ q.build.2), Bounded room t := by
  obtain ⟨hp', hq'⟩ := Nat.max_le.1 hroom
  refine List.forall_mem_cons.2 ⟨(hp room hp').bounded, fun t ht => ?_⟩
  rcases List.mem_append.1 ht with ht | ht
  · exact (bounded_commentNodes ht room).bounded
  · exact hq room hq' t ht

lemma limited {x : Nonterminal} (p : Phrase x) : Limited p := by
  induction p with
  | name t => exact fun room _ => boundedTerm_leaf rfl room
  | quoted t => exact fun room _ => boundedTerm_leaf rfl room
  | enclosed b ds e ih =>
    intro room hroom
    have hneed : 1 + e.need ≤ room := hroom
    obtain ⟨room, rfl⟩ := Nat.exists_eq_add_of_le' (Nat.le_of_add_right_le hneed)
    have hbody := bounded_joinAlternatives (ih room (by omega) ds)
    exact boundedTerm_enclosure b hbody
  | factor f ih => exact ih
  | @except i l ds es r ihl ihr =>
    intro room hroom
    obtain ⟨hl, hr⟩ := Nat.max_le.1 hroom
    refine boundedTerm_exception (ihl room hl) (by omega) fun u hu => ?_
    rcases List.mem_append.1 hu with hu | hu
    · exact bounded_commentNodes hu _
    · cases List.mem_singleton.1 hu
      exact ihr _ (by omega)
  | last t ds ih =>
    intro room hroom
    refine List.forall_mem_cons.2 ⟨(ih room hroom).bounded, fun t ht => ?_⟩
    exact (bounded_commentNodes ht room).bounded
  | comma t ds es r iht ihr => exact fun room hroom => limited_cons iht ihr (ds ++ es) hroom
  | beside t ds r iht ihr => exact fun room hroom => limited_cons iht ihr ds hroom
  | single q ih =>
    intro room hroom ds alt halt
    cases List.mem_singleton.1 halt
    exact Limited.alternative ih hroom ds
  | choice q ds r ihq ihr =>
    intro room hroom ds'
    obtain ⟨hq, hr⟩ := Nat.max_le.1 hroom
    exact List.forall_mem_cons.2 ⟨Limited.alternative ihq hq ds', ihr room hr ds⟩

/-! ### Rules and grammars -/

lemma bounded_rule {r : RulePhrase} (h : r.Fits) : Bounded maxNesting r.node := by
  refine bounded_node rfl (List.forall_mem_cons.2 ⟨?_, fun t ht => ?_⟩)
  · exact (boundedTerm_leaf rfl maxNesting).bounded
  · rcases List.mem_append.1 ht with ht | ht
    · exact (bounded_commentNodes ht _).bounded
    · exact bounded_joinAlternatives (limited r.body maxNesting h []) t ht

lemma bounded_grammar {g : GrammarPhrase} (h : g.Fits) : Bounded maxNesting g.node := by
  refine bounded_node rfl fun t ht => ?_
  rcases g.cases_of_mem_children ht with ⟨d, rfl⟩ | ⟨r, hr, rfl⟩
  · exact (boundedTerm_leaf rfl maxNesting).bounded
  · exact bounded_rule (h r hr)

/-! ### Chains within groups -/

/-- A factor and `k` names that are excluded from it. -/
def chain (f : Phrase .factor) : (k : Nat) → Phrase (.term k)
  | 0 => .factor f
  | k + 1 => .except (chain f k) [] [] (.name "c")

/-- A name within groups, each of which has a chain of the given length in it. -/
def nest : List Nat → Phrase .factor
  | [] => .name "b"
  | k :: ks => .enclosed .group [] (.single (.last (chain (nest ks) k) []))

/-- The grammar of a rule with a chain that begins with such groups. -/
def nestGrammar (k : Nat) (ks : List Nat) : GrammarPhrase where
  title := none
  frame := none
  rules := [{
    leading := []
    name := "a"
    before := []
    definition := .equals
    after := []
    body := .single (.last (chain (nest ks) k) [])
    terminator := .semicolon
    isDefinition := rfl
    isTerminator := rfl }]
  trailing := []

/-- What is written behind the factor of a chain. -/
def chainLexemes (k : Nat) : List Lexeme := (List.replicate k [.symbol .minus, .name ['c']]).flatten

/-- How a name within groups is written. -/
def nestLexemes : List Nat → List Lexeme
  | [] => [.name ['b']]
  | k :: ks => .symbol .openParen :: nestLexemes ks ++ chainLexemes k ++ [.symbol .closeParen]

/-- The text of the grammar. -/
def nestText (k : Nat) (ks : List Nat) : String :=
  spell ([.name ['a'], .symbol .equals] ++ nestLexemes ks ++ chainLexemes k ++ [.symbol .semicolon])

example : nestText 1 [0, 2] = "a = ( ( b - c - c ) ) - c ;" := by decide

lemma need_chain (f : Phrase .factor) (k : Nat) : (chain f k).need = max f.need k := by
  induction k with
  | zero => exact (Nat.max_zero _).symm
  | succ k ih =>
    have hneed : (chain f (k + 1)).need = max (chain f k).need (k + 1) := rfl
    rw [hneed, ih]
    omega

lemma need_nest_cons (k : Nat) (ks : List Nat) :
    (nest (k :: ks)).need = 1 + max (nest ks).need k := by
  rw [← need_chain]
  rfl

lemma chainLexemes_succ (k : Nat) :
    chainLexemes (k + 1) = chainLexemes k ++ [.symbol .minus, .name ['c']] := by
  simp [chainLexemes, List.replicate_succ']

lemma words_chain (f : Phrase .factor) (k : Nat) :
    (chain f k).words = f.words ++ (chainLexemes k).map Lexeme.word := by
  induction k with
  | zero => simp [chain, Phrase.words, chainLexemes]
  | succ k ih => simp [chain, Phrase.words, ih, chainLexemes_succ, Lexeme.word]

lemma words_nest (ks : List Nat) : (nest ks).words = (nestLexemes ks).map Lexeme.word := by
  induction ks with
  | nil => rfl
  | cons k ks ih =>
    simp [nest, nestLexemes, Phrase.words, words_chain, ih, Enclosure.opening, Enclosure.closing,
      Lexeme.word]

/-- A name of a single letter can be written. -/
lemma spellable_letter {a : Char} (h : isNameStart a = true) : (Lexeme.name [a]).Spellable :=
  ⟨h, by simp⟩

lemma spellable_chainLexemes (k : Nat) : ∀ l ∈ chainLexemes k, l.Spellable := by
  intro l hl
  obtain ⟨ls, hls, hl⟩ := List.mem_flatten.1 hl
  rw [List.eq_of_mem_replicate hls] at hl
  rcases List.mem_pair.1 hl with rfl | rfl
  · trivial
  · exact spellable_letter rfl

lemma spellable_nestLexemes (ks : List Nat) : ∀ l ∈ nestLexemes ks, l.Spellable := by
  induction ks with
  | nil =>
    intro l hl
    cases List.mem_singleton.1 hl
    exact spellable_letter rfl
  | cons k ks ih =>
    intro l hl
    simp only [nestLexemes, List.cons_append, List.mem_cons, List.mem_append, List.not_mem_nil,
      or_false] at hl
    rcases hl with rfl | (hl | hl) | rfl
    · trivial
    · exact ih l hl
    · exact spellable_chainLexemes k l hl
    · trivial

/-- The text is parsed as long as there is room for its chains. -/
lemma parse_nestText {k : Nat} {ks : List Nat} (hk : k ≤ maxNesting)
    (hks : (nest ks).need ≤ maxNesting) :
    parse (nestText k ks) = .ok (nestGrammar k ks).node := by
  refine parse_spell ?_ ?_ ?_
  · intro r hr
    cases List.mem_singleton.1 hr
    exact (need_chain (nest ks) k).trans_le (Nat.max_le.2 ⟨hks, hk⟩)
  · simp [nestGrammar, GrammarPhrase.words, GrammarPhrase.bodyWords, RulePhrase.words, Phrase.words,
      QuotedPhrase.wordsOf, words_chain, words_nest, Lexeme.word]
  · intro l hl
    simp only [List.cons_append, List.nil_append, List.mem_cons, List.mem_append, List.not_mem_nil,
      or_false] at hl
    rcases hl with rfl | rfl | (hl | hl) | rfl
    · exact spellable_letter rfl
    · trivial
    · exact spellable_nestLexemes ks l hl
    · exact spellable_chainLexemes k l hl
    · trivial

/-- A way goes on as it does in the factor that a chain begins with. -/
lemma constructs_chain (f : Phrase .factor) (k m : Nat) :
    constructs (chain f k).build (List.replicate (k + m) 0) =
      k + constructs f.build (List.replicate m 0) := by
  induction k with
  | zero =>
    rw [Nat.zero_add, Nat.zero_add]
    rfl
  | succ k ih =>
    have hbuild : (chain f (k + 1)).build =
        .node .exception [(chain f k).build, Tree.leaf (.identifier "c")] := rfl
    rw [hbuild, Nat.succ_add, List.replicate_succ, constructs_cons rfl, ih,
      if_pos (show Content.exception.isConstruct = true from rfl)]
    omega

lemma descend_chain (f : Phrase .factor) (k m : Nat) :
    (chain f k).build.descend (List.replicate (k + m) 0) =
      f.build.descend (List.replicate m 0) := by
  induction k with
  | zero =>
    rw [Nat.zero_add]
    rfl
  | succ k ih =>
    rw [Nat.succ_add, List.replicate_succ, ← ih]
    rfl

lemma build_nest_cons (k : Nat) (ks : List Nat) :
    (nest (k :: ks)).build = .node .group [(chain (nest ks) k).build] := rfl

/-- The number of constructs around the name within the groups. -/
def nestDepth (ks : List Nat) : Nat := ks.sum + ks.length

lemma nestDepth_cons (k : Nat) (ks : List Nat) :
    nestDepth (k :: ks) = k + nestDepth ks + 1 := by
  rw [nestDepth, nestDepth, List.sum_cons, List.length_cons]
  omega

lemma nestDepth_replicate (n : Nat) : nestDepth (List.replicate n 0) = n := by
  rw [nestDepth, List.sum_replicate_nat, List.length_replicate, Nat.mul_zero, Nat.zero_add]

lemma constructs_nest (ks : List Nat) :
    constructs (nest ks).build (List.replicate (nestDepth ks) 0) = nestDepth ks := by
  induction ks with
  | nil => rfl
  | cons k ks ih =>
    rw [nestDepth_cons, build_nest_cons, List.replicate_succ, constructs_cons rfl, constructs_chain,
      ih]
    rfl

lemma descend_nest (ks : List Nat) :
    (nest ks).build.descend (List.replicate (nestDepth ks) 0) =
      .ok (Tree.leaf (.identifier "b")) := by
  induction ks with
  | nil => rfl
  | cons k ks ih =>
    rw [nestDepth_cons, build_nest_cons, List.replicate_succ]
    exact (descend_chain (nest ks) k (nestDepth ks)).trans ih

/-- The way to the name within the groups. -/
def nestWay (k : Nat) (ks : List Nat) : List Nat := 0 :: 1 :: List.replicate (k + nestDepth ks) 0

lemma constructs_nestWay (k : Nat) (ks : List Nat) :
    constructs (nestGrammar k ks).node (nestWay k ks) = k + nestDepth ks := by
  have htree : (nestGrammar k ks).node = .node (.grammar "" Content.defaultMeta)
      [.node (.rule "a") [Tree.leaf (.identifier "a"), (chain (nest ks) k).build]] := rfl
  rw [htree, nestWay, constructs_cons rfl, constructs_cons rfl, constructs_chain, constructs_nest]
  rfl

lemma descend_nestWay (k : Nat) (ks : List Nat) :
    (nestGrammar k ks).node.descend (nestWay k ks) = .ok (Tree.leaf (.identifier "b")) :=
  (descend_chain (nest ks) k (nestDepth ks)).trans (descend_nest ks)

/-- Groups without chains. -/
lemma need_nest_replicate (n : Nat) : (nest (List.replicate n 0)).need = n := by
  induction n with
  | zero => rfl
  | succ n ih =>
    rw [List.replicate_succ, need_nest_cons, ih]
    omega

/-- Groups as deep as they may be, in front of an exception. -/
lemma parse_nestText_replicate :
    parse (nestText 1 (List.replicate 128 0)) =
      .ok (nestGrammar 1 (List.replicate 128 0)).node :=
  parse_nestText (by decide) (Nat.le_of_eq (need_nest_replicate 128))

/-- Groups with chains as long as they can be. -/
lemma need_nest_range (n : Nat) : (nest (List.range n).reverse).need = n := by
  induction n with
  | zero => rfl
  | succ n ih =>
    rw [List.range_succ, List.reverse_append, List.reverse_singleton, List.singleton_append,
      need_nest_cons, ih]
    omega

/-! ### The limit -/

/-- A way in a parsed tree meets `maxNesting` groups, options, repetitions and exceptions at most,
and one more for each overhang.  Where nothing overhangs, this is the limit that the parser checks. -/
theorem constructs_le_of_parse {source : String} {tree : Node} (h : parse source = .ok tree)
    (way : List Nat) :
    constructs tree way ≤ maxNesting + overhangs tree way ∧
      overhangs tree way ≤ maxNesting * (maxNesting + 1) / 2 := by
  obtain ⟨g, hfit, rfl, -⟩ := exists_phrase_of_grammar h
  exact ⟨(bounded_grammar hfit).constructs_le way, (bounded_grammar hfit).overhangs_le way⟩

/-- A name is excluded from one within 128 groups: a single overhang. -/
theorem constructs_le_of_parse_groups :
    ∃ tree, parse (nestText 1 (List.replicate 128 0)) = .ok tree ∧
      constructs tree (nestWay 1 (List.replicate 128 0)) = maxNesting + 1 ∧
      constructs tree (nestWay 1 (List.replicate 128 0)) ≤
        maxNesting + overhangs tree (nestWay 1 (List.replicate 128 0)) ∧
      overhangs tree (nestWay 1 (List.replicate 128 0)) ≤ maxNesting * (maxNesting + 1) / 2 := by
  have hcount := constructs_nestWay 1 (List.replicate 128 0)
  rw [nestDepth_replicate] at hcount
  exact ⟨_, parse_nestText_replicate, hcount.trans (by decide),
    constructs_le_of_parse parse_nestText_replicate _⟩

/-- The way to the name within the groups leads to a leaf and meets more than `maxNesting` groups and
exceptions. -/
theorem overhang_exceeds_maxNesting :
    ∃ tree leaf, parse (nestText 1 (List.replicate 128 0)) = .ok tree ∧
      tree.descend (nestWay 1 (List.replicate 128 0)) = .ok leaf ∧ leaf.isLeaf = true ∧
      maxNesting < constructs tree (nestWay 1 (List.replicate 128 0)) := by
  refine ⟨_, _, parse_nestText_replicate, descend_nestWay _ _, rfl, ?_⟩
  rw [constructs_nestWay, nestDepth_replicate]
  decide

/-- There is a text with as many constructs on a way as overhangs allow. -/
theorem exists_constructs_eq :
    ∃ source tree way, parse source = .ok tree ∧
      constructs tree way = maxNesting + maxNesting * (maxNesting + 1) / 2 := by
  have hneed : (nest (List.range maxNesting).reverse).need ≤ maxNesting :=
    Nat.le_of_eq (need_nest_range maxNesting)
  have hdepth : maxNesting + nestDepth (List.range maxNesting).reverse =
      maxNesting + maxNesting * (maxNesting + 1) / 2 := by
    decide +kernel
  exact ⟨_, _, _, parse_nestText (Nat.le_refl _) hneed, (constructs_nestWay _ _).trans hdepth⟩

end GrammarTree
