/-
# What a comparison notes

A way is *common* to two trees if it leads to a node of each and the nodes before its end are of the
same kinds in both.  A comparison follows the common ways and no others: where two kinds differ,
nothing below is looked at, and children are looked at as far as both nodes have them.

At the end of each common way it notes what differs between the two nodes there, `notes`, with their
places.  The two places are spelled alike, except for their last parts where the two nodes are of
different kinds (`placeParts_agree`).  So the differences are these notes, way by way in the order in
which the nodes of the first tree are read (`differences_at_common_ways`).
-/
import Mathlib.Data.List.Nodup
import GrammarTree.Proofs.Place

namespace GrammarTree

open Difference

variable {a b s t : Node} {i : Nat} {way : List Nat} {textA textB : String}

/-! ### Common ways -/

/-- A way leads to a node of each of two trees, and the nodes before its end are of the same kinds. -/
structure Common (a b : Node) (way : List Nat) : Prop where
  /-- Where the way ends in the first tree, there is a node. -/
  first : ∃ s, a.descend way = .ok s
  /-- Where the way ends in the second tree, there is a node. -/
  second : ∃ t, b.descend way = .ok t
  /-- On the way, the nodes of the two trees are of the same kinds. -/
  same : ∀ p, p <+: way → p ≠ way →
    ∀ s t, a.descend p = .ok s → b.descend p = .ok t → s.label.kind = t.label.kind

/-- Whether a way is common to two trees. -/
def isCommon : Node → Node → List Nat → Bool
  | _, _, [] => true
  | a, b, i :: way => decide (a.label.kind = b.label.kind) &&
      match a.children[i]?, b.children[i]? with
      | some s, some t => isCommon s t way
      | _, _ => false

/-- The ways that are common to two trees, in reading order. -/
def commonWays (a b : Node) : List (List Nat) := a.ways.filter (isCommon a b)

lemma common_nil (a b : Node) : Common a b [] where
  first := ⟨a, rfl⟩
  second := ⟨b, rfl⟩
  same := by
    intro p hp hne
    exact absurd (List.prefix_nil.1 hp) hne

/-- A way is common if its first step is possible in two nodes of one kind, and the rest of the way is
common to the two children. -/
lemma common_cons_iff : Common a b (i :: way) ↔ a.label.kind = b.label.kind ∧
    ∃ s t, a.children[i]? = some s ∧ b.children[i]? = some t ∧ Common s t way := by
  constructor
  · rintro ⟨⟨u, hu⟩, ⟨v, hv⟩, hsame⟩
    obtain ⟨s, hs, hsu⟩ := Tree.descend_cons_eq_ok_iff.1 hu
    obtain ⟨t, ht, htv⟩ := Tree.descend_cons_eq_ok_iff.1 hv
    refine ⟨hsame [] List.nil_prefix (List.cons_ne_nil i way).symm a b rfl rfl, s, t, hs, ht,
      ⟨u, hsu⟩, ⟨v, htv⟩, ?_⟩
    intro p hp hne x y hx hy
    refine hsame (i :: p) (List.cons_prefix_cons.2 ⟨rfl, hp⟩) ?_ x y ?_ ?_
    · exact fun h => hne (List.cons.inj h).2
    · rw [Tree.descend_cons hs, hx]
    · rw [Tree.descend_cons ht, hy]
  · rintro ⟨hkind, s, t, hs, ht, ⟨u, hu⟩, ⟨v, hv⟩, hsame⟩
    refine ⟨⟨u, by rw [Tree.descend_cons hs, hu]⟩, ⟨v, by rw [Tree.descend_cons ht, hv]⟩, ?_⟩
    intro p hp hne x y hx hy
    rcases List.prefix_cons_iff.1 hp with rfl | ⟨rest, rfl, hrest⟩
    · obtain rfl := Except.ok.inj hx
      obtain rfl := Except.ok.inj hy
      exact hkind
    · rw [Tree.descend_cons hs] at hx
      rw [Tree.descend_cons ht] at hy
      exact hsame rest hrest (fun h => hne (by rw [h])) x y hx hy

lemma isCommon_cons (hkind : a.label.kind = b.label.kind) (hs : a.children[i]? = some s)
    (ht : b.children[i]? = some t) (way : List Nat) :
    isCommon a b (i :: way) = isCommon s t way := by
  simp [isCommon, hkind, hs, ht]

lemma isCommon_iff : isCommon a b way = true ↔ Common a b way := by
  induction way generalizing a b with
  | nil => exact iff_of_true rfl (common_nil a b)
  | cons i way ih =>
    rw [common_cons_iff, isCommon, Bool.and_eq_true, decide_eq_true_iff]
    refine and_congr_right fun _ => ?_
    split
    · rename_i s t hs ht
      rw [ih]
      constructor
      · exact fun h => ⟨s, t, hs, ht, h⟩
      · rintro ⟨s', t', hs', ht', h⟩
        obtain rfl := Option.some.inj (hs.symm.trans hs')
        obtain rfl := Option.some.inj (ht.symm.trans ht')
        exact h
    · rename_i hnone
      refine iff_of_false Bool.false_ne_true ?_
      rintro ⟨s, t, hs, ht, -⟩
      exact hnone s t hs ht

lemma mem_commonWays : way ∈ commonWays a b ↔ Common a b way := by
  rw [commonWays, List.mem_filter, isCommon_iff, Tree.mem_ways]
  exact and_iff_right_of_imp Common.first

/-! ### Notes on two nodes -/

/-- What is to be noted on the texts that two nodes of a kind have under a name. -/
def notesOnText (k : Kind) (placeA placeB name : String) (x y : Option String) : List Difference :=
  if x = y then [] else [ofAttribute k name (x.getD "") (y.getD "") placeA placeB]

/-- What is to be noted on two nodes by themselves: that they are of different kinds, or else each
attribute that differs and then a different number of children. -/
def notes (s t : Node) (placeA placeB : String) : List Difference :=
  if s.label.kind = t.label.kind then
    (s.label.kind.attributeNames.flatMap fun name =>
      notesOnText s.label.kind placeA placeB name (s.label.get? name) (t.label.get? name)) ++
    if s.children.length = t.children.length then []
    else [ofCounts s.children.length t.children.length placeA placeB]
  else [ofKinds s.label.kind t.label.kind placeA placeB]

/-- What is to be noted on the two nodes at the end of a way. -/
def notesAt (a b : Node) (way : List Nat) : List Difference :=
  match a.descend way, b.descend way with
  | .ok s, .ok t => notes s t (place a way) (place b way)
  | _, _ => []

/-- Attributes are compared in pairs.  Where the names are the same on both sides and none is there
twice, each attribute is compared with the one of its name. -/
lemma ofAttributes_eq (k : Kind) (textA textB : String) : ∀ {as bs : List (String × String)},
    as.map Prod.fst = bs.map Prod.fst → (as.map Prod.fst).Nodup →
      ofAttributes k textA textB as bs = (as.map Prod.fst).flatMap fun name =>
        notesOnText k textA textB name (as.lookup name) (bs.lookup name)
  | [], [], _, _ => rfl
  | (name, x) :: as, (name', y) :: bs, hnames, hnodup => by
    obtain ⟨rfl, hrest⟩ : name = name' ∧ as.map Prod.fst = bs.map Prod.fst := List.cons.inj hnames
    obtain ⟨hfresh, hnodup⟩ := List.nodup_cons.1 hnodup
    -- further down, the first name is not looked up any more
    have hlater : ∀ n ∈ as.map Prod.fst, ∀ (z : String) (cs : List (String × String)),
        ((name, z) :: cs).lookup n = cs.lookup n := by
      intro n hn z cs
      have hne : (n == name) = false := beq_false_of_ne fun h => hfresh (h ▸ hn)
      rw [List.lookup_cons, hne]
    have htail : ((as.map Prod.fst).flatMap fun n =>
          notesOnText k textA textB n (((name, x) :: as).lookup n) (((name, y) :: bs).lookup n)) =
        (as.map Prod.fst).flatMap fun n =>
          notesOnText k textA textB n (as.lookup n) (bs.lookup n) :=
      List.flatMap_congr fun n hn => by rw [hlater n hn x as, hlater n hn y bs]
    rw [ofAttributes, ofAttributes_eq k textA textB hrest hnodup, List.map_cons, List.flatMap_cons,
      htail, List.lookup_cons_self, List.lookup_cons_self, notesOnText]
    by_cases h : x = y
    · simp [h]
    · simp [h]

lemma Kind.nodup_attributeNames (k : Kind) : k.attributeNames.Nodup := by
  cases k <;> decide

/-- The notes on two nodes are what a comparison notes before it goes on to their children. -/
lemma notes_of_kind_eq (h : s.label.kind = t.label.kind) : notes s t textA textB =
    ofAttributes s.label.kind textA textB s.label.attributes t.label.attributes ++
      if s.children.length = t.children.length then []
      else [ofCounts s.children.length t.children.length textA textB] := by
  have hnames : s.label.attributes.map Prod.fst = t.label.attributes.map Prod.fst := by
    rw [Content.names_attributes, Content.names_attributes, h]
  have hnodup : (s.label.attributes.map Prod.fst).Nodup := by
    rw [Content.names_attributes]
    exact Kind.nodup_attributeNames _
  rw [notes, if_pos h, ofAttributes_eq _ _ _ hnames hnodup, Content.names_attributes]
  rfl

/-! ### The comparison along the common ways -/

/-- The notes at the end of a way that begins at the given places. -/
def notesFrom (textA textB : String) (a b : Node) (way : List Nat) : List Difference :=
  match a.descend way, b.descend way with
  | .ok s, .ok t => notes s t ("/".intercalate (textA :: stepTexts a way))
      ("/".intercalate (textB :: stepTexts b way))
  | _, _ => []

lemma notesFrom_nil (textA textB : String) (a b : Node) :
    notesFrom textA textB a b [] = notes a b textA textB := by
  rw [notesFrom]
  rfl

lemma notesFrom_cons (hs : a.children[i]? = some s) (ht : b.children[i]? = some t)
    (way : List Nat) : notesFrom textA textB a b (i :: way) =
      notesFrom (childPlace textA s.label.kind i) (childPlace textB t.label.kind i) s t way := by
  rw [notesFrom, notesFrom, Tree.descend_cons hs, Tree.descend_cons ht, stepTexts_cons hs,
    stepTexts_cons ht, intercalate_childPlace, intercalate_childPlace]

/-- The common ways through the children of one index are the common ways of these children. -/
lemma flatMap_notesFrom_child (hkind : a.label.kind = b.label.kind)
    (hs : a.children[i]? = some s) (ht : b.children[i]? = some t) :
    ((s.ways.map (i :: ·)).filter (isCommon a b)).flatMap (notesFrom textA textB a b) =
      (commonWays s t).flatMap
        (notesFrom (childPlace textA s.label.kind i) (childPlace textB t.label.kind i) s t) := by
  have hcommon : isCommon a b ∘ (i :: ·) = isCommon s t := funext (isCommon_cons hkind hs ht)
  rw [List.filter_map, hcommon, List.flatMap_map, commonWays]
  exact List.flatMap_congr fun way _ => notesFrom_cons hs ht way

/-- No way goes on between nodes of different kinds, or where the second one has no more children. -/
lemma filter_waysAll_eq_nil {index : Nat} (ts : List Node)
    (h : a.label.kind = b.label.kind → b.children.drop index = []) :
    (Tree.waysAll index ts).filter (isCommon a b) = [] := by
  rw [List.filter_eq_nil_iff]
  intro way hway hcommon
  obtain ⟨j, u, rest, -, -, rfl⟩ := Tree.mem_waysAll.1 hway
  obtain ⟨hkind, -, v, -, hv, -⟩ := common_cons_iff.1 (isCommon_iff.1 hcommon)
  obtain ⟨hlt, -⟩ := List.getElem?_eq_some_iff.1 hv
  have hle := List.drop_eq_nil_iff.1 (h hkind)
  omega

mutual

/-- A comparison notes what is to be noted at the end of each common way. -/
lemma between_eq (textA textB : String) : ∀ a b : Node,
    between textA textB a b = (commonWays a b).flatMap (notesFrom textA textB a b)
  | .node c ts, .node d us => by
    have hts : (Tree.node c ts).children.drop 0 = ts := rfl
    have hus : (Tree.node d us).children.drop 0 = us := rfl
    rw [between, commonWays, Tree.ways, List.filter_cons_of_pos rfl, List.flatMap_cons,
      notesFrom_nil]
    by_cases hkind : c.kind = d.kind
    · have hlabels : (Tree.node c ts).label.kind = (Tree.node d us).label.kind := hkind
      rw [if_pos hkind, betweenAll_eq hlabels hts hus, notes_of_kind_eq hlabels]
      rfl
    · have hlabels : (Tree.node c ts).label.kind ≠ (Tree.node d us).label.kind := hkind
      rw [if_neg hkind, filter_waysAll_eq_nil ts fun h => absurd h hlabels, List.flatMap_nil,
        List.append_nil, notes, if_neg hlabels]
      rfl

lemma betweenAll_eq {a b : Node} (hkind : a.label.kind = b.label.kind) {textA textB : String} :
    ∀ {index : Nat} {ts us : List Node}, a.children.drop index = ts → b.children.drop index = us →
      betweenAll textA textB index ts us =
        ((Tree.waysAll index ts).filter (isCommon a b)).flatMap (notesFrom textA textB a b)
  | index, [], us, _, _ => by simp [betweenAll, Tree.waysAll]
  | index, s :: ts, [], _, hus => by
    rw [filter_waysAll_eq_nil _ fun _ => hus]
    simp [betweenAll]
  | index, s :: ts, t :: us, hts, hus => by
    obtain ⟨hs, hts⟩ := Tree.getElem?_of_drop hts
    obtain ⟨ht, hus⟩ := Tree.getElem?_of_drop hus
    rw [betweenAll, between_eq _ _ s t, betweenAll_eq hkind hts hus, Tree.waysAll,
      List.filter_append, List.flatMap_append, flatMap_notesFrom_child hkind hs ht]

end

lemma differences_eq (a b : Node) : differences a b = (commonWays a b).flatMap (notesAt a b) :=
  between_eq _ _ a b

/-! ### Notes on different nodes, and different notes on one node -/

lemma places_of_mem_notes {d : Difference} (h : d ∈ notes s t textA textB) :
    d.placeA = textA ∧ d.placeB = textB := by
  rw [notes] at h
  split at h
  · rcases List.mem_append.1 h with hattribute | hcount
    · obtain ⟨name, -, hd⟩ := List.mem_flatMap.1 hattribute
      rw [notesOnText] at hd
      split at hd
      · cases hd
      · obtain rfl := List.mem_singleton.1 hd
        exact ⟨rfl, rfl⟩
    · split at hcount
      · cases hcount
      · obtain rfl := List.mem_singleton.1 hcount
        exact ⟨rfl, rfl⟩
  · obtain rfl := List.mem_singleton.1 h
    exact ⟨rfl, rfl⟩

lemma Kind.blank_notMem_title (k : Kind) : ' ' ∉ k.title.toList := by
  cases k <;> decide

lemma Kind.blank_notMem_attributeNames (k : Kind) : ∀ name ∈ k.attributeNames, ' ' ∉ name.toList := by
  cases k <;> decide

/-- Two texts without blanks are told from what follows behind a blank. -/
lemma eq_of_append_blank {word word' rest rest' : String} (hword : ' ' ∉ word.toList)
    (hword' : ' ' ∉ word'.toList) (h : word ++ (" " ++ rest) = word' ++ (" " ++ rest')) :
    word = word' := by
  have hlists : word.toList ++ ' ' :: rest.toList = word'.toList ++ ' ' :: rest'.toList := by
    simpa using congrArg String.toList h
  obtain ⟨hwords, -⟩ := append_cons_inj_of_class (p := (' ' ≠ ·))
    (List.forall_mem_ne.2 hword) (List.forall_mem_ne.2 hword') (by decide) (by decide) hlists
  exact String.toList_inj.1 hwords

lemma message_of_mem_notesOnText {k : Kind} {name : String} {x y : Option String} {d : Difference}
    (h : d ∈ notesOnText k textA textB name x y) :
    ∃ rest, d.message = k.title ++ (" " ++ (name ++ (" " ++ rest))) := by
  rw [notesOnText] at h
  split at h
  · cases h
  · obtain rfl := List.mem_singleton.1 h
    refine ⟨"mismatch: '" ++ (x.getD "" ++ ("' != '" ++ (y.getD "" ++ "'!"))), ?_⟩
    have hblank : " mismatch: '" = " " ++ "mismatch: '" := by simp
    simp only [ofAttribute, hblank, String.append_assoc]

/-- The note on an attribute tells its name. -/
lemma disjoint_notesOnText {k : Kind} {name name' : String} {x y x' y' : Option String}
    (hname : name ∈ k.attributeNames) (hname' : name' ∈ k.attributeNames) (hne : name ≠ name') :
    (notesOnText k textA textB name x y).Disjoint (notesOnText k textA textB name' x' y') := by
  intro d hd hd'
  obtain ⟨rest, hmessage⟩ := message_of_mem_notesOnText hd
  obtain ⟨rest', hmessage'⟩ := message_of_mem_notesOnText hd'
  rw [hmessage, String.append_right_inj, String.append_right_inj] at hmessage'
  exact hne (eq_of_append_blank (k.blank_notMem_attributeNames name hname)
    (k.blank_notMem_attributeNames name' hname') hmessage')

lemma message_ofCounts (m n : Nat) (placeA placeB : String) :
    ∃ rest, (ofCounts m n placeA placeB).message = "Node" ++ (" " ++ rest) := by
  have hmessage : (ofCounts m n placeA placeB).message =
    "Node has different child count: " ++ toString m ++ " != " ++ toString n ++ "!" := rfl
  refine ⟨"has different child count: " ++ (toString m ++ (" != " ++ (toString n ++ "!"))), ?_⟩
  rw [hmessage]
  simp [← String.append_assoc]

/-- No kind has the title with which the note on numbers of children begins. -/
lemma ofCounts_notMem_notesOnText {k : Kind} {m n : Nat} {name placeA placeB : String}
    {x y : Option String} : ofCounts m n placeA placeB ∉ notesOnText k textA textB name x y := by
  intro h
  obtain ⟨rest, hmessage⟩ := message_of_mem_notesOnText h
  obtain ⟨rest', hcounts⟩ := message_ofCounts m n placeA placeB
  have hblank : ' ' ∉ "Node".toList := by decide
  have htitle : "Node" = k.title :=
    eq_of_append_blank hblank k.blank_notMem_title (hcounts.symm.trans hmessage)
  revert htitle
  cases k <;> decide

lemma nodup_notes (s t : Node) (textA textB : String) : (notes s t textA textB).Nodup := by
  rw [notes]
  split
  · rw [List.nodup_append]
    refine ⟨?_, ?_, ?_⟩
    · rw [List.nodup_flatMap]
      constructor
      · intro name _
        rw [notesOnText]
        split
        · exact List.nodup_nil
        · exact List.nodup_singleton _
      · exact s.label.kind.nodup_attributeNames.imp_of_mem disjoint_notesOnText
    · split
      · exact List.nodup_nil
      · exact List.nodup_singleton _
    · rintro d hd e he rfl
      obtain ⟨name, -, hname⟩ := List.mem_flatMap.1 hd
      split at he
      · cases he
      · obtain rfl := List.mem_singleton.1 he
        exact ofCounts_notMem_notesOnText hname
  · exact List.nodup_singleton _

/-! ### The places of notes -/

/-- On a common way the parts of the two places are equal up to the last ones, which are equal if the
nodes at its end are of one kind. -/
lemma placeParts_agree (hcommon : Common a b way) (hs : a.descend way = .ok s)
    (ht : b.descend way = .ok t) : ∃ before x y,
      placeParts a way = before ++ [x] ∧ placeParts b way = before ++ [y] ∧
      (x = y ↔ s.label.kind = t.label.kind) := by
  -- the first parts are spelled in one way at the top and in another one further down
  suffices h : ∀ f : Kind → String, Function.Injective f → ∃ before x y,
      f a.label.kind :: stepTexts a way = before ++ [x] ∧
      f b.label.kind :: stepTexts b way = before ++ [y] ∧
      (x = y ↔ s.label.kind = t.label.kind) from h Kind.name Kind.name_injective
  induction way generalizing a b with
  | nil =>
    intro f hf
    obtain rfl := Except.ok.inj hs
    obtain rfl := Except.ok.inj ht
    exact ⟨[], f a.label.kind, f b.label.kind, rfl, rfl, hf.eq_iff⟩
  | cons i way ih =>
    intro f hf
    obtain ⟨hkind, u, v, hu, hv, hrest⟩ := common_cons_iff.1 hcommon
    rw [Tree.descend_cons hu] at hs
    rw [Tree.descend_cons hv] at ht
    obtain ⟨before, x, y, hx, hy, hiff⟩ :=
      ih hrest hs ht (stepText · i) fun _ _ h => (stepText_inj h).1
    refine ⟨f a.label.kind :: before, x, y, ?_, ?_, hiff⟩
    · rw [stepTexts_cons hu, hx, List.cons_append]
    · rw [stepTexts_cons hv, hy, hkind, List.cons_append]

lemma mem_notesAt {d : Difference} (h : d ∈ notesAt a b way) : ∃ s t,
    a.descend way = .ok s ∧ b.descend way = .ok t ∧
    d ∈ notes s t (place a way) (place b way) := by
  rw [notesAt] at h
  split at h
  · rename_i s t hs ht
    exact ⟨s, t, hs, ht, h⟩
  · cases h

/-- The notes on different nodes have different places. -/
lemma disjoint_notesAt {way' : List Nat} (hne : way ≠ way') :
    (notesAt a b way).Disjoint (notesAt a b way') := by
  intro d hd hd'
  obtain ⟨s, t, hs, -, hnote⟩ := mem_notesAt hd
  obtain ⟨s', t', hs', -, hnote'⟩ := mem_notesAt hd'
  have hplace := (places_of_mem_notes hnote).1.symm.trans (places_of_mem_notes hnote').1
  exact hne (way_eq_of_place_eq ⟨s, hs⟩ ⟨s', hs'⟩ hplace)

lemma nodup_differences (a b : Node) : (differences a b).Nodup := by
  rw [differences_eq, List.nodup_flatMap]
  constructor
  · intro way _
    rw [notesAt]
    split
    · exact nodup_notes _ _ _ _
    · exact List.nodup_nil
  · exact (a.nodup_ways.filter _).imp disjoint_notesAt

/-- The places at the end of a common way are equal exactly if the nodes there are of one kind. -/
lemma place_eq_iff (hcommon : Common a b way) (hs : a.descend way = .ok s)
    (ht : b.descend way = .ok t) :
    place a way = place b way ↔ s.label.kind = t.label.kind := by
  obtain ⟨before, x, y, hx, hy, hiff⟩ := placeParts_agree hcommon hs ht
  rw [← hiff]
  constructor
  · intro h
    have hparts := placeParts_eq_of_place_eq h
    rw [hx, hy] at hparts
    exact List.cons.inj (List.append_cancel_left hparts) |>.1
  · rintro rfl
    rw [place, place, hx, hy]

/-! ### The theorem -/

/-- The differences of two trees are the notes at the ends of their common ways, in the order in which
the nodes of the first tree are read, and none is there twice.  The notes at the end of a way have the
places there; in each tree its place resolves to the node at the end of the way.  The two places are
equal unless the two nodes are of different kinds, and then they differ in the last part only. -/
theorem differences_at_common_ways (a b : Node) :
    differences a b = (commonWays a b).flatMap (notesAt a b) ∧
    (∀ way, way ∈ commonWays a b ↔ Common a b way) ∧
    (commonWays a b).Sublist a.ways ∧ a.ways.Pairwise (· < ·) ∧
    a.ways.map a.descend = a.preorder.map .ok ∧
    (∀ way, Common a b way → ∃ s t, a.descend way = .ok s ∧ b.descend way = .ok t ∧
      notesAt a b way = notes s t (place a way) (place b way) ∧
      (∀ d ∈ notesAt a b way, d.placeA = place a way ∧ d.placeB = place b way) ∧
      Resolves a (place a way) way ∧ Resolves b (place b way) way ∧
      (place a way = place b way ↔ s.label.kind = t.label.kind) ∧
      ∃ before x y, placeParts a way = before ++ [x] ∧ placeParts b way = before ++ [y]) ∧
    (differences a b).Nodup := by
  refine ⟨differences_eq a b, fun _ => mem_commonWays, List.filter_sublist, a.pairwise_ways,
    a.map_descend_ways, ?_, nodup_differences a b⟩
  intro way hcommon
  obtain ⟨s, hs⟩ := hcommon.first
  obtain ⟨t, ht⟩ := hcommon.second
  have hnotes : notesAt a b way = notes s t (place a way) (place b way) := by
    rw [notesAt, hs, ht]
  obtain ⟨before, x, y, hx, hy, -⟩ := placeParts_agree hcommon hs ht
  refine ⟨s, t, hs, ht, hnotes, ?_, resolves_place hs, resolves_place ht,
    place_eq_iff hcommon hs ht, before, x, y, hx, hy⟩
  intro d hd
  rw [hnotes] at hd
  exact places_of_mem_notes hd

/-- In two texts of two rules each, a name, its value and a terminal differ, and an option stands where
the other text has a repetition. -/
theorem differences_of_two_rules :
    ∃ a b, parse "a = b | \"c\"; d = [ e ];" = .ok a ∧
      parse "x = b | \"z\"; d = \x7b e \x7d;" = .ok b ∧
      (differences a b).map (fun d => (d.placeA, d.placeB)) =
        [("syntax/rule[0]", "syntax/rule[0]"),
          ("syntax/rule[0]/identifier[0]", "syntax/rule[0]/identifier[0]"),
          ("syntax/rule[0]/choice[1]/terminal[1]", "syntax/rule[0]/choice[1]/terminal[1]"),
          ("syntax/rule[1]/optional[1]", "syntax/rule[1]/repetition[1]")] ∧
      Common a b [1, 1] ∧ Resolves b "syntax/rule[1]/repetition[1]" [1, 1] ∧
      place a [1, 1] ≠ place b [1, 1] := by
  obtain ⟨a, b, s, t, ha, hb, hdifferences, hcommon, hs, ht, hkind, hplace⟩ : ∃ a b s t : Node,
      parse "a = b | \"c\"; d = [ e ];" = .ok a ∧
      parse "x = b | \"z\"; d = \x7b e \x7d;" = .ok b ∧
      (differences a b).map (fun d => (d.placeA, d.placeB)) =
        [("syntax/rule[0]", "syntax/rule[0]"),
          ("syntax/rule[0]/identifier[0]", "syntax/rule[0]/identifier[0]"),
          ("syntax/rule[0]/choice[1]/terminal[1]", "syntax/rule[0]/choice[1]/terminal[1]"),
          ("syntax/rule[1]/optional[1]", "syntax/rule[1]/repetition[1]")] ∧
      isCommon a b [1, 1] = true ∧ a.descend [1, 1] = .ok s ∧ b.descend [1, 1] = .ok t ∧
      s.label.kind ≠ t.label.kind ∧ place b [1, 1] = "syntax/rule[1]/repetition[1]" := by
    refine ⟨.node (.grammar "" Content.defaultMeta) [
        .node (.rule "a") [Tree.leaf (.identifier "a"),
          .node .choice [Tree.leaf (.identifier "b"), Tree.leaf (.terminal "c")]],
        .node (.rule "d") [Tree.leaf (.identifier "d"),
          .node .optional [Tree.leaf (.identifier "e")]]],
      .node (.grammar "" Content.defaultMeta) [
        .node (.rule "x") [Tree.leaf (.identifier "x"),
          .node .choice [Tree.leaf (.identifier "b"), Tree.leaf (.terminal "z")]],
        .node (.rule "d") [Tree.leaf (.identifier "d"),
          .node .repetition [Tree.leaf (.identifier "e")]]],
      .node .optional [Tree.leaf (.identifier "e")],
      .node .repetition [Tree.leaf (.identifier "e")], ?_⟩
    exact ⟨by decide +kernel, by decide +kernel, by decide +kernel, by decide +kernel, rfl, rfl,
      by decide, by decide +kernel⟩
  have hway : Common a b [1, 1] := isCommon_iff.1 hcommon
  obtain ⟨-, -, -, -, -, hplaces, -⟩ := differences_at_common_ways a b
  obtain ⟨s', t', hs', ht', -, -, -, hresolves, hequal, -⟩ := hplaces [1, 1] hway
  obtain rfl := Except.ok.inj (hs.symm.trans hs')
  obtain rfl := Except.ok.inj (ht.symm.trans ht')
  rw [hplace] at hresolves
  exact ⟨a, b, ha, hb, hdifferences, hway, hresolves, fun h => hkind (hequal.1 h)⟩

end GrammarTree
