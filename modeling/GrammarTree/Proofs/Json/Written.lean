/-
# Reading what is written as JSON

`Written` says which texts a JSON value may be written as, if it is made of strings, arrays and
objects: between its parts there may be any blanks.  A value without blanks is written in this way
(`written_compact`), and so is one with each item on a line of its own (`written_pretty`).  Whichever
way a value is written, it is what is read (`read?_of_written`).

A string is read part by part.  A character that is written by its number comes out as a code unit,
which denotes the character, for the characters written so are no surrogates.
-/
import Mathlib.Tactic.Lemma
import GrammarTree.Json.Reader

namespace GrammarTree.Json

/-! ### Strings -/

/-- A part of a string stands for a character. -/
def StringPart.Denotes (c : Char) : StringPart → Prop
  | char d => d = c
  | unit n => n = c.toNat ∧ n < 0xD800

lemma joinParts?_cons {c : Char} {p : StringPart} (h : p.Denotes c) (parts : List StringPart) :
    joinParts? (p :: parts) = (joinParts? parts).map (c :: ·) := by
  cases p with
  | char d =>
    cases h
    rw [joinParts?]
  | unit n =>
    obtain ⟨rfl, hlt⟩ := h
    have hhigh : isHighSurrogate c.toNat = false := by
      simp only [isHighSurrogate, Bool.and_eq_false_iff, decide_eq_false_iff_not]
      omega
    have hlow : isLowSurrogate c.toNat = false := by
      simp only [isLowSurrogate, Bool.and_eq_false_iff, decide_eq_false_iff_not]
      omega
    have hchar : Char.ofNat c.toNat = c := c.ofNat_toNat
    match parts with
    | [] => simp [joinParts?, hhigh, hlow, hchar]
    | .char d :: parts => simp [joinParts?, hhigh, hlow, hchar]
    | .unit m :: parts => simp [joinParts?, hhigh, hlow, hchar]

/-- A control character is read from its number. -/
lemma hex4?_hexDigit : ∀ n < 0x20, hex4? '0' '0' (hexDigit (n / 16)) (hexDigit (n % 16)) = some n := by
  decide

lemma readString?_cons {c : Char} (hquote : c ≠ '"') (hbackslash : c ≠ '\\')
    (hcontrol : ¬ c.toNat < 0x20) (cs : List Char) :
    readString? (c :: cs) = (readString? cs).map fun (parts, rest) => (.char c :: parts, rest) := by
  rw [readString?]
  · rw [if_neg (not_or.2 ⟨hcontrol, hbackslash⟩)]
  all_goals simp_all

/-- A character inside a string is read as a part that denotes it. -/
lemma exists_part (c : Char) : ∃ p : StringPart, p.Denotes c ∧ ∀ cs,
    readString? (escapeChar c ++ cs) =
      (readString? cs).map fun (parts, rest) => (p :: parts, rest) := by
  unfold escapeChar
  split
  case h_8 hquote hbackslash _ _ _ _ _ =>
    split
    · rename_i hlt
      refine ⟨.unit c.toNat, ⟨rfl, by omega⟩, fun cs => ?_⟩
      simp only [List.cons_append, List.nil_append]
      rw [readString?, hex4?_hexDigit _ hlt]
    · rename_i hcontrol
      exact ⟨.char c, rfl, readString?_cons hquote hbackslash hcontrol⟩
  all_goals exact ⟨.char _, rfl, fun cs => by simp [readString?, simpleEscape?]⟩

/-- The characters of a string are read up to its closing quote. -/
lemma exists_parts (cs r : List Char) : ∃ parts,
    readString? (cs.flatMap escapeChar ++ '"' :: r) = some (parts, r) ∧
      joinParts? parts = some cs := by
  induction cs with
  | nil =>
    refine ⟨[], ?_, rfl⟩
    rw [List.flatMap_nil, List.nil_append, readString?]
  | cons c cs ih =>
    obtain ⟨parts, hread, hjoin⟩ := ih
    obtain ⟨p, hp, hpart⟩ := exists_part c
    refine ⟨p :: parts, ?_, ?_⟩
    · rw [List.flatMap_cons, List.append_assoc, hpart, hread]
      rfl
    · rw [joinParts?_cons hp, hjoin]
      rfl

/-- The characters of a string with its quotes. -/
lemma toList_stringText (s : String) :
    (stringText s).toList = '"' :: (s.toList.flatMap escapeChar ++ ['"']) := by
  simp [stringText]

/-! ### Layouts -/

/-- Some blanks. -/
def Spaces (gap : List Char) : Prop := ∀ c ∈ gap, isSpace c = true

mutual

/-- The texts that a value can be written as. -/
inductive Written : Json → List Char → Prop
  | string (s : String) : Written (.string s) (stringText s).toList
  | emptyArray {gap : List Char} : Spaces gap → Written (.array []) ('[' :: gap ++ [']'])
  | array {js : List Json} {cs : List Char} : WrittenItems js cs → Written (.array js) ('[' :: cs)
  | emptyObject {gap : List Char} :
      Spaces gap → Written (.object []) ('\x7b' :: gap ++ ['\x7d'])
  | object {ms : List (String × Json)} {cs : List Char} :
      WrittenMembers ms cs → Written (.object ms) ('\x7b' :: cs)

/-- The texts that the items of an array can be written as, with the bracket behind them. -/
inductive WrittenItems : List Json → List Char → Prop
  | last {j : Json} {gap cs gap' : List Char} :
      Spaces gap → Written j cs → Spaces gap' → WrittenItems [j] (gap ++ cs ++ gap' ++ [']'])
  | cons {j : Json} {js : List Json} {gap cs gap' ds : List Char} :
      Spaces gap → Written j cs → Spaces gap' → WrittenItems js ds →
      WrittenItems (j :: js) (gap ++ cs ++ gap' ++ ',' :: ds)

/-- The texts that a member of an object can be written as. -/
inductive WrittenMember : String × Json → List Char → Prop
  | mk (key : String) {j : Json} {gap gap' mid cs mid' : List Char} :
      Spaces gap → Spaces gap' → Spaces mid → Written j cs → Spaces mid' →
      WrittenMember (key, j) (gap ++ (stringText key).toList ++ gap' ++ ':' :: mid ++ cs ++ mid')

/-- The texts that the members of an object can be written as, with the brace behind them. -/
inductive WrittenMembers : List (String × Json) → List Char → Prop
  | last {m : String × Json} {cs : List Char} :
      WrittenMember m cs → WrittenMembers [m] (cs ++ ['\x7d'])
  | cons {m : String × Json} {ms : List (String × Json)} {cs ds : List Char} :
      WrittenMember m cs → WrittenMembers ms ds → WrittenMembers (m :: ms) (cs ++ ',' :: ds)

end

variable {j : Json} {js : List Json} {ms : List (String × Json)} {gap cs : List Char} {c : Char}

/-- A character that is no blank is found behind some blanks. -/
lemma skipSpaces_delimiter (hgap : Spaces gap) (hc : isSpace c = false) (r : List Char) :
    skipSpaces (gap ++ c :: r) = c :: r := by
  rw [skipSpaces, List.dropWhile_append_of_pos hgap, List.dropWhile_cons, hc]
  rfl

/-- What a value is written with begins with a quote or an opening bracket. -/
def Opens (c : Char) : Prop := c = '"' ∨ c = '[' ∨ c = '\x7b'

lemma Opens.isSpace (h : Opens c) : isSpace c = false := by
  rcases h with rfl | rfl | rfl <;> decide

lemma Written.exists_cons (h : Written j cs) : ∃ c ds, Opens c ∧ cs = c :: ds := by
  cases h with
  | string s => exact ⟨'"', _, Or.inl rfl, toList_stringText s⟩
  | emptyArray | array => exact ⟨'[', _, Or.inr (Or.inl rfl), rfl⟩
  | emptyObject | object => exact ⟨'\x7b', _, Or.inr (Or.inr rfl), rfl⟩

/-- Nothing in front of a value is passed over but blanks. -/
lemma Written.skipSpaces (h : Written j cs) (hgap : Spaces gap) (r : List Char) :
    skipSpaces (gap ++ (cs ++ r)) = cs ++ r := by
  obtain ⟨c, ds, hc, rfl⟩ := h.exists_cons
  exact skipSpaces_delimiter hgap hc.isSpace _

/-! ### Reading a layout -/

/-- A text is read as a value, whatever follows it, with as many calls as it has characters. -/
def ReadsValue (j : Json) (cs : List Char) : Prop :=
  ∀ {n : Nat} (r : List Char), cs.length ≤ n → readValue? n (cs ++ r) = some (j, r)

/-- A text is read as the items of an array. -/
def ReadsItems (js : List Json) (cs : List Char) : Prop :=
  ∀ {n : Nat} (r : List Char), cs.length ≤ n →
    readItems? n (skipSpaces (cs ++ r)) = some (js, r)

/-- A text is read as the members of an object. -/
def ReadsMembers (ms : List (String × Json)) (cs : List Char) : Prop :=
  ∀ {n : Nat} (r : List Char), cs.length ≤ n →
    readMembers? n (skipSpaces (cs ++ r)) = some (.object ms, r)

/-- A text that is not empty leaves a call for what is behind its first character. -/
lemma exists_call {n : Nat} (h : (c :: cs).length ≤ n) : ∃ m, n = m + 1 ∧ cs.length ≤ m := by
  cases n with
  | zero => simp at h
  | succ m => exact ⟨m, rfl, Nat.le_of_succ_le_succ h⟩

lemma readsValue_string (s : String) : ReadsValue (.string s) (stringText s).toList := by
  intro n r hn
  rw [toList_stringText] at hn ⊢
  obtain ⟨n, rfl, -⟩ := exists_call hn
  obtain ⟨parts, hread, hjoin⟩ := exists_parts s.toList r
  have htext : '"' :: (s.toList.flatMap escapeChar ++ ['"']) ++ r =
      '"' :: (s.toList.flatMap escapeChar ++ '"' :: r) := by
    simp
  rw [htext, readValue?, hread]
  simp [hjoin]

lemma readsValue_emptyArray (h : Spaces gap) : ReadsValue (.array []) ('[' :: gap ++ [']']) := by
  intro n r hn
  obtain ⟨n, rfl, -⟩ := exists_call hn
  simp [readValue?, skipSpaces_delimiter h (show isSpace ']' = false by decide)]

lemma readsValue_emptyObject (h : Spaces gap) :
    ReadsValue (.object []) ('\x7b' :: gap ++ ['\x7d']) := by
  intro n r hn
  obtain ⟨n, rfl, -⟩ := exists_call hn
  simp [readValue?, skipSpaces_delimiter h (show isSpace '\x7d' = false by decide)]

/-- The items of an array begin with a value. -/
lemma WrittenItems.exists_skipSpaces (h : WrittenItems js cs) (r : List Char) :
    ∃ c ds, Opens c ∧ skipSpaces (cs ++ r) = c :: ds := by
  cases h with
  | last hgap hj _ | cons hgap hj _ _ =>
    obtain ⟨c, ds, hc, rfl⟩ := hj.exists_cons
    simp only [List.append_assoc]
    rw [hj.skipSpaces hgap]
    exact ⟨c, _, hc, rfl⟩

lemma readsValue_array (h : WrittenItems js cs) (ih : ReadsItems js cs) :
    ReadsValue (.array js) ('[' :: cs) := by
  intro n r hn
  obtain ⟨n, rfl, hlen⟩ := exists_call hn
  have hitems := ih r hlen
  obtain ⟨c, ds, hc, hskip⟩ := h.exists_skipSpaces r
  rw [hskip] at hitems
  rw [List.cons_append, readValue?, hskip]
  rcases hc with rfl | rfl | rfl <;> simp [hitems]

/-- The members of an object begin with a key. -/
lemma WrittenMembers.exists_skipSpaces (h : WrittenMembers ms cs) (r : List Char) :
    ∃ ds, skipSpaces (cs ++ r) = '"' :: ds := by
  have hmember : ∀ {m cs}, WrittenMember m cs → ∀ r,
      ∃ ds, skipSpaces (cs ++ r) = '"' :: ds := by
    rintro m cs ⟨key, hgap, _, _, _, _⟩ r
    simp only [List.append_assoc, toList_stringText, List.cons_append]
    exact ⟨_, skipSpaces_delimiter hgap (by decide) _⟩
  cases h with
  | last hm | cons hm _ =>
    rw [List.append_assoc]
    exact hmember hm _

lemma readsValue_object (h : WrittenMembers ms cs) (ih : ReadsMembers ms cs) :
    ReadsValue (.object ms) ('\x7b' :: cs) := by
  intro n r hn
  obtain ⟨n, rfl, hlen⟩ := exists_call hn
  have hmembers := ih r hlen
  obtain ⟨ds, hskip⟩ := h.exists_skipSpaces r
  rw [hskip] at hmembers
  rw [List.cons_append, readValue?, hskip]
  simp [hmembers]

lemma readsItems_last {gap' : List Char} (hgap : Spaces gap) (hj : Written j cs)
    (hgap' : Spaces gap') (ih : ReadsValue j cs) :
    ReadsItems [j] (gap ++ cs ++ gap' ++ [']']) := by
  intro n r hn
  simp only [List.length_append, List.length_singleton] at hn
  obtain ⟨n, rfl⟩ := Nat.exists_eq_add_one_of_ne_zero (show n ≠ 0 by omega)
  have htext : gap ++ cs ++ gap' ++ [']'] ++ r = gap ++ (cs ++ (gap' ++ ']' :: r)) := by
    simp
  rw [htext, hj.skipSpaces hgap, readItems?, ih _ (by omega)]
  simp [skipSpaces_delimiter hgap' (show isSpace ']' = false by decide)]

lemma readsItems_cons {gap' ds : List Char} (hgap : Spaces gap) (hj : Written j cs)
    (hgap' : Spaces gap') (ih : ReadsValue j cs) (ih' : ReadsItems js ds) :
    ReadsItems (j :: js) (gap ++ cs ++ gap' ++ ',' :: ds) := by
  intro n r hn
  simp only [List.length_append, List.length_cons] at hn
  obtain ⟨n, rfl⟩ := Nat.exists_eq_add_one_of_ne_zero (show n ≠ 0 by omega)
  have htext : gap ++ cs ++ gap' ++ ',' :: ds ++ r =
      gap ++ (cs ++ (gap' ++ ',' :: (ds ++ r))) := by
    simp
  rw [htext, hj.skipSpaces hgap, readItems?, ih _ (by omega)]
  simp [skipSpaces_delimiter hgap' (show isSpace ',' = false by decide),
    ih' (n := n) r (by omega)]

/-- A text is read as a member of an object, be it the last one or not. -/
structure ReadsMember (m : String × Json) (cs : List Char) : Prop where
  last : ∀ {n : Nat} (r : List Char), cs.length ≤ n →
    readMembers? (n + 1) (skipSpaces (cs ++ '\x7d' :: r)) = some (.object [m], r)
  more : ∀ {n : Nat} {ms : List (String × Json)} {r r' : List Char}, cs.length ≤ n →
    readMembers? n (skipSpaces r) = some (.object ms, r') →
    readMembers? (n + 1) (skipSpaces (cs ++ ',' :: r)) = some (.object (m :: ms), r')

lemma addMember_object {parts : List StringPart} {key : String}
    (h : joinParts? parts = some key.toList) (j : Json) (ms : List (String × Json)) :
    addMember parts j (.object ms) = .object ((key, j) :: ms) := by
  simp [addMember, h]

lemma readsMember {gap' mid mid' : List Char} (key : String) (hgap : Spaces gap)
    (hgap' : Spaces gap') (hmid : Spaces mid) (hj : Written j cs) (hmid' : Spaces mid')
    (ih : ReadsValue j cs) :
    ReadsMember (key, j)
      (gap ++ (stringText key).toList ++ gap' ++ ':' :: mid ++ cs ++ mid') := by
  have hquote : isSpace '"' = false := by decide
  have hcolon : isSpace ':' = false := by decide
  have hbrace : isSpace '\x7d' = false := by decide
  have hcomma : isSpace ',' = false := by decide
  constructor
  · intro n r hn
    simp only [List.length_append, List.length_cons] at hn
    obtain ⟨parts, hread, hjoin⟩ := exists_parts key.toList
      (gap' ++ ':' :: (mid ++ (cs ++ (mid' ++ '\x7d' :: r))))
    simp only [toList_stringText, List.append_assoc, List.cons_append, List.nil_append]
    rw [skipSpaces_delimiter hgap hquote, readMembers?]
    simp [hread, skipSpaces_delimiter hgap' hcolon, hj.skipSpaces hmid,
      ih (n := n) _ (by omega), skipSpaces_delimiter hmid' hbrace, addMember_object hjoin]
  · intro n ms r r' hn hmore
    simp only [List.length_append, List.length_cons] at hn
    obtain ⟨parts, hread, hjoin⟩ := exists_parts key.toList
      (gap' ++ ':' :: (mid ++ (cs ++ (mid' ++ ',' :: r))))
    simp only [toList_stringText, List.append_assoc, List.cons_append, List.nil_append]
    rw [skipSpaces_delimiter hgap hquote, readMembers?]
    simp [hread, skipSpaces_delimiter hgap' hcolon, hj.skipSpaces hmid,
      ih (n := n) _ (by omega), skipSpaces_delimiter hmid' hcomma, hmore, addMember_object hjoin]

lemma readsMembers_last {m : String × Json} (h : ReadsMember m cs) :
    ReadsMembers [m] (cs ++ ['\x7d']) := by
  intro n r hn
  simp only [List.length_append, List.length_singleton] at hn
  obtain ⟨n, rfl⟩ := Nat.exists_eq_add_one_of_ne_zero (show n ≠ 0 by omega)
  rw [List.append_assoc]
  exact h.last r (by omega)

lemma readsMembers_cons {m : String × Json} {ds : List Char} (h : ReadsMember m cs)
    (ih : ReadsMembers ms ds) : ReadsMembers (m :: ms) (cs ++ ',' :: ds) := by
  intro n r hn
  simp only [List.length_append, List.length_cons] at hn
  obtain ⟨n, rfl⟩ := Nat.exists_eq_add_one_of_ne_zero (show n ≠ 0 by omega)
  rw [List.append_assoc]
  exact h.more (by omega) (ih r (by omega))

mutual

/-- A value is read as it is written. -/
lemma Written.readsValue : ∀ {j : Json} {cs : List Char}, Written j cs → ReadsValue j cs
  | _, _, .string s => readsValue_string s
  | _, _, .emptyArray hgap => readsValue_emptyArray hgap
  | _, _, .array h => readsValue_array h h.readsItems
  | _, _, .emptyObject hgap => readsValue_emptyObject hgap
  | _, _, .object h => readsValue_object h h.readsMembers

lemma WrittenItems.readsItems :
    ∀ {js : List Json} {cs : List Char}, WrittenItems js cs → ReadsItems js cs
  | _, _, .last hgap hj hgap' => readsItems_last hgap hj hgap' hj.readsValue
  | _, _, .cons hgap hj hgap' h => readsItems_cons hgap hj hgap' hj.readsValue h.readsItems

lemma WrittenMember.readsMember :
    ∀ {m : String × Json} {cs : List Char}, WrittenMember m cs → ReadsMember m cs
  | _, _, .mk key hgap hgap' hmid hj hmid' =>
    Json.readsMember key hgap hgap' hmid hj hmid' hj.readsValue

lemma WrittenMembers.readsMembers :
    ∀ {ms : List (String × Json)} {cs : List Char}, WrittenMembers ms cs → ReadsMembers ms cs
  | _, _, .last hm => readsMembers_last hm.readsMember
  | _, _, .cons hm h => readsMembers_cons hm.readsMember h.readsMembers

end

/-- A text that a value may be written as is read as this value. -/
theorem read?_of_written {text : String} (h : Written j text.toList) : read? text = some j := by
  have hskip : skipSpaces text.toList = text.toList := by
    simpa using h.skipSpaces (show Spaces [] by simp [Spaces]) []
  have hlen : text.toList.length ≤ 2 * text.length + 1 := by
    rw [String.length_toList]
    omega
  have hread : readValue? (2 * text.length + 1) text.toList = some (j, []) := by
    simpa using h.readsValue [] hlen
  rw [read?, hskip, hread]
  rfl

/-! ### The two layouts -/

/-- A value that is made of strings, arrays and objects. -/
inductive Plain : Json → Prop
  | string (s : String) : Plain (.string s)
  | array {js : List Json} : (∀ j ∈ js, Plain j) → Plain (.array js)
  | object {ms : List (String × Json)} : (∀ m ∈ ms, Plain m.2) → Plain (.object ms)

section

variable {lead mid trail : List Char} (write : Json → List Char)

/-- Items that are all written with the same blanks in front of them. -/
lemma writtenItems_flatMap (hlead : Spaces lead) (htrail : Spaces trail)
    (h : ∀ i ∈ j :: js, Written i (write i)) :
    WrittenItems (j :: js)
      (lead ++ write j ++ js.flatMap (fun i => ',' :: lead ++ write i) ++ trail ++ [']']) := by
  induction js generalizing j with
  | nil => simpa using WrittenItems.last hlead (h j (by simp)) htrail
  | cons i js ih =>
    have hnone : Spaces [] := by simp [Spaces]
    have htail := ih fun k hk => h k (List.mem_cons_of_mem j hk)
    simpa using WrittenItems.cons hlead (h j (by simp)) hnone htail

/-- Members that are all written with the same blanks in front of the key and of the value. -/
lemma writtenMembers_flatMap {m : String × Json} (hlead : Spaces lead) (hmid : Spaces mid)
    (htrail : Spaces trail) (h : ∀ i ∈ m :: ms, Written i.2 (write i.2)) :
    WrittenMembers (m :: ms)
      (lead ++ (stringText m.1).toList ++ ':' :: mid ++ write m.2 ++
        ms.flatMap (fun i => ',' :: lead ++ (stringText i.1).toList ++ ':' :: mid ++ write i.2) ++
        trail ++ ['\x7d']) := by
  have hnone : Spaces [] := by simp [Spaces]
  induction ms generalizing m with
  | nil =>
    have hm := WrittenMember.mk m.1 hlead hnone hmid (h m (by simp)) htrail
    simpa using WrittenMembers.last hm
  | cons i ms ih =>
    have htail := ih fun k hk => h k (List.mem_cons_of_mem m hk)
    have hm := WrittenMember.mk m.1 hlead hnone hmid (h m (by simp)) hnone
    simpa using WrittenMembers.cons hm htail

end

lemma toList_compactItems (js : List Json) :
    (compactItems js).toList = js.flatMap fun j => ',' :: (compact j).toList := by
  induction js with
  | nil => rfl
  | cons j js ih => simp [compactItems, ih]

lemma toList_compactMembers (ms : List (String × Json)) :
    (compactMembers ms).toList =
      ms.flatMap fun m => ',' :: (stringText m.1).toList ++ ':' :: (compact m.2).toList := by
  induction ms with
  | nil => rfl
  | cons m ms ih => simp [compactMembers, ih]

/-- Without blanks. -/
lemma written_compact (h : Plain j) : Written j (compact j).toList := by
  have hnone : Spaces [] := by simp [Spaces]
  induction h with
  | string s => exact .string s
  | @array js h ih =>
    cases js with
    | nil => exact .emptyArray hnone
    | cons j js =>
      have hitems := writtenItems_flatMap (fun i => (compact i).toList) hnone hnone ih
      simpa [compact, toList_compactItems] using Written.array hitems
  | @object ms h ih =>
    cases ms with
    | nil => exact .emptyObject hnone
    | cons m ms =>
      have hmembers :=
        writtenMembers_flatMap (fun i => (compact i).toList) hnone hnone hnone ih
      simpa [compact, toList_compactMembers] using Written.object hmembers

lemma toList_prettyItems (level : Nat) (js : List Json) :
    (prettyItems level js).toList =
      js.flatMap fun j => ',' :: (newline level).toList ++ (prettyAt level j).toList := by
  induction js with
  | nil => rfl
  | cons j js ih => simp [prettyItems, ih]

lemma toList_prettyMembers (level : Nat) (ms : List (String × Json)) :
    (prettyMembers level ms).toList =
      ms.flatMap fun m => ',' :: (newline level).toList ++ (stringText m.1).toList ++
        ':' :: [' '] ++ (prettyAt level m.2).toList := by
  induction ms with
  | nil => rfl
  | cons m ms ih => simp [prettyMembers, ih]

lemma spaces_newline (level : Nat) : Spaces (newline level).toList := by
  intro c hc
  simp only [newline, String.toList_append, String.toList_ofList, List.mem_append] at hc
  rcases hc with hc | hc
  · obtain rfl : c = '\n' := by simpa using hc
    decide
  · rw [List.eq_of_mem_replicate hc]
    decide

/-- With each item on a line of its own. -/
lemma written_prettyAt (h : Plain j) (level : Nat) : Written j (prettyAt level j).toList := by
  have hnone : Spaces [] := by simp [Spaces]
  have hblank : Spaces [' '] := by simp [Spaces, isSpace]
  induction h generalizing level with
  | string s => exact .string s
  | @array js h ih =>
    cases js with
    | nil => simpa [prettyAt] using Written.emptyArray hnone
    | cons j js =>
      have hitems := writtenItems_flatMap (fun i => (prettyAt (level + 1) i).toList)
        (spaces_newline (level + 1)) (spaces_newline level) fun i hi => ih i hi (level + 1)
      simpa [prettyAt, toList_prettyItems] using Written.array hitems
  | @object ms h ih =>
    cases ms with
    | nil => simpa [prettyAt] using Written.emptyObject hnone
    | cons m ms =>
      have hmembers := writtenMembers_flatMap (fun i => (prettyAt (level + 1) i).toList)
        (spaces_newline (level + 1)) hblank (spaces_newline level) fun i hi => ih i hi (level + 1)
      simpa [prettyAt, toList_prettyMembers] using Written.object hmembers

lemma written_pretty (h : Plain j) : Written j (pretty j).toList := written_prettyAt h 0

end GrammarTree.Json
