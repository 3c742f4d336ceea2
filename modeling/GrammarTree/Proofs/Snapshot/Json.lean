/-
# Snapshots read back from JSON

A snapshot is written with the members that are not empty and read with defaults for those that are
not there, so reading undoes writing (`ofJson?_toJson`) as long as there is room for the objects and
arrays of its JSON form, which lie `jsonNesting` deep.  The text of this form is read back as the
form in both layouts, hence also as the snapshot (`read?_toJson`).
-/
import Mathlib.Tactic.Lemma
import GrammarTree.Proofs.Json.Written
import GrammarTree.Snapshot.Json

namespace GrammarTree

/-! ### Dictionaries from their entries -/

namespace Dictionary

variable {β : Type}

lemma eq_of_entries_eq {d d' : Dictionary β} (h : d.entries = d'.entries) : d = d' := by
  cases d
  cases d'
  cases h
  rfl

lemma eq_empty_of_isEmpty {d : Dictionary β} (h : d.isEmpty = true) : d = empty :=
  eq_of_entries_eq (List.isEmpty_iff.1 h)

/-- A key behind all others is put at the end. -/
lemma put_of_forall_lt {key : String} {value : β} {entries : List (String × β)}
    (h : ∀ e ∈ entries, e.1 < key) : put key value entries = entries ++ [(key, value)] := by
  induction entries with
  | nil => rfl
  | cons e entries ih =>
    obtain ⟨hlt, hrest⟩ := List.forall_mem_cons.1 h
    have hne : key ≠ e.1 := (String.ne_of_lt hlt).symm
    rw [put, if_neg (String.lt_asymm hlt), if_neg hne, ih hrest]
    rfl

lemma entries_foldl_insert {entries : List (String × β)} {d : Dictionary β}
    (h : (d.entries ++ entries).Pairwise fun a b => a.1 < b.1) :
    (entries.foldl (fun d (key, value) => d.insert key value) d).entries =
      d.entries ++ entries := by
  induction entries generalizing d with
  | nil => simp
  | cons e entries ih =>
    have hlast : ∀ e' ∈ d.entries, e'.1 < e.1 := fun e' he' =>
      (List.pairwise_append.1 h).2.2 e' he' e (by simp)
    have hput : (d.insert e.1 e.2).entries = d.entries ++ [e] := put_of_forall_lt hlast
    rw [List.foldl_cons, ih (by simpa [hput] using h), hput]
    simp

/-- A dictionary is the one of its entries. -/
lemma ofList_entries (d : Dictionary β) : ofList d.entries = d :=
  eq_of_entries_eq (entries_foldl_insert (d := empty) d.increasing)

end Dictionary

namespace Snapshot

/-! ### Nesting -/

mutual

/-- The number of objects and arrays that lie within one another in the JSON form of a snapshot. -/
def jsonNesting : Snapshot → Nat
  | .node r ss =>
    1 + max (if r.attributes.isEmpty then 0 else 1)
      (if ss.isEmpty then 0 else 1 + jsonNestingAll ss)

/-- The greatest nesting of several snapshots. -/
def jsonNestingAll : List Snapshot → Nat
  | [] => 0
  | s :: ss => max (jsonNesting s) (jsonNestingAll ss)

end

variable {room : Nat} {r : Record} {ss : List Snapshot}

/-- Only a snapshot with neither attributes nor children takes no more than its own object. -/
lemma jsonNesting_le_one_iff :
    jsonNesting (.node r ss) ≤ 1 ↔ r.attributes.isEmpty = true ∧ ss.isEmpty = true := by
  rw [jsonNesting]
  cases r.attributes.isEmpty <;> cases ss.isEmpty <;> grind

/-- With room for two, the attributes fit, and it is the children that decide. -/
lemma jsonNesting_le_iff : jsonNesting (.node r ss) ≤ room + 2 ↔ jsonNestingAll ss ≤ room := by
  rw [jsonNesting]
  cases ss with
  | nil =>
    have hnone : jsonNestingAll [] = 0 := by rw [jsonNestingAll]
    simp only [List.isEmpty_nil, hnone]
    split <;> simp
  | cons s ss =>
    simp only [List.isEmpty_cons]
    split <;> simp <;> omega

/-! ### The parts of a snapshot -/

/-- The attributes of a record as they are written. -/
def attributesPart (r : Record) : Option Json :=
  if r.attributes.isEmpty then none else some r.attributesJson

/-- The children as they are written. -/
def childrenPart (ss : List Snapshot) : Option Json :=
  if ss.isEmpty then none else some (.array (toJsonAll ss))

/-- The parts are found where they are written. -/
lemma parts?_toJson (r : Record) (ss : List Snapshot) :
    parts? (toJson (.node r ss)) =
      some ⟨.string r.nodeType, .string r.label, attributesPart r, childrenPart ss⟩ := by
  cases hempty : r.attributes.isEmpty <;> cases ss <;>
    simp [toJson, toJsonAll, Record.jsonMembers, hempty, parts?, exactlyOne?, atMostOne?, valuesOf,
      attributesPart, childrenPart]

/-- Attributes are read as they are written in full. -/
lemma attributes?_attributesJson (r : Record) :
    attributes? r.attributesJson = some r.attributes := by
  have hentries : ∀ entries : List (String × String),
      (entries.map Record.attributeMember).mapM attribute? = some entries := by
    intro entries
    induction entries with
    | nil => rfl
    | cons e entries ih =>
      rw [List.map_cons, List.mapM_cons, ih]
      rfl
  rw [Record.attributesJson, attributes?, hentries, Option.map_some, Dictionary.ofList_entries]

/-! ### Reading undoes writing -/

/-- Attributes are read as they are written, also where they are left out. -/
lemma attributes?_attributesPart (r : Record) :
    orDefault? Dictionary.empty attributes? (attributesPart r) = some r.attributes := by
  unfold attributesPart
  split
  case isTrue hempty => rw [orDefault?, Dictionary.eq_empty_of_isEmpty hempty]
  case isFalse => exact attributes?_attributesJson r

/-- Children are read as they are written, also where they are left out. -/
lemma listOf?_childrenPart
    (ih : (toJsonAll ss).mapM (ofJson? room) = if jsonNestingAll ss ≤ room then some ss else none) :
    orDefault? [] (listOf? (ofJson? room)) (childrenPart ss) =
      if jsonNestingAll ss ≤ room then some ss else none := by
  cases ss with
  | nil => simp [childrenPart, orDefault?, jsonNestingAll]
  | cons s ss => exact ih

/-- Where there is only room for one object, a snapshot is read just if it takes no more. -/
lemma ofParts?_of_no_room (r : Record) (ss : List Snapshot) :
    ofParts? (fun _ => none) (fun _ => none)
        ⟨.string r.nodeType, .string r.label, attributesPart r, childrenPart ss⟩ =
      if jsonNesting (.node r ss) ≤ 1 then some (.node r ss) else none := by
  simp only [ofParts?, text?, attributesPart, childrenPart, jsonNesting_le_one_iff]
  cases hattributes : r.attributes.isEmpty <;> cases ss <;> simp [orDefault?]
  rw [← Dictionary.eq_empty_of_isEmpty hattributes]

lemma ofJson?_toJson_node
    (ih : ∀ room, (toJsonAll ss).mapM (ofJson? room) =
      if jsonNestingAll ss ≤ room then some ss else none) :
    ofJson? room (toJson (.node r ss)) =
      if jsonNesting (.node r ss) ≤ room then some (.node r ss) else none := by
  match room with
  | 0 =>
    have hpos : ¬ jsonNesting (.node r ss) ≤ 0 := by
      rw [jsonNesting]
      omega
    rw [ofJson?, if_neg hpos]
  | 1 =>
    rw [ofJson?, parts?_toJson]
    exact ofParts?_of_no_room r ss
  | room + 2 =>
    rw [ofJson?, parts?_toJson, Option.bind_some, ofParts?, attributes?_attributesPart,
      listOf?_childrenPart (ih room)]
    simp only [text?, jsonNesting_le_iff]
    split <;> rfl

mutual

/-- A snapshot is read from its JSON form just if there is room for it. -/
lemma ofJson?_toJson (room : Nat) : ∀ s : Snapshot,
    ofJson? room (toJson s) = if jsonNesting s ≤ room then some s else none
  | .node _ ss => ofJson?_toJson_node fun room => mapM_ofJson?_toJsonAll room ss

lemma mapM_ofJson?_toJsonAll (room : Nat) : ∀ ss : List Snapshot,
    (toJsonAll ss).mapM (ofJson? room) = if jsonNestingAll ss ≤ room then some ss else none
  | [] => by simp [toJsonAll, jsonNestingAll]
  | s :: ss => by
    rw [toJsonAll, List.mapM_cons, ofJson?_toJson room s, mapM_ofJson?_toJsonAll room ss]
    simp only [jsonNestingAll, Nat.max_le]
    by_cases hs : jsonNesting s ≤ room <;> by_cases hss : jsonNestingAll ss ≤ room <;>
      simp [hs, hss]

end

/-! ### The form as a text -/

lemma plain_jsonMembers (r : Record) : ∀ m ∈ r.jsonMembers, m.2.Plain := by
  intro m hm
  rcases List.mem_append.1 hm with hm | hm
  · have hname : m.2 = .string r.nodeType ∨ m.2 = .string r.label := by
      grind
    rcases hname with h | h <;> exact h ▸ .string _
  · split at hm
    · cases hm
    · obtain rfl := List.mem_singleton.1 hm
      refine .object fun m hm => ?_
      obtain ⟨e, -, rfl⟩ := List.mem_map.1 hm
      exact .string e.2

mutual

/-- The form of a snapshot has neither numbers nor truth values in it. -/
lemma plain_toJson : ∀ s : Snapshot, (toJson s).Plain
  | .node r [] => .object (plain_jsonMembers r)
  | .node r (s :: ss) => by
    have hchildren : Json.Plain (.array (toJson s :: toJsonAll ss)) :=
      .array (List.forall_mem_cons.2 ⟨plain_toJson s, plain_toJsonAll ss⟩)
    exact .object (List.forall_mem_append.2 ⟨plain_jsonMembers r, by simpa using hchildren⟩)

lemma plain_toJsonAll : ∀ ss : List Snapshot, ∀ j ∈ toJsonAll ss, j.Plain
  | [] => by simp [toJsonAll]
  | s :: ss => by
    rw [toJsonAll]
    exact List.forall_mem_cons.2 ⟨plain_toJson s, plain_toJsonAll ss⟩

end

/-- A snapshot is read back from either layout of its JSON form, unless the form is nested too
deeply: then nothing is read. -/
theorem read?_toJson (s : Snapshot) :
    read? (Json.compact (toJson s)) = (if jsonNesting s ≤ 127 then some s else none) ∧
      read? (Json.pretty (toJson s)) = (if jsonNesting s ≤ 127 then some s else none) := by
  have hcompact := Json.read?_of_written (Json.written_compact (plain_toJson s))
  have hpretty := Json.read?_of_written (Json.written_pretty (plain_toJson s))
  constructor
  · rw [read?, hcompact]
    exact ofJson?_toJson maxJsonNesting s
  · rw [read?, hpretty]
    exact ofJson?_toJson maxJsonNesting s

end Snapshot

end GrammarTree
