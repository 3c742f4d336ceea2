/-
# Trees without differences

Comparing two trees finds nothing exactly if they are equal, and this is so exactly if their
snapshots are.  The comparison looks at attributes and children in pairs and at no names of
attributes.  It misses nothing all the same: nodes of one kind have the same attributes in the same
order, and a different number of children is noted by itself.

So having no differences is an equivalence between trees, and between the files that hold grammars,
where it is told by the way the program ends.
-/
import Mathlib.Control.Monad.Basic
import GrammarTree.Command
import GrammarTree.Proofs.Parse.Growing
import GrammarTree.Proofs.RoundTrip
import GrammarTree.Snapshot

namespace GrammarTree

/-! ### Trees with other labels -/

section Map

variable {α β : Type} {f : α → β}

mutual

/-- Trees that are equal with other labels are equal, if no two labels become one. -/
lemma Tree.map_inj (hf : Function.Injective f) : ∀ {t u : Tree α}, t.map f = u.map f → t = u
  | .node a ts, .node b us, h => by
    rw [Tree.map, Tree.map, Tree.node.injEq] at h
    rw [hf h.1, Tree.mapAll_inj hf h.2]

lemma Tree.mapAll_inj (hf : Function.Injective f) :
    ∀ {ts us : List (Tree α)}, Tree.mapAll f ts = Tree.mapAll f us → ts = us
  | [], [], _ => rfl
  | t :: ts, u :: us, h => by
    rw [Tree.mapAll, Tree.mapAll, List.cons.injEq] at h
    rw [Tree.map_inj hf h.1, Tree.mapAll_inj hf h.2]

end

end Map

/-! ### Snapshots -/

/-- Every kind is found under its name. -/
lemma Kind.ofName_name (k : Kind) : Kind.ofName k.name = .ok k := by
  cases k <;> rfl

lemma Kind.name_injective : Function.Injective Kind.name := by
  intro k l h
  have hfound : (.ok k : Except UnknownKind Kind) = .ok l := by
    rw [← Kind.ofName_name k, h, Kind.ofName_name l]
  exact Except.ok.inj hfound

/-- The name of a kind consists of small letters. -/
lemma Kind.isLower_of_mem_name (k : Kind) : ∀ a ∈ k.name.toList, a.isLower = true := by
  have hall : k.name.toList.all Char.isLower = true := by
    cases k <;> decide
  exact List.all_eq_true.1 hall

/-- The name of a kind is told from what follows it, if this is no small letter. -/
lemma Kind.name_append_inj {k l : Kind} {x y : Char} {xs ys : List Char}
    (hx : x.isLower = false) (hy : y.isLower = false)
    (h : k.name.toList ++ x :: xs = l.name.toList ++ y :: ys) : k = l ∧ x :: xs = y :: ys := by
  obtain ⟨hname, rfl, rfl⟩ := append_cons_inj_of_class (p := (·.isLower = true))
    k.isLower_of_mem_name l.isLower_of_mem_name (by simp [hx]) (by simp [hy]) h
  exact ⟨Kind.name_injective (String.toList_inj.1 hname), rfl⟩

namespace Content

/-- The texts of a content are among those of its record. -/
lemma values_eq_of_record {c d : Content} (hkind : c.kind = d.kind) (h : c.record = d.record) :
    c.values = d.values := by
  have hlabel : c.label?.getD "" = d.label?.getD "" := congrArg Record.label h
  cases c with
  | grammar title about =>
    cases d with
    | grammar title' about' =>
      -- the title is the label, and the meta text stands first among the attributes
      have hentries : [("meta", about), ("title", title)] = [("meta", about'), ("title", title')] :=
        congrArg (fun r => r.attributes.entries) h
      have habout : about = about' := (Prod.mk.inj (List.cons.inj hentries).1).2
      have htitle : title = title' := hlabel
      rw [habout, htitle]
    | _ => cases hkind
  | rule v | identifier v | terminal v | comment v =>
    cases d with
    | rule w | identifier w | terminal w | comment w =>
      have hvalue : v = w := hlabel
      rw [values, values, hvalue]
    | _ => cases hkind
  | sequence | choice | optional | repetition | group | exception =>
    cases d with
    | sequence | choice | optional | repetition | group | exception => rfl
    | _ => cases hkind

/-- The record of a content tells its kind and all its texts. -/
lemma record_injective : Function.Injective Content.record := by
  intro c d h
  have hkind : c.kind = d.kind := Kind.name_injective (congrArg Record.nodeType h)
  exact eq_of_kind_values hkind (values_eq_of_record hkind h)

lemma map_snd_attributes (c : Content) : c.attributes.map Prod.snd = c.values := by
  rw [attributes, List.map_snd_zip]
  exact Nat.le_of_eq c.length_values

end Content

lemma snapshot_injective : Function.Injective Snapshot.ofTree :=
  fun _ _ h => Tree.map_inj Content.record_injective h

/-! ### Differences -/

namespace Difference

/-- Attributes without differences have the same texts, if there are equally many. -/
lemma map_snd_of_ofAttributes {k : Kind} {placeA placeB : String} :
    ∀ {as bs : List (String × String)}, as.length = bs.length →
      ofAttributes k placeA placeB as bs = [] → as.map Prod.snd = bs.map Prod.snd
  | [], [], _, _ => rfl
  | (name, a) :: as, (name', b) :: bs, hlength, h => by
    rw [ofAttributes] at h
    split at h
    · rename_i heq
      have hrest := map_snd_of_ofAttributes (Nat.succ.inj hlength) h
      rw [List.map_cons, List.map_cons, heq, hrest]
    · cases h

/-- Contents of one kind whose attributes do not differ are equal. -/
lemma content_eq_of_ofAttributes {c d : Content} {placeA placeB : String} (hkind : c.kind = d.kind)
    (h : ofAttributes c.kind placeA placeB c.attributes d.attributes = []) : c = d := by
  have hlength : c.attributes.length = d.attributes.length := by
    have hc := congrArg List.length c.names_attributes
    have hd := congrArg List.length d.names_attributes
    rw [List.length_map] at hc hd
    rw [hc, hd, hkind]
  have hvalues := map_snd_of_ofAttributes hlength h
  rw [Content.map_snd_attributes, Content.map_snd_attributes] at hvalues
  exact Content.eq_of_kind_values hkind hvalues

mutual

/-- Trees between which nothing is noted are equal. -/
lemma eq_of_between : ∀ {t u : Tree Content} {placeA placeB : String},
    between placeA placeB t u = [] → t = u
  | .node a ts, .node b us, placeA, placeB, h => by
    rw [between] at h
    split at h
    · rename_i hkind
      obtain ⟨hfirst, hchildren⟩ := List.append_eq_nil_iff.1 h
      obtain ⟨hattributes, hcount⟩ := List.append_eq_nil_iff.1 hfirst
      have hlength : ts.length = us.length := by
        by_contra hne
        rw [if_neg hne] at hcount
        cases hcount
      rw [content_eq_of_ofAttributes hkind hattributes, eq_of_betweenAll hlength hchildren]
    · cases h

/-- Equally many trees between which nothing is noted are equal. -/
lemma eq_of_betweenAll : ∀ {ts us : List (Tree Content)} {placeA placeB : String} {index : Nat},
    ts.length = us.length → betweenAll placeA placeB index ts us = [] → ts = us
  | [], [], _, _, _, _, _ => rfl
  | t :: ts, u :: us, placeA, placeB, index, hlength, h => by
    rw [betweenAll] at h
    obtain ⟨hfirst, hrest⟩ := List.append_eq_nil_iff.1 h
    rw [eq_of_between hfirst, eq_of_betweenAll (Nat.succ.inj hlength) hrest]

end

end Difference

lemma differences_eq_nil_iff {a b : Node} : differences a b = [] ↔ a = b := by
  constructor
  · exact Difference.eq_of_between
  · rintro rfl
    exact differences_self a

lemma differences_eq_nil_iff_snapshot (a b : Node) :
    differences a b = [] ↔ Snapshot.ofTree a = Snapshot.ofTree b := by
  rw [differences_eq_nil_iff, snapshot_injective.eq_iff]

lemma equivalence_differences : Equivalence fun a b : Node => differences a b = [] := by
  simp only [differences_eq_nil_iff]
  exact eq_equivalence

/-! ### Files -/

namespace Command

/-- A file is read as a grammar exactly if there is a text in it and this text is parsed. -/
lemma readGrammar_eq_ok_iff {files : FileAccess} {path : String} {t : Node} :
    readGrammar files (some path) = .ok t ↔
      ∃ text, files.read path = .ok text ∧ parse text = .ok t := by
  rw [readGrammar, readSource]
  cases files.read path with
  | error e => exact iff_of_false nofun nofun
  | ok text =>
    rw [Parse.ok_bind]
    cases hparse : parse text with
    | error e =>
      refine iff_of_false nofun ?_
      rintro ⟨_, ⟨rfl⟩, htext⟩
      cases hparse.symm.trans htext
    | ok u =>
      constructor
      · rintro ⟨⟩
        exact ⟨text, rfl, hparse⟩
      · rintro ⟨_, ⟨rfl⟩, htext⟩
        cases hparse.symm.trans htext
        rfl

/-- The names of files that hold grammars. -/
def Readable (files : FileAccess) : Type :=
  { path : String // ∃ t, readGrammar files (some path) = .ok t }

/-- Two files that hold grammars are compared without finding a difference. -/
def Same (files : FileAccess) (p q : Readable files) : Prop :=
  (run files (.compare (some p.1) (some q.1))).ending.code = 0

/-- The program ends well if there are no differences, and with another number if there are. -/
lemma code_compare {files : FileAccess} {p q : Option String} {a b : Node}
    (ha : readGrammar files p = .ok a) (hb : readGrammar files q = .ok b) :
    (run files (.compare p q)).ending.code = 0 ↔ differences a b = [] := by
  have hrun : run files (.compare p q) = settle (compare files p q) := rfl
  rw [hrun, compare, ha, hb, Parse.ok_bind, Parse.ok_bind]
  cases differences a b with
  | nil => simp [settle, line, Ending.code, pure, Except.pure]
  | cons d ds => simp [settle, line, Ending.code, pure, Except.pure]

lemma equivalence_same (files : FileAccess) : Equivalence (Same files) where
  refl := by
    rintro ⟨p, t, ht⟩
    exact (code_compare ht ht).2 (differences_self t)
  symm := by
    rintro ⟨p, a, ha⟩ ⟨q, b, hb⟩ h
    exact (code_compare hb ha).2 (equivalence_differences.symm ((code_compare ha hb).1 h))
  trans := by
    rintro ⟨p, a, ha⟩ ⟨q, b, hb⟩ ⟨r, c, hc⟩ h h'
    refine (code_compare ha hc).2 ?_
    exact equivalence_differences.trans ((code_compare ha hb).1 h) ((code_compare hb hc).1 h')

end Command

/-! ### The theorem -/

/-- Two trees have no differences exactly if their snapshots are equal.  The trees of a forest that
was made by operations or by parsing are what the forest stores: a node's content has the kind and
the attributes of the node, and below it are the trees at its children.  Having no differences is an
equivalence between trees, and so is, between files that hold grammars, a comparison that ends with
the number 0.  A file holds the grammar that its text is parsed to. -/
theorem differences_equivalence :
    (∀ a b : Node, differences a b = [] ↔ Snapshot.ofTree a = Snapshot.ofTree b) ∧
    (∀ f : Forest, (f.Reachable ∨ ∃ source, grow source = some (.ok f)) → ∀ id < f.size,
      f.treeAt id = .node (f.content id) ((f.children id).map f.treeAt) ∧
      f.kind? id = some (f.content id).kind ∧ f.attributes id = (f.content id).attributes) ∧
    Equivalence (fun a b : Node => differences a b = []) ∧
    ∀ files, Equivalence (Command.Same files) ∧
      (∀ path t, Command.readGrammar files (some path) = .ok t ↔
        ∃ text, files.read path = .ok text ∧ parse text = .ok t) ∧
      ∀ (p q : Command.Readable files) (a b : Node),
        Command.readGrammar files (some p.1) = .ok a →
        Command.readGrammar files (some q.1) = .ok b →
        (Command.Same files p q ↔ Snapshot.ofTree a = Snapshot.ofTree b) := by
  refine ⟨differences_eq_nil_iff_snapshot, ?_, equivalence_differences, ?_⟩
  · intro f hf id hid
    have hreached : f.Reachable := by
      rcases hf with hf | ⟨source, hgrow⟩
      · exact hf
      · exact reachable_of_grow hgrow
    have hsound := Forest.sound_of_reachable hreached
    exact ⟨hsound.treeAt_eq hid, Forest.kind?_content hid, (hsound.attributes_content hid).symm⟩
  · intro files
    refine ⟨Command.equivalence_same files, fun _ _ => Command.readGrammar_eq_ok_iff, ?_⟩
    intro p q a b ha hb
    rw [← differences_eq_nil_iff_snapshot]
    exact Command.code_compare ha hb

/-- Two ways to write a grammar are compared, in either order. -/
theorem differences_of_spellings :
    ∃ (files : FileAccess) (p q : Command.Readable files),
      files.read p.1 = .ok "a = b 'c' | (*1*) d;" ∧
      files.read q.1 = .ok "\x7b a : b, \"c\" | (*1*) d. \x7d" ∧
      Command.Same files p q ∧ Command.Same files q p := by
  obtain ⟨files, tree, hreadx, hready, hparsex, hparsey⟩ : ∃ (files : FileAccess) (tree : Node),
      files.read "x" = .ok "a = b 'c' | (*1*) d;" ∧
      files.read "y" = .ok "\x7b a : b, \"c\" | (*1*) d. \x7d" ∧
      parse "a = b 'c' | (*1*) d;" = .ok tree ∧
      parse "\x7b a : b, \"c\" | (*1*) d. \x7d" = .ok tree := by
    refine ⟨⟨fun _ => true, fun path => .ok (if path = "x" then "a = b 'c' | (*1*) d;"
        else "\x7b a : b, \"c\" | (*1*) d. \x7d")⟩,
      .node (.grammar "" Content.defaultMeta) [.node (.rule "a") [Tree.leaf (.identifier "a"),
        .node .choice [
          .node .sequence [Tree.leaf (.identifier "b"), Tree.leaf (.terminal "c")],
          Tree.leaf (.comment "1"), Tree.leaf (.identifier "d")]]], ?_⟩
    exact ⟨by decide +kernel, by decide +kernel, by decide +kernel, by decide +kernel⟩
  obtain ⟨-, -, -, hfiles⟩ := differences_equivalence
  obtain ⟨hequiv, hreads, hsame⟩ := hfiles files
  have hx := (hreads "x" tree).2 ⟨_, hreadx, hparsex⟩
  have hy := (hreads "y" tree).2 ⟨_, hready, hparsey⟩
  have hxy : Command.Same files ⟨"x", tree, hx⟩ ⟨"y", tree, hy⟩ :=
    (hsame _ _ tree tree hx hy).2 rfl
  exact ⟨files, ⟨"x", tree, hx⟩, ⟨"y", tree, hy⟩, hreadx, hready, hxy, hequiv.symm hxy⟩

end GrammarTree
