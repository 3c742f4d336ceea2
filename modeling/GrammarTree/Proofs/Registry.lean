/-
# The format that counts

Formats are registered one after the other, and their names may be anything.  The format that counts
under a name is the last one registered that has this name (`lastNamed?`): one registration changes
what stands under its own name and nothing else (`Registry.get?_register`), and so by induction a
history of registrations leaves under each name its last format (`Registry.get?_foldl_register`).

A format may fail in any way, also with the words that there is no format of some name.  What the
registry itself has to say on a name is what it says whatever its formats do (`Registry.Refuses`).
-/
import GrammarTree.Proofs.ByteOrder
import GrammarTree.Settings

namespace GrammarTree

namespace Dictionary

variable {β γ : Type}

lemma lookup_cons_eq (k : String) (e : String × β) (entries : List (String × β)) :
    (e :: entries).lookup k = if k = e.1 then some e.2 else entries.lookup k := by
  rw [List.lookup_cons]
  by_cases h : k = e.1
  · rw [if_pos h, beq_iff_eq.2 h]
  · rw [if_neg h, beq_eq_false_iff_ne.2 h]

lemma lookup_put (key : String) (value : β) (entries : List (String × β)) (k : String) :
    (put key value entries).lookup k = if k = key then some value else entries.lookup k := by
  fun_induction put key value entries with
  | case1 => exact lookup_cons_eq k _ []
  | case2 first v rest hlt => exact lookup_cons_eq k _ _
  | case3 v rest hlt =>
    rw [lookup_cons_eq, lookup_cons_eq]
    split_ifs <;> rfl
  | case4 first v rest hlt hne ih =>
    rw [lookup_cons_eq, lookup_cons_eq, ih]
    by_cases hfirst : k = first
    · rw [if_pos hfirst, if_pos hfirst, if_neg fun h => hne (h.symm.trans hfirst)]
    · rw [if_neg hfirst, if_neg hfirst]

lemma lookup_map (g : β → γ) (entries : List (String × β)) (key : String) :
    (entries.map fun e => (e.1, g e.2)).lookup key = (entries.lookup key).map g := by
  induction entries with
  | nil => rfl
  | cons e rest ih =>
    rw [List.map_cons, lookup_cons_eq, lookup_cons_eq, ih]
    split_ifs <;> rfl

/-- What an insertion does to the value under any key. -/
lemma get?_insert (d : Dictionary β) (key : String) (value : β) (k : String) :
    (d.insert key value).get? k = if k = key then some value else d.get? k :=
  lookup_put key value d.entries k

lemma mem_keys_iff {d : Dictionary β} {key : String} : key ∈ d.keys ↔ (d.get? key).isSome := by
  rw [keys, get?, List.lookup_isSome_iff, List.mem_map]
  simp only [beq_iff_eq, @eq_comm _ key]

/-- The keys come in the order of their bytes. -/
lemma pairwise_keys (d : Dictionary β) : d.keys.Pairwise fun a b => bytes a < bytes b :=
  List.pairwise_map.2 (d.increasing.imp bytes_lt_bytes)

lemma pairwise_map (g : β → γ) {entries : List (String × β)}
    (h : entries.Pairwise fun a b => a.1 < b.1) :
    (entries.map fun e => (e.1, g e.2)).Pairwise fun a b => a.1 < b.1 :=
  List.pairwise_map.2 h

/-- The dictionary with each value replaced by its image. -/
def map (g : β → γ) (d : Dictionary β) : Dictionary γ :=
  ⟨d.entries.map fun e => (e.1, g e.2), pairwise_map g d.increasing⟩

lemma get?_map (g : β → γ) (d : Dictionary β) (key : String) :
    (d.map g).get? key = (d.get? key).map g :=
  lookup_map g d.entries key

end Dictionary

/-- A format that says the same of every tree. -/
def Format.constant (name text : String) : Format := ⟨name, "", fun _ => .ok text⟩

/-- The last of some formats that has a name. -/
def lastNamed? (fs : List Format) (name : String) : Option Format :=
  (fs.filter (·.name = name)).getLast?

lemma lastNamed?_cons (f : Format) (fs : List Format) (name : String) :
    lastNamed? (f :: fs) name = (lastNamed? fs name).or (if name = f.name then some f else none) := by
  rw [lastNamed?, lastNamed?, List.filter_cons]
  by_cases hname : f.name = name
  · rw [if_pos (decide_eq_true hname), if_pos hname.symm, List.getLast?_cons]
    cases (fs.filter (·.name = name)).getLast? <;> rfl
  · rw [if_neg (by simpa using hname), if_neg (Ne.symm hname), Option.or_none]

namespace Registry

variable {r : Registry} {t : Tree Content} {name : String}

/-! ### One registration -/

/-- A registration changes what stands under the name of the format and nothing else. -/
lemma get?_register (r : Registry) (f : Format) (name : String) :
    (r.register f).get? name = if name = f.name then some f else r.get? name :=
  r.formats.get?_insert f.name f name

lemma has_eq (r : Registry) (name : String) : r.has name = (r.get? name).isSome := rfl

lemma mem_names_iff : name ∈ r.names ↔ r.has name := Dictionary.mem_keys_iff

lemma render_eq (r : Registry) (t : Tree Content) (name : String) :
    r.render t name = (r.get? name).elim (.error (.notFound name)) (·.render t) := by
  rw [render]
  cases r.get? name <;> rfl

/-- In whatever order the names are collected, sorting puts them in this order. -/
lemma mergeSort_eq_names {ns : List String} (h : ns.Perm r.names) :
    ns.mergeSort (· ≤ ·) = r.names := by
  have hsorted : (ns.mergeSort (· ≤ ·)).Pairwise (· ≤ ·) := by
    have hpairwise := @List.pairwise_mergeSort String (fun a b => decide (a ≤ b))
      (by simpa using fun a b c => String.le_trans) (by simpa using String.le_total) ns
    simpa using hpairwise
  have hnames : r.names.Pairwise (· ≤ ·) :=
    List.pairwise_map.2 (r.formats.increasing.imp Std.le_of_lt)
  exact ((List.mergeSort_perm ns _).trans h).eq_of_pairwise (fun _ _ _ _ => String.le_antisymm)
    hsorted hnames

/-! ### What the registry itself says -/

/-- The registry whose formats render as they are told to. -/
def acting (act : Format → Tree Content → Except FormatError String) (r : Registry) : Registry :=
  ⟨r.formats.map fun f => { f with render := act f }⟩

/-- The registry itself reports that there is no format of this name: it does so whatever its
formats do. -/
def Refuses (r : Registry) (t : Tree Content) (name : String) : Prop :=
  ∀ act, (r.acting act).render t name = .error (.notFound name)

lemma get?_acting (act : Format → Tree Content → Except FormatError String) (r : Registry)
    (name : String) :
    (r.acting act).get? name = (r.get? name).map fun f => { f with render := act f } :=
  r.formats.get?_map _ name

lemma refuses_iff : r.Refuses t name ↔ r.get? name = none := by
  constructor
  · intro h
    cases hget : r.get? name with
    | none => rfl
    | some f =>
      -- formats that all succeed leave no room for a failure
      have hfails := h fun _ _ => .ok ""
      rw [render_eq, get?_acting, hget] at hfails
      cases hfails
  · intro hget act
    rw [render_eq, get?_acting, hget]
    rfl

lemma has_iff_not_refuses : r.has name ↔ ¬ r.Refuses t name := by
  rw [refuses_iff, has_eq, Option.isSome_iff_ne_none]

/-! ### Histories -/

/-- What registrations leave under a name: the last format that has it, and what stood there before
if none has. -/
lemma get?_foldl_register (fs : List Format) (r : Registry) (name : String) :
    (fs.foldl register r).get? name = (lastNamed? fs name).or (r.get? name) := by
  induction fs generalizing r with
  | nil => rfl
  | cons f fs ih =>
    rw [List.foldl_cons, ih, get?_register, lastNamed?_cons, Option.or_assoc]
    by_cases hname : name = f.name <;> simp [hname]

/-- What a history begins with. -/
inductive Beginning where
  /-- No formats. -/
  | empty
  /-- The built-in formats. -/
  | defaults
deriving DecidableEq, Repr

namespace Beginning

/-- The formats that are registered at the beginning. -/
def formats : Beginning → List Format
  | empty => []
  | defaults => [Format.text Outline.defaultIndentation, Format.xml,
      Format.treeviz Drawing.defaultWidth, Format.json, Format.yaml]

/-- The registry at the beginning. -/
def registry : Beginning → Registry
  | empty => Registry.empty
  | defaults => Registry.defaults

/-- The registry after some more formats have been registered. -/
def after (start : Beginning) (fs : List Format) : Registry := fs.foldl register start.registry

lemma registry_eq (start : Beginning) :
    start.registry = start.formats.foldl register Registry.empty := by
  cases start <;> rfl

lemma get?_after (start : Beginning) (fs : List Format) (name : String) :
    (start.after fs).get? name = lastNamed? (start.formats ++ fs) name := by
  rw [after, registry_eq, ← List.foldl_append, get?_foldl_register]
  exact Option.or_none

end Beginning

/-! ### The built-in formats -/

lemma names_builtin (indentation width : Nat) :
    (builtin indentation width).names = ["json", "text", "treeviz", "xml", "yaml"] := by
  cbv

/-- The built-in formats with other measures come from the usual ones by two registrations. -/
lemma register_defaults (indentation width : Nat) :
    (defaults.register (.text indentation)).register (.treeviz width) =
      builtin indentation width := by
  cbv

/-- A registration does not change what is rendered in a format of another name. -/
lemma render_register_of_ne {f : Format} (hname : name ≠ f.name) :
    (r.register f).render t name = r.render t name := by
  rw [render_eq, render_eq, get?_register, if_neg hname]

/-- However a registry came about, the four ways to ask for a name agree; the names come in the
order of their bytes, which is that into which sorting puts them; under each name the last format
registered counts; and a registration leaves all other names as they are.  The registry of some
settings has the five built-in formats, and three of them do not depend on the settings. -/
theorem last_registered_counts (start : Beginning) (fs : List Format) (settings : Settings) :
    (∀ name t, ((start.after fs).has name ↔ ((start.after fs).get? name).isSome) ∧
      ((start.after fs).has name ↔ name ∈ (start.after fs).names) ∧
      ((start.after fs).has name ↔ ¬ (start.after fs).Refuses t name)) ∧
    ((start.after fs).names.Pairwise fun a b => bytes a < bytes b) ∧
    (∀ ns : List String, ns.Perm (start.after fs).names →
      ns.mergeSort (· ≤ ·) = (start.after fs).names) ∧
    (∀ name, (start.after fs).get? name = lastNamed? (start.formats ++ fs) name ∧
      ∀ t, (start.after fs).render t name =
        (lastNamed? (start.formats ++ fs) name).elim (.error (.notFound name)) (·.render t)) ∧
    (∀ f name, name ≠ f.name →
      ((start.after fs).register f).has name = (start.after fs).has name ∧
      ((start.after fs).register f).get? name = (start.after fs).get? name ∧
      (name ∈ ((start.after fs).register f).names ↔ name ∈ (start.after fs).names) ∧
      ∀ t, ((start.after fs).register f).render t name = (start.after fs).render t name) ∧
    settings.registry =
      (defaults.register (.text settings.indentation)).register (.treeviz settings.maxLabel) ∧
    settings.registry.names = ["json", "text", "treeviz", "xml", "yaml"] ∧
    ∀ name ∈ ["json", "yaml", "xml"], ∀ t,
      settings.registry.render t name = defaults.render t name := by
  have hsettings := (register_defaults settings.indentation settings.maxLabel).symm
  refine ⟨fun name t => ⟨Iff.rfl, mem_names_iff.symm, has_iff_not_refuses⟩,
    Dictionary.pairwise_keys _, fun _ => mergeSort_eq_names,
    fun name => ⟨start.get?_after fs name, fun t => ?_⟩,
    fun f name hname => ?_, hsettings, names_builtin _ _, fun name hname t => ?_⟩
  · rw [render_eq, start.get?_after]
  · have hget : ((start.after fs).register f).get? name = (start.after fs).get? name := by
      rw [get?_register, if_neg hname]
    refine ⟨by rw [has_eq, has_eq, hget], hget, ?_, fun t => render_register_of_ne hname⟩
    rw [mem_names_iff, mem_names_iff, has_eq, has_eq, hget]
  · have htext : name ≠ "text" := by
      rintro rfl
      exact absurd hname (by decide)
    have htreeviz : name ≠ "treeviz" := by
      rintro rfl
      exact absurd hname (by decide)
    calc settings.registry.render t name
        = ((defaults.register (.text settings.indentation)).register
            (.treeviz settings.maxLabel)).render t name := congrArg (render · t name) hsettings
      _ = (defaults.register (.text settings.indentation)).render t name :=
          render_register_of_ne htreeviz
      _ = defaults.render t name := render_register_of_ne htext

/-- Of two formats that take the place of the XML document the second one counts, and the snapshot as
JSON stays. -/
theorem last_registered_counts_of_replaced :
    (Beginning.defaults.after [.constant "xml" "one", .constant "xml" "two"]).render
        (.leaf (.identifier "a")) "xml" = .ok "two" ∧
      ((Beginning.defaults.after [.constant "xml" "one"]).register (.constant "xml" "two")).render
          (.leaf (.identifier "a")) "json" =
        (Beginning.defaults.after [.constant "xml" "one"]).render (.leaf (.identifier "a")) "json" := by
  obtain ⟨-, -, -, hlast, -⟩ := last_registered_counts .defaults
    [.constant "xml" "one", .constant "xml" "two"] Settings.defaults
  obtain ⟨-, -, -, -, hother, -⟩ := last_registered_counts .defaults [.constant "xml" "one"]
    Settings.defaults
  exact ⟨(hlast "xml").2 _, (hother (.constant "xml" "two") "json" (by decide)).2.2.2 _⟩

end Registry

end GrammarTree
