/-
# Dictionaries

Values under texts, kept in the order of the texts.  This order compares characters by code point,
which is the order of the bytes of the UTF-8 forms.  A later value replaces an earlier one under the
same key.
-/

namespace GrammarTree

/-- Values under keys; the keys increase. -/
structure Dictionary (β : Type) where
  /-- The keys with their values. -/
  entries : List (String × β)
  /-- Each key is less than all behind it. -/
  increasing : entries.Pairwise fun a b => a.1 < b.1
deriving DecidableEq

namespace Dictionary

variable {β : Type}

/-- A list of entries with a value put at its place. -/
def put (key : String) (value : β) : List (String × β) → List (String × β)
  | [] => [(key, value)]
  | (k, v) :: rest =>
    if key < k then (key, value) :: (k, v) :: rest
    else if key = k then (key, value) :: rest
    else (k, v) :: put key value rest

theorem fst_mem_put {key : String} {value : β} {entries : List (String × β)} {e : String × β}
    (h : e ∈ put key value entries) : e.1 = key ∨ e ∈ entries := by
  fun_induction put key value entries <;> grind

theorem pairwise_put (key : String) (value : β) {entries : List (String × β)}
    (h : entries.Pairwise fun a b => a.1 < b.1) :
    (put key value entries).Pairwise fun a b => a.1 < b.1 := by
  fun_induction put key value entries with
  | case1 => simp
  | case2 k v rest hlt =>
    refine List.pairwise_cons.2 ⟨?_, h⟩
    intro e he
    rcases List.mem_cons.1 he with rfl | he
    · exact hlt
    · exact String.lt_trans hlt ((List.pairwise_cons.1 h).1 e he)
  | case3 v rest hlt =>
    exact List.pairwise_cons.2 ⟨fun e he => (List.pairwise_cons.1 h).1 e he,
      (List.pairwise_cons.1 h).2⟩
  | case4 k v rest hlt hne ih =>
    refine List.pairwise_cons.2 ⟨?_, ih (List.pairwise_cons.1 h).2⟩
    intro e he
    rcases fst_mem_put he with heq | he
    · rw [heq]
      rcases Std.lt_trichotomy key k with hlt' | heq' | hgt
      · exact absurd hlt' hlt
      · exact absurd heq' hne
      · exact hgt
    · exact (List.pairwise_cons.1 h).1 e he

/-- No keys. -/
def empty : Dictionary β := ⟨[], List.Pairwise.nil⟩

instance : Inhabited (Dictionary β) := ⟨empty⟩

/-- Puts a value under a key. -/
def insert (d : Dictionary β) (key : String) (value : β) : Dictionary β :=
  ⟨put key value d.entries, pairwise_put key value d.increasing⟩

/-- The value under a key. -/
def get? (d : Dictionary β) (key : String) : Option β := d.entries.lookup key

/-- Whether there is a value under a key. -/
def contains (d : Dictionary β) (key : String) : Bool := (d.get? key).isSome

/-- All keys in order. -/
def keys (d : Dictionary β) : List String := d.entries.map (·.1)

/-- The dictionary of some entries; of two with the same key the later one counts. -/
def ofList (entries : List (String × β)) : Dictionary β :=
  entries.foldl (fun d (key, value) => d.insert key value) empty

/-- Whether there are no keys. -/
def isEmpty (d : Dictionary β) : Bool := d.entries.isEmpty

end Dictionary

end GrammarTree
