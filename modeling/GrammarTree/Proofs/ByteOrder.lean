/-
# The order of the bytes

Texts are compared by the code points of their characters.  Their UTF-8 forms, compared byte by byte,
come in the same order (`bytes_lt_bytes`).  Of two characters with different numbers of bytes, the
longer one has the greater first byte; and where the numbers are the same, the bytes are the digits of
the code points to the base 64, the most significant one first.  `Before` compares two code points of
which the last digits have been cut off already.
-/
import Mathlib.Tactic.Lemma
import Mathlib.Tactic.SplitIfs

namespace GrammarTree

/-- The bytes of the UTF-8 form of a text. -/
def bytes (s : String) : List UInt8 := s.toUTF8.data.toList

lemma bytes_eq (s : String) : bytes s = s.toList.flatMap String.utf8EncodeChar := by
  rw [bytes, String.toUTF8_eq_toByteArray, ← String.utf8Encode_toList, List.utf8Encode,
    List.data_toByteArray]

section Digits

variable {m n a b : Nat} {x y : List UInt8}

lemma byte_cons_lt (hab : a < b) (hb : b < 256) : UInt8.ofNat a :: x < UInt8.ofNat b :: y := by
  refine List.cons_lt_cons_iff.2 (Or.inl ?_)
  have ha : a < 256 := Nat.lt_trans hab hb
  rwa [UInt8.lt_iff_toNat_lt, UInt8.toNat_ofNat_of_lt' ha, UInt8.toNat_ofNat_of_lt' hb]

/-- The number `m` with the bytes `x` behind it comes before `n` with `y` behind it. -/
def Before (m n : Nat) (x y : List UInt8) : Prop := m < n ∨ m = n ∧ x < y

/-- The last digit is written in front of the bytes. -/
lemma Before.digit (h : Before m n x y) :
    Before (m / 64) (n / 64) (UInt8.ofNat (m % 64 + 128) :: x)
      (UInt8.ofNat (n % 64 + 128) :: y) := by
  rcases h with hlt | ⟨rfl, hxy⟩
  · rcases Nat.lt_or_ge (m / 64) (n / 64) with hfront | hfront
    · exact Or.inl hfront
    · exact Or.inr ⟨by omega, byte_cons_lt (by omega) (by omega)⟩
  · exact Or.inr ⟨rfl, List.cons_lt_cons_iff.2 (Or.inr ⟨rfl, hxy⟩)⟩

/-- What is left in front of the digits is written into the first byte. -/
lemma Before.first (h : Before m n x y) {k : Nat} (hn : n + k < 256) :
    UInt8.ofNat (m + k) :: x < UInt8.ofNat (n + k) :: y := by
  rcases h with hlt | ⟨rfl, hxy⟩
  · exact byte_cons_lt (by omega) hn
  · exact List.cons_lt_cons_iff.2 (Or.inr ⟨rfl, hxy⟩)

end Digits

/-- A lesser character has lesser bytes, whatever follows. -/
lemma utf8EncodeChar_append_lt {c d : Char} (h : c < d) (x y : List UInt8) :
    String.utf8EncodeChar c ++ x < String.utf8EncodeChar d ++ y := by
  have hlt : c.val.toNat < d.val.toNat := h
  have hd : d.val.toNat < 0x110000 := by
    rcases d.valid with hd | ⟨-, hd⟩
    · exact Nat.lt_trans hd (by decide)
    · exact hd
  unfold String.utf8EncodeChar
  generalize c.val.toNat = m at hlt
  generalize d.val.toNat = n at hlt hd
  have hbefore : Before m n x y := Or.inl hlt
  have h₁₂ : ∀ k, k / 4096 = k / 64 / 64 := fun k => by omega
  have h₁₈ : ∀ k, k / 262144 = k / 64 / 64 / 64 := fun k => by omega
  simp only [h₁₂, h₁₈]
  -- first by the number of bytes of the first character, then by that of the second one
  split
  · split
    · exact hbefore.first (k := 0) (by omega)
    · split_ifs <;> exact byte_cons_lt (by omega) (by omega)
  · rw [if_neg (show ¬ n ≤ 127 by omega)]
    split
    · split
      · rw [Nat.mod_eq_of_lt (show m / 64 < 32 by omega),
          Nat.mod_eq_of_lt (show n / 64 < 32 by omega)]
        exact hbefore.digit.first (by omega)
      · split_ifs <;> exact byte_cons_lt (by omega) (by omega)
    · rw [if_neg (show ¬ n ≤ 2047 by omega)]
      split
      · split
        · rw [Nat.mod_eq_of_lt (show m / 64 / 64 < 16 by omega),
            Nat.mod_eq_of_lt (show n / 64 / 64 < 16 by omega)]
          exact hbefore.digit.digit.first (by omega)
        · exact byte_cons_lt (by omega) (by omega)
      · rw [if_neg (show ¬ n ≤ 65535 by omega),
          Nat.mod_eq_of_lt (show m / 64 / 64 / 64 < 8 by omega),
          Nat.mod_eq_of_lt (show n / 64 / 64 / 64 < 8 by omega)]
        exact hbefore.digit.digit.digit.first (by omega)

/-- A lesser text has lesser bytes. -/
lemma bytes_lt_bytes {a b : String} (h : a < b) : bytes a < bytes b := by
  rw [bytes_eq, bytes_eq]
  have hlist : ∀ cs ds : List Char, cs < ds →
      cs.flatMap String.utf8EncodeChar < ds.flatMap String.utf8EncodeChar := by
    intro cs ds hlt
    induction hlt with
    | @nil d ds =>
      have hlength : 0 < (String.utf8EncodeChar d).length := by
        rw [String.length_utf8EncodeChar]
        exact d.utf8Size_pos
      obtain ⟨b, bs, hb⟩ := List.exists_cons_of_length_pos hlength
      rw [List.flatMap_nil, List.flatMap_cons, hb]
      exact List.nil_lt_cons _ _
    | rel hcd => exact utf8EncodeChar_append_lt hcd _ _
    | cons _ ih => exact List.append_left_lt ih
  exact hlist _ _ (String.lt_iff.1 h)

end GrammarTree
