/-
# Texts by their bytes

Texts are compared character by character, which is to compare their bytes in UTF-8: of two
characters, the one with the smaller code point has the smaller bytes, whatever follows them.

* `utf8EncodeChar_append_lt` : the bytes of two characters;
* `lt_iff_utf8Bytes_lt` : the bytes of two texts.
-/

namespace Tariff

/-- The bytes of a text in UTF-8. -/
def utf8Bytes (text : String) : List UInt8 := text.toUTF8.data.toList

theorem utf8Bytes_eq_flatMap (text : String) :
    utf8Bytes text = text.toList.flatMap String.utf8EncodeChar := by
  have hbytes : text.toUTF8 = text.toList.utf8Encode := by
    rw [← String.toByteArray_ofList, String.ofList_toList]
    rfl
  rw [utf8Bytes, hbytes, List.utf8Encode, List.data_toByteArray]

/-! ## Characters -/

/-- The first byte decides. -/
theorem cons_lt_of_byte_lt {a b : Nat} (ha : a < 256) (hb : b < 256) (h : a < b)
    (l m : List UInt8) : UInt8.ofNat a :: l < UInt8.ofNat b :: m :=
  List.cons_lt_cons_iff.mpr (Or.inl ((UInt8.ofNat_lt_iff_lt ha hb).mpr h))

/-- A first byte that is the same one does not decide. -/
theorem cons_lt_of_byte_eq {a b : Nat} (h : a = b) {l m : List UInt8} (hrest : l < m) :
    UInt8.ofNat a :: l < UInt8.ofNat b :: m :=
  List.cons_lt_cons_iff.mpr (Or.inr ⟨congrArg UInt8.ofNat h, hrest⟩)

/-- Numbers are compared digit by digit. -/
theorem lt_digits {a b : Nat} (h : a < b) :
    a / 262144 < b / 262144 ∨ a / 262144 = b / 262144 ∧
      (a / 4096 % 64 < b / 4096 % 64 ∨ a / 4096 % 64 = b / 4096 % 64 ∧
        (a / 64 % 64 < b / 64 % 64 ∨ a / 64 % 64 = b / 64 % 64 ∧ a % 64 < b % 64)) := by
  have hfourth : a / 64 < b / 64 ∨ a / 64 = b / 64 ∧ a % 64 < b % 64 := by omega
  have hthird : a / 4096 < b / 4096 ∨ a / 4096 = b / 4096 ∧
      (a / 64 % 64 < b / 64 % 64 ∨ a / 64 % 64 = b / 64 % 64 ∧ a % 64 < b % 64) := by omega
  omega

/-- The bytes of a character come before those of a greater one, whatever follows. -/
theorem utf8EncodeChar_append_lt {c d : Char} (h : c < d) (l m : List UInt8) :
    String.utf8EncodeChar c ++ l < String.utf8EncodeChar d ++ m := by
  have hlt : c.val.toNat < d.val.toNat := h
  have hmax : d.val.toNat < 1114112 := by
    have hvalid := d.valid
    omega
  simp only [String.utf8EncodeChar]
  generalize c.val.toNat = v at hlt ⊢
  generalize d.val.toNat = w at hlt hmax ⊢
  -- Characters take one to four bytes, and the greater one as many or more. If it takes more, its
  -- first byte is greater; else the first digit that differs tells them apart.
  by_cases hone : v ≤ 127
  · rw [if_pos hone]
    repeat' split
    all_goals exact cons_lt_of_byte_lt (by omega) (by omega) (by omega) _ _
  rw [if_neg hone, if_neg (show ¬ w ≤ 127 by omega)]
  by_cases htwo : v ≤ 2047
  · rw [if_pos htwo]
    repeat' split
    · rcases lt_digits hlt with h | ⟨-, h | ⟨-, h | ⟨heq, h⟩⟩⟩
      · omega
      · omega
      · exact cons_lt_of_byte_lt (by omega) (by omega) (by omega) _ _
      · refine cons_lt_of_byte_eq (by omega) ?_
        exact cons_lt_of_byte_lt (by omega) (by omega) (by omega) _ _
    all_goals exact cons_lt_of_byte_lt (by omega) (by omega) (by omega) _ _
  rw [if_neg htwo, if_neg (show ¬ w ≤ 2047 by omega)]
  by_cases hthree : v ≤ 65535
  · rw [if_pos hthree]
    split
    · rcases lt_digits hlt with h | ⟨-, h | ⟨heq, h | ⟨heq', h⟩⟩⟩
      · omega
      · exact cons_lt_of_byte_lt (by omega) (by omega) (by omega) _ _
      · refine cons_lt_of_byte_eq (by omega) ?_
        exact cons_lt_of_byte_lt (by omega) (by omega) (by omega) _ _
      · refine cons_lt_of_byte_eq (by omega) (cons_lt_of_byte_eq (by omega) ?_)
        exact cons_lt_of_byte_lt (by omega) (by omega) (by omega) _ _
    · exact cons_lt_of_byte_lt (by omega) (by omega) (by omega) _ _
  rw [if_neg hthree, if_neg (show ¬ w ≤ 65535 by omega)]
  rcases lt_digits hlt with h | ⟨heq, h | ⟨heq', h | ⟨heq'', h⟩⟩⟩
  · exact cons_lt_of_byte_lt (by omega) (by omega) (by omega) _ _
  · refine cons_lt_of_byte_eq (by omega) ?_
    exact cons_lt_of_byte_lt (by omega) (by omega) (by omega) _ _
  · refine cons_lt_of_byte_eq (by omega) (cons_lt_of_byte_eq (by omega) ?_)
    exact cons_lt_of_byte_lt (by omega) (by omega) (by omega) _ _
  · refine cons_lt_of_byte_eq (by omega)
      (cons_lt_of_byte_eq (by omega) (cons_lt_of_byte_eq (by omega) ?_))
    exact cons_lt_of_byte_lt (by omega) (by omega) (by omega) _ _

theorem nil_lt_utf8EncodeChar_append (c : Char) (l : List UInt8) :
    [] < String.utf8EncodeChar c ++ l := by
  simp only [String.utf8EncodeChar]
  repeat' split
  all_goals exact List.nil_lt_cons _ _

/-! ## Texts -/

/-- The bytes of lists of characters are in the order of the lists. -/
theorem flatMap_utf8EncodeChar_lt {cs ds : List Char} (h : cs < ds) :
    cs.flatMap String.utf8EncodeChar < ds.flatMap String.utf8EncodeChar := by
  induction h with
  | nil => exact nil_lt_utf8EncodeChar_append _ _
  | cons h ih => exact List.append_left_lt ih
  | rel h => exact utf8EncodeChar_append_lt h _ _

/-- **Texts are in the order of their bytes.** -/
theorem lt_iff_utf8Bytes_lt {s t : String} : s < t ↔ utf8Bytes s < utf8Bytes t := by
  have hmono : ∀ {s t : String}, s < t → utf8Bytes s < utf8Bytes t := by
    intro s t h
    rw [utf8Bytes_eq_flatMap, utf8Bytes_eq_flatMap]
    exact flatMap_utf8EncodeChar_lt (String.lt_iff.mp h)
  constructor
  · exact hmono
  · intro h
    rcases String.le_total t s with hle | hle
    · rcases Std.le_iff_lt_or_eq.mp hle with hlt | rfl
      · exact absurd h (List.lt_asymm (hmono hlt))
      · exact absurd h (List.lt_irrefl _)
    · rcases Std.le_iff_lt_or_eq.mp hle with hlt | rfl
      · exact hlt
      · exact absurd h (List.lt_irrefl _)

end Tariff
