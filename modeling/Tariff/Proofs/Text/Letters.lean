/-
# Letters

Texts of letters of ASCII, and texts in upper and in lower case.

* `isLetterCode_iff` : which texts are letter codes;
* `toUpper_toUpper` : the upper case of a text is its own upper case;
* `sameIgnoringCase_iff` : which texts are the same up to case.
-/
import Mathlib
import Tariff.Text.Name

namespace Tariff

/-- A letter code has letters only, as many as it should have. -/
theorem isLetterCode_iff {n : Nat} {s : String} :
    isLetterCode n s = true ↔ s.toList.length = n ∧ ∀ c ∈ s.toList, c.isAlpha = true := by
  rw [isLetterCode, Bool.and_eq_true, beq_iff_eq, List.all_eq_true]

/-- The upper case of a text is taken character by character, -/
theorem toList_toUpper (s : String) : s.toUpper.toList = s.toList.map Char.toUpper :=
  String.toList_map

/-- and so is the lower case. -/
theorem toList_toLower (s : String) : s.toLower.toList = s.toList.map Char.toLower :=
  String.toList_map

/-- A text in upper case is its own upper case. -/
theorem toUpper_toUpper (s : String) : s.toUpper.toUpper = s.toUpper := by
  apply String.toList_inj.mp
  rw [toList_toUpper, toList_toUpper, List.map_map]
  exact List.map_congr_left fun c _ => Char.toUpper_toUpper_eq_toUpper c

/-- Texts are the same up to case when their characters are. -/
theorem sameIgnoringCase_iff {a b : String} :
    sameIgnoringCase a b = true ↔ a.toList.map Char.toLower = b.toList.map Char.toLower := by
  rw [sameIgnoringCase, beq_iff_eq, ← String.toList_inj, toList_toLower, toList_toLower]

end Tariff
