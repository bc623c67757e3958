/-
# Blank characters

The characters of Unicode's property `White_Space`, and what reading needs to know about
them: whether a text holds nothing else, and how to cut them off at its two ends.
-/

namespace Tariff

/-- The code points of Unicode's property `White_Space`: tab to carriage return, space,
next line, no-break space and the spaces and separators above U+1680. -/
def blankCodePoints : List Nat :=
  [0x9, 0xA, 0xB, 0xC, 0xD, 0x20, 0x85, 0xA0, 0x1680,
   0x2000, 0x2001, 0x2002, 0x2003, 0x2004, 0x2005, 0x2006, 0x2007, 0x2008, 0x2009, 0x200A,
   0x2028, 0x2029, 0x202F, 0x205F, 0x3000]

/-- A character is blank when Unicode gives it the property `White_Space`. -/
def isBlank (c : Char) : Bool := blankCodePoints.contains c.toNat

/-- The characters of ASCII that are printed, but for the space, are not blank. -/
theorem isBlank_eq_false_of_printable {c : Char} (low : 0x20 < c.toNat) (high : c.toNat < 0x7F) :
    isBlank c = false := by
  simp only [isBlank, blankCodePoints, List.contains_eq_mem, decide_eq_false_iff_not,
    List.mem_cons, List.not_mem_nil, or_false]
  omega

/-- A text is blank when all its characters are; the empty text is blank. -/
def isBlankText (s : String) : Bool := s.toList.all isBlank

/-- Cuts the blank characters off both ends. -/
def trimBlanks (cs : List Char) : List Char :=
  ((cs.dropWhile isBlank).reverse.dropWhile isBlank).reverse

end Tariff
