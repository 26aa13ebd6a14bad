/-
# White space

The characters with the Unicode property White_Space, and cutting them off both ends of a text.

The set differs from what a terminal shows as empty: the zero-width space, the byte order mark and
the information separators U+001C to U+001F are no members, the no-break space is one.

* `isWhiteSpace` decides the property;
* `trim` cuts the white space off both ends.
-/

namespace Ownership.Text

/-! ## 1. The property -/

/-- Holds of exactly the 25 characters with the Unicode property White_Space. -/
def isWhiteSpace (c : Char) : Bool :=
  let n := c.toNat
  (0x9 ≤ n && n ≤ 0xD) || n == 0x20 || n == 0x85 || n == 0xA0 || n == 0x1680 ||
    (0x2000 ≤ n && n ≤ 0x200A) || n == 0x2028 || n == 0x2029 || n == 0x202F || n == 0x205F ||
    n == 0x3000

/-- A space or a tab, the white space that may stand inside a word when it is escaped. -/
def isBlank (c : Char) : Bool := c == ' ' || c == '\t'

/-- Blanks are white space. -/
theorem isWhiteSpace_of_isBlank {c : Char} (h : isBlank c = true) : isWhiteSpace c = true := by
  simp only [isBlank, Bool.or_eq_true, beq_iff_eq] at h
  rcases h with rfl | rfl <;> decide

/-! ## 2. Cutting it off -/

/-- The text without the white space in front of it. -/
def trimStart (cs : List Char) : List Char := cs.dropWhile isWhiteSpace

/-- The text without the white space behind it. -/
def trimEnd (cs : List Char) : List Char := (cs.reverse.dropWhile isWhiteSpace).reverse

/-- The text without the white space around it. -/
def trim (cs : List Char) : List Char := trimEnd (trimStart cs)

end Ownership.Text
