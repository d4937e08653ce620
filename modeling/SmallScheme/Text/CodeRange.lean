namespace SmallScheme.Text

/-!
# Sets of characters given by code point ranges

A property of characters that a standard fixes is a list of closed ranges of code points.  This
module says what it means for a character to lie in such a list.
-/

/-- Closed ranges of code points, lowest first. -/
abbrev CodeRanges := List (Nat × Nat)

/-- The character lies in one of the ranges. -/
def CodeRanges.contains
    (ranges : CodeRanges)
    (character : Char) : Bool :=
  ranges.any fun (low, high) => low ≤ character.toNat && character.toNat ≤ high

/-!
## Blank characters

The characters with the Unicode property `White_Space`.  Every one of them ends a token; only the
four that `isLayout` names may stand between two data.
-/

/-- The code points with the property `White_Space`. -/
def blankRanges : CodeRanges := [
    (0x9, 0xd), (0x20, 0x20), (0x85, 0x85), (0xa0, 0xa0), (0x1680, 0x1680), (0x2000, 0x200a),
    (0x2028, 0x2029), (0x202f, 0x202f), (0x205f, 0x205f), (0x3000, 0x3000)]

/-- The character has the property `White_Space`. -/
def isBlank (character : Char) : Bool :=
  blankRanges.contains character

/-- The blanks that the reader skips between data: space, tab, carriage return and line feed. -/
def isLayout (character : Char) : Bool :=
  character = ' ' || character = '\t' || character = '\r' || character = '\n'

/-- Whatever may stand between data also ends a token. -/
theorem isBlank_of_isLayout
    {character : Char}
    (layout : isLayout character = true) :
    isBlank character = true := by
  simp only [isLayout, Bool.or_eq_true, decide_eq_true_eq] at layout
  rcases layout with ((rfl | rfl) | rfl) | rfl <;> decide

end SmallScheme.Text
