import DotAttributes.Text.Basic

/-!
# Blanks

The characters with the Unicode property `White_Space`, and the removal of runs of them
from the ends of a text. `Text.trimAt` also says where the trimmed text stands.
-/

namespace DotAttributes.Text

/-- Ranges of code points with the property `White_Space`, ends included. -/
def blankRanges : List (Nat × Nat) :=
  [(0x09, 0x0D), (0x20, 0x20), (0x85, 0x85), (0xA0, 0xA0), (0x1680, 0x1680), (0x2000, 0x200A),
    (0x2028, 0x2029), (0x202F, 0x202F), (0x205F, 0x205F), (0x3000, 0x3000)]

/-- Whether a character has the property `White_Space`. -/
def isBlank (c : Char) : Bool :=
  blankRanges.any fun (first, last) => first ≤ c.toNat && c.toNat ≤ last

/-- Removes the blanks at the beginning. -/
def trimStart (cs : List Char) : List Char := cs.dropWhile isBlank

/-- Removes the blanks at the end. -/
def trimEnd (cs : List Char) : List Char := (cs.reverse.dropWhile isBlank).reverse

/-- Removes the blanks at both ends. -/
def trim (cs : List Char) : List Char := trimEnd (trimStart cs)

/-- The trimmed form of a text that stands at `offset`, with its place. The place of a text
of blanks is the empty span at its end. -/
def trimAt (offset : Nat) (cs : List Char) : Located (List Char) :=
  ⟨trim cs, Span.ofSize (offset + size (cs.takeWhile isBlank)) (size (trim cs))⟩

/-- Whether a text consists of blanks only. -/
def isBlankText (cs : List Char) : Bool := cs.all isBlank

end DotAttributes.Text
