/-!
# Ignoring case

Names of colors, schemes, shapes, tags and attributes of tags are compared after folding
the twenty-six capital letters of ASCII to small ones; no other character is folded.
-/

namespace DotAttributes.Text

/-- Replaces the capital letters of ASCII by small ones. -/
def foldCase (cs : List Char) : List Char := cs.map Char.toLower

/-- Whether two texts are equal up to the case of ASCII letters. -/
def sameIgnoringCase (cs ds : List Char) : Bool := foldCase cs == foldCase ds

/-- Whether a list of words has one that equals the text up to the case of ASCII letters. -/
def containsIgnoringCase (words : List String) (cs : List Char) : Bool :=
  words.any fun word => sameIgnoringCase word.toList cs

theorem sameIgnoringCase_iff {cs ds : List Char} :
    sameIgnoringCase cs ds = true ↔ foldCase cs = foldCase ds :=
  beq_iff_eq

theorem containsIgnoringCase_iff {words : List String} {cs : List Char} :
    containsIgnoringCase words cs = true ↔
      ∃ word ∈ words, sameIgnoringCase word.toList cs = true :=
  List.any_eq_true

/-- Texts that are the same up to case are in the same lists. -/
theorem containsIgnoringCase_congr {cs ds : List Char} (h : sameIgnoringCase cs ds = true)
    (words : List String) : containsIgnoringCase words cs = containsIgnoringCase words ds := by
  simp only [containsIgnoringCase, sameIgnoringCase, sameIgnoringCase_iff.1 h]

/-- Writes words in single quotes, separated by a comma and a space. -/
def quotedList (words : List String) : String :=
  String.intercalate ", " (words.map fun word => s!"'{word}'")

end DotAttributes.Text
