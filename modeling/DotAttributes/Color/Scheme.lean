import DotAttributes.Color.Palette
import DotAttributes.Number.Decimal
import DotAttributes.Text.Basic
import DotAttributes.Text.Case

/-!
# Color schemes

A scheme is a set of color names. Two schemes have proper names; the Brewer schemes are
named after a family and a number of colors, and their colors are the numbers up to that
one. Letters are compared without regard to case, numbers only in their plain form.

* `Scheme.find?` finds a scheme by its name, `Scheme.contains` says whether a color is in it.
-/

namespace DotAttributes

/-- A known color scheme. -/
inductive Scheme
  | x11
  | svg
  | brewer (family : String) (size : Nat)
deriving DecidableEq, Repr

namespace Scheme

/-- The scheme of colors for which none is chosen. -/
def default : String := "x11"

/-- Reads a number of at most 255 in its plain form: no sign and no zero in front. -/
def readIndex? (cs : List Char) : Option Nat :=
  match Decimal.readNatural? cs with
  | some n =>
    if (cs.length = 1 ∨ cs.head? ≠ some '0') ∧ n ≤ 255 then some n else none
  | none => none

/-- The scheme of a family whose size is written behind the name of the family. -/
def ofFamily? (name : List Char) (family : Palette.Family) : Option Scheme :=
  match (Text.after? family.name.toList name).bind readIndex? with
  | some size =>
    if family.smallest ≤ size ∧ size ≤ family.largest then some (brewer family.name size) else none
  | none => none

/-- Finds a scheme by its name, ignoring case. -/
def find? (name : List Char) : Option Scheme :=
  let folded := Text.foldCase name
  if folded = "x11".toList then some x11
  else if folded = "svg".toList then some svg
  else Palette.families.findSome? (ofFamily? folded)

/-- A text without the digits at its end, and these digits. -/
def splitDigits (cs : List Char) : List Char × List Char :=
  ((cs.reverse.dropWhile Char.isDigit).reverse, (cs.reverse.takeWhile Char.isDigit).reverse)

theorem splitDigits_append (cs : List Char) : (splitDigits cs).1 ++ (splitDigits cs).2 = cs := by
  rw [splitDigits, ← List.reverse_append, List.takeWhile_append_dropWhile, List.reverse_reverse]

/-- Whether a list of names has a text. -/
def isAmong (names : List String) (cs : List Char) : Bool := names.contains (String.ofList cs)

/-- Whether a name, written in small letters, is a color of the scheme `x11`. -/
def isX11 (color : List Char) : Bool :=
  if isAmong Palette.x11Plain color || isAmong Palette.x11Numbered color ||
      isAmong Palette.x11Grays color then true
  else
    let (base, digits) := splitDigits color
    match readIndex? digits with
    | none => false
    | some number =>
      if isAmong Palette.x11Grays base then number ≤ 100
      else isAmong Palette.x11Numbered base && (1 ≤ number && number ≤ 4)

/-- Whether a scheme has a color, ignoring case. -/
def contains (scheme : Scheme) (color : List Char) : Bool :=
  let folded := Text.foldCase color
  match scheme with
  | x11 => isX11 folded
  | svg => isAmong Palette.svg folded
  | brewer _ size =>
    match readIndex? folded with
    | some index => 1 ≤ index && index ≤ size
    | none => false

end Scheme

end DotAttributes
