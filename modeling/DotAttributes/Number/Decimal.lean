import DotAttributes.Number.Binary64
import DotAttributes.Number.Integer
import DotAttributes.Text.Case

/-!
# Decimal fractions and floating point literals

A decimal fraction is a signed coefficient times a power of ten. Its literal is an optional
sign, digits with at most one point among, before or after them, and an optional exponent.

* `Decimal.read?` reads a literal and forgets nothing but the way it was written.
* `Decimal.toBinary64` is the floating point number nearest to a decimal fraction.
* `Binary64.read` reads a floating point literal, the names of infinity and of the missing
  number included.
-/

namespace DotAttributes

/-- The number `± coefficient · 10 ^ exponent`. -/
structure Decimal where
  negative : Bool
  coefficient : Nat
  exponent : Int
deriving DecidableEq, Repr

namespace Decimal

-- Powers here are those of `Nat` itself, whatever other powers an importing file brings in.
attribute [local instance (high)] instPowNat

/-- The natural number written with the given digits. -/
def ofDigits (cs : List Char) : Nat := cs.foldl (fun n c => 10 * n + Integer.digitValue c) 0

/-- Takes a sign off the front of a text. -/
def takeSign : List Char → Bool × List Char
  | '-' :: cs => (true, cs)
  | '+' :: cs => (false, cs)
  | cs => (false, cs)

/-- Reads a non-empty text of digits. -/
def readNatural? (cs : List Char) : Option Nat :=
  if cs.isEmpty || !cs.all Char.isDigit then none else some (ofDigits cs)

/-- Reads what follows the digits of a literal: nothing, or an exponent. -/
def readExponent? : List Char → Option Int
  | [] => some 0
  | c :: cs =>
    if c = 'e' ∨ c = 'E' then
      let (negative, digits) := takeSign cs
      (readNatural? digits).map fun n => if negative then -(n : Int) else n
    else none

/-- Takes a point and the digits after it off the front of a text. -/
def takeFraction : List Char → List Char × List Char
  | '.' :: cs => (cs.takeWhile Char.isDigit, cs.dropWhile Char.isDigit)
  | cs => ([], cs)

/-- Reads a literal without its sign. -/
def readUnsigned? (negative : Bool) (cs : List Char) : Option Decimal :=
  let whole := cs.takeWhile Char.isDigit
  let (fraction, rest) := takeFraction (cs.dropWhile Char.isDigit)
  if whole.isEmpty && fraction.isEmpty then none
  else
    (readExponent? rest).map fun e =>
      ⟨negative, ofDigits (whole ++ fraction), e - fraction.length⟩

/-- Reads a decimal literal. -/
def read? (cs : List Char) : Option Decimal :=
  let (negative, body) := takeSign cs
  readUnsigned? negative body

/-- The number of decimal digits of a natural number. -/
def digitCount (n : Nat) : Nat := (Nat.toDigits 10 n).length

/-- The floating point number nearest to a decimal fraction. A fraction of at least
`10 ^ 309` is beyond the largest number and one below `10 ^ -324` is nearest to zero, so
that no power of ten has to be computed for them. -/
def toBinary64 (x : Decimal) : Binary64 :=
  let magnitude := digitCount x.coefficient + x.exponent
  if x.coefficient = 0 ∨ magnitude < -323 then .zero x.negative
  else if 309 < magnitude then .infinity x.negative
  else if 0 ≤ x.exponent then .ofRatio x.negative (x.coefficient * 10 ^ x.exponent.toNat) 1
  else .ofRatio x.negative x.coefficient (10 ^ (-x.exponent).toNat)

end Decimal

/-- Why a text is no floating point literal. -/
inductive FloatFault
  | empty
  | invalid
deriving DecidableEq, Repr

namespace FloatFault

/-- The wording of a fault. -/
def detail : FloatFault → String
  | empty => "cannot parse float from empty string"
  | invalid => "invalid float literal"

end FloatFault

namespace Binary64

/-- Reads the name, without a sign, of infinity or of the missing number. -/
def readName? (negative : Bool) (cs : List Char) : Option Binary64 :=
  let name := Text.foldCase cs
  if name = "inf".toList ∨ name = "infinity".toList then some (infinity negative)
  else if name = "nan".toList then some (nan negative)
  else none

/-- Reads a floating point literal. -/
def read (cs : List Char) : Except FloatFault Binary64 :=
  if cs.isEmpty then .error .empty
  else
    let (negative, body) := Decimal.takeSign cs
    match Decimal.readUnsigned? negative body with
    | some x => .ok x.toBinary64
    | none =>
      match readName? negative body with
      | some x => .ok x
      | none => .error .invalid

/-- The number that a text is the literal of, if it is one. -/
def read? (cs : List Char) : Option Binary64 := (read cs).toOption

end Binary64

end DotAttributes
