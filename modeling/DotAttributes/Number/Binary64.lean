/-!
# Binary floating point numbers of sixty-four bits

A number is kept as its sign and its other sixty-three bits. Read as a natural number these
bits order the magnitudes: zero first, then the finite ones, then infinity, then the
patterns that are not numbers.

* `Binary64.key` orders the numbers, both zeros alike; `<` and `≤` compare keys and never
  hold of a pattern that is not a number.
* `Binary64.ofRatio` is the number nearest to a fraction, ties going to the even neighbour.
-/

namespace DotAttributes

-- Powers here are those of `Nat` itself, whatever other powers an importing file brings in.
attribute [local instance (high)] instPowNat

/-- A binary floating point number: its sign bit and the sixty-three bits below it. -/
structure Binary64 where
  negative : Bool
  magnitude : Fin (2 ^ (63 : Nat))
deriving DecidableEq, Repr

namespace Binary64

/-! ## Bit patterns -/

/-- The number of bits of the fraction. -/
def fractionBits : Nat := 52

/-- The magnitude of infinity: all bits of the exponent, no bit of the fraction. -/
def infinite : Nat := 2047 * 2 ^ (52 : Nat)

/-- The number with the given bit pattern. -/
def ofBits (bits : UInt64) : Binary64 :=
  ⟨2 ^ (63 : Nat) ≤ bits.toNat, Fin.ofNat (2 ^ (63 : Nat)) bits.toNat⟩

/-- The bit pattern of a number. -/
def toBits (x : Binary64) : UInt64 :=
  UInt64.ofNat ((if x.negative then 2 ^ (63 : Nat) else 0) + x.magnitude)

/-- Whether the pattern stands for no number. -/
def isNaN (x : Binary64) : Bool := infinite < x.magnitude.val

/-- Whether the number is neither infinite nor missing. -/
def isFinite (x : Binary64) : Bool := x.magnitude.val < infinite

/-- The infinity of the given sign. -/
def infinity (negative : Bool) : Binary64 := ⟨negative, Fin.ofNat _ infinite⟩

/-- The pattern, of the given sign, that stands for no number. -/
def nan (negative : Bool) : Binary64 := ⟨negative, Fin.ofNat _ (infinite + 2 ^ (51 : Nat))⟩

/-- The zero of the given sign. -/
def zero (negative : Bool) : Binary64 := ⟨negative, 0⟩

/-! ## Order -/

/-- The signed magnitude, by which numbers are compared; it is zero for both zeros. -/
def key (x : Binary64) : Int := if x.negative then -(x.magnitude.val : Int) else x.magnitude.val

instance : LT Binary64 := ⟨fun x y => x.isNaN = false ∧ y.isNaN = false ∧ x.key < y.key⟩

instance : LE Binary64 := ⟨fun x y => x.isNaN = false ∧ y.isNaN = false ∧ x.key ≤ y.key⟩

theorem lt_def {x y : Binary64} :
    x < y ↔ x.isNaN = false ∧ y.isNaN = false ∧ x.key < y.key := Iff.rfl

theorem le_def {x y : Binary64} :
    x ≤ y ↔ x.isNaN = false ∧ y.isNaN = false ∧ x.key ≤ y.key := Iff.rfl

instance (x y : Binary64) : Decidable (x < y) := decidable_of_iff _ lt_def.symm

instance (x y : Binary64) : Decidable (x ≤ y) := decidable_of_iff _ le_def.symm

/-! ## Significand and exponent -/

/-- The eleven bits of the exponent. -/
def biased (x : Binary64) : Nat := x.magnitude / 2 ^ (52 : Nat)

/-- The integer `m` of the value `m · 2 ^ e` of a finite number. -/
def significand (x : Binary64) : Nat :=
  if x.biased = 0 then x.magnitude else x.magnitude % 2 ^ (52 : Nat) + 2 ^ (52 : Nat)

/-- The exponent `e` of the value `m · 2 ^ e` of a finite number. -/
def exponent (x : Binary64) : Int := if x.biased = 0 then -1074 else x.biased - 1075

/-! ## Rounding -/

/-- The quotient of two natural numbers, rounded to the nearest one, a tie going to the even
neighbour. -/
def roundDiv (a b : Nat) : Nat :=
  let q := a / b
  let r := a % b
  if b < 2 * r ∨ (b = 2 * r ∧ q % 2 = 1) then q + 1 else q

/-- The fraction `n / (d · 2 ^ e)` as a numerator and a denominator. -/
def scale (n d : Nat) (e : Int) : Nat × Nat :=
  if 0 ≤ e then (n, d * 2 ^ e.toNat) else (n * 2 ^ (-e).toNat, d)

/-- The exponent at which `n / d` has a significand of fifty-three bits, or the smallest
exponent there is. -/
def roundingExponent (n d : Nat) : Int :=
  let e := (n.log2 : Int) - d.log2 - 52
  let (a, b) := scale n d e
  max (if a / b < 2 ^ (52 : Nat) then e - 1 else e) (-1074)

/-- The magnitude of the number nearest to `n / d`. A significand that rounds up to the next
power of two carries into the exponent, and one that leaves the range becomes infinite. -/
def nearestMagnitude (n d : Nat) : Nat :=
  let e := roundingExponent n d
  let (a, b) := scale n d e
  min ((e + 1074).toNat * 2 ^ (52 : Nat) + roundDiv a b) infinite

/-- The number nearest to a fraction. -/
def ofRatio (negative : Bool) (n d : Nat) : Binary64 :=
  if n = 0 then zero negative else ⟨negative, Fin.ofNat _ (nearestMagnitude n d)⟩

/-- The number nearest to an integer. -/
def ofInt (n : Int) : Binary64 := ofRatio (n < 0) n.natAbs 1

end Binary64

end DotAttributes
