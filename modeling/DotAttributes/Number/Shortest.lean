import DotAttributes.Number.Decimal

/-!
# The shortest decimal form

Among the decimal fractions that are nearest to a given floating point number, those on the
coarsest decimal grid have the fewest digits. The form printed is the one of these that lies
closest to the number, the larger one on a tie.

* `Binary64.shortest` finds the digits and the power of ten.
* `Binary64.display` lays them out: positionally from `10 ^ -4` on and below `10 ^ 16`,
  always with a digit after the point, and with an exponent otherwise.
-/

namespace DotAttributes.Binary64

-- Powers here are those of `Nat` itself, whatever other powers an importing file brings in.
attribute [local instance (high)] instPowNat

/-! ## The decimal fractions that round to a number -/

/-- Compares `c · 10 ^ p` with `b · 2 ^ q` in whole numbers. -/
def compareDecimal (c : Nat) (p : Int) (b : Nat) (q : Int) : Ordering :=
  compare (c * 10 ^ p.toNat * 2 ^ (-q).toNat) (b * 2 ^ q.toNat * 10 ^ (-p).toNat)

/-- Whether `c · 10 ^ p` rounds to the magnitude of a finite number. In quarters of the last
place the significand is `4 m`; the half-way points are two quarters away, the lower one only
one where the spacing below is finer. They belong to the number when its significand is
even. -/
def isNearest (x : Binary64) (c : Nat) (p : Int) : Bool :=
  let m := 4 * x.significand
  let q := x.exponent - 2
  let low := if x.significand = 2 ^ (52 : Nat) ∧ 1 < x.biased then m - 1 else m - 2
  let below := compareDecimal c p low q
  let above := compareDecimal c p (m + 2) q
  if x.significand % 2 = 0 then below != .lt && above != .gt
  else below == .gt && above == .lt

/-- The largest multiple of `10 ^ p`, as a multiple, that does not exceed the magnitude. -/
def floorAt (x : Binary64) (p : Int) : Nat :=
  (x.significand * 2 ^ x.exponent.toNat * 10 ^ (-p).toNat) /
    (2 ^ (-x.exponent).toNat * 10 ^ p.toNat)

/-- The point of the grid of multiples of `10 ^ p` that lies nearest to the magnitude, among
those that round to it. Only the two neighbours of the magnitude can be that point. -/
def nearestOnGrid? (x : Binary64) (p : Int) : Option Nat :=
  let low := x.floorAt p
  match x.isNearest low p, x.isNearest (low + 1) p with
  | false, false => none
  | true, false => some low
  | false, true => some (low + 1)
  | true, true =>
    -- twice the magnitude against the sum of the two neighbours
    if compareDecimal (2 * low + 1) p (2 * x.significand) x.exponent = .gt then some low
    else some (low + 1)

/-- Tries ever finer grids, `fuel` of them, from the multiples of `10 ^ p` on. -/
def coarsest (x : Binary64) : Nat → Int → Nat × Int
  | 0, p => (x.floorAt p, p)
  | fuel + 1, p =>
    match x.nearestOnGrid? p with
    | some c => (c, p)
    | none => coarsest x fuel (p - 1)

/-- The coefficient and the power of ten of the shortest decimal form of a finite number
other than zero. The coarsest grid to try has the spacing `10 ^ 308`, the finest
`10 ^ -324`. -/
def shortest (x : Binary64) : Nat × Int := coarsest x 633 308

/-! ## Layout -/

/-- Where a number is written with an exponent instead of positionally. -/
structure DecimalLayout where
  /-- the smallest power of ten of a leading digit that is written positionally -/
  lowest : Int
  /-- the largest power of ten of a leading digit that is written positionally -/
  highest : Int

/-- Numbers from `10 ^ -4` on and below `10 ^ 16` are written positionally. -/
def boundLayout : DecimalLayout := ⟨-4, 15⟩

/-- Writes digits positionally, the first one having the weight `10 ^ lead`. At least one
digit stands on either side of the point. -/
def positional (digits : List Char) (lead : Int) : List Char :=
  if lead < 0 then '0' :: '.' :: List.replicate (-lead - 1).toNat '0' ++ digits
  else
    let places := lead.toNat + 1
    let whole := digits.take places ++ List.replicate (places - digits.length) '0'
    let fraction := digits.drop places
    whole ++ '.' :: (if fraction.isEmpty then ['0'] else fraction)

/-- Writes digits with an exponent, one digit standing before the point. -/
def scientific (digits : List Char) (lead : Int) : List Char :=
  let mantissa :=
    match digits with
    | d :: e :: rest => d :: '.' :: e :: rest
    | ds => ds
  mantissa ++ 'e' :: (toString lead).toList

/-- Writes a finite magnitude. -/
def displayMagnitude (layout : DecimalLayout) (x : Binary64) : List Char :=
  if x.magnitude.val = 0 then ['0', '.', '0']
  else
    let (c, p) := x.shortest
    let digits := Nat.toDigits 10 c
    let lead := p + digits.length - 1
    if layout.lowest ≤ lead ∧ lead ≤ layout.highest then positional digits lead
    else scientific digits lead

/-- Writes a number with the fewest digits that read back as the same number. -/
def display (x : Binary64) : String :=
  if x.isNaN then "NaN"
  else
    let sign := if x.negative then "-" else ""
    sign ++ (if x.isFinite then String.ofList (displayMagnitude boundLayout x) else "inf")

end DotAttributes.Binary64
