/-!
# Integer literals

Reading of decimal integers of sixty-four bits: an optional sign, then digits, and nothing
else. The text is read from the left, and the first character that is no digit, or the
first digit that leads out of range, decides the fault.
-/

namespace DotAttributes

/-- Why a text is no integer literal. -/
inductive IntegerFault
  | empty
  | badDigit
  | tooLarge
  | tooSmall
deriving DecidableEq, Repr

namespace IntegerFault

/-- The wording of a fault. -/
def detail : IntegerFault → String
  | empty => "cannot parse integer from empty string"
  | badDigit => "invalid digit found in string"
  | tooLarge => "number too large to fit in target type"
  | tooSmall => "number too small to fit in target type"

end IntegerFault

namespace Integer

-- Powers here are those of `Nat` itself, whatever other powers an importing file brings in.
attribute [local instance (high)] instPowNat

/-- The largest magnitude of an integer of the given sign. -/
def limit (negative : Bool) : Nat := if negative then 2 ^ (63 : Nat) else 2 ^ (63 : Nat) - 1

/-- The value of a digit. -/
def digitValue (c : Char) : Nat := c.toNat - '0'.toNat

/-- Reads digits behind a sign, `acc` being the magnitude of those already read. -/
def readDigits (negative : Bool) (acc : Nat) : List Char → Except IntegerFault Int
  | [] => .ok (if negative then -(acc : Int) else acc)
  | c :: cs =>
    if c.isDigit then
      if 10 * acc + digitValue c ≤ limit negative then
        readDigits negative (10 * acc + digitValue c) cs
      else .error (if negative then .tooSmall else .tooLarge)
    else .error .badDigit

/-- Reads an integer literal. -/
def read : List Char → Except IntegerFault Int
  | [] => .error .empty
  | ['-'] | ['+'] => .error .badDigit
  | '-' :: cs => readDigits true 0 cs
  | '+' :: cs => readDigits false 0 cs
  | cs => readDigits false 0 cs

/-- Whether a text is the literal of an integer between two bounds. -/
def isBetween (low high : Int) (cs : List Char) : Bool :=
  match read cs with
  | .ok n => decide (low ≤ n ∧ n ≤ high)
  | .error _ => false

end Integer

end DotAttributes
