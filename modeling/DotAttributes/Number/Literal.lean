import DotAttributes.Number.Shortest

/-!
# Numeric attribute values

A numeric attribute is declared as an integer or as a double, with a lower bound. A double
has to be written in digits: the names of infinity and of the missing number are refused,
while a literal beyond the largest double reads as infinity.
-/

namespace DotAttributes

/-- The two types of numeric attributes. -/
inductive NumberKind
  | int
  | double
deriving DecidableEq, Repr

/-- The name of a numeric type in messages. -/
def NumberKind.name : NumberKind → String
  | .int => "int"
  | .double => "double"

/-- A number of one of the two types: the value of an attribute, or a lower bound. -/
inductive Number
  | int (value : Int)
  | double (value : Binary64)
deriving DecidableEq, Repr

namespace Number

/-- The type of a number. -/
def kind : Number → NumberKind
  | int _ => .int
  | double _ => .double

/-- The number as a double, integers rounded to the nearest one. -/
def toBinary64 : Number → Binary64
  | int n => .ofInt n
  | double x => x

/-- The number as it is written in messages. -/
def display : Number → String
  | int n => toString n
  | double x => x.display

/-- Why a text is no number of the wanted type. -/
inductive Fault
  | integer (fault : IntegerFault)
  | float (fault : FloatFault)
deriving DecidableEq, Repr

/-- The wording of a fault. -/
def Fault.detail : Fault → String
  | integer fault => fault.detail ++ "."
  | float fault => fault.detail ++ "."

/-- Whether a text starts, after any number of signs, with a letter, as the names of infinity
and of the missing number do. -/
def isSpelledOut (cs : List Char) : Bool :=
  match cs.dropWhile fun c => c == '+' || c == '-' with
  | [] => false
  | c :: _ => c.isAlpha

/-- Reads a number of the wanted type; blanks around it are not allowed. -/
def read (kind : NumberKind) (cs : List Char) : Except Fault Number :=
  match kind with
  | .int =>
    match Integer.read cs with
    | .ok n => .ok (int n)
    | .error fault => .error (.integer fault)
  | .double =>
    if isSpelledOut cs then .error (.float .invalid)
    else
      match Binary64.read cs with
      | .ok x => .ok (double x)
      | .error fault => .error (.float fault)

end Number

end DotAttributes
