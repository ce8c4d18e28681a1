import DotAttributes.Span

/-!
# Arrow types

An arrow type draws up to four shapes one behind the other. Each shape is written as a
clause: an optional `o` for the open form, an optional `l` or `r` for one half of it, and
the name of the shape. Five further names are deprecated; they take no modifiers.
-/

namespace DotAttributes.Arrow

/-- The shapes in current use. -/
inductive Primitive
  | box | crow | curve | icurve | diamond | dot | inv | none | normal | tee | vee
deriving DecidableEq, Repr

/-- The names kept for old documents. -/
inductive Deprecated
  | ediamond | openHead | halfOpen | emptyHead | invEmpty
deriving DecidableEq, Repr

namespace Primitive

/-- The name of a shape. -/
def name : Primitive → String
  | box => "box"
  | crow => "crow"
  | curve => "curve"
  | icurve => "icurve"
  | diamond => "diamond"
  | dot => "dot"
  | inv => "inv"
  | none => "none"
  | normal => "normal"
  | tee => "tee"
  | vee => "vee"

/-- All shapes in current use. -/
def all : List Primitive :=
  [box, crow, curve, icurve, diamond, dot, inv, none, normal, tee, vee]

/-- Whether the shape has an open form. -/
def acceptsOpen : Primitive → Bool
  | crow | curve | icurve | none | tee | vee => false
  | box | diamond | dot | inv | normal => true

/-- Whether the shape can be cut in half. -/
def acceptsSide : Primitive → Bool
  | dot | none => false
  | box | crow | curve | icurve | diamond | inv | normal | tee | vee => true

end Primitive

namespace Deprecated

/-- The name of a deprecated shape. -/
def name : Deprecated → String
  | ediamond => "ediamond"
  | openHead => "open"
  | halfOpen => "halfopen"
  | emptyHead => "empty"
  | invEmpty => "invempty"

/-- All deprecated shapes. -/
def all : List Deprecated := [ediamond, openHead, halfOpen, emptyHead, invEmpty]

end Deprecated

/-- A shape of either kind. -/
inductive Shape
  | primitive (shape : Primitive)
  | deprecated (shape : Deprecated)
deriving DecidableEq, Repr

namespace Shape

/-- The name of a shape. -/
def name : Shape → String
  | primitive shape => shape.name
  | deprecated shape => shape.name

/-- The shapes in current use. -/
def primitives : List Shape := Primitive.all.map primitive

/-- All shapes. -/
def all : List Shape := primitives ++ Deprecated.all.map deprecated

/-- No shape has an empty name. -/
theorem name_ne_nil (shape : Shape) : shape.name.toList ≠ [] := by
  cases shape with
  | primitive shape => cases shape <;> decide
  | deprecated shape => cases shape <;> decide

end Shape

/-- The half of a shape that is drawn. -/
inductive Side
  | left
  | right
deriving DecidableEq, Repr

/-- The letter of a half. -/
def Side.letter : Side → Char
  | left => 'l'
  | right => 'r'

/-- One shape with its modifiers; `span` is the place of the name alone. -/
structure Clause where
  isOpen : Bool
  side : Option Side
  shape : Shape
  span : Span
deriving DecidableEq, Repr

/-- The number of letters, and so of bytes, that modifiers take. -/
def modifierSize (isOpen : Bool) (side : Option Side) : Nat :=
  isOpen.toNat + side.isSome.toNat

/-- The place of a clause, modifiers included. -/
def Clause.fullSpan (c : Clause) : Span :=
  ⟨c.span.start - modifierSize c.isOpen c.side, c.span.stop⟩

/-- The number of shapes that one arrow type may combine. -/
def maxClauses : Nat := 4

end DotAttributes.Arrow

namespace DotAttributes

/-- The shapes of an arrow type, from the node outwards. -/
structure Arrow where
  clauses : List Arrow.Clause
deriving DecidableEq, Repr

/-- The clause that is written last. -/
def Arrow.last? (a : Arrow) : Option Arrow.Clause := a.clauses.getLast?

end DotAttributes
