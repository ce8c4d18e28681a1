import DotAttributes.Number.Binary64
import DotAttributes.Span

/-!
# Colors

A color is given by its red, green and blue parts, by hue, saturation and value, or by a
name. A name belongs to a color scheme, which may be written in front of it. Color lists
give each color a share of the area.
-/

namespace DotAttributes

/-- A color as it is written. -/
inductive Color
  /-- `#rrggbb` or `#rrggbbaa` -/
  | rgb (red green blue : UInt8) (alpha : Option UInt8)
  /-- three numbers: hue, saturation and value -/
  | hsv (hue saturation value : Binary64)
  /-- a name; the scheme is the empty text when it is written `//name` -/
  | named (scheme : Option (List Char)) (name : Located (List Char))
deriving DecidableEq, Repr

/-- A color of a color list, with its share of the area; `span` is the place of the color
without its share. -/
structure Color.Item where
  color : Color
  weight : Option Binary64
  span : Span
deriving DecidableEq, Repr

end DotAttributes
