import DotAttributes.Text.Basic

/-!
# Attributes

An attribute is a name and the text of a value, with the place of the value in the document.
Later attributes of a list override earlier ones of the same name.
-/

namespace DotAttributes

/-- How a value is delimited in the document. -/
inductive Delimiter
  /-- not at all -/
  | bare
  /-- by double quotes -/
  | quoted
  /-- by angle brackets, which makes the value markup -/
  | markup
deriving DecidableEq, Repr

/-- The number of bytes of a delimiter on either side of a value. -/
def Delimiter.size : Delimiter → Nat
  | bare => 0
  | quoted | markup => 1

/-- An attribute. The value is the text between the delimiters as it is written; `span` is
the place of the value, delimiters included. -/
structure Attribute where
  name : String
  value : String
  delimiter : Delimiter
  span : Span
deriving DecidableEq, Repr

namespace Attribute

/-- The characters of the value. -/
def chars (a : Attribute) : List Char := a.value.toList

/-- An attribute whose value, or opening delimiter, stands at `offset`. -/
def writtenAt (offset : Nat) (delimiter : Delimiter) (name value : String) : Attribute :=
  ⟨name, value, delimiter, Span.ofSize offset (Text.size value.toList + 2 * delimiter.size)⟩

/-- The offset of the first character of the value. -/
def valueOffset (a : Attribute) : Nat := a.span.start + a.delimiter.size

/-- The place of the value, delimiters excluded. -/
def valueSpan (a : Attribute) : Span := Span.ofSize a.valueOffset (Text.size a.chars)

/-- Moves a span within the value to its place in the document. -/
def absolute (a : Attribute) (s : Span) : Span := s.shift a.valueOffset

/-- Whether the value is markup. -/
def isMarkup (a : Attribute) : Bool := a.delimiter == .markup

end Attribute

/-! ## Attribute lists -/

/-- A list of attributes in the order in which they are written. -/
abbrev AttributeList := List Attribute

namespace AttributeList

/-- Adds an attribute behind the others. -/
def push (attrs : AttributeList) (a : Attribute) : AttributeList := attrs ++ [a]

/-- The attribute that counts under a name: the last one. -/
def get? (attrs : AttributeList) (name : String) : Option Attribute :=
  attrs.reverse.find? fun a => a.name == name

/-- The value that counts under a name. -/
def value? (attrs : AttributeList) (name : String) : Option String :=
  (get? attrs name).map Attribute.value

/-- The names of the attributes, repetitions included. -/
def names (attrs : AttributeList) : List String := attrs.map Attribute.name

end AttributeList

end DotAttributes
