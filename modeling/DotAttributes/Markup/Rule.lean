import DotAttributes.Number.Decimal
import DotAttributes.Text.Blank
import DotAttributes.Text.Case

/-!
# Rules of markup tags

Which tags there are, which of them may close themselves or hold text, in which tags each
may stand, and which attributes it takes with what values. Names of tags, names of
attributes and words in values are compared without regard to case.

* `Markup.TagRule.find?` finds the rule of a tag.
* `Markup.Domain` is a set of attribute values, `Markup.Domain.contains` decides whether a
  value is in it, and `Markup.Domain.detail` says what the values are.
-/

namespace DotAttributes.Markup

/-! ## Tags -/

/-- What a tag allows. An empty list of parents allows every parent. -/
structure TagRule where
  name : String
  selfClosing : Bool
  text : Bool
  parents : List String
  attributes : List String
deriving DecidableEq, Repr

/-- The name that stands for the top level of a label in lists of parents. -/
def rootName : String := "ROOT"

/-- The attributes of tables. -/
def tableAttributes : List String :=
  ["ALIGN", "BGCOLOR", "BORDER", "CELLBORDER", "CELLPADDING", "CELLSPACING", "COLOR", "COLUMNS",
    "FIXEDSIZE", "GRADIENTANGLE", "HEIGHT", "HREF", "ID", "PORT", "ROWS", "SIDES", "STYLE",
    "TARGET", "TITLE", "TOOLTIP", "VALIGN", "WIDTH"]

/-- The attributes of cells. -/
def cellAttributes : List String :=
  ["ALIGN", "BALIGN", "BGCOLOR", "BORDER", "CELLPADDING", "CELLSPACING", "COLOR", "COLSPAN",
    "FIXEDSIZE", "GRADIENTANGLE", "HEIGHT", "HREF", "ID", "PORT", "ROWSPAN", "SIDES", "STYLE",
    "TARGET", "TITLE", "TOOLTIP", "VALIGN", "WIDTH"]

/-- The rule of a tag that changes the look of the text in it. -/
def fontRule (name : String) (attributes : List String) : TagRule :=
  ⟨name, false, true, [], attributes⟩

/-- The rule of a tag that is empty. -/
def emptyRule (name : String) (parents attributes : List String) : TagRule :=
  ⟨name, true, false, parents, attributes⟩

/-- The rules of all tags. -/
def tagRules : List TagRule :=
  [⟨"TABLE", false, false, [rootName, "TD", "FONT", "B", "I", "U", "O"], tableAttributes⟩,
    ⟨"TR", false, false, ["TABLE"], []⟩,
    ⟨"TD", false, true, ["TR"], cellAttributes⟩,
    fontRule "FONT" ["COLOR", "FACE", "POINT-SIZE"],
    fontRule "B" [],
    fontRule "I" [],
    fontRule "U" [],
    fontRule "O" [],
    fontRule "S" [],
    fontRule "SUB" [],
    fontRule "SUP" [],
    emptyRule "BR" [] ["ALIGN"],
    emptyRule "HR" ["TABLE"] [],
    emptyRule "VR" ["TR"] [],
    emptyRule "IMG" ["TD"] ["SCALE", "SRC"]]

/-- Finds the rule of a tag by its name. -/
def TagRule.find? (name : List Char) : Option TagRule :=
  tagRules.find? fun rule => Text.sameIgnoringCase rule.name.toList name

/-! ## Attribute values -/

/-- A set of attribute values. -/
inductive Domain
  /-- one of the words, blanks around it aside -/
  | oneOf (words : List String)
  /-- words separated by commas -/
  | listOf (words : List String)
  /-- any combination of the letters, but at least one -/
  | letters (letters : List String)
  /-- an integer between two bounds, blanks around it aside -/
  | integers (low high : Int)
  /-- a finite number that is not negative, blanks around it aside -/
  | nonNegative
  /-- anything -/
  | any
deriving DecidableEq, Repr

namespace Domain

/-- Whether a value is in the set. -/
def contains (value : List Char) : Domain → Bool
  | oneOf words => Text.containsIgnoringCase words (Text.trim value)
  | listOf words =>
    (Text.pieces (· == ',') value).all fun item =>
      Text.containsIgnoringCase words (Text.trim item)
  | letters set => !value.isEmpty && value.all fun c => Text.containsIgnoringCase set [c]
  | integers low high => Integer.isBetween low high (Text.trim value)
  | nonNegative =>
    match Binary64.read? (Text.trim value) with
    | some x => x.isFinite && decide (.zero false ≤ x)
    | none => false
  | any => true

/-- What is said about a value that is not in the set. -/
def detail : Domain → String
  | oneOf words | listOf words =>
    let list := Text.quotedList words
    s!"Value has to be one of {list}."
  | letters set =>
    let list := Text.quotedList set
    s!"Value has to contain only the characters {list}."
  | integers low high => s!"Value has to be between {low} and {high}."
  | nonNegative => "Value may not be smaller than 0.0."
  | any => ""

/-- The words for the position of text from left to right. -/
def horizontal : List String := ["CENTER", "LEFT", "RIGHT"]

/-- The domain of an attribute of a tag, both given by the names in their rules. -/
def ofAttribute (tag attr : String) : Domain :=
  if attr = "ALIGN" then
    if tag = "TD" then oneOf (horizontal ++ ["TEXT"]) else oneOf horizontal
  else if attr = "BALIGN" then oneOf horizontal
  else if attr = "VALIGN" then oneOf ["MIDDLE", "BOTTOM", "TOP"]
  else if attr = "FIXEDSIZE" then oneOf ["FALSE", "TRUE"]
  else if attr = "SCALE" then oneOf ["FALSE", "TRUE", "WIDTH", "HEIGHT", "BOTH"]
  else if attr = "STYLE" then
    listOf ["ROUNDED", "RADIAL", "SOLID", "INVISIBLE", "INVIS", "DOTTED", "DASHED"]
  else if attr = "SIDES" then letters ["L", "T", "R", "B"]
  else if attr = "BORDER" ∨ attr = "CELLPADDING" then integers 0 255
  else if attr = "CELLSPACING" then integers (-128) 127
  else if attr = "COLSPAN" ∨ attr = "ROWSPAN" then integers 1 65535
  else if attr = "WIDTH" ∨ attr = "HEIGHT" then integers 0 65535
  else if attr = "POINT-SIZE" then nonNegative
  else any

end Domain

end DotAttributes.Markup
