import DotAttributes.Arrow.Check
import DotAttributes.Color.Check
import DotAttributes.Diagnostic.Kind
import DotAttributes.Document.Element
import DotAttributes.Markup.Check
import DotAttributes.Number.Literal
import DotAttributes.Record.Check
import DotAttributes.Style.Check

/-!
# Findings

A finding is a problem of the value of an attribute, with its place in the document, or an
operator of an edge that does not fit the graph. Its diagnostic is the finding in words.
-/

namespace DotAttributes

/-- What can be wrong with the value of an attribute. -/
inductive Problem
  /-- the value cannot be read as the named type -/
  | notReadable (type detail : String)
  | belowBound (bound : Number)
  | arrow (problem : Arrow.Problem)
  /-- a color of a color list, or of a single color -/
  | color (inList : Bool) (problem : Color.Problem)
  | unknownScheme
  | style (problem : Style.Problem)
  | markup (problem : Markup.Problem)
  | record (problem : Record.Problem)
deriving DecidableEq, Repr

/-! ## Names of types -/

/-- The name of arrow types in messages. -/
def arrowTypeName : String := "arrowType"

/-- The names of colors and color lists in messages. -/
def colorTypeName (inList : Bool) : String := if inList then "colorList" else "color"

/-- The name of color schemes in messages. -/
def schemeTypeName : String := "colorscheme"

/-- The name of shapes of nodes in messages. -/
def shapeTypeName : String := "shape"

/-- The name of style lists in messages. -/
def styleTypeName : String := "style"

/-- The name of markup labels in messages. -/
def markupTypeName : String := "htmlLabel"

/-- The name of record labels in messages. -/
def recordTypeName : String := "record-based label"

/-! ## Findings in words -/

/-- The kind of a problem of an arrow type. -/
def Arrow.Problem.kind : Arrow.Problem → Kind
  | deprecated _ => .deprecatedValue
  | side .. | isOpen _ => .arrowModifier
  | noneLast => .arrowNoneLast

/-- The kind of a problem of a markup label. -/
def Markup.Problem.kind : Markup.Problem → Kind
  | unsupported _ | selfClosing _ | misclosed .. | misplaced .. | textInside _ => .tagInvalid
  | unknownAttribute .. | badValue .. => .tagAttributeInvalid
  | siblings => .siblingsInvalid

/-- The words for a problem of an arrow type; all of them are warnings. -/
def Arrow.Problem.diagnostic (value : String) (span : Span) (p : Arrow.Problem) : Diagnostic :=
  (Diagnostic.semantic p.kind arrowTypeName value p.detail span).withSeverity .warning

/-- The words for a problem of a style list. -/
def Style.Problem.diagnostic (value : String) (span : Span) : Style.Problem → Diagnostic
  | deprecatedWidth =>
    .deprecated styleTypeName value
      "The usage of setlinewidth is deprecated, use the penwidth attribute instead." span
  | notAllowed allowed =>
    let list := Text.quotedList allowed
    .semantic .styleInvalid styleTypeName value s!"Value should be one of {list}." span
  | stripedShape => .stripedShape span

/-- The words for a problem of a record label. -/
def Record.Problem.diagnostic (value : String) (span : Span) (p : Record.Problem) : Diagnostic :=
  match p with
  | unnamed => (Diagnostic.recordLabel .portNotSet value p.detail span).withSeverity .warning
  | duplicate _ => .recordLabel .portDuplicate value p.detail span

/-- The words for a problem of a value. -/
def Problem.diagnostic (value : String) (span : Span) : Problem → Diagnostic
  | notReadable type detail => .notReadable type value detail span
  | belowBound bound =>
    let limit := bound.display
    .semantic .valueInvalid bound.kind.name value s!"Value may not be smaller than {limit}." span
  | arrow p => p.diagnostic value span
  | color inList p => .semantic .colorNotInScheme (colorTypeName inList) value p.detail span
  | unknownScheme =>
    .semantic .schemeUnknown schemeTypeName value s!"'{value}' is not a known color scheme." span
  | style p => p.diagnostic value span
  | markup p => .semantic p.kind markupTypeName value p.detail span
  | record p => p.diagnostic value span

/-- A finding: a problem of an attribute and its place in the document, or an operator that
does not fit the graph. -/
inductive Finding
  | value (attr : Attribute) (span : Span) (problem : Problem)
  | operator (op : EdgeOperator)
deriving DecidableEq, Repr

/-- A finding in words. -/
def Finding.diagnostic : Finding → Diagnostic
  | value a span problem => (problem.diagnostic a.value span).withAttribute a.name
  | operator op => .edgeOperator op.symbol op.span

end DotAttributes
