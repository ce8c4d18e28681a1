import DotAttributes.Diagnostic.Basic

/-!
# Kinds of findings and their wording

Each kind of finding has a code that does not change. The sentences in which findings are
reported are few: a value that cannot be read, a value that can be read but is wrong, and
three special ones.
-/

namespace DotAttributes

/-- The kinds of findings. -/
inductive Kind
  | syntaxError
  | valueInvalid
  | deprecatedValue
  | arrowModifier
  | arrowNoneLast
  | colorNotInScheme
  | schemeUnknown
  | styleInvalid
  | styleShape
  | tagInvalid
  | tagAttributeInvalid
  | siblingsInvalid
  | portDuplicate
  | portNotSet
  | edgeOperator
deriving DecidableEq, Repr

/-- The code of a kind. -/
def Kind.code : Kind → String
  | syntaxError => "SYNTAX_DIAGNOSTIC"
  | valueInvalid => "ATTRIBUTE_VALUE_INVALID"
  | deprecatedValue => "DEPRECATED_VALUE"
  | arrowModifier => "ARROW_MODIFIER_INVALID"
  | arrowNoneLast => "ARROW_NONE_LAST"
  | colorNotInScheme => "COLOR_NOT_IN_SCHEME"
  | schemeUnknown => "COLOR_SCHEME_UNKNOWN"
  | styleInvalid => "STYLE_INVALID"
  | styleShape => "STYLE_SHAPE_MISMATCH"
  | tagInvalid => "HTML_TAG_INVALID"
  | tagAttributeInvalid => "HTML_ATTRIBUTE_INVALID"
  | siblingsInvalid => "HTML_INVALID_SIBLINGS"
  | portDuplicate => "PORT_NAME_DUPLICATE"
  | portNotSet => "PORT_NAME_NOT_SET"
  | edgeOperator => "EDGE_OP_INVALID"

namespace Diagnostic

/-- An error of a kind, without a place. -/
def ofKind (kind : Kind) (message : String) : Diagnostic :=
  (ofMessage .error message).withCode kind.code

/-- The error of a value that cannot be read as what it should be. -/
def notReadable (type value detail : String) (span : Span) : Diagnostic :=
  (ofKind .syntaxError s!"The value '{value}' is not a syntactically correct {type}: {detail}")
    |>.withLabel .primary span s!"not a valid {type}"

/-- The text at the place of a value that can be read but is wrong. -/
def here : String := "here"

/-- The error of a value that can be read but is wrong. -/
def semantic (kind : Kind) (type value detail : String) (span : Span) : Diagnostic :=
  (ofKind kind s!"The {type} value '{value}' is not semantically correct: {detail}")
    |>.withLabel .primary span here

/-- The error of a record label that can be read but is wrong. -/
def recordLabel (kind : Kind) (value detail : String) (span : Span) : Diagnostic :=
  (ofKind kind s!"The record-based label '{value}' is not semantically correct: {detail}")
    |>.withLabel .primary span here

/-- The warning of a deprecated value. -/
def deprecated (type value detail : String) (span : Span) : Diagnostic :=
  (semantic .deprecatedValue type value detail span).withSeverity .warning

/-- The error of stripes on a shape that cannot be painted with them. -/
def stripedShape (span : Span) : Diagnostic :=
  (ofKind .styleShape
    "The style 'striped' is only supported with clusters and rectangularly-shaped nodes, such as 'box', 'rect', 'rectangle', 'square'.")
    |>.withLabel .primary span "striped needs a rectangular shape"

/-- The graphs in which an operator may be used. -/
def graphsOf (operator : String) : String := if operator = "->" then "directed" else "undirected"

/-- The error of an edge operator in a graph of the other sort. -/
def edgeOperator (operator : String) (span : Span) : Diagnostic :=
  let graph := graphsOf operator
  (ofKind .edgeOperator s!"EdgeOp '{operator}' may only be used in {graph} graphs.")
    |>.withLabel .primary span s!"'{operator}' requires a {graph} graph"

end Diagnostic

end DotAttributes
