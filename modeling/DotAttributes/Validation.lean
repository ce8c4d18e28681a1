import DotAttributes.Arrow.Reading
import DotAttributes.Color.Reading
import DotAttributes.Document.Visit
import DotAttributes.Finding

/-!
# Validation

Every visit of a document is checked by itself: the operator of an edge against the sort of
its document, an attribute by reading its value as the type it has at its site. Whatever one
check finds, the others go on.

* `Config` switches some of the checks off.
* `Config.findings` lists the findings of a document, `Config.validate` their diagnostics.
* `Outcome` is a list of diagnostics, which fails as a whole if one of them is an error.
-/

namespace DotAttributes

/-- Which of the checks that can be switched off are on. -/
structure Config where
  /-- report deprecated shapes of arrows and items of styles -/
  deprecations : Bool
  /-- check the operators of edges -/
  edgeDirection : Bool
  /-- read and check markup labels -/
  markupLabels : Bool
  /-- read and check record labels -/
  recordLabels : Bool
deriving DecidableEq, Repr

/-- All checks are on. -/
def Config.full : Config := ⟨true, true, true, true⟩

namespace Attribute

/-- The finding that a value, as a whole, cannot be read. -/
def notReadable (a : Attribute) (type detail : String) : Finding :=
  .value a a.valueSpan (.notReadable type detail)

/-- The findings of problems that have been located within a value. -/
def findings {π : Type} (a : Attribute) (wrap : π → Problem) (problems : List (Located π)) :
    List Finding :=
  problems.map fun p => .value a (a.absolute p.span) (wrap p.item)

end Attribute

/-! ## Checks by type -/

/-- Checks an arrow type. -/
def checkArrow (deprecations : Bool) (a : Attribute) : List Finding :=
  match Arrow.read a.chars with
  | .error fault => [a.notReadable arrowTypeName fault.item.detail]
  | .ok arrow =>
    a.findings .arrow (Arrow.check deprecations ⟨0, Text.size a.chars⟩ arrow)

/-- Reads a color or a color list. -/
def readColors (inList : Bool) (cs : List Char) : Color.Read (List Color.Item) :=
  if inList then Color.readList cs else (Color.read cs).map fun item => [item]

/-- Checks a color or a color list. -/
def checkColors (site : Site) (inList : Bool) (a : Attribute) : List Finding :=
  match readColors inList a.chars with
  | .error fault => [a.notReadable (colorTypeName inList) fault.item.detail]
  | .ok items => a.findings (.color inList) (Color.check site.colorScheme.toList items)

/-- Checks that a color scheme is known. -/
def checkScheme (a : Attribute) : List Finding :=
  if (Scheme.find? a.chars).isSome then [] else [.value a a.valueSpan .unknownScheme]

/-- Checks that a shape of nodes is known. -/
def checkShape (a : Attribute) : List Finding :=
  if NodeShape.isKnown a.value then []
  else
    let value := a.value
    [a.notReadable shapeTypeName s!"Extraneous input '{value}' expecting EOF."]

/-- The items of style lists that elements of a kind know. -/
def styleItems : ElementKind → List String
  | .node => Style.nodeItems
  | .edge => Style.edgeItems
  | .graph | .subgraph | .cluster => Style.clusterItems

/-- Whether stripes can be painted at a site. -/
def Site.hasStripes (site : Site) : Bool :=
  site.kind != .node || NodeShape.hasStripes site.shape

/-- Checks a style list. -/
def checkStyle (deprecations : Bool) (site : Site) (a : Attribute) : List Finding :=
  match Style.read a.chars with
  | .error fault => [a.notReadable styleTypeName fault.item.detail]
  | .ok items =>
    a.findings .style (Style.check deprecations (styleItems site.kind) site.hasStripes items)

/-- Checks a number against its lower bound. -/
def checkNumber (bound : Number) (a : Attribute) : List Finding :=
  match Number.read bound.kind a.chars with
  | .error fault => [a.notReadable bound.kind.name fault.detail]
  | .ok number =>
    if number.toBinary64 < bound.toBinary64 then [.value a a.valueSpan (.belowBound bound)]
    else []

/-- Checks that a value is a word of an enumeration. -/
def checkEnumeration (words : Enumeration) (a : Attribute) : List Finding :=
  if words.words.contains a.value then []
  else
    let list := Text.quotedList words.words
    [a.notReadable words.name s!"Value has to be one of {list}."]

/-- Checks a markup label. One that cannot be read is reported with its delimiters. -/
def checkMarkup (a : Attribute) : List Finding :=
  match Markup.read a.chars with
  | .error fault => [.value a a.span (.notReadable markupTypeName fault.item.detail)]
  | .ok label => a.findings .markup (Markup.check label)

/-- Checks a record label. One that cannot be read is reported where reading stopped. -/
def checkRecord (a : Attribute) : List Finding :=
  match Record.read a.chars with
  | .error fault =>
    [.value a (a.absolute fault.span) (.notReadable recordTypeName fault.item.detail)]
  | .ok label => a.findings .record (Record.check label)

/-- Whether labels at a site are records. -/
def Site.hasRecords (site : Site) : Bool :=
  site.kind == .node && NodeShape.isRecord site.shape

/-- Checks a label: markup by its delimiters, a record by the shape of its node. Any other
label is free text. -/
def Config.checkLabel (config : Config) (site : Site) (a : Attribute) : List Finding :=
  if a.isMarkup then
    if config.markupLabels then checkMarkup a else []
  else if config.recordLabels && site.hasRecords then checkRecord a
  else []

/-! ## Visits and documents -/

/-- Checks an attribute at its site. -/
def Config.checkAttribute (config : Config) (site : Site) (a : Attribute) : List Finding :=
  match AttributeType.of site.kind a.name with
  | .arrow => checkArrow config.deprecations a
  | .color => checkColors site false a
  | .colorList => checkColors site true a
  | .colorScheme => checkScheme a
  | .shape => checkShape a
  | .style => checkStyle config.deprecations site a
  | .number bound => checkNumber bound a
  | .enumeration words => checkEnumeration words a
  | .label => config.checkLabel site a
  | .unchecked => []

/-- Checks an operator of an edge in a document that is directed or not. -/
def Config.checkOperator (config : Config) (directed : Bool) (op : EdgeOperator) :
    List Finding :=
  if config.edgeDirection && op.directed != directed then [.operator op] else []

/-- Checks what is visited. -/
def Config.check (config : Config) : Visit → List Finding
  | .attr site a => config.checkAttribute site a
  | .operator directed op => config.checkOperator directed op

/-- The findings of a document, in the order of its visits. -/
def Config.findings (config : Config) (document : Document) : List Finding :=
  document.visits.flatMap config.check

/-! ## Outcomes -/

/-- All diagnostics of a validation. -/
structure Outcome where
  diagnostics : List Diagnostic
deriving DecidableEq, Repr

/-- That a validation found errors; the diagnostics are all of them, warnings included. -/
structure Failure where
  errorCount : Nat
  diagnostics : List Diagnostic
deriving DecidableEq, Repr

namespace Failure

/-- The failure in words. -/
def message (f : Failure) : String :=
  let count := toString f.errorCount
  s!"attribute validation found {count} error(s)"

/-- The code of a failure. -/
def code : String := "dot_validator::validation_failed"

end Failure

namespace Outcome

/-- The errors among the diagnostics. -/
def errors (o : Outcome) : List Diagnostic := o.diagnostics.filter Diagnostic.isError

/-- The warnings among the diagnostics. -/
def warnings (o : Outcome) : List Diagnostic := o.diagnostics.filter Diagnostic.isWarning

/-- Whether one of the diagnostics is an error. -/
def hasErrors (o : Outcome) : Bool := o.diagnostics.any Diagnostic.isError

/-- The diagnostics, if none of them is an error. -/
def result (o : Outcome) : Except Failure (List Diagnostic) :=
  if o.hasErrors then .error ⟨o.errors.length, o.diagnostics⟩ else .ok o.diagnostics

end Outcome

/-- Validates a document. -/
def Config.validate (config : Config) (document : Document) : Outcome :=
  ⟨(config.findings document).map Finding.diagnostic⟩

/-- The diagnostics of a document when all checks are on. -/
def validate (document : Document) : List Diagnostic := (Config.full.validate document).diagnostics

end DotAttributes
