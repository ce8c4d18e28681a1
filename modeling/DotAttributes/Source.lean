import DotAttributes.Diagnostic.Basic
import DotAttributes.Text.Basic

/-!
# Sources and reports

A source is the text of a document, which may have a name. A report is a diagnostic made
ready to be shown with its source: its labels are cut down to the text there is.
-/

namespace DotAttributes

/-- The text of a document and the name to show for it. -/
structure Source where
  content : String
  name : Option String
deriving DecidableEq, Repr

namespace Source

/-- The number of bytes of the text. -/
def size (source : Source) : Nat := Text.size source.content.toList

/-- The text that a span covers, if it covers any. -/
def slice? (source : Source) (span : Span) : Option String :=
  (Text.slice? source.content.toList span).map String.ofList

/-- Moves the ends of a span into the text and into order. -/
def clamp (source : Source) (span : Span) : Span :=
  let start := min span.start source.size
  ⟨start, max (min span.stop source.size) start⟩

end Source

/-- The text of the place where a diagnostic is reported. -/
def Diagnostic.excerpt? (source : Source) (d : Diagnostic) : Option String :=
  d.place?.bind source.slice?

/-- A diagnostic ready to be shown. -/
structure Report where
  message : String
  severity : Severity
  code : Option String
  help : Option String
  labels : List Label
  sourceName : Option String
deriving DecidableEq, Repr

/-- The code of a diagnostic, with the name of the attribute if there is one. -/
def Diagnostic.fullCode? (d : Diagnostic) : Option String :=
  d.code.map fun code =>
    match d.attr with
    | some name => s!"{code}({name})"
    | none => code

/-- Makes a diagnostic ready to be shown with its source. -/
def Diagnostic.report (source : Source) (d : Diagnostic) : Report where
  message := d.message
  severity := d.severity
  code := d.fullCode?
  help := d.help
  labels := d.labels.map fun label => { label with span := source.clamp label.span }
  sourceName := source.name

end DotAttributes
