import DotAttributes.Span

/-!
# Diagnostics

A diagnostic is a message with a severity and labels, which point into the document. It is
reported at its first primary label, or at its first label if none is primary.
-/

namespace DotAttributes

/-- How bad a finding is. -/
inductive Severity
  /-- the value is wrong -/
  | error
  /-- the value works, but is deprecated or without effect -/
  | warning
deriving DecidableEq, Repr

/-- The name of a severity. -/
def Severity.name : Severity → String
  | error => "error"
  | warning => "warning"

/-- What a label is for. -/
inductive Role
  /-- the place of the finding -/
  | primary
  /-- a place that helps to understand it -/
  | secondary
deriving DecidableEq, Repr

/-- A place in the document with a text. -/
structure Label where
  role : Role
  span : Span
  text : String
deriving DecidableEq, Repr

/-- A finding in words. The code names the kind of finding, the attribute is the one it is
about. -/
structure Diagnostic where
  severity : Severity
  message : String
  labels : List Label
  help : Option String
  code : Option String
  attr : Option String
deriving DecidableEq, Repr

namespace Diagnostic

/-- A diagnostic of which only severity and message are given. -/
def ofMessage (severity : Severity) (message : String) : Diagnostic :=
  ⟨severity, message, [], none, none, none⟩

/-- Adds a label behind the others. -/
def withLabel (role : Role) (span : Span) (text : String) (d : Diagnostic) : Diagnostic :=
  { d with labels := d.labels ++ [⟨role, span, text⟩] }

/-- Changes the severity. -/
def withSeverity (severity : Severity) (d : Diagnostic) : Diagnostic :=
  { d with severity := severity }

/-- Sets the text that suggests what to do. -/
def withHelp (help : String) (d : Diagnostic) : Diagnostic := { d with help := some help }

/-- Sets the code. -/
def withCode (code : String) (d : Diagnostic) : Diagnostic := { d with code := some code }

/-- Sets the name of the attribute. -/
def withAttribute (name : String) (d : Diagnostic) : Diagnostic := { d with attr := some name }

/-- The place where the diagnostic is reported. -/
def place? (d : Diagnostic) : Option Span :=
  ((d.labels.find? fun l => l.role = .primary).or d.labels.head?).map Label.span

/-- The offset of that place; zero without one. -/
def offset (d : Diagnostic) : Nat := (d.place?.map Span.start).getD 0

/-- The length of that place; zero without one, or if it is reversed. -/
def length (d : Diagnostic) : Nat := (d.place?.map Span.size).getD 0

/-- Whether the diagnostic is an error. -/
def isError (d : Diagnostic) : Bool := d.severity = .error

/-- Whether the diagnostic is a warning. -/
def isWarning (d : Diagnostic) : Bool := d.severity = .warning

/-- The diagnostic in one line. -/
def display (d : Diagnostic) : String :=
  let severity := d.severity.name
  let message := d.message
  s!"{severity}: {message}"

end Diagnostic

end DotAttributes
