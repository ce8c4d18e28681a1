import DotAttributes.Validation

/-!
# Findings and their diagnostics

What the diagnostic of a finding keeps of it (`Finding.diagnostic_eq`): the code of its kind and
the severity that goes with it, the name of the attribute, and its place, which is the place of the
only label. Different kinds have different codes (`Kind.code_inj`), so the kind of a finding can be
read off its diagnostic.
-/

namespace DotAttributes

/-- Two kinds with the same code are the same. -/
theorem Kind.code_inj {k l : Kind} : k.code = l.code ↔ k = l := by
  cases k <;> cases l <;> decide

/-! ## What a diagnostic shows -/

/-- Severity, code, attribute and primary place: everything of a diagnostic but its words. -/
structure Outline where
  severity : Severity
  code : Option String
  attr : Option String
  primarySpan : Option Span
deriving DecidableEq, Repr

namespace Diagnostic

/-- The text of the primary label. -/
def primaryText? (d : Diagnostic) : Option String :=
  (d.labels.find? fun l => l.role = .primary).map Label.text

/-- The place of the primary label. -/
def primarySpan? (d : Diagnostic) : Option Span :=
  (d.labels.find? fun l => l.role = .primary).map Label.span

/-- The outline of a diagnostic. -/
def outline (d : Diagnostic) : Outline := ⟨d.severity, d.code, d.attr, d.primarySpan?⟩

/-- Whether the code is that of a kind. -/
def hasKind (kind : Kind) (d : Diagnostic) : Bool := d.code == some kind.code

/-- Whether a value is said to be unreadable as the named type. -/
def refuses (type : String) (d : Diagnostic) : Bool :=
  d.hasKind .syntaxError && d.primaryText? == some s!"not a valid {type}"

end Diagnostic

/-! ## The kind and the place of a finding -/

/-- The severity of findings of a kind. -/
def Kind.severity : Kind → Severity
  | deprecatedValue | arrowModifier | arrowNoneLast | portNotSet => .warning
  | syntaxError | valueInvalid | colorNotInScheme | schemeUnknown | styleInvalid | styleShape
  | tagInvalid | tagAttributeInvalid | siblingsInvalid | portDuplicate | edgeOperator => .error

theorem Arrow.Problem.severity_kind (p : Arrow.Problem) : p.kind.severity = .warning := by
  cases p <;> rfl

theorem Markup.Problem.severity_kind (p : Markup.Problem) : p.kind.severity = .error := by
  cases p <;> rfl

/-- The kind of a problem of a style list. -/
def Style.Problem.kind : Style.Problem → Kind
  | deprecatedWidth => .deprecatedValue
  | notAllowed _ => .styleInvalid
  | stripedShape => .styleShape

/-- The kind of a problem of a record label. -/
def Record.Problem.kind : Record.Problem → Kind
  | unnamed => .portNotSet
  | duplicate _ => .portDuplicate

/-- The kind of a problem of a value. -/
def Problem.kind : Problem → Kind
  | notReadable .. => .syntaxError
  | belowBound _ => .valueInvalid
  | arrow p => p.kind
  | color .. => .colorNotInScheme
  | unknownScheme => .schemeUnknown
  | style p => p.kind
  | markup p => p.kind
  | record p => p.kind

/-- The text at the place of a problem of a value. -/
def Problem.labelText : Problem → String
  | notReadable type _ => s!"not a valid {type}"
  | style .stripedShape => "striped needs a rectangular shape"
  | _ => Diagnostic.here

namespace Finding

/-- The kind of a finding. -/
def kind : Finding → Kind
  | value _ _ problem => problem.kind
  | operator _ => .edgeOperator

/-- The place of a finding in the document. -/
def span : Finding → Span
  | value _ span _ => span
  | operator op => op.span

/-- The text at the place of a finding. -/
def labelText : Finding → String
  | value _ _ problem => problem.labelText
  | operator op =>
    let symbol := op.symbol
    let graph := Diagnostic.graphsOf symbol
    s!"'{symbol}' requires a {graph} graph"

/-- The name of the attribute with a finding in its value. -/
def attrName? : Finding → Option String
  | value a _ _ => some a.name
  | operator _ => none

/-- The parts of the diagnostic of a finding: all but the message depend on the kind, the place and
the attribute alone. -/
theorem diagnostic_eq (f : Finding) : f.diagnostic =
    { severity := f.kind.severity
      message := f.diagnostic.message
      labels := [⟨.primary, f.span, f.labelText⟩]
      help := none
      code := some f.kind.code
      attr := f.attrName? } := by
  cases f with
  | operator op => rfl
  | value a span problem =>
    cases problem with
    | arrow p =>
      rw [kind, Problem.kind, p.severity_kind]
      rfl
    | markup p =>
      rw [kind, Problem.kind, p.severity_kind]
      rfl
    | style p => cases p <;> rfl
    | record p => cases p <;> rfl
    | _ => rfl

theorem diagnostic_code (f : Finding) : f.diagnostic.code = some f.kind.code :=
  congrArg Diagnostic.code f.diagnostic_eq

/-- The diagnostic of a finding has one label, a primary one at the place of the finding. -/
theorem diagnostic_labels (f : Finding) :
    f.diagnostic.labels = [⟨.primary, f.span, f.labelText⟩] :=
  congrArg Diagnostic.labels f.diagnostic_eq

@[simp] theorem primaryText?_diagnostic (f : Finding) :
    f.diagnostic.primaryText? = some f.labelText := by
  simp [Diagnostic.primaryText?, diagnostic_labels]

@[simp] theorem primarySpan?_diagnostic (f : Finding) :
    f.diagnostic.primarySpan? = some f.span := by
  simp [Diagnostic.primarySpan?, diagnostic_labels]

/-- A diagnostic is reported at its primary label. -/
@[simp] theorem place?_diagnostic (f : Finding) : f.diagnostic.place? = some f.span := by
  simp [Diagnostic.place?, diagnostic_labels]

/-- The outline shows the kind of a finding, its attribute and its place. -/
@[simp] theorem outline_diagnostic (f : Finding) :
    f.diagnostic.outline = ⟨f.kind.severity, some f.kind.code, f.attrName?, some f.span⟩ := by
  have hseverity := congrArg Diagnostic.severity f.diagnostic_eq
  have hattr := congrArg Diagnostic.attr f.diagnostic_eq
  rw [Diagnostic.outline, hseverity, hattr, diagnostic_code, primarySpan?_diagnostic]

@[simp] theorem hasKind_diagnostic (kind : Kind) (f : Finding) :
    f.diagnostic.hasKind kind = decide (f.kind = kind) := by
  rw [Bool.eq_iff_iff]
  simp [Diagnostic.hasKind, diagnostic_code, Kind.code_inj]

/-- A value is refused as a type exactly by the finding that it cannot be read as that type. -/
theorem refuses_diagnostic_notReadable (a : Attribute) (span : Span) (type type' detail : String) :
    (value a span (.notReadable type detail)).diagnostic.refuses type' = decide (type = type') := by
  have hshow : ∀ t : String, toString t = t := fun _ => rfl
  rw [Bool.eq_iff_iff]
  simp [Diagnostic.refuses, kind, labelText, Problem.kind, Problem.labelText, hshow]

/-- No other finding refuses a value. -/
theorem refuses_diagnostic_of_kind_ne {f : Finding} (h : f.kind ≠ .syntaxError) (type : String) :
    f.diagnostic.refuses type = false := by
  simp [Diagnostic.refuses, h]

end Finding

/-- The outlines of findings. -/
def outlines (findings : List Finding) : List Outline :=
  findings.map fun f => f.diagnostic.outline

/-! ## Reports of visits -/

/-- The diagnostics of what is visited. -/
def Config.report (config : Config) (visit : Visit) : List Diagnostic :=
  (config.check visit).map Finding.diagnostic

/-- The diagnostics of visits, in their order. -/
def Config.reports (config : Config) (visits : List Visit) : List Diagnostic :=
  visits.flatMap config.report

@[simp] theorem reports_append (config : Config) (visits visits' : List Visit) :
    config.reports (visits ++ visits') = config.reports visits ++ config.reports visits' :=
  List.flatMap_append

/-- The diagnostics of a document are those of its visits. -/
theorem diagnostics_eq_reports (config : Config) (document : Document) :
    (config.validate document).diagnostics = config.reports document.visits := by
  rw [Config.validate, Config.findings, List.map_flatMap]
  rfl

end DotAttributes
