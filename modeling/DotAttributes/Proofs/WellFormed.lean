import DotAttributes.Proofs.Checks
import DotAttributes.Proofs.Findings

/-!
# Diagnostics are well formed

However a finding comes about, its diagnostic is built in the same way: one primary label, no
help, the code of a kind, the severity that goes with the code, and the name of the attribute that
was visited (`validate_isWellFormed`). Some codes are bound to attributes by their beginning
(`Diagnostic.codeFamilies`).

The kinds of findings depend on how a value is read, and that is decided by the table of types:
`AttributeType.kinds` lists the kinds for each type, and `kind_of_mem_checkAttribute` says that
the checks find no others.
-/

namespace DotAttributes

/-! ## What well-formed means -/

/-- A family of codes: those that begin with a stem, and the attributes for which they occur. -/
structure CodeFamily where
  stem : String
  names : List String
deriving DecidableEq, Repr

/-- Whether a code is in the family. -/
def CodeFamily.contains (family : CodeFamily) (code : String) : Bool :=
  family.stem.toList.isPrefixOf code.toList

/-- The name of the attribute that is visited. -/
def Visit.attrName? : Visit → Option String
  | .attr _ a => some a.name
  | .operator .. => none

namespace Diagnostic

/-- The codes of warnings. -/
def warningCodes : List String :=
  ["DEPRECATED_VALUE", "ARROW_MODIFIER_INVALID", "ARROW_NONE_LAST", "PORT_NAME_NOT_SET"]

/-- The families of codes that occur for some attributes only. -/
def codeFamilies : List CodeFamily :=
  [⟨"ARROW_", ["arrowhead", "arrowtail"]⟩,
    ⟨"HTML_", ["label", "xlabel", "headlabel", "taillabel"]⟩,
    ⟨"STYLE_", ["style"]⟩,
    ⟨"COLOR_SCHEME_UNKNOWN", ["colorscheme"]⟩]

/-- A diagnostic that was produced for a visit has all its parts, and they fit together. -/
structure IsWellFormed (visit : Visit) (d : Diagnostic) : Prop where
  /-- there is one label, and it is primary -/
  labels : ∃ span text, d.labels = [⟨.primary, span, text⟩]
  help : d.help = none
  /-- the code is that of a kind -/
  code : ∃ kind : Kind, d.code = some kind.code
  /-- the code decides whether it is a warning or an error -/
  severity : d.severity = if d.code.any warningCodes.contains then .warning else .error
  /-- the attribute is the one that is visited -/
  attr : d.attr = visit.attrName?
  /-- no attribute is named for operators, and only for them -/
  operator : d.attr = none ↔ d.code = some "EDGE_OP_INVALID"
  /-- codes of a family occur for its attributes only -/
  family : ∀ family ∈ codeFamilies, d.code.any family.contains = true →
    ∃ name ∈ family.names, d.attr = some name

end Diagnostic

/-! ## Kinds of findings by type -/

/-- The kinds of findings in values that are read as a type. -/
def AttributeType.kinds : AttributeType → List Kind
  | arrow => [.syntaxError, .deprecatedValue, .arrowModifier, .arrowNoneLast]
  | color | colorList => [.syntaxError, .colorNotInScheme]
  | colorScheme => [.schemeUnknown]
  | shape | enumeration _ => [.syntaxError]
  | style => [.syntaxError, .deprecatedValue, .styleInvalid, .styleShape]
  | label => [.syntaxError, .tagInvalid, .tagAttributeInvalid, .siblingsInvalid, .portNotSet,
      .portDuplicate]
  | number _ => [.syntaxError, .valueInvalid]
  | unchecked => []

theorem Arrow.Problem.kind_mem (p : Arrow.Problem) : p.kind ∈ AttributeType.arrow.kinds := by
  cases p <;> simp [kind, AttributeType.kinds]

theorem Style.Problem.kind_mem (p : Style.Problem) : p.kind ∈ AttributeType.style.kinds := by
  cases p <;> simp [kind, AttributeType.kinds]

theorem Markup.Problem.kind_mem (p : Markup.Problem) : p.kind ∈ AttributeType.label.kinds := by
  cases p <;> simp [kind, AttributeType.kinds]

theorem Record.Problem.kind_mem (p : Record.Problem) : p.kind ∈ AttributeType.label.kinds := by
  cases p <;> simp [kind, AttributeType.kinds]

/-- What a check of an attribute finds is in the value of that attribute, and of a kind that goes
with its type. -/
theorem kind_of_mem_checkAttribute {config : Config} {site : Site} {a : Attribute} {f : Finding}
    (h : f ∈ config.checkAttribute site a) :
    f.attrName? = some a.name ∧ f.kind ∈ (AttributeType.of site.kind a.name).kinds := by
  unfold Config.checkAttribute at h
  generalize AttributeType.of site.kind a.name = type at h ⊢
  cases type with
  | arrow =>
    rcases mem_checkArrow h with ⟨detail, rfl⟩ | ⟨arrow, -, p, -, rfl⟩
    · exact ⟨rfl, List.mem_cons_self⟩
    · exact ⟨rfl, p.item.kind_mem⟩
  | color | colorList =>
    rcases mem_checkColors h with ⟨detail, rfl⟩ | ⟨items, -, p, -, rfl⟩
    · exact ⟨rfl, List.mem_cons_self⟩
    · exact ⟨rfl, List.mem_cons_of_mem _ List.mem_cons_self⟩
  | colorScheme =>
    rw [mem_checkScheme h]
    exact ⟨rfl, List.mem_cons_self⟩
  | shape =>
    obtain ⟨detail, rfl⟩ := mem_checkShape h
    exact ⟨rfl, List.mem_cons_self⟩
  | style =>
    rcases mem_checkStyle h with ⟨detail, rfl⟩ | ⟨items, -, p, -, rfl⟩
    · exact ⟨rfl, List.mem_cons_self⟩
    · exact ⟨rfl, p.item.kind_mem⟩
  | label =>
    rcases mem_checkLabel h with ⟨-, -, h⟩ | ⟨-, -, -, h⟩
    · rcases mem_checkMarkup h with ⟨detail, rfl⟩ | ⟨label, -, p, -, rfl⟩
      · exact ⟨rfl, List.mem_cons_self⟩
      · exact ⟨rfl, p.item.kind_mem⟩
    · rcases mem_checkRecord h with ⟨fault, -, rfl⟩ | ⟨label, -, p, -, rfl⟩
      · exact ⟨rfl, List.mem_cons_self⟩
      · exact ⟨rfl, p.item.kind_mem⟩
  | number bound =>
    rcases mem_checkNumber h with ⟨detail, rfl⟩ | rfl
    · exact ⟨rfl, List.mem_cons_self⟩
    · exact ⟨rfl, List.mem_cons_of_mem _ List.mem_cons_self⟩
  | enumeration words =>
    obtain ⟨detail, rfl⟩ := mem_checkEnumeration h
    exact ⟨rfl, List.mem_cons_self⟩
  | unchecked => cases h

/-! ## Families of codes -/

/-- In every row of the table of types, a kind whose code is in a family occurs for attributes of
that family only. -/
theorem names_of_kinds : ∀ row ∈ AttributeType.table, ∀ kind ∈ row.type.kinds,
    ∀ family ∈ Diagnostic.codeFamilies, family.contains kind.code = true →
      row.names ⊆ family.names := by
  decide +kernel

/-- A kind of findings in an attribute whose code is in a family is for the names of the family. -/
theorem name_mem_of_kind_mem {site : Site} {a : Attribute} {kind : Kind}
    (h : kind ∈ (AttributeType.of site.kind a.name).kinds) {family : CodeFamily}
    (hfamily : family ∈ Diagnostic.codeFamilies) (hcode : family.contains kind.code = true) :
    a.name ∈ family.names := by
  have hread : AttributeType.of site.kind a.name ≠ .unchecked := by
    intro hnone
    rw [hnone] at h
    cases h
  obtain ⟨row, hrow, htype, hname, -⟩ := AttributeType.exists_row hread
  rw [← htype] at h
  exact names_of_kinds row hrow kind h family hfamily hcode hname

/-- No family has the code of edge operators. -/
theorem not_contains_edgeOperator :
    ∀ family ∈ Diagnostic.codeFamilies, family.contains Kind.edgeOperator.code = false := by
  decide +kernel

/-! ## All diagnostics -/

/-- No type of attributes has findings of the kind of edge operators. -/
theorem AttributeType.edgeOperator_not_mem_kinds (type : AttributeType) :
    Kind.edgeOperator ∉ type.kinds := by
  cases type <;> simp [kinds]

theorem Kind.severity_eq (kind : Kind) :
    kind.severity = if Diagnostic.warningCodes.contains kind.code then .warning else .error := by
  cases kind <;> decide +kernel

/-- A finding that is about its visit, of a kind that fits the attribute, has a well-formed
diagnostic. -/
theorem Finding.isWellFormed_diagnostic {visit : Visit} {f : Finding}
    (hattr : f.attrName? = visit.attrName?)
    (hoperator : f.attrName? = none ↔ f.kind = .edgeOperator)
    (hfamily : ∀ family ∈ Diagnostic.codeFamilies, family.contains f.kind.code = true →
      ∃ name ∈ family.names, f.attrName? = some name) :
    f.diagnostic.IsWellFormed visit := by
  rw [f.diagnostic_eq]
  refine ⟨⟨_, _, rfl⟩, rfl, ⟨_, rfl⟩, ?severity, hattr, ?operator, hfamily⟩
  case severity =>
    exact f.kind.severity_eq
  case operator =>
    show f.attrName? = none ↔ some f.kind.code = some Kind.edgeOperator.code
    rw [Option.some.injEq, Kind.code_inj]
    exact hoperator

theorem isWellFormed_of_mem_report {config : Config} {visit : Visit} :
    ∀ d ∈ config.report visit, d.IsWellFormed visit := by
  intro d hd
  obtain ⟨f, hf, rfl⟩ := List.mem_map.1 hd
  cases visit with
  | attr site a =>
    obtain ⟨hattr, hkind⟩ := kind_of_mem_checkAttribute hf
    apply Finding.isWellFormed_diagnostic
    · exact hattr
    · rw [hattr]
      constructor
      · intro h
        cases h
      · intro h
        rw [h] at hkind
        exact absurd hkind (AttributeType.edgeOperator_not_mem_kinds _)
    · intro family hmem hcode
      exact ⟨a.name, name_mem_of_kind_mem hkind hmem hcode, hattr⟩
  | operator directed op =>
    rw [mem_checkOperator hf]
    apply Finding.isWellFormed_diagnostic
    · rfl
    · exact ⟨fun _ => rfl, fun _ => rfl⟩
    · intro family hmem hcode
      have hno : family.contains (Finding.operator op).kind.code = false :=
        not_contains_edgeOperator family hmem
      rw [hno] at hcode
      cases hcode

/-- **Well-formed diagnostics.** Every diagnostic of a document was produced for one of its visits
and is well formed: it has one primary label and no help, its code is that of a kind and decides
the severity, and its attribute is the one that was visited, which fits the code. -/
theorem validate_isWellFormed (config : Config) (document : Document) :
    (config.validate document).diagnostics = document.visits.flatMap config.report ∧
      ∀ visit ∈ document.visits, ∀ d ∈ config.report visit, d.IsWellFormed visit :=
  ⟨diagnostics_eq_reports config document, fun _ _ => isWellFormed_of_mem_report⟩

end DotAttributes
