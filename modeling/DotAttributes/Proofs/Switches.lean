import DotAttributes.Proofs.Checks
import DotAttributes.Proofs.Findings
import Mathlib.Data.List.Basic

/-!
# Switching checks off

A configuration has four switches. Each finding belongs to at most one of them
(`Problem.switch?`), and switching a check off takes exactly its findings away:
`validate_eq_filter` says that the diagnostics under any configuration are those with all
checks on, in the same order, without the ones that belong to a switch that is off. Which
ones these are is read off the diagnostic alone, by `Config.keeps`.
-/

namespace DotAttributes

/-! ## What belongs to a switch -/

namespace Diagnostic

/-- Whether a diagnostic is about a markup label. -/
def isAboutMarkup (d : Diagnostic) : Bool :=
  d.hasKind .tagInvalid || d.hasKind .tagAttributeInvalid || d.hasKind .siblingsInvalid ||
    d.refuses markupTypeName

/-- Whether a diagnostic is about a record label. -/
def isAboutRecord (d : Diagnostic) : Bool :=
  d.hasKind .portDuplicate || d.hasKind .portNotSet || d.refuses recordTypeName

end Diagnostic

/-- Whether a diagnostic stays when the checks that a configuration switches off are off. -/
def Config.keeps (config : Config) (d : Diagnostic) : Bool :=
  (config.deprecations || !d.hasKind .deprecatedValue) &&
    (config.edgeDirection || !d.hasKind .edgeOperator) &&
    (config.markupLabels || !d.isAboutMarkup) &&
    (config.recordLabels || !d.isAboutRecord)

/-- The switches of a configuration. -/
inductive Switch
  | deprecations
  | edgeDirection
  | markupLabels
  | recordLabels
deriving DecidableEq, Repr

/-- Whether a switch is on. -/
def Config.isOn (config : Config) : Switch → Bool
  | .deprecations => config.deprecations
  | .edgeDirection => config.edgeDirection
  | .markupLabels => config.markupLabels
  | .recordLabels => config.recordLabels

/-- The switch that a value of a type, if it cannot be read, belongs to. -/
def switchOfType? (type : String) : Option Switch :=
  if type = markupTypeName then some .markupLabels
  else if type = recordTypeName then some .recordLabels
  else none

/-- The switch that a problem of a value belongs to. -/
def Problem.switch? : Problem → Option Switch
  | notReadable type _ => switchOfType? type
  | arrow (.deprecated _) | style .deprecatedWidth => some .deprecations
  | markup _ => some .markupLabels
  | record _ => some .recordLabels
  | _ => none

/-- The switch that a finding belongs to. -/
def Finding.switch? : Finding → Option Switch
  | value _ _ problem => problem.switch?
  | operator _ => some .edgeDirection

/-- Whether a finding stays under a configuration. -/
def Config.keepsFinding (config : Config) (f : Finding) : Bool := f.switch?.all config.isOn

theorem keeps_diagnostic_notReadable (config : Config) (a : Attribute) (span : Span)
    (type detail : String) :
    config.keeps (Finding.value a span (.notReadable type detail)).diagnostic =
      (switchOfType? type).all config.isOn := by
  have hne : markupTypeName ≠ recordTypeName := by decide
  simp only [Config.keeps, Diagnostic.isAboutMarkup, Diagnostic.isAboutRecord,
    Finding.refuses_diagnostic_notReadable, Finding.hasKind_diagnostic, Finding.kind, Problem.kind]
  by_cases hm : type = markupTypeName
  · simp [switchOfType?, hm, hne, Config.isOn]
  · by_cases hr : type = recordTypeName
    · simp [switchOfType?, hr, hne.symm, Config.isOn]
    · simp [switchOfType?, hm, hr]

/-- The diagnostic of a finding stays exactly if the switch of the finding is on. -/
theorem keeps_diagnostic (config : Config) (f : Finding) :
    config.keeps f.diagnostic = config.keepsFinding f := by
  by_cases hk : f.kind = .syntaxError
  · cases f with
    | operator op => cases hk
    | value a span problem =>
      cases problem with
      | notReadable type detail => exact keeps_diagnostic_notReadable config a span type detail
      | arrow p => cases p <;> cases hk
      | style p => cases p <;> cases hk
      | markup p => cases p <;> cases hk
      | record p => cases p <;> cases hk
      | _ => cases hk
  · simp only [Config.keeps, Diagnostic.isAboutMarkup, Diagnostic.isAboutRecord,
      Finding.refuses_diagnostic_of_kind_ne hk, Finding.hasKind_diagnostic, Config.keepsFinding]
    cases f with
    | operator op => simp [Finding.kind, Finding.switch?, Config.isOn]
    | value a span problem =>
      cases problem with
      | notReadable type detail => exact absurd rfl hk
      | arrow p => cases p <;> simp [Finding.kind, Finding.switch?, Config.isOn, Problem.kind,
          Problem.switch?, Arrow.Problem.kind]
      | style p => cases p <;> simp [Finding.kind, Finding.switch?, Config.isOn, Problem.kind,
          Problem.switch?, Style.Problem.kind]
      | markup p => cases p <;> simp [Finding.kind, Finding.switch?, Config.isOn, Problem.kind,
          Problem.switch?, Markup.Problem.kind]
      | record p => cases p <;> simp [Finding.kind, Finding.switch?, Config.isOn, Problem.kind,
          Problem.switch?, Record.Problem.kind]
      | _ => simp [Finding.kind, Finding.switch?, Problem.kind, Problem.switch?]

/-! ## Checks that no switch touches -/

/-- No closed set of words has the name of a type of labels. -/
theorem switchOfType?_enumeration {kind : ElementKind} {name : String} {words : Enumeration}
    (h : AttributeType.of kind name = .enumeration words) : switchOfType? words.name = none := by
  have htable : AttributeType.table.all (fun row =>
      match row.type with
      | .enumeration words => (switchOfType? words.name).isNone
      | _ => true) = true := by decide
  refine AttributeType.of_mem
    (P := fun type => ∀ words, type = .enumeration words → switchOfType? words.name = none)
    ?_ (fun words h => by cases h) kind name words h
  intro row hrow words hw
  have hnone := List.all_eq_true.1 htable row hrow
  rw [hw] at hnone
  simpa using hnone

/-- Findings of a list that belong to no switch stay under every configuration. -/
theorem filter_keepsFinding_of_forall {l : List Finding} (h : ∀ f ∈ l, f.switch? = none)
    (config : Config) : l.filter config.keepsFinding = l := by
  refine List.filter_eq_self.2 fun f hf => ?_
  simp [Config.keepsFinding, h f hf]

/-- Findings of a list that all belong to one switch stay or go together. -/
theorem filter_keepsFinding_of_forall_eq {l : List Finding} {switch : Switch}
    (h : ∀ f ∈ l, f.switch? = some switch) (config : Config) :
    l.filter config.keepsFinding = if config.isOn switch then l else [] := by
  split
  · next hon =>
    refine List.filter_eq_self.2 fun f hf => ?_
    simp [Config.keepsFinding, h f hf, hon]
  · next hoff =>
    refine List.filter_eq_nil_iff.2 fun f hf => ?_
    simpa [Config.keepsFinding, h f hf] using hoff

theorem switch?_checkColors {site : Site} {inList : Bool} {a : Attribute} {f : Finding}
    (h : f ∈ checkColors site inList a) : f.switch? = none := by
  rcases mem_checkColors h with ⟨detail, rfl⟩ | ⟨items, -, p, -, rfl⟩
  · cases inList <;> rfl
  · rfl

theorem switch?_checkNumber {bound : Number} {a : Attribute} {f : Finding}
    (h : f ∈ checkNumber bound a) : f.switch? = none := by
  rcases mem_checkNumber h with ⟨detail, rfl⟩ | rfl
  · cases bound <;> rfl
  · rfl

theorem switch?_checkMarkup {a : Attribute} {f : Finding} (h : f ∈ checkMarkup a) :
    f.switch? = some .markupLabels := by
  rcases mem_checkMarkup h with ⟨detail, rfl⟩ | ⟨label, -, p, -, rfl⟩ <;> rfl

theorem switch?_checkRecord {a : Attribute} {f : Finding} (h : f ∈ checkRecord a) :
    f.switch? = some .recordLabels := by
  rcases mem_checkRecord h with ⟨fault, -, rfl⟩ | ⟨label, -, p, -, rfl⟩ <;> rfl

/-! ## Deprecated values -/

/-- Findings made from problems are filtered problem by problem. -/
theorem filter_findings {π : Type} (config : Config) (a : Attribute) (wrap : π → Problem)
    (problems : List (Located π)) :
    (a.findings wrap problems).filter config.keepsFinding =
      a.findings wrap (problems.filter fun p => (wrap p.item).switch?.all config.isOn) := by
  rw [Attribute.findings, List.filter_map, Attribute.findings]
  rfl

/-- Whether the problem of an arrow type stays under a configuration. -/
def Config.keepsArrow (config : Config) (p : Located Arrow.Problem) : Bool :=
  (Problem.arrow p.item).switch?.all config.isOn

/-- The clauses of an arrow type lose exactly their deprecated shapes. Which shapes have been
reported already matters only where deprecations are reported. -/
theorem checkClauses_eq_filter (config : Config) (whole : Span) (clauses : List Arrow.Clause) :
    ∀ seen seen', (config.deprecations = true → seen = seen') →
      Arrow.checkClauses config.deprecations whole seen clauses =
        (Arrow.checkClauses true whole seen' clauses).filter config.keepsArrow := by
  induction clauses with
  | nil => intro seen seen' _; rfl
  | cons c cs ih =>
    intro seen seen' hseen
    simp only [Arrow.checkClauses]
    split
    · rw [List.filter_append, ih seen seen' hseen]
      congr 1
      refine (List.filter_eq_self.2 fun p hp => ?_).symm
      obtain ⟨problem, hproblem, rfl⟩ := List.mem_map.1 hp
      rcases Arrow.mem_modifierProblems.1 hproblem with ⟨half, -, -, rfl⟩ | ⟨-, -, rfl⟩ <;> rfl
    · next shape _ =>
      cases hdep : config.deprecations with
      | true =>
        rw [hseen hdep]
        have ih' := fun seen => ih seen seen fun _ => rfl
        rw [hdep] at ih'
        split
        · have hkeep : config.keepsArrow ⟨.deprecated shape, c.span⟩ = true := by
            simp [Config.keepsArrow, Problem.switch?, Config.isOn, hdep]
          rw [List.filter_cons_of_pos hkeep, ← ih' (shape :: seen')]
        · exact ih' seen'
      | false =>
        have ih' := fun seen' => ih seen seen' fun h => absurd h (by simp [hdep])
        rw [hdep] at ih'
        simp only [Bool.false_and, Bool.false_eq_true, if_false]
        split
        · have hdrop : ¬ config.keepsArrow ⟨.deprecated shape, c.span⟩ = true := by
            simp [Config.keepsArrow, Problem.switch?, Config.isOn, hdep]
          rw [List.filter_cons_of_neg hdrop]
          exact ih' (shape :: seen')
        · exact ih' seen'

theorem arrowCheck_eq_filter (config : Config) (whole : Span) (arrow : Arrow) :
    Arrow.check config.deprecations whole arrow =
      (Arrow.check true whole arrow).filter config.keepsArrow := by
  rw [Arrow.check, Arrow.check, List.filter_append,
    checkClauses_eq_filter config whole arrow.clauses [] [] fun _ => rfl]
  congr 1
  refine (List.filter_eq_self.2 fun p hp => ?_).symm
  unfold Arrow.checkLast at hp
  split at hp
  · split at hp
    · rw [List.mem_singleton.1 hp]
      rfl
    · cases hp
  · cases hp

/-- Whether the problem of a style list stays under a configuration. -/
def Config.keepsStyle (config : Config) (p : Located Style.Problem) : Bool :=
  (Problem.style p.item).switch?.all config.isOn

/-- An item of a style list loses exactly the deprecated width. -/
theorem checkItem_eq_filter (config : Config) (allowed : List String) (stripes : Bool)
    (item : Style.Item) :
    Style.checkItem config.deprecations allowed stripes item =
      (Style.checkItem true allowed stripes item).filter config.keepsStyle := by
  simp only [Style.checkItem]
  by_cases hwidth : String.ofList item.name.item = Style.widthItem
  · simp only [if_pos hwidth]
    cases hdep : config.deprecations <;>
      simp [Config.keepsStyle, Problem.switch?, Config.isOn, hdep]
  · simp only [if_neg hwidth]
    split
    · rfl
    · split <;> rfl

theorem styleCheck_eq_filter (config : Config) (allowed : List String) (stripes : Bool)
    (items : List Style.Item) :
    Style.check config.deprecations allowed stripes items =
      (Style.check true allowed stripes items).filter config.keepsStyle := by
  rw [Style.check, Style.check, List.filter_flatMap]
  exact List.flatMap_congr fun item _ => checkItem_eq_filter config allowed stripes item

/-! ## Checks under a configuration -/

theorem checkArrow_eq_filter (config : Config) (a : Attribute) :
    checkArrow config.deprecations a = (checkArrow true a).filter config.keepsFinding := by
  unfold checkArrow
  split
  · rfl
  · next arrow _ => rw [arrowCheck_eq_filter, filter_findings]; rfl

theorem checkStyle_eq_filter (config : Config) (site : Site) (a : Attribute) :
    checkStyle config.deprecations site a =
      (checkStyle true site a).filter config.keepsFinding := by
  unfold checkStyle
  split
  · rfl
  · next items _ => rw [styleCheck_eq_filter, filter_findings]; rfl

theorem checkLabel_eq_filter (config : Config) (site : Site) (a : Attribute) :
    config.checkLabel site a = (Config.full.checkLabel site a).filter config.keepsFinding := by
  unfold Config.checkLabel
  split
  · rw [show Config.full.markupLabels = true from rfl, if_pos rfl,
      filter_keepsFinding_of_forall_eq fun f => switch?_checkMarkup]
    rfl
  · simp only [Config.full, Bool.true_and]
    cases hrecord : site.hasRecords with
    | true =>
      rw [if_pos rfl, Bool.and_true,
        filter_keepsFinding_of_forall_eq fun f => switch?_checkRecord]
      rfl
    | false => simp

theorem checkAttribute_eq_filter (config : Config) (site : Site) (a : Attribute) :
    config.checkAttribute site a =
      (Config.full.checkAttribute site a).filter config.keepsFinding := by
  unfold Config.checkAttribute
  split
  · exact checkArrow_eq_filter config a
  · exact (filter_keepsFinding_of_forall (fun f => switch?_checkColors) config).symm
  · exact (filter_keepsFinding_of_forall (fun f => switch?_checkColors) config).symm
  · refine (filter_keepsFinding_of_forall (fun f hf => ?_) config).symm
    rw [mem_checkScheme hf]
    rfl
  · refine (filter_keepsFinding_of_forall (fun f hf => ?_) config).symm
    obtain ⟨detail, rfl⟩ := mem_checkShape hf
    rfl
  · exact checkStyle_eq_filter config site a
  · exact (filter_keepsFinding_of_forall (fun f => switch?_checkNumber) config).symm
  · next words hwords =>
    refine (filter_keepsFinding_of_forall (fun f hf => ?_) config).symm
    obtain ⟨detail, rfl⟩ := mem_checkEnumeration hf
    exact switchOfType?_enumeration hwords
  · exact checkLabel_eq_filter config site a
  · rfl

/-- What a visit finds under a configuration is what it finds with all checks on, without the
findings that belong to a switch that is off. -/
theorem check_eq_filter (config : Config) (visit : Visit) :
    config.check visit = (Config.full.check visit).filter config.keepsFinding := by
  cases visit with
  | attr site a => exact checkAttribute_eq_filter config site a
  | operator directed op =>
    simp only [Config.check, Config.checkOperator, Config.full, Bool.true_and]
    cases hop : op.directed != directed <;> cases hon : config.edgeDirection <;>
      simp [Config.keepsFinding, Finding.switch?, Config.isOn, hon]

theorem findings_eq_filter (config : Config) (document : Document) :
    config.findings document = (Config.full.findings document).filter config.keepsFinding := by
  rw [Config.findings, Config.findings, List.filter_flatMap]
  exact List.flatMap_congr fun visit _ => check_eq_filter config visit

/-- **Switches are filters.** The diagnostics of a document under a configuration are those
with all checks on, in the same order, without the ones that belong to a switch that is off. -/
theorem validate_eq_filter (config : Config) (document : Document) :
    (config.validate document).diagnostics =
      (Config.full.validate document).diagnostics.filter config.keeps := by
  show (config.findings document).map Finding.diagnostic =
    ((Config.full.findings document).map Finding.diagnostic).filter config.keeps
  rw [List.filter_map, findings_eq_filter]
  congr 2
  funext f
  exact (keeps_diagnostic config f).symm

-- The codes and the label texts by which `Config.keeps` tells the diagnostics of a switch.
example : Kind.deprecatedValue.code = "DEPRECATED_VALUE" ∧
    Kind.edgeOperator.code = "EDGE_OP_INVALID" ∧
    s!"not a valid {markupTypeName}" = "not a valid htmlLabel" ∧
    s!"not a valid {recordTypeName}" = "not a valid record-based label" := by decide

end DotAttributes
