import DotAttributes.Proofs.Document.Shift

/-!
# Validation commutes with moving

A document that stands `k` bytes further on has the same diagnostics, `k` bytes further on: no
check depends on where a value stands (`validate_shift`).

The value of an attribute is read and checked by itself, so the problems of a moved attribute are
those of the attribute, at the same places within the value. Every finding takes its place from
the attribute exactly once, be it the place of the attribute, that of the value or one within the
value, and all three move with the attribute (`check_shift`).
-/

namespace DotAttributes

/-- Moves a label by `k` bytes to the right. -/
def Label.shift (k : Nat) (label : Label) : Label := { label with span := label.span.shift k }

/-- Moves the labels of a diagnostic. Severity, message, help, code and attribute stay, and so do
the texts of the labels. -/
def Diagnostic.shift (k : Nat) (d : Diagnostic) : Diagnostic :=
  { d with labels := d.labels.map (Label.shift k) }

/-- Moves a finding, and the attribute or the operator that it is about. -/
def Finding.shift (k : Nat) : Finding → Finding
  | value a span problem => value (a.shift k) (span.shift k) problem
  | operator op => operator (op.shift k)

variable (k : Nat)

/-- A moved finding reads as before, at the moved place. -/
theorem diagnostic_shift (f : Finding) : (f.shift k).diagnostic = f.diagnostic.shift k := by
  cases f with
  | operator op => rfl
  | value a span problem =>
    cases problem with
    | style p => cases p <;> rfl
    | record p => cases p <;> rfl
    | _ => rfl

/-! ## One attribute -/

section

variable (a : Attribute)

theorem notReadable_shift (type detail : String) :
    (a.shift k).notReadable type detail = (a.notReadable type detail).shift k := by
  simp only [Attribute.notReadable, Attribute.valueSpan_shift]
  rfl

theorem findings_shift {π : Type} (wrap : π → Problem) (problems : List (Located π)) :
    (a.shift k).findings wrap problems = (a.findings wrap problems).map (Finding.shift k) := by
  simp only [Attribute.findings, List.map_map, Attribute.absolute_shift]
  rfl

theorem checkArrow_shift (deprecations : Bool) :
    checkArrow deprecations (a.shift k) = (checkArrow deprecations a).map (Finding.shift k) := by
  unfold checkArrow
  rw [Attribute.chars_shift]
  split
  · simp [notReadable_shift]
  · exact findings_shift k a _ _

theorem checkColors_shift (site : Site) (inList : Bool) :
    checkColors site inList (a.shift k) = (checkColors site inList a).map (Finding.shift k) := by
  unfold checkColors
  rw [Attribute.chars_shift]
  split
  · simp [notReadable_shift]
  · exact findings_shift k a _ _

theorem checkScheme_shift :
    checkScheme (a.shift k) = (checkScheme a).map (Finding.shift k) := by
  unfold checkScheme
  rw [Attribute.chars_shift]
  split
  · rfl
  · simp [Attribute.valueSpan_shift, Finding.shift]

theorem checkShape_shift : checkShape (a.shift k) = (checkShape a).map (Finding.shift k) := by
  unfold checkShape
  rw [Attribute.shift_value]
  split
  · rfl
  · simp [notReadable_shift]

theorem checkStyle_shift (deprecations : Bool) (site : Site) :
    checkStyle deprecations site (a.shift k) =
      (checkStyle deprecations site a).map (Finding.shift k) := by
  unfold checkStyle
  rw [Attribute.chars_shift]
  split
  · simp [notReadable_shift]
  · exact findings_shift k a _ _

theorem checkNumber_shift (bound : Number) :
    checkNumber bound (a.shift k) = (checkNumber bound a).map (Finding.shift k) := by
  unfold checkNumber
  rw [Attribute.chars_shift]
  split
  · simp [notReadable_shift]
  · split
    · simp [Attribute.valueSpan_shift, Finding.shift]
    · rfl

theorem checkEnumeration_shift (words : Enumeration) :
    checkEnumeration words (a.shift k) = (checkEnumeration words a).map (Finding.shift k) := by
  unfold checkEnumeration
  rw [Attribute.shift_value]
  split
  · rfl
  · simp [notReadable_shift]

theorem checkMarkup_shift :
    checkMarkup (a.shift k) = (checkMarkup a).map (Finding.shift k) := by
  unfold checkMarkup
  rw [Attribute.chars_shift]
  split
  · rfl
  · exact findings_shift k a _ _

theorem checkRecord_shift :
    checkRecord (a.shift k) = (checkRecord a).map (Finding.shift k) := by
  unfold checkRecord
  rw [Attribute.chars_shift]
  split
  · simp [Attribute.absolute_shift, Finding.shift]
  · exact findings_shift k a _ _

theorem checkLabel_shift (config : Config) (site : Site) :
    config.checkLabel site (a.shift k) = (config.checkLabel site a).map (Finding.shift k) := by
  unfold Config.checkLabel
  rw [Attribute.isMarkup_shift]
  by_cases hmarkup : a.isMarkup
  · rw [if_pos hmarkup, if_pos hmarkup, checkMarkup_shift]
    split <;> rfl
  · rw [if_neg hmarkup, if_neg hmarkup, checkRecord_shift]
    split <;> rfl

/-- Whatever the type of an attribute is, its findings move with it. -/
theorem checkAttribute_shift (config : Config) (site : Site) :
    config.checkAttribute site (a.shift k) =
      (config.checkAttribute site a).map (Finding.shift k) := by
  unfold Config.checkAttribute
  rw [Attribute.shift_name]
  cases AttributeType.of site.kind a.name with
  | arrow => exact checkArrow_shift k a _
  | color => exact checkColors_shift k a site false
  | colorList => exact checkColors_shift k a site true
  | colorScheme => exact checkScheme_shift k a
  | shape => exact checkShape_shift k a
  | style => exact checkStyle_shift k a _ site
  | number bound => exact checkNumber_shift k a bound
  | enumeration words => exact checkEnumeration_shift k a words
  | label => exact checkLabel_shift k a config site
  | unchecked => rfl

end

/-! ## Documents -/

/-- The findings of what is visited move with it. The site moves as well, which makes no
difference. -/
theorem check_shift (config : Config) (visit : Visit) :
    config.check (visit.shift k) = (config.check visit).map (Finding.shift k) := by
  cases visit with
  | attr site a =>
    have hsite := (site.agrees_shift k).checkAttribute config (a.shift k)
    exact hsite.trans (checkAttribute_shift k a config site)
  | operator directed op =>
    show config.checkOperator directed (op.shift k) = _
    simp only [Config.check, Config.checkOperator]
    by_cases hmisfit : (config.edgeDirection && op.directed != directed) = true
    · simp [hmisfit, EdgeOperator.shift, Finding.shift]
    · simp [hmisfit, EdgeOperator.shift]

/-- **Validation commutes with moving.** The diagnostics of a document that stands `k` bytes
further on are those of the document, `k` bytes further on. -/
theorem validate_shift (config : Config) (document : Document) :
    (config.validate (document.shift k)).diagnostics =
      (config.validate document).diagnostics.map (Diagnostic.shift k) := by
  have hfindings :
      config.findings (document.shift k) = (config.findings document).map (Finding.shift k) := by
    rw [Config.findings, Config.findings, Document.visits_shift, List.flatMap_map, List.map_flatMap]
    exact List.flatMap_congr fun visit _ => check_shift k config visit
  rw [Config.validate, Config.validate, hfindings, List.map_map, List.map_map]
  exact List.map_congr_left fun f _ => diagnostic_shift k f

end DotAttributes
