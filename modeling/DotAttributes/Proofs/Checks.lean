import DotAttributes.Validation

/-!
# What the checks can find

One statement for each check of an attribute: its findings are the finding that the value
cannot be read, at the value, or problems found in what was read, moved to their places in
the document. Which check it is depends on the row that the attribute has in the table of types
(`AttributeType.exists_row`). The two checks of labels name other places for a value that cannot be read: a
markup label is reported with its delimiters, a record label where reading stopped.
-/

namespace DotAttributes

variable {a : Attribute} {f : Finding}

theorem mem_findings {π : Type} {wrap : π → Problem} {problems : List (Located π)} :
    f ∈ a.findings wrap problems ↔
      ∃ p ∈ problems, f = .value a (a.absolute p.span) (wrap p.item) := by
  simp only [Attribute.findings, List.mem_map, eq_comm]

theorem mem_checkArrow {deprecations : Bool} (h : f ∈ checkArrow deprecations a) :
    (∃ detail, f = a.notReadable arrowTypeName detail) ∨
      ∃ arrow, Arrow.read a.chars = .ok arrow ∧
        ∃ p ∈ Arrow.check deprecations ⟨0, Text.size a.chars⟩ arrow,
          f = .value a (a.absolute p.span) (.arrow p.item) := by
  unfold checkArrow at h
  split at h
  · exact Or.inl ⟨_, List.mem_singleton.1 h⟩
  · next arrow hread => exact Or.inr ⟨arrow, hread, mem_findings.1 h⟩

theorem mem_checkColors {site : Site} {inList : Bool} (h : f ∈ checkColors site inList a) :
    (∃ detail, f = a.notReadable (colorTypeName inList) detail) ∨
      ∃ items, readColors inList a.chars = .ok items ∧
        ∃ p ∈ Color.check site.colorScheme.toList items,
          f = .value a (a.absolute p.span) (.color inList p.item) := by
  unfold checkColors at h
  split at h
  · exact Or.inl ⟨_, List.mem_singleton.1 h⟩
  · next items hread => exact Or.inr ⟨items, hread, mem_findings.1 h⟩

theorem mem_checkScheme (h : f ∈ checkScheme a) : f = .value a a.valueSpan .unknownScheme := by
  unfold checkScheme at h
  split at h
  · cases h
  · exact List.mem_singleton.1 h

theorem mem_checkShape (h : f ∈ checkShape a) :
    ∃ detail, f = a.notReadable shapeTypeName detail := by
  unfold checkShape at h
  split at h
  · cases h
  · exact ⟨_, List.mem_singleton.1 h⟩

theorem mem_checkStyle {deprecations : Bool} {site : Site}
    (h : f ∈ checkStyle deprecations site a) :
    (∃ detail, f = a.notReadable styleTypeName detail) ∨
      ∃ items, Style.read a.chars = .ok items ∧
        ∃ p ∈ Style.check deprecations (styleItems site.kind) site.hasStripes items,
          f = .value a (a.absolute p.span) (.style p.item) := by
  unfold checkStyle at h
  split at h
  · exact Or.inl ⟨_, List.mem_singleton.1 h⟩
  · next items hread => exact Or.inr ⟨items, hread, mem_findings.1 h⟩

theorem mem_checkNumber {bound : Number} (h : f ∈ checkNumber bound a) :
    (∃ detail, f = a.notReadable bound.kind.name detail) ∨
      f = .value a a.valueSpan (.belowBound bound) := by
  unfold checkNumber at h
  split at h
  · exact Or.inl ⟨_, List.mem_singleton.1 h⟩
  · split at h
    · exact Or.inr (List.mem_singleton.1 h)
    · cases h

theorem mem_checkEnumeration {words : Enumeration} (h : f ∈ checkEnumeration words a) :
    ∃ detail, f = a.notReadable words.name detail := by
  unfold checkEnumeration at h
  split at h
  · cases h
  · exact ⟨_, List.mem_singleton.1 h⟩

theorem mem_checkMarkup (h : f ∈ checkMarkup a) :
    (∃ detail, f = .value a a.span (.notReadable markupTypeName detail)) ∨
      ∃ label, Markup.read a.chars = .ok label ∧
        ∃ p ∈ Markup.check label, f = .value a (a.absolute p.span) (.markup p.item) := by
  unfold checkMarkup at h
  split at h
  · exact Or.inl ⟨_, List.mem_singleton.1 h⟩
  · next label hread => exact Or.inr ⟨label, hread, mem_findings.1 h⟩

theorem mem_checkRecord (h : f ∈ checkRecord a) :
    (∃ fault, Record.read a.chars = .error fault ∧
        f = .value a (a.absolute fault.span) (.notReadable recordTypeName fault.item.detail)) ∨
      ∃ label, Record.read a.chars = .ok label ∧
        ∃ p ∈ Record.check label, f = .value a (a.absolute p.span) (.record p.item) := by
  unfold checkRecord at h
  split at h
  · next fault hread => exact Or.inl ⟨fault, hread, List.mem_singleton.1 h⟩
  · next label hread => exact Or.inr ⟨label, hread, mem_findings.1 h⟩

/-- A label has findings only as markup, by its delimiters, or as the record of a node. -/
theorem mem_checkLabel {config : Config} {site : Site} (h : f ∈ config.checkLabel site a) :
    (a.isMarkup = true ∧ config.markupLabels = true ∧ f ∈ checkMarkup a) ∨
      (a.isMarkup = false ∧ config.recordLabels = true ∧ site.hasRecords = true ∧
        f ∈ checkRecord a) := by
  unfold Config.checkLabel at h
  split at h
  · next hmarkup =>
    split at h
    · next hon => exact Or.inl ⟨hmarkup, hon, h⟩
    · cases h
  · next hmarkup =>
    split at h
    · next hrecord =>
      rw [Bool.and_eq_true] at hrecord
      exact Or.inr ⟨Bool.eq_false_iff.2 hmarkup, hrecord.1, hrecord.2, h⟩
    · cases h

/-- An operator is all that its check can find. -/
theorem mem_checkOperator {config : Config} {directed : Bool} {op : EdgeOperator}
    (h : f ∈ config.checkOperator directed op) : f = .operator op := by
  unfold Config.checkOperator at h
  split at h
  · exact List.mem_singleton.1 h
  · cases h

/-! ## Types of attributes -/

/-- An attribute that is read has a row in the table. -/
theorem AttributeType.exists_row {kind : ElementKind} {name : String}
    (h : of kind name ≠ unchecked) :
    ∃ row ∈ table, row.type = of kind name ∧ name ∈ row.names ∧ kind ∈ row.kinds := by
  unfold AttributeType.of at h ⊢
  split at h
  · next row hfind =>
    have hfits := List.find?_some hfind
    rw [Row.fits, Bool.and_eq_true, List.contains_iff_mem, List.contains_iff_mem] at hfits
    exact ⟨row, List.mem_of_find?_eq_some hfind, rfl, hfits⟩
  · exact absurd rfl h

/-- What holds of all rows of the table, and of attributes that are not read, holds of the
type of every attribute. -/
theorem AttributeType.of_mem {P : AttributeType → Prop} (hrow : ∀ row ∈ table, P row.type)
    (hnone : P unchecked) (kind : ElementKind) (name : String) : P (of kind name) := by
  unfold AttributeType.of
  split
  · next row h => exact hrow row (List.mem_of_find?_eq_some h)
  · exact hnone

end DotAttributes
