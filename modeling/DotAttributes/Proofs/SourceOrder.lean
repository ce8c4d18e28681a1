import DotAttributes.Proofs.Places
import DotAttributes.Proofs.Record.Distinct

/-!
# Diagnostics come in the order of the source

In a document whose attributes and operators follow each other in the order of the walk, the
diagnostics follow each other as well: of two that were produced for different visits, the first
one stops where the second one starts, or before. So do those of one style list, of one color list
and of one record label (`validate_inOrder`).

Between visits this is about places: a diagnostic stands inside what was visited
(`isInside_of_mem_check`). That is known of documents which are written in a source, and every
attribute whose span fits its value is written in some source (`exists_isWrittenIn`). Within a
value it is about the readers, whose items follow each other (`Text.Successive`).
-/

namespace DotAttributes

open Text

/-! ## Spans and diagnostics in order -/

/-- Both spans have their ends in order, and the first one stops where the second one starts, or
before. -/
structure Span.IsBefore (s t : Span) : Prop where
  left : s.start ≤ s.stop
  between : s.stop ≤ t.start
  right : t.start ≤ t.stop

/-- The places of two diagnostics are in order. -/
def Diagnostic.IsBefore (d e : Diagnostic) : Prop :=
  ∃ s t, d.primarySpan? = some s ∧ e.primarySpan? = some t ∧ s.IsBefore t

theorem Finding.isBefore_diagnostic {f g : Finding} (h : f.span.IsBefore g.span) :
    f.diagnostic.IsBefore g.diagnostic :=
  ⟨f.span, g.span, primarySpan?_diagnostic f, primarySpan?_diagnostic g, h⟩

/-! ## Well-formed visits -/

/-- The span of an attribute is that of its value with the delimiters; that of an operator has its
ends in order. -/
def Visit.IsWellFormed : Visit → Prop
  | .attr _ a => a.span = a.valueSpan.widen a.delimiter.size
  | .operator _ op => op.span.start ≤ op.span.stop

instance : (visit : Visit) → Decidable visit.IsWellFormed
  | .attr _ a => inferInstanceAs (Decidable (a.span = a.valueSpan.widen a.delimiter.size))
  | .operator _ op => inferInstanceAs (Decidable (op.span.start ≤ op.span.stop))

theorem Visit.IsWellFormed.start_le_stop {visit : Visit} (h : visit.IsWellFormed) :
    visit.span.start ≤ visit.span.stop := by
  cases visit with
  | operator directed op => exact h
  | attr site a =>
    have hstop : a.span.stop = a.valueOffset + size a.chars + a.delimiter.size :=
      congrArg Span.stop h
    have hoffset : a.valueOffset = a.span.start + a.delimiter.size := rfl
    show a.span.start ≤ a.span.stop
    omega

/-- Visits of which each one stops before the next one starts are in order altogether. -/
theorem pairwise_of_isChain {visits : List Visit} (hformed : ∀ visit ∈ visits, visit.IsWellFormed)
    (hchain : visits.IsChain fun v w => v.span.stop ≤ w.span.start) :
    visits.Pairwise fun v w => v.span.stop ≤ w.span.start := by
  induction visits with
  | nil => exact .nil
  | cons v rest ih =>
    cases rest with
    | nil => exact List.pairwise_singleton _ v
    | cons w rest =>
      obtain ⟨-, hformed⟩ := List.forall_mem_cons.1 hformed
      obtain ⟨hnext, hchain⟩ := List.isChain_cons_cons.1 hchain
      have hpairwise := ih hformed hchain
      have hw := (hformed w List.mem_cons_self).start_le_stop
      refine .cons ?_ hpairwise
      intro u hu
      rcases List.mem_cons.1 hu with rfl | hu
      · exact hnext
      · have hbehind := (List.pairwise_cons.1 hpairwise).1 u hu
        omega

/-! ## Places inside visits -/

/-- An attribute whose span fits its value is written in some source: blanks up to the attribute,
then the value between delimiters. -/
theorem exists_isWrittenIn {a : Attribute} (h : a.span = a.valueSpan.widen a.delimiter.size) :
    ∃ source, a.IsWrittenIn source := by
  let blanks := List.replicate a.span.start ' '
  let quotes := List.replicate a.delimiter.size '"'
  let whole := quotes ++ a.chars ++ quotes
  have hsize (n : Nat) (c : Char) (hc : c.utf8Size = 1) : size (List.replicate n c) = n := by
    rw [size_eq_length, List.length_replicate]
    intro d hd
    rwa [List.eq_of_mem_replicate hd]
  have hblanks : size blanks = a.span.start := hsize _ ' ' (by decide)
  have hquotes : size quotes = a.delimiter.size := hsize _ '"' (by decide)
  have hvalue : StandsAt 0 (blanks ++ whole) a.valueSpan a.chars := by
    refine ⟨blanks ++ quotes, quotes, by simp [whole], ?_⟩
    rw [size_append, hblanks, hquotes, Nat.zero_add]
    rfl
  have hwhole : StandsAt 0 (blanks ++ whole) a.span whole := by
    refine ⟨blanks, [], by simp, ?_⟩
    rw [h]
    simp only [whole, size_append, hblanks, hquotes, Attribute.valueSpan, Attribute.valueOffset,
      Span.widen, Span.ofSize, Span.mk.injEq]
    omega
  refine ⟨⟨String.ofList (blanks ++ whole), none⟩, ?_, h, ?_⟩
  · rw [slice?_eq_some, String.toList_ofList]
    exact hvalue
  · refine Option.isSome_iff_exists.2 ⟨String.ofList whole, ?_⟩
    rw [slice?_eq_some, String.toList_ofList, String.toList_ofList]
    exact hwhole

/-- Every finding stands inside what is visited, its ends in order. -/
theorem isInside_of_mem_check {config : Config} {visit : Visit} {f : Finding}
    (hformed : visit.IsWellFormed) (h : f ∈ config.check visit) :
    f.span.IsWithin visit.span ∧ f.span.start ≤ f.span.stop := by
  cases visit with
  | attr site a =>
    obtain ⟨source, hwritten⟩ := exists_isWrittenIn hformed
    obtain ⟨span, text, hspan, -, hwithin, hslice, -⟩ := isExact_of_mem_checkAttribute hwritten h
    rw [Finding.primarySpan?_diagnostic, Option.some.injEq] at hspan
    rw [hspan]
    exact ⟨hwithin, (slice?_eq_some.1 hslice).start_le_stop⟩
  | operator directed op =>
    rw [mem_checkOperator h]
    exact ⟨⟨Nat.le_refl _, Nat.le_refl _⟩, hformed⟩

/-- What is reported of a visit comes before what is reported of one behind it. -/
theorem report_isBefore {config : Config} {v w : Visit} (hv : v.IsWellFormed)
    (hw : w.IsWellFormed) (hle : v.span.stop ≤ w.span.start) :
    ∀ d ∈ config.report v, ∀ e ∈ config.report w, d.IsBefore e := by
  intro d hd e he
  obtain ⟨f, hf, rfl⟩ := List.mem_map.1 hd
  obtain ⟨g, hg, rfl⟩ := List.mem_map.1 he
  obtain ⟨⟨-, hstop⟩, hfirst⟩ := isInside_of_mem_check hv hf
  obtain ⟨⟨hstart, -⟩, hsecond⟩ := isInside_of_mem_check hw hg
  exact Finding.isBefore_diagnostic ⟨hfirst, by omega, hsecond⟩

/-! ## Order within a value -/

/-- The value is a style list, a color list, or a label that is no markup and so may be a
record. -/
def Visit.isListing : Visit → Bool
  | .attr site a =>
    match AttributeType.of site.kind a.name with
    | .style | .colorList => true
    | .label => !a.isMarkup
    | _ => false
  | .operator .. => false

section

variable {site : Site} {a : Attribute}

/-- Problems that follow each other within a value are reported so. -/
theorem isBefore_of_successive {π : Type} {wrap : π → Problem} {problems : List (Located π)}
    (h : Successive 0 problems) :
    ((a.findings wrap problems).map Finding.diagnostic).Pairwise Diagnostic.IsBefore := by
  rw [Attribute.findings, List.map_map, List.pairwise_map]
  refine h.pairwise.imp_of_mem ?_
  intro p q hp hq hle
  have hfirst := (h.solid p hp).2
  have hsecond := (h.solid q hq).2
  apply Finding.isBefore_diagnostic
  simp only [Finding.span, Attribute.absolute]
  constructor <;> simp only [Span.shift_start, Span.shift_stop] <;> omega

theorem isBefore_of_checkStyle {deprecations : Bool} :
    ((checkStyle deprecations site a).map Finding.diagnostic).Pairwise Diagnostic.IsBefore := by
  unfold checkStyle
  split
  · exact List.pairwise_singleton _ _
  · next items hread => exact isBefore_of_successive (Style.successive_check hread)

theorem isBefore_of_checkColorList :
    ((checkColors site true a).map Finding.diagnostic).Pairwise Diagnostic.IsBefore := by
  unfold checkColors
  split
  · exact List.pairwise_singleton _ _
  · next items hread => exact isBefore_of_successive (Color.successive_of_readSegments hread)

theorem isBefore_of_checkRecord :
    ((checkRecord a).map Finding.diagnostic).Pairwise Diagnostic.IsBefore := by
  unfold checkRecord
  split
  · exact List.pairwise_singleton _ _
  · next label hread => exact isBefore_of_successive (Record.successive_check hread)

end

/-- What is reported of a style list, a color list or a record label is in order. -/
theorem report_pairwise_isBefore (config : Config) {visit : Visit}
    (h : visit.isListing = true) : (config.report visit).Pairwise Diagnostic.IsBefore := by
  cases visit with
  | operator directed op => cases h
  | attr site a =>
    have hreport : config.report (.attr site a) =
        (config.checkAttribute site a).map Finding.diagnostic := rfl
    rw [hreport, Config.checkAttribute]
    simp only [Visit.isListing] at h
    cases htype : AttributeType.of site.kind a.name with
    | style => exact isBefore_of_checkStyle
    | colorList => exact isBefore_of_checkColorList
    | label =>
      simp only [htype, Bool.not_eq_true'] at h
      simp only [Config.checkLabel, h, Bool.false_eq_true, if_false]
      by_cases hrecord : (config.recordLabels && site.hasRecords) = true
      · rw [if_pos hrecord]
        exact isBefore_of_checkRecord
      · rw [if_neg hrecord]
        exact .nil
    | _ => simp [htype] at h

/-! ## Documents -/

/-- **Order of the source.** If the visits of a document have well-formed spans, each of which stops
before the next one starts, the diagnostics of different visits come in the order of the source. So
do those of one style list, of one color list and of one record label, wherever it stands. -/
theorem validate_inOrder (config : Config) (document : Document) :
    (config.validate document).diagnostics = document.visits.flatMap config.report ∧
      ((∀ visit ∈ document.visits, visit.IsWellFormed) →
        (document.visits.IsChain fun v w => v.span.stop ≤ w.span.start) →
          document.visits.Pairwise fun v w =>
            ∀ d ∈ config.report v, ∀ e ∈ config.report w, d.IsBefore e) ∧
      ∀ visit ∈ document.visits, visit.isListing = true →
        (config.report visit).Pairwise Diagnostic.IsBefore := by
  refine ⟨diagnostics_eq_reports config document, ?_, ?_⟩
  · intro hformed hchain
    refine (pairwise_of_isChain hformed hchain).imp_of_mem ?_
    intro v w hv hw hle
    exact report_isBefore (hformed v hv) (hformed w hw) hle
  · intro visit _ hlisting
    exact report_pairwise_isBefore config hlisting

/-- A digraph with a node of record shape, to which a graph belongs, and a cluster behind it. The
label, the style and the colors have two faults each. -/
def listingDocument : Document :=
  let node := { Element.node "a" with
    attributes := [.writtenAt 20 .bare "shape" "record", .writtenAt 40 .quoted "label" "<p>|<>|<p>",
      .writtenAt 60 .quoted "style" "wild,bold,wilder"]
    nested := some ⟨false, false, { Element.graph with
      body := [.element (.edge [.writtenAt 90 true])] }⟩ }
  let cluster := { Element.subgraph (some "cluster") with
    body := [.assign (.writtenAt 120 .quoted "bgcolor" "rot:red:grau")] }
  ⟨true, false, { Element.graph with body := [.element node, .element cluster] }⟩

theorem validate_inOrder_listings :
    (∀ visit ∈ listingDocument.visits, visit.IsWellFormed) ∧
      (listingDocument.visits.IsChain fun v w => v.span.stop ≤ w.span.start) ∧
      (listingDocument.visits.map Visit.isListing = [false, true, true, false, true]) ∧
      (validate listingDocument).map Diagnostic.offset = [42, 45, 49, 61, 71, 90, 121, 129] ∧
      (listingDocument.visits.Pairwise fun v w =>
        ∀ d ∈ Config.full.report v, ∀ e ∈ Config.full.report w, d.IsBefore e) ∧
      ∀ visit ∈ listingDocument.visits, visit.isListing = true →
        (Config.full.report visit).Pairwise Diagnostic.IsBefore := by
  have hformed : ∀ visit ∈ listingDocument.visits, visit.IsWellFormed := by decide +kernel
  have hchain : listingDocument.visits.IsChain fun v w => v.span.stop ≤ w.span.start := by
    decide +kernel
  obtain ⟨-, hvisits, hlistings⟩ := validate_inOrder Config.full listingDocument
  exact ⟨hformed, hchain, by decide +kernel, by decide +kernel, hvisits hformed hchain, hlistings⟩

end DotAttributes
