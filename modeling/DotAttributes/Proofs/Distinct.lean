import DotAttributes.Proofs.Arrow.Misfits
import DotAttributes.Proofs.Markup.Distinct
import DotAttributes.Proofs.Places
import DotAttributes.Proofs.Record.Distinct

/-!
# How often a diagnostic is reported

In a document whose attributes and operators stand apart from each other, every diagnostic is
reported once, with one exception: a modifier of an arrow that its shape does not take is reported
for every clause that has it, always at the whole value, and clauses may repeat (`validate_count`).

Diagnostics of different visits have different places, because every place lies in what is visited
(`stop_of_mem_check`). Those of one value are told apart by the place within the value, or, for
tags of markup, by their wording.
-/

namespace DotAttributes

open Text

/-! ## Places apart -/

/-- Two spans have no byte in common. -/
def Span.IsApart (s t : Span) : Prop := s.stop ≤ t.start ∨ t.stop ≤ s.start

instance (s t : Span) : Decidable (s.IsApart t) := inferInstanceAs (Decidable (_ ∨ _))

/-- The place of what is visited is not empty; that of an attribute is the place of the value
with the delimiters. -/
def Visit.IsSolid (visit : Visit) : Prop :=
  visit.span.start < visit.span.stop ∧
    match visit with
    | .attr _ a => a.span = a.valueSpan.widen a.delimiter.size
    | .operator .. => True

instance : (visit : Visit) → Decidable visit.IsSolid
  | .attr _ a => inferInstanceAs
      (Decidable (a.span.start < a.span.stop ∧ a.span = a.valueSpan.widen a.delimiter.size))
  | .operator _ op => inferInstanceAs (Decidable (op.span.start < op.span.stop ∧ True))

/-! ## One value -/

/-- An entry that no other one is mapped to is counted as before. -/
theorem count_map_of_forall_eq {α β : Type} [DecidableEq α] [DecidableEq β] {f : α → β}
    {l : List α} {x : α} (h : ∀ y ∈ l, f y = f x → y = x) :
    (l.map f).count (f x) = l.count x := by
  rw [List.count_eq_countP, List.countP_map, List.count_eq_countP]
  refine List.countP_congr fun y hy => ?_
  simp only [Function.comp_apply, beq_iff_eq]
  exact ⟨h y hy, congrArg f⟩

/-- The diagnostic of a problem that has been located within a value. -/
def Attribute.diagnosticOf {π : Type} (a : Attribute) (wrap : π → Problem) (p : Located π) :
    Diagnostic :=
  (Finding.value a (a.absolute p.span) (wrap p.item)).diagnostic

section

variable {a : Attribute}

theorem absolute_inj {s t : Span} (h : a.absolute s = a.absolute t) : s = t := by
  cases s
  cases t
  simp only [Attribute.absolute, Span.shift, Span.mk.injEq] at h ⊢
  omega

theorem map_diagnostic_findings {π : Type} (wrap : π → Problem) (problems : List (Located π)) :
    (a.findings wrap problems).map Finding.diagnostic = problems.map (a.diagnosticOf wrap) := by
  rw [Attribute.findings, List.map_map]
  rfl

/-- Equal diagnostics are reported at the same place of the value. -/
theorem span_of_diagnosticOf_eq {π : Type} {wrap : π → Problem} {p q : Located π}
    (h : a.diagnosticOf wrap p = a.diagnosticOf wrap q) : p.span = q.span := by
  have hspan := congrArg Diagnostic.primarySpan? h
  simp only [Attribute.diagnosticOf, Finding.primarySpan?_diagnostic, Option.some.injEq] at hspan
  exact absolute_inj hspan

/-- Problems at different places of a value have different diagnostics. -/
theorem nodup_of_spans {π : Type} {wrap : π → Problem} {problems : List (Located π)}
    (h : (problems.map Located.span).Nodup) :
    ((a.findings wrap problems).map Finding.diagnostic).Nodup := by
  rw [map_diagnostic_findings]
  refine List.Nodup.map_on (fun p hp q hq heq => ?_) h.of_map
  exact List.inj_on_of_nodup_map h hp hq (span_of_diagnosticOf_eq heq)

/-- The diagnostic of a problem of a markup label shows what there is to tell it from others. -/
theorem shown_of_diagnosticOf_eq {p q : Located Markup.Problem}
    (h : a.diagnosticOf .markup p = a.diagnosticOf .markup q) :
    Markup.Problem.shown p = Markup.Problem.shown q := by
  have hcode := congrArg Diagnostic.code h
  simp only [Attribute.diagnosticOf, Finding.diagnostic_code, Option.some.injEq,
    Kind.code_inj] at hcode
  have hkind : p.item.kind = q.item.kind := hcode
  have hmessage := congrArg Diagnostic.message h
  have hdetail : p.item.detail = q.item.detail := (String.append_right_inj _).1 hmessage
  rw [Markup.Problem.shown, Markup.Problem.shown, hkind, span_of_diagnosticOf_eq h, hdetail]

/-- Two located problems of an arrow type with the same diagnostic are the same. -/
theorem eq_of_diagnosticOf_eq {p q : Located Arrow.Problem}
    (h : a.diagnosticOf .arrow p = a.diagnosticOf .arrow q) : p = q := by
  have hspan := span_of_diagnosticOf_eq h
  have hmessage := congrArg Diagnostic.message h
  have hdetail : p.item.detail = q.item.detail := (String.append_right_inj _).1 hmessage
  obtain ⟨item, span⟩ := p
  obtain ⟨item', span'⟩ := q
  rw [Located.mk.injEq]
  exact ⟨Arrow.Problem.eq_of_detail hdetail, hspan⟩

theorem nodup_of_checkMarkup : ((checkMarkup a).map Finding.diagnostic).Nodup := by
  unfold checkMarkup
  split
  · exact List.nodup_singleton _
  · next label hread =>
    have hshown := Markup.nodup_check hread
    rw [map_diagnostic_findings]
    refine List.Nodup.map_on (fun p hp q hq heq => ?_) hshown.of_map
    exact List.inj_on_of_nodup_map hshown hp hq (shown_of_diagnosticOf_eq heq)

theorem nodup_of_checkRecord : ((checkRecord a).map Finding.diagnostic).Nodup := by
  unfold checkRecord
  split
  · exact List.nodup_singleton _
  · next label hread => exact nodup_of_spans (Record.successive_check hread).ascending.nodup

theorem ascending_of_readColors {inList : Bool} {cs site : List Char} {items : List Color.Item}
    (h : readColors inList cs = .ok items) :
    Ascending (Color.check site items) ∧
      (cs ≠ [] → ∀ p ∈ Color.check site items, 0 < p.span.stop) := by
  cases inList with
  | true =>
    have hsuccessive : Successive 0 (Color.check site items) := Color.successive_of_readSegments h
    exact ⟨hsuccessive.ascending, fun _ => hsuccessive.stop_pos⟩
  | false =>
    rw [readColors, if_neg Bool.false_ne_true] at h
    cases hread : Color.read cs with
    | error fault =>
      rw [hread] at h
      cases h
    | ok item =>
      rw [hread] at h
      cases h
      have hcheck : Color.check site [item] = Color.checkColor site item.color :=
        List.flatMap_singleton _ item
      rw [hcheck]
      refine ⟨pairwise_of_length_le_one (Color.length_checkColor_le site item.color), ?_⟩
      intro hne p hp
      obtain ⟨-, hlt, -⟩ := Color.span_of_mem_checkColor (Color.readColor_of_read hread) hne hp
      exact Nat.lt_of_le_of_lt (Nat.zero_le _) hlt

theorem nodup_of_checkColors {site : Site} {inList : Bool} :
    ((checkColors site inList a).map Finding.diagnostic).Nodup := by
  unfold checkColors
  split
  · exact List.nodup_singleton _
  · next items hread => exact nodup_of_spans (ascending_of_readColors hread).1.nodup

theorem nodup_of_checkStyle {deprecations : Bool} {site : Site} :
    ((checkStyle deprecations site a).map Finding.diagnostic).Nodup := by
  unfold checkStyle
  split
  · exact List.nodup_singleton _
  · next items hread => exact nodup_of_spans (Style.successive_check hread).ascending.nodup

/-- The diagnostics of an arrow type are reported once, or they are about a modifier and are
reported as often as clauses have it. -/
theorem count_of_checkArrow {deprecations : Bool} {d : Diagnostic}
    (h : d ∈ (checkArrow deprecations a).map Finding.diagnostic) :
    ((checkArrow deprecations a).map Finding.diagnostic).count d = 1 ∨
      ∃ arrow p, Arrow.read a.chars = .ok arrow ∧ p ∈ Arrow.misfits arrow.clauses ∧
        d = (Finding.value a a.valueSpan (.arrow p)).diagnostic ∧
        ((checkArrow deprecations a).map Finding.diagnostic).count d =
          (Arrow.misfits arrow.clauses).count p := by
  cases hread : Arrow.read a.chars with
  | error fault =>
    rw [checkArrow, hread] at h ⊢
    left
    rw [List.map_singleton] at h ⊢
    rw [List.mem_singleton.1 h, List.count_singleton_self]
  | ok arrow =>
    rw [checkArrow, hread] at h ⊢
    simp only at h ⊢
    rw [map_diagnostic_findings] at h ⊢
    obtain ⟨p, hp, rfl⟩ := List.mem_map.1 h
    rw [count_map_of_forall_eq fun q _ heq => eq_of_diagnosticOf_eq heq]
    rcases Arrow.count_check hread hp with hone | ⟨hspan, hmisfit, hmany⟩
    · exact Or.inl hone
    · refine Or.inr ⟨arrow, p.item, rfl, hmisfit, ?_, hmany⟩
      rw [Attribute.diagnosticOf, hspan, absolute_whole]

end

/-! ## One visit -/

/-- What is visited has diagnostics that differ, unless it is an arrow type. -/
theorem nodup_checkAttribute (config : Config) {site : Site} {a : Attribute}
    (htype : AttributeType.of site.kind a.name ≠ .arrow) :
    ((config.checkAttribute site a).map Finding.diagnostic).Nodup := by
  unfold Config.checkAttribute
  split
  · next harrow => exact absurd harrow htype
  · exact nodup_of_checkColors
  · exact nodup_of_checkColors
  · unfold checkScheme
    split
    · exact .nil
    · exact List.nodup_singleton _
  · unfold checkShape
    split
    · exact .nil
    · exact List.nodup_singleton _
  · exact nodup_of_checkStyle
  · unfold checkNumber
    split
    · exact List.nodup_singleton _
    · split
      · exact List.nodup_singleton _
      · exact .nil
  · unfold checkEnumeration
    split
    · exact .nil
    · exact List.nodup_singleton _
  · unfold Config.checkLabel
    split
    · split
      · exact nodup_of_checkMarkup
      · exact .nil
    · split
      · exact nodup_of_checkRecord
      · exact .nil
  · exact .nil

/-- The place of a finding lies in what is visited: it stops behind its start, and not behind
its end. -/
def Finding.StopsIn (visit : Visit) (f : Finding) : Prop :=
  visit.span.start < f.span.stop ∧ f.span.stop ≤ visit.span.stop

section

variable {site : Site} {a : Attribute} {f : Finding} (hsolid : (Visit.attr site a).IsSolid)

include hsolid

/-- What stands in a value lies in the attribute. At the start of a value without delimiters it
must not be empty. -/
theorem stopsIn_of_hasSpan {s : Span} {problem : Problem} (hs : HasSpan 0 a.chars s)
    (hpos : a.chars ≠ [] → a.isMarkup = false → 0 < s.stop) :
    (Finding.value a (a.absolute s) problem).StopsIn (.attr site a) := by
  obtain ⟨hne, hwide⟩ := hsolid
  have hstop : a.span.stop = a.valueOffset + size a.chars + a.delimiter.size :=
    congrArg Span.stop hwide
  have hoffset : a.valueOffset = a.span.start + a.delimiter.size := rfl
  obtain ⟨t, ht⟩ := hs
  have hle := ht.stop_le
  have hne : a.span.start < a.span.stop := hne
  show a.span.start < s.stop + a.valueOffset ∧ s.stop + a.valueOffset ≤ a.span.stop
  cases hdelimiter : a.delimiter with
  | bare =>
    rw [hdelimiter, Delimiter.size] at hstop hoffset
    have hchars : a.chars ≠ [] := by
      intro hnil
      rw [hnil, size_nil] at hstop
      omega
    have hmarkup : a.isMarkup = false := by rw [Attribute.isMarkup, hdelimiter]; rfl
    have hpos := hpos hchars hmarkup
    omega
  | quoted =>
    rw [hdelimiter, Delimiter.size] at hstop hoffset
    omega
  | markup =>
    rw [hdelimiter, Delimiter.size] at hstop hoffset
    omega

/-- A finding at the value as a whole. -/
theorem stopsIn_of_value (problem : Problem) :
    (Finding.value a a.valueSpan problem).StopsIn (.attr site a) := by
  rw [← absolute_whole]
  refine stopsIn_of_hasSpan hsolid (hasSpan_whole a.chars) fun hne _ => ?_
  exact Nat.pos_of_ne_zero fun hzero => hne (size_eq_zero_iff.1 hzero)

theorem stopsIn_of_mem_checkArrow {deprecations : Bool} (h : f ∈ checkArrow deprecations a) :
    f.StopsIn (.attr site a) := by
  rcases mem_checkArrow h with ⟨detail, rfl⟩ | ⟨arrow, hread, p, hp, rfl⟩
  · exact stopsIn_of_value hsolid _
  · exact stopsIn_of_hasSpan hsolid (Arrow.isPlaced_of_mem_check hread hp).1
      fun _ _ => Arrow.stop_of_mem_check hread hp

theorem stopsIn_of_mem_checkColors {inList : Bool} (h : f ∈ checkColors site inList a) :
    f.StopsIn (.attr site a) := by
  rcases mem_checkColors h with ⟨detail, rfl⟩ | ⟨items, hread, p, hp, rfl⟩
  · exact stopsIn_of_value hsolid _
  · have hnamed := Color.isPlaced_of_mem_check (isNamedAt_of_readColors hread) hp
    have hstands : HasSpan 0 a.chars p.span := by
      cases hitem : p.item with
      | notInScheme name scheme => exact (hnamed name scheme hitem).hasSpan
    exact stopsIn_of_hasSpan hsolid hstands fun hne _ => (ascending_of_readColors hread).2 hne p hp

theorem stopsIn_of_mem_checkStyle {deprecations : Bool} (h : f ∈ checkStyle deprecations site a) :
    f.StopsIn (.attr site a) := by
  rcases mem_checkStyle h with ⟨detail, rfl⟩ | ⟨items, hread, p, hp, rfl⟩
  · exact stopsIn_of_value hsolid _
  · exact stopsIn_of_hasSpan hsolid (Style.isPlaced_of_mem_check hread hp).1
      fun _ _ => (Style.successive_check hread).stop_pos p hp

theorem stopsIn_of_mem_checkMarkup (hmarkup : a.isMarkup = true) (h : f ∈ checkMarkup a) :
    f.StopsIn (.attr site a) := by
  rcases mem_checkMarkup h with ⟨detail, rfl⟩ | ⟨label, hread, p, hp, rfl⟩
  · exact ⟨hsolid.1, Nat.le_refl _⟩
  · refine stopsIn_of_hasSpan hsolid (Markup.hasSpan_of_mem_check hread hp) fun _ hnot => ?_
    rw [hmarkup] at hnot
    cases hnot

theorem stopsIn_of_mem_checkRecord (h : f ∈ checkRecord a) : f.StopsIn (.attr site a) := by
  rcases mem_checkRecord h with ⟨fault, hread, rfl⟩ | ⟨label, hread, p, hp, rfl⟩
  · exact stopsIn_of_hasSpan hsolid (Record.hasSpan_of_read_error hread)
      fun hne _ => Record.stop_of_read_error hread hne
  · exact stopsIn_of_hasSpan hsolid (Record.isPlaced_of_mem_check hread hp).hasSpan
      fun _ _ => (Record.successive_check hread).stop_pos p hp

end

/-- Every finding lies in what is visited. -/
theorem stopsIn_of_mem_check {config : Config} {visit : Visit} {f : Finding}
    (hsolid : visit.IsSolid) (h : f ∈ config.check visit) : f.StopsIn visit := by
  cases visit with
  | operator directed op =>
    rw [mem_checkOperator h]
    exact ⟨hsolid.1, Nat.le_refl _⟩
  | attr site a =>
    have h : f ∈ config.checkAttribute site a := h
    unfold Config.checkAttribute at h
    split at h
    · exact stopsIn_of_mem_checkArrow hsolid h
    · exact stopsIn_of_mem_checkColors hsolid h
    · exact stopsIn_of_mem_checkColors hsolid h
    · rw [mem_checkScheme h]
      exact stopsIn_of_value hsolid _
    · obtain ⟨detail, rfl⟩ := mem_checkShape h
      exact stopsIn_of_value hsolid _
    · exact stopsIn_of_mem_checkStyle hsolid h
    · rcases mem_checkNumber h with ⟨detail, rfl⟩ | rfl
      · exact stopsIn_of_value hsolid _
      · exact stopsIn_of_value hsolid _
    · obtain ⟨detail, rfl⟩ := mem_checkEnumeration h
      exact stopsIn_of_value hsolid _
    · rcases mem_checkLabel h with ⟨hmarkup, -, h⟩ | ⟨-, -, -, h⟩
      · exact stopsIn_of_mem_checkMarkup hsolid hmarkup h
      · exact stopsIn_of_mem_checkRecord hsolid h
    · cases h

/-! ## Documents -/

/-- What is visited apart from each other has no diagnostic in common. -/
theorem disjoint_report {config : Config} {v w : Visit} (hv : v.IsSolid) (hw : w.IsSolid)
    (hapart : v.span.IsApart w.span) : List.Disjoint (config.report v) (config.report w) := by
  intro d hd hd'
  obtain ⟨f, hf, rfl⟩ := List.mem_map.1 hd
  obtain ⟨g, hg, heq⟩ := List.mem_map.1 hd'
  have hspan := congrArg Diagnostic.primarySpan? heq
  simp only [Finding.primarySpan?_diagnostic, Option.some.injEq] at hspan
  obtain ⟨hstart, hstop⟩ := stopsIn_of_mem_check hv hf
  obtain ⟨hstart', hstop'⟩ := stopsIn_of_mem_check hw hg
  rw [hspan] at hstart' hstop'
  rcases hapart with hapart | hapart <;> omega

/-- What only one part of a list leads to is counted there. -/
theorem exists_count_flatMap {α β : Type} [DecidableEq β] {f : α → List β} {l : List α}
    (h : l.Pairwise fun x y => List.Disjoint (f x) (f y)) {b : β} (hb : b ∈ l.flatMap f) :
    ∃ x ∈ l, b ∈ f x ∧ (l.flatMap f).count b = (f x).count b := by
  induction l with
  | nil => cases hb
  | cons x l ih =>
    obtain ⟨hx, hl⟩ := List.pairwise_cons.1 h
    rw [List.flatMap_cons, List.count_append]
    by_cases hfirst : b ∈ f x
    · have hrest : b ∉ l.flatMap f := by
        intro hmem
        obtain ⟨y, hy, hby⟩ := List.mem_flatMap.1 hmem
        exact hx y hy hfirst hby
      refine ⟨x, List.mem_cons_self, hfirst, ?_⟩
      rw [List.count_eq_zero_of_not_mem hrest, Nat.add_zero]
    · rw [List.flatMap_cons] at hb
      obtain ⟨y, hy, hby, hcount⟩ := ih hl ((List.mem_append.1 hb).resolve_left hfirst)
      refine ⟨y, List.mem_cons_of_mem x hy, hby, ?_⟩
      rw [List.count_eq_zero_of_not_mem hfirst, Nat.zero_add, hcount]

/-- **Diagnostics are not repeated, but for modifiers of arrows.** In a document whose attributes
and operators have places that are not empty and stand apart, every diagnostic is reported once,
or it is the warning about a modifier in an arrow type and is reported once for each clause that
has this modifier on this shape. -/
theorem validate_count (config : Config) {document : Document}
    (hsolid : ∀ visit ∈ document.visits, visit.IsSolid)
    (hapart : document.visits.Pairwise fun v w => v.span.IsApart w.span) :
    ∀ d ∈ (config.validate document).diagnostics,
      (config.validate document).diagnostics.count d = 1 ∨
        ∃ site a arrow p, Visit.attr site a ∈ document.visits ∧
          AttributeType.of site.kind a.name = .arrow ∧ Arrow.read a.chars = .ok arrow ∧
          p ∈ Arrow.misfits arrow.clauses ∧
          d = (Finding.value a a.valueSpan (.arrow p)).diagnostic ∧
          (config.validate document).diagnostics.count d = (Arrow.misfits arrow.clauses).count p := by
  rw [diagnostics_eq_reports]
  intro d hd
  have hdisjoint : document.visits.Pairwise fun v w =>
      List.Disjoint (config.report v) (config.report w) :=
    hapart.imp_of_mem fun hv hw => disjoint_report (hsolid _ hv) (hsolid _ hw)
  obtain ⟨visit, hvisit, hd, hcount⟩ := exists_count_flatMap hdisjoint hd
  rw [Config.reports, hcount]
  cases visit with
  | operator directed op =>
    left
    have hlength : (config.report (.operator directed op)).length ≤ 1 := by
      rw [Config.report, List.length_map, Config.check, Config.checkOperator]
      split
      · exact Nat.le_refl _
      · exact Nat.zero_le _
    match hreport : config.report (.operator directed op), hlength with
    | [], _ => simp [hreport] at hd
    | [found], _ =>
      rw [hreport] at hd
      rw [List.mem_singleton.1 hd, List.count_singleton_self]
  | attr site a =>
    by_cases htype : AttributeType.of site.kind a.name = .arrow
    · have hreport : config.report (.attr site a) =
          (checkArrow config.deprecations a).map Finding.diagnostic := by
        rw [Config.report, Config.check, Config.checkAttribute, htype]
      rw [hreport] at hd ⊢
      rcases count_of_checkArrow hd with hone | ⟨arrow, p, hread, hp, hd, hmany⟩
      · exact Or.inl hone
      · exact Or.inr ⟨site, a, arrow, p, hvisit, htype, hread, hp, hd, hmany⟩
    · exact Or.inl (List.count_eq_one_of_mem (nodup_checkAttribute config htype) hd)

/-- An edge with an arrow at its head. -/
def arrowDocument (value : String) : Document :=
  ⟨true, false, { Element.graph with body := [
    .element { Element.edge [.writtenAt 12 true] with attributes := [
      .writtenAt 28 .bare "arrowhead" value] }] }⟩

theorem validate_count_crowsAndNone :
    (∀ visit ∈ (arrowDocument "ocrowocrownone").visits, visit.IsSolid) ∧
      ((arrowDocument "ocrowocrownone").visits.Pairwise fun v w => v.span.IsApart w.span) ∧
      (validate (arrowDocument "ocrowocrownone")).map Diagnostic.code =
        [some "ARROW_MODIFIER_INVALID", some "ARROW_MODIFIER_INVALID", some "ARROW_NONE_LAST"] ∧
      ∀ d ∈ validate (arrowDocument "ocrowocrownone"),
        (validate (arrowDocument "ocrowocrownone")).count d = 1 ∨ d.hasKind .arrowModifier := by
  have hsolid : ∀ visit ∈ (arrowDocument "ocrowocrownone").visits, visit.IsSolid := by
    decide +kernel
  have hapart : (arrowDocument "ocrowocrownone").visits.Pairwise fun v w =>
      v.span.IsApart w.span := by
    decide +kernel
  refine ⟨hsolid, hapart, by decide +kernel, fun d hd => ?_⟩
  rcases validate_count Config.full hsolid hapart d hd with hone | ⟨_, a, arrow, p, -, -, -, hp, hd, -⟩
  · exact Or.inl hone
  · right
    have hmisfit := Arrow.isMisfit_of_mem_misfits hp
    rw [hd, Finding.hasKind_diagnostic, decide_eq_true_eq]
    cases p with
    | side half shape => rfl
    | isOpen shape => rfl
    | deprecated shape => cases hmisfit
    | noneLast => cases hmisfit

/-- Two clauses with the same modifier on the same shape: the same warning is reported twice. -/
theorem not_nodup_validate_crows :
    (∀ visit ∈ (arrowDocument "ocrowocrow").visits, visit.IsSolid) ∧
      ((arrowDocument "ocrowocrow").visits.Pairwise fun v w => v.span.IsApart w.span) ∧
      ¬ (validate (arrowDocument "ocrowocrow")).Nodup := by
  decide +kernel

end DotAttributes
