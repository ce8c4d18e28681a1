import DotAttributes.Proofs.Arrow.Spans
import DotAttributes.Proofs.Checks
import DotAttributes.Proofs.Color.Spans
import DotAttributes.Proofs.Findings
import DotAttributes.Proofs.Markup.Spans
import DotAttributes.Proofs.Record.Spans
import DotAttributes.Proofs.Style.Spans

/-!
# Places of diagnostics

A document is written in a source when the source has every value, operator and delimiter at
the place the document gives for it (`Visit.IsWrittenIn`). Every diagnostic of such a document
is exact (`validate_isExact`): it is reported inside the attribute or operator that was
visited, at a span that the source can slice and that needs no clamping, and where the message
is about one token the slice is that token (`Diagnostic.Quotes`).

The checks of values know nothing of the source. What they report stands in the value; the
value stands in the source, and so does everything in it (`slice?_absolute`).
-/

namespace DotAttributes

open Text

/-! ## Documents and their sources -/

/-- Widens a span by `n` bytes on either side. -/
def Span.widen (n : Nat) (s : Span) : Span := ⟨s.start - n, s.stop + n⟩

/-- The span `s` lies inside `outer`. -/
def Span.IsWithin (s outer : Span) : Prop := outer.start ≤ s.start ∧ s.stop ≤ outer.stop

instance (s outer : Span) : Decidable (s.IsWithin outer) := inferInstanceAs (Decidable (_ ∧ _))

/-- An attribute is written in a source: the value stands at its place, and the place of the
attribute is that of the value with the delimiters. -/
structure Attribute.IsWrittenIn (source : Source) (a : Attribute) : Prop where
  value : source.slice? a.valueSpan = some a.value
  span : a.span = a.valueSpan.widen a.delimiter.size
  delimited : (source.slice? a.span).isSome

/-- What is visited is written in a source. -/
def Visit.IsWrittenIn (source : Source) : Visit → Prop
  | .attr _ a => a.IsWrittenIn source
  | .operator _ op => source.slice? op.span = some op.symbol

instance (source : Source) (a : Attribute) : Decidable (a.IsWrittenIn source) :=
  decidable_of_iff (source.slice? a.valueSpan = some a.value ∧
      a.span = a.valueSpan.widen a.delimiter.size ∧ (source.slice? a.span).isSome)
    ⟨fun ⟨hvalue, hspan, hdelimited⟩ => ⟨hvalue, hspan, hdelimited⟩,
      fun ⟨hvalue, hspan, hdelimited⟩ => ⟨hvalue, hspan, hdelimited⟩⟩

instance (source : Source) : (visit : Visit) → Decidable (visit.IsWrittenIn source)
  | .attr _ a => inferInstanceAs (Decidable (a.IsWrittenIn source))
  | .operator _ op => inferInstanceAs (Decidable (source.slice? op.span = some op.symbol))

/-- The place of what is visited. -/
def Visit.span : Visit → Span
  | .attr _ a => a.span
  | .operator _ op => op.span

/-- The text of what is visited, without delimiters. -/
def Visit.text : Visit → String
  | .attr _ a => a.value
  | .operator _ op => op.symbol

/-! ## Exact diagnostics -/

/-- Where the message of a diagnostic is about one token of what is visited, that token is
`text`. -/
structure Diagnostic.Quotes (visit : Visit) (text : String) (d : Diagnostic) : Prop where
  color : d.hasKind .colorNotInScheme → ∃ type scheme : String,
    d.message = s!"The {type} value '{visit.text}' is not semantically correct: " ++
      s!"The '{text}' color is not valid within the '{scheme}' color scheme."
  port : d.hasKind .portDuplicate →
    d.message = s!"The record-based label '{visit.text}' is not semantically correct: " ++
      s!"Port name not unique: {text}"
  deprecated : d.hasKind .deprecatedValue →
    (text = "setlinewidth" ∧
      d.message = s!"The style value '{visit.text}' is not semantically correct: " ++
        "The usage of setlinewidth is deprecated, use the penwidth attribute instead.") ∨
    ((∃ shape : Arrow.Deprecated, text = shape.name) ∧
      d.message = s!"The arrowType value '{visit.text}' is not semantically correct: " ++
        s!"The shape '{text}' is deprecated.")
  stripes : d.hasKind .styleShape → text = "striped"
  operator : d.hasKind .edgeOperator →
    ∃ directed op, visit = .operator directed op ∧ text = op.symbol

/-- A diagnostic is reported at a span inside what is visited which the source can slice and
does not clamp, and quotes the text there. -/
def Diagnostic.IsExact (source : Source) (visit : Visit) (d : Diagnostic) : Prop :=
  ∃ span text, d.primarySpan? = some span ∧ d.place? = some span ∧ span.IsWithin visit.span ∧
    source.slice? span = some text ∧ source.clamp span = span ∧ d.Quotes visit text

/-! ## Slices of a source -/

section

variable {source : Source} {a : Attribute} {s : Span} {text : String}

theorem slice?_eq_some : source.slice? s = some text ↔
    StandsAt 0 source.content.toList s text.toList := by
  rw [Source.slice?, Option.map_eq_some_iff]
  constructor
  · rintro ⟨t, ht, rfl⟩
    rw [String.toList_ofList]
    exact slice?_eq_some_iff.1 ht
  · intro h
    exact ⟨text.toList, slice?_eq_some_iff.2 h, String.ofList_toList⟩

/-- A span that can be sliced is in bounds and in order, so clamping keeps it. -/
theorem clamp_of_slice? (h : source.slice? s = some text) : source.clamp s = s := by
  have hstands := slice?_eq_some.1 h
  have hle := hstands.start_le_stop
  have hstop : s.stop ≤ source.size := by
    have := hstands.stop_le
    rwa [Nat.zero_add] at this
  cases s
  simp only [Source.clamp, Span.mk.injEq] at hle hstop ⊢
  omega

/-- What stands in the value stands in the source, moved to the place of the value. -/
theorem slice?_absolute (ha : a.IsWrittenIn source) {t : List Char}
    (h : StandsAt 0 a.chars s t) : source.slice? (a.absolute s) = some (String.ofList t) := by
  rw [slice?_eq_some, String.toList_ofList]
  have hmoved := h.shift a.valueOffset
  rw [Nat.zero_add] at hmoved
  exact (slice?_eq_some.1 ha.value).trans hmoved

theorem absolute_isWithin (ha : a.IsWrittenIn source) (h : HasSpan 0 a.chars s) :
    (a.absolute s).IsWithin a.span := by
  obtain ⟨t, ht⟩ := h
  have hstop := ht.stop_le
  have hwide : a.span.stop = a.valueSpan.stop + a.delimiter.size := congrArg Span.stop ha.span
  simp only [Attribute.valueSpan, Attribute.valueOffset, Span.ofSize_stop] at hwide
  simp only [Span.IsWithin, Attribute.absolute, Span.shift_start, Span.shift_stop,
    Attribute.valueOffset]
  omega

theorem absolute_whole (a : Attribute) : a.absolute ⟨0, size a.chars⟩ = a.valueSpan := by
  simp only [Attribute.absolute, Span.shift, Attribute.valueSpan, Span.ofSize, Span.mk.injEq]
  omega

end

/-! ## Tokens in messages -/

/-- Whether the messages of a kind are about one token. -/
def Kind.quotes : Kind → Bool
  | .colorNotInScheme | .portDuplicate | .deprecatedValue | .styleShape | .edgeOperator => true
  | _ => false

/-- Where a problem is about one token of a value, that token is `text`. -/
def Problem.Quotes (text : String) : Problem → Prop
  | .color _ (.notInScheme name _) => text = String.ofList name
  | .arrow (.deprecated shape) => text = shape.name
  | .style .deprecatedWidth => text = Style.widthItem
  | .style .stripedShape => text = Style.stripedItem
  | .record (.duplicate name) => text = String.ofList name
  | _ => True

variable {source : Source} {site : Site} {a : Attribute} {span : Span} {text : String}

theorem quotes_of_kind {f : Finding} {visit : Visit} (h : f.kind.quotes = false) :
    f.diagnostic.Quotes visit text := by
  constructor
  all_goals
    intro hkind
    rw [Finding.hasKind_diagnostic, decide_eq_true_eq] at hkind
    rw [hkind] at h
    cases h

/-- A problem about one token has a message about that token. -/
theorem quotes_diagnostic {problem : Problem} (h : problem.Quotes text) :
    (Finding.value a span problem).diagnostic.Quotes (.attr site a) text := by
  cases problem with
  | notReadable type detail => exact quotes_of_kind rfl
  | belowBound bound => exact quotes_of_kind rfl
  | unknownScheme => exact quotes_of_kind rfl
  | markup p => cases p <;> exact quotes_of_kind rfl
  | arrow p =>
    cases p with
    | deprecated shape =>
      cases h
      refine ⟨?_, ?_, fun _ => Or.inr ⟨⟨shape, rfl⟩, rfl⟩, ?_, ?_⟩
      all_goals simp [Finding.kind, Problem.kind, Arrow.Problem.kind]
    | _ => exact quotes_of_kind rfl
  | color inList p =>
    cases p with
    | notInScheme name scheme =>
      cases h
      refine ⟨fun _ => ⟨colorTypeName inList, String.ofList scheme, rfl⟩, ?_, ?_, ?_, ?_⟩
      all_goals simp [Finding.kind, Problem.kind]
  | style p =>
    cases p with
    | deprecatedWidth =>
      cases h
      refine ⟨?_, ?_, fun _ => Or.inl ⟨rfl, rfl⟩, ?_, ?_⟩
      all_goals simp [Finding.kind, Problem.kind, Style.Problem.kind]
    | notAllowed allowed => exact quotes_of_kind rfl
    | stripedShape =>
      cases h
      refine ⟨?_, ?_, ?_, fun _ => rfl, ?_⟩
      all_goals simp [Finding.kind, Problem.kind, Style.Problem.kind]
  | record p =>
    cases p with
    | unnamed => exact quotes_of_kind rfl
    | duplicate name =>
      cases h
      refine ⟨?_, fun _ => rfl, ?_, ?_, ?_⟩
      all_goals simp [Finding.kind, Problem.kind, Record.Problem.kind]

/-! ## Findings in place -/

namespace Finding

/-- A finding at a slice inside what is visited is exact when it quotes the slice. -/
theorem isExact_of_slice? {f : Finding} {visit : Visit} (hslice : source.slice? f.span = some text)
    (hwithin : f.span.IsWithin visit.span) (hquotes : f.diagnostic.Quotes visit text) :
    f.diagnostic.IsExact source visit :=
  ⟨f.span, text, primarySpan?_diagnostic f, place?_diagnostic f, hwithin, hslice,
    clamp_of_slice? hslice, hquotes⟩

/-- A problem that has been located in the value is exact when it quotes what stands there. -/
theorem isExact_of_standsAt (ha : a.IsWrittenIn source) {s : Span} {t : List Char}
    (h : StandsAt 0 a.chars s t) {problem : Problem} (hquotes : problem.Quotes (String.ofList t)) :
    (value a (a.absolute s) problem).diagnostic.IsExact source (.attr site a) :=
  isExact_of_slice? (slice?_absolute ha h) (absolute_isWithin ha h.hasSpan)
    (quotes_diagnostic hquotes)

/-- A problem of the value as a whole. -/
theorem isExact_of_value (ha : a.IsWrittenIn source) {problem : Problem}
    (hquotes : problem.Quotes (String.ofList a.chars)) :
    (value a a.valueSpan problem).diagnostic.IsExact source (.attr site a) := by
  rw [← absolute_whole]
  exact isExact_of_standsAt ha (standsAt_whole a.chars) hquotes

theorem isExact_notReadable (ha : a.IsWrittenIn source) (type detail : String) :
    (a.notReadable type detail).diagnostic.IsExact source (.attr site a) :=
  isExact_of_value ha trivial

end Finding

section

variable {f : Finding} {deprecations : Bool}

theorem isExact_of_mem_checkArrow (ha : a.IsWrittenIn source) (h : f ∈ checkArrow deprecations a) :
    f.diagnostic.IsExact source (.attr site a) := by
  rcases mem_checkArrow h with ⟨detail, rfl⟩ | ⟨arrow, hread, p, hp, rfl⟩
  · exact Finding.isExact_notReadable ha _ _
  · obtain ⟨⟨t, ht⟩, hdeprecated⟩ := Arrow.isPlaced_of_mem_check hread hp
    cases hitem : p.item with
    | deprecated shape =>
      refine Finding.isExact_of_standsAt ha (hdeprecated shape hitem) ?_
      exact String.ofList_toList
    | side half shape => exact Finding.isExact_of_standsAt ha ht trivial
    | isOpen shape => exact Finding.isExact_of_standsAt ha ht trivial
    | noneLast => exact Finding.isExact_of_standsAt ha ht trivial

theorem isNamedAt_of_readColors {inList : Bool} {cs : List Char} {items : List Color.Item}
    (h : readColors inList cs = .ok items) : ∀ item ∈ items, item.color.IsNamedAt 0 cs := by
  cases inList with
  | true => exact Color.isNamedAt_of_readSegments rfl h
  | false =>
    cases hread : Color.read cs with
    | error fault => rw [readColors, if_neg Bool.false_ne_true, hread] at h; cases h
    | ok item =>
      rw [readColors, if_neg Bool.false_ne_true, hread] at h
      cases h
      exact List.forall_mem_singleton.2 (Color.isNamedAt_of_read hread)

theorem isExact_of_mem_checkColors (ha : a.IsWrittenIn source) {inList : Bool}
    (h : f ∈ checkColors site inList a) : f.diagnostic.IsExact source (.attr site a) := by
  rcases mem_checkColors h with ⟨detail, rfl⟩ | ⟨items, hread, p, hp, rfl⟩
  · exact Finding.isExact_notReadable ha _ _
  · have hnamed := Color.isPlaced_of_mem_check (isNamedAt_of_readColors hread) hp
    cases hitem : p.item with
    | notInScheme name scheme => exact Finding.isExact_of_standsAt ha (hnamed name scheme hitem) rfl

theorem isExact_of_mem_checkStyle (ha : a.IsWrittenIn source)
    (h : f ∈ checkStyle deprecations site a) : f.diagnostic.IsExact source (.attr site a) := by
  rcases mem_checkStyle h with ⟨detail, rfl⟩ | ⟨items, hread, p, hp, rfl⟩
  · exact Finding.isExact_notReadable ha _ _
  · obtain ⟨⟨t, ht⟩, hwidth, hstriped⟩ := Style.isPlaced_of_mem_check hread hp
    cases hitem : p.item with
    | deprecatedWidth =>
      refine Finding.isExact_of_standsAt ha (hwidth hitem) ?_
      exact String.ofList_toList
    | notAllowed allowed => exact Finding.isExact_of_standsAt ha ht trivial
    | stripedShape =>
      refine Finding.isExact_of_standsAt ha (hstriped hitem) ?_
      exact String.ofList_toList

theorem isExact_of_mem_checkMarkup (ha : a.IsWrittenIn source) (h : f ∈ checkMarkup a) :
    f.diagnostic.IsExact source (.attr site a) := by
  rcases mem_checkMarkup h with ⟨detail, rfl⟩ | ⟨label, hread, p, hp, rfl⟩
  · -- a label that cannot be read is reported with its delimiters, not at its value
    obtain ⟨text, htext⟩ := Option.isSome_iff_exists.1 ha.delimited
    exact Finding.isExact_of_slice? htext ⟨Nat.le_refl _, Nat.le_refl _⟩ (quotes_of_kind rfl)
  · obtain ⟨t, ht⟩ := Markup.hasSpan_of_mem_check hread hp
    exact Finding.isExact_of_standsAt ha ht trivial

theorem isExact_of_mem_checkRecord (ha : a.IsWrittenIn source) (h : f ∈ checkRecord a) :
    f.diagnostic.IsExact source (.attr site a) := by
  rcases mem_checkRecord h with ⟨fault, hread, rfl⟩ | ⟨label, hread, p, hp, rfl⟩
  · obtain ⟨t, ht⟩ := Record.hasSpan_of_read_error hread
    exact Finding.isExact_of_standsAt ha ht trivial
  · obtain ⟨⟨t, ht⟩, hduplicate⟩ := Record.isPlaced_of_mem_check hread hp
    cases hitem : p.item with
    | unnamed => exact Finding.isExact_of_standsAt ha ht trivial
    | duplicate name => exact Finding.isExact_of_standsAt ha (hduplicate name hitem) rfl

/-- Whatever the type of an attribute is, its findings are exact. -/
theorem isExact_of_mem_checkAttribute {config : Config} (ha : a.IsWrittenIn source)
    (h : f ∈ config.checkAttribute site a) : f.diagnostic.IsExact source (.attr site a) := by
  unfold Config.checkAttribute at h
  split at h
  · exact isExact_of_mem_checkArrow ha h
  · exact isExact_of_mem_checkColors ha h
  · exact isExact_of_mem_checkColors ha h
  · rw [mem_checkScheme h]
    exact Finding.isExact_of_value ha trivial
  · obtain ⟨detail, rfl⟩ := mem_checkShape h
    exact Finding.isExact_notReadable ha _ _
  · exact isExact_of_mem_checkStyle ha h
  · rcases mem_checkNumber h with ⟨detail, rfl⟩ | rfl
    · exact Finding.isExact_notReadable ha _ _
    · exact Finding.isExact_of_value ha trivial
  · obtain ⟨detail, rfl⟩ := mem_checkEnumeration h
    exact Finding.isExact_notReadable ha _ _
  · rcases mem_checkLabel h with ⟨-, -, h⟩ | ⟨-, -, -, h⟩
    · exact isExact_of_mem_checkMarkup ha h
    · exact isExact_of_mem_checkRecord ha h
  · cases h

/-- An operator is reported at itself. -/
theorem isExact_of_mem_checkOperator {config : Config} {directed : Bool} {op : EdgeOperator}
    (hop : source.slice? op.span = some op.symbol) (h : f ∈ config.checkOperator directed op) :
    f.diagnostic.IsExact source (.operator directed op) := by
  rw [mem_checkOperator h]
  refine Finding.isExact_of_slice? hop ⟨Nat.le_refl _, Nat.le_refl _⟩ ?_
  refine ⟨?_, ?_, ?_, ?_, fun _ => ⟨directed, op, rfl, rfl⟩⟩
  all_goals simp [Finding.kind]

end

/-! ## Documents -/

/-- **Exact places.** Every diagnostic of a document that is written in a source is produced
for something that is visited, and is exact there. -/
theorem validate_isExact (config : Config) {source : Source} {document : Document}
    (h : ∀ visit ∈ document.visits, visit.IsWrittenIn source) :
    (config.validate document).diagnostics = document.visits.flatMap config.report ∧
      ∀ visit ∈ document.visits, ∀ d ∈ config.report visit, d.IsExact source visit := by
  refine ⟨diagnostics_eq_reports config document, fun visit hvisit d hd => ?_⟩
  obtain ⟨f, hf, rfl⟩ := List.mem_map.1 hd
  have hwritten := h visit hvisit
  cases visit with
  | attr site a => exact isExact_of_mem_checkAttribute hwritten hf
  | operator directed op => exact isExact_of_mem_checkOperator hwritten hf

/-- A graph with a node whose record and color are wrong, and an operator that does not fit. -/
def umlautSource : Source :=
  ⟨"graph \x7b \"ä\" [shape=record, label=\"<ö>|<ö>\", color=\"/x11/rot\"] -> b \x7d", none⟩

/-- The document that `umlautSource` is the text of. -/
def umlautDocument : Document :=
  ⟨false, false, { Element.graph with body := [
    .element { Element.node "ä" with attributes := [
      .writtenAt 20 .bare "shape" "record", .writtenAt 34 .quoted "label" "<ö>|<ö>",
      .writtenAt 53 .quoted "color" "/x11/rot"] },
    .element (Element.edge [.writtenAt 65 true])] }⟩

theorem validate_isExact_umlauts :
    (∀ visit ∈ umlautDocument.visits, visit.IsWrittenIn umlautSource) ∧
      (Config.full.validate umlautDocument).diagnostics.map (Diagnostic.excerpt? umlautSource) =
        [some "ö", some "ö", some "rot", some "->"] ∧
      ∀ visit ∈ umlautDocument.visits, ∀ d ∈ Config.full.report visit,
        d.IsExact umlautSource visit := by
  have hwritten : ∀ visit ∈ umlautDocument.visits, visit.IsWrittenIn umlautSource := by
    decide +kernel
  exact ⟨hwritten, by decide +kernel, (validate_isExact Config.full hwritten).2⟩

end DotAttributes
