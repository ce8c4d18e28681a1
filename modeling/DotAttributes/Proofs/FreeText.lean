import DotAttributes.Proofs.Checks
import DotAttributes.Proofs.Isolation

/-!
# Labels that are free text

A label that is not markup is read as a record only where the shape of a node asks for it: its
name is `label` or `xlabel`, it is for nodes, and the shape found there is one of the record
shapes (`Slot.IsRecord`). Every other plain label is free text. Nothing is reported for it
whatever it says, and another text in its place leaves all diagnostics of the document as they
are (`validate_freeText`).

The labels at the ends of an edge are free text everywhere. The label beside a node is not: on a
node of a record shape it has to be a record as well (`report_xlabel_recordNode`).
-/

namespace DotAttributes

/-! ## Where labels stand -/

/-- The site of the attribute. -/
def Slot.site (slot : Slot) : Site :=
  slot.frame.site slot.hole.kind (assignments slot.body) (slot.hole.scope.after slot.before)
    slot.attr

/-- The body is that of a root which itself counts as a node. -/
def Hole.IsNodeRoot : Hole → Prop
  | root _ _ graph | nested _ _ _ _ _ graph _ => graph.kind = .node
  | inner .. => False

/-- The attribute belongs to a node, to a block of defaults for nodes, or to a root that counts
as a node. -/
def Slot.IsForNodes (slot : Slot) : Prop :=
  match slot.frame with
  | .assign => slot.hole.IsNodeRoot
  | .defaults target _ _ => target = .node ∨ (target = .graph ∧ slot.hole.IsNodeRoot)
  | .element e _ _ => e.kind = .node

/-- A plain label that is read as a record. -/
structure Slot.IsRecord (config : Config) (slot : Slot) : Prop where
  switch : config.recordLabels = true
  name : slot.attr.name = "label" ∨ slot.attr.name = "xlabel"
  isForNodes : slot.IsForNodes
  shape : Text.containsIgnoringCase ["record", "Mrecord"] slot.site.shape.toList = true

/-- Of the graphs whose bodies are walked, only roots can count as nodes. -/
theorem Hole.isNodeRoot_iff {hole : Hole} (hwalked : hole.IsWalked) :
    hole.IsNodeRoot ↔ hole.kind = .node := by
  cases hole with
  | root directed strict graph => exact Iff.rfl
  | nested outer before node directed strict graph after => exact Iff.rfl
  | inner outer before graph after =>
    have hgraph : graph.kind.isGraphLike = true := hwalked.2
    refine ⟨False.elim, fun hnode => ?_⟩
    have hnode : graph.kind = .node := hnode
    rw [hnode] at hgraph
    cases hgraph

theorem Slot.isForNodes_iff (slot : Slot) (hwalked : slot.hole.IsWalked) :
    slot.IsForNodes ↔ slot.site.kind = .node := by
  obtain ⟨hole, before, frame, a, after⟩ := slot
  have hroot : hole.IsNodeRoot ↔ hole.kind = .node := hole.isNodeRoot_iff hwalked
  cases frame with
  | assign => exact hroot
  | element e front back => exact Iff.rfl
  | defaults target front back =>
    show (target = .node ∨ (target = .graph ∧ hole.IsNodeRoot)) ↔ target.kindIn hole.kind = .node
    cases target <;> simp [DefaultTarget.kindIn, hroot]

/-! ## Names of labels -/

/-- The labels of nodes are those in them and beside them. -/
theorem name_of_nodeLabel {name : String} (h : AttributeType.of .node name = .label) :
    name = "label" ∨ name = "xlabel" := by
  have hrows : ∀ row ∈ AttributeType.table, row.type = .label → row.kinds.contains .node = true →
      row.names = ["label"] ∨ row.names = ["xlabel"] := by
    decide +kernel
  have hread : AttributeType.of .node name ≠ .unchecked := by simp [h]
  obtain ⟨row, hrow, htype, hname, hkind⟩ := AttributeType.exists_row hread
  rcases hrows row hrow (htype.trans h) (List.contains_iff_mem.2 hkind) with hnames | hnames
  · left
    simpa [hnames] using hname
  · right
    simpa [hnames] using hname

/-- Labels are neither shapes nor color schemes. -/
theorem name_ne_of_label {kind : ElementKind} {name : String}
    (h : AttributeType.of kind name = .label) :
    name ≠ Site.shapeAttribute ∧ name ≠ Site.schemeAttribute := by
  constructor
  · rintro rfl
    revert h
    cases kind <;> decide +kernel
  · rintro rfl
    revert h
    cases kind <;> decide +kernel

/-! ## Other texts -/

/-- The site of an attribute agrees with that of another value in its place. -/
theorem Slot.agrees_withValue {slot : Slot} (hshape : slot.attr.name ≠ Site.shapeAttribute)
    (hscheme : slot.attr.name ≠ Site.schemeAttribute) (value : String) :
    (slot.withValue value).site.Agrees slot.site := by
  obtain ⟨hole, before, frame, a, after⟩ := slot
  let b : Attribute := { a with value := value }
  have hname : b.name = a.name := rfl
  have hscope := Scope.Agrees.refl (hole.scope.after before)
  cases frame with
  | assign =>
    have hassigned :=
      agreesFor_assignments_replace hname hshape hscheme hole.kind .assign before after
    exact hassigned.site hscope
  | defaults target front back =>
    have hblock := agreesFor_replace hname hshape hscheme (target.kindIn hole.kind) front back
    exact hblock.site hscope
  | element e front back =>
    have helement := agreesFor_replace hname hshape hscheme e.kind front back
    exact helement.site hscope

/-- Whether a label is a record does not depend on its text. -/
theorem Slot.isRecord_withValue {config : Config} {slot : Slot} (hwalked : slot.hole.IsWalked)
    (hlabel : AttributeType.of slot.site.kind slot.attr.name = .label) {value : String}
    (h : (slot.withValue value).IsRecord config) : slot.IsRecord config := by
  obtain ⟨hshape, hscheme⟩ := name_ne_of_label hlabel
  have hagrees := Slot.agrees_withValue hshape hscheme value
  have hkind : (slot.withValue value).site.kind = .node :=
    ((slot.withValue value).isForNodes_iff hwalked).1 h.isForNodes
  refine ⟨h.switch, h.name, ?_, ?_⟩
  · rw [slot.isForNodes_iff hwalked, ← hagrees.kind]
    exact hkind
  · rw [← hagrees.shape hkind]
    exact h.shape

/-! ## Records and free text -/

/-- What is reported for a plain label: as a record what is wrong with it, and else nothing. -/
theorem Slot.report_label {slot : Slot} (config : Config) (hwalked : slot.hole.IsWalked)
    (hlabel : AttributeType.of slot.site.kind slot.attr.name = .label)
    (hplain : slot.attr.isMarkup = false) :
    (slot.IsRecord config →
        config.report slot.visit = (checkRecord slot.attr).map Finding.diagnostic) ∧
      (¬ slot.IsRecord config → config.report slot.visit = []) := by
  have hreport : config.report slot.visit =
      (config.checkLabel slot.site slot.attr).map Finding.diagnostic := by
    show (config.checkAttribute slot.site slot.attr).map Finding.diagnostic = _
    rw [Config.checkAttribute, hlabel]
  constructor
  · intro h
    have hrecords : slot.site.hasRecords = true := by
      rw [Site.hasRecords, (slot.isForNodes_iff hwalked).1 h.isForNodes]
      exact h.shape
    rw [hreport, Config.checkLabel, hplain, h.switch, hrecords]
    rfl
  · intro h
    rw [hreport, List.map_eq_nil_iff, List.eq_nil_iff_forall_not_mem]
    intro f hf
    rcases mem_checkLabel hf with ⟨hmarkup, -, -⟩ | ⟨-, hswitch, hrecords, -⟩
    · rw [hplain] at hmarkup
      cases hmarkup
    · rw [Site.hasRecords, Bool.and_eq_true, beq_iff_eq] at hrecords
      obtain ⟨hkind, hshape⟩ := hrecords
      rw [hkind] at hlabel
      exact h ⟨hswitch, name_of_nodeLabel hlabel, (slot.isForNodes_iff hwalked).2 hkind, hshape⟩

/-- **Free text.** Of the plain labels of a document, those are read as records that are called
`label` or `xlabel`, are for nodes, and find a record shape there, if record labels are checked.
For any other, nothing is ever reported: no text of it changes the diagnostics. -/
theorem validate_freeText (config : Config) (document : Document) :
    ∀ slot ∈ document.slots, AttributeType.of slot.site.kind slot.attr.name = .label →
      slot.attr.isMarkup = false →
      (config.report slot.visit ≠ [] → slot.IsRecord config) ∧
        (slot.IsRecord config →
          config.report slot.visit = (checkRecord slot.attr).map Finding.diagnostic) ∧
        (¬ slot.IsRecord config → ∀ value,
          config.report (slot.withValue value).visit = [] ∧
            (config.validate (slot.withValue value).document).diagnostics =
              (config.validate document).diagnostics) := by
  intro slot hslot hlabel hplain
  obtain ⟨hdocument, hwalked, hvisited⟩ := Document.mem_slots hslot
  obtain ⟨hshape, hscheme⟩ := name_ne_of_label hlabel
  obtain ⟨hrecord, hfree⟩ := slot.report_label config hwalked hlabel hplain
  refine ⟨fun hne => ?_, hrecord, fun hno value => ?_⟩
  · by_contra hno
    exact hne (hfree hno)
  · have hempty : config.report (slot.withValue value).visit = [] := by
      have hlabel' : AttributeType.of (slot.withValue value).site.kind slot.attr.name = .label := by
        rw [(Slot.agrees_withValue hshape hscheme value).kind]
        exact hlabel
      have hno' : ¬ (slot.withValue value).IsRecord config := fun h =>
        hno (Slot.isRecord_withValue hwalked hlabel h)
      exact ((slot.withValue value).report_label config hwalked hlabel' hplain).2 hno'
    obtain ⟨first, last, hvalues⟩ := Slot.exists_reports hwalked hvisited hshape hscheme config
    refine ⟨hempty, ?_⟩
    have hsame : (slot.withValue slot.attr.value).document = document := hdocument
    have hbefore := hvalues slot.attr.value
    have hvisit : config.report (slot.withValue slot.attr.value).visit = [] := hfree hno
    rw [hsame, hvisit] at hbefore
    rw [diagnostics_eq_reports, diagnostics_eq_reports, hvalues, hempty, hbefore]

/-- An edge between nodes of a record shape, with a label at one end that is no record. -/
def edgeAmongRecords : Document :=
  let block : DefaultBlock := ⟨.node, [.writtenAt 10 .bare "shape" "record"]⟩
  let edge := { Element.edge [] with attributes := [.writtenAt 40 .quoted "headlabel" "\x7b"] }
  ⟨false, false, { Element.graph with body := [.defaults block, .element edge] }⟩

theorem validate_freeText_headlabel :
    ∃ slot ∈ edgeAmongRecords.slots, slot.attr.name = "headlabel" ∧
      AttributeType.of slot.site.kind slot.attr.name = .label ∧ slot.attr.isMarkup = false ∧
      ¬ slot.IsRecord Config.full ∧ ∀ value, Config.full.report (slot.withValue value).visit = [] ∧
        (Config.full.validate (slot.withValue value).document).diagnostics =
          (Config.full.validate edgeAmongRecords).diagnostics := by
  let slot := edgeAmongRecords.slots.getLast (List.cons_ne_nil _ _)
  have hslot : slot ∈ edgeAmongRecords.slots := List.getLast_mem _
  have hname : slot.attr.name = "headlabel" := by decide +kernel
  have hlabel : AttributeType.of slot.site.kind slot.attr.name = .label := by decide +kernel
  have hplain : slot.attr.isMarkup = false := by decide +kernel
  have hno : ¬ slot.IsRecord Config.full := by
    intro h
    have hrecord := h.name
    rw [hname] at hrecord
    revert hrecord
    decide
  obtain ⟨-, -, hfree⟩ := validate_freeText Config.full edgeAmongRecords slot hslot hlabel hplain
  exact ⟨slot, hslot, hname, hlabel, hplain, hno, hfree hno⟩

/-- A node of a record shape with a label beside it that is no record. -/
def recordNode : Document :=
  let node := { Element.node "a" with
    attributes := [.writtenAt 10 .bare "shape" "record", .writtenAt 24 .quoted "xlabel" "\x7b"] }
  ⟨false, false, { Element.graph with body := [.element node] }⟩

/-- The label beside a node is read as a record, too. -/
theorem report_xlabel_recordNode :
    (validate recordNode).map Diagnostic.offset = [26] ∧
      ∃ slot ∈ recordNode.slots, AttributeType.of slot.site.kind slot.attr.name = .label ∧
        slot.attr.isMarkup = false ∧ slot.attr.name ≠ "label" ∧
        Config.full.report slot.visit ≠ [] := by
  let slot := recordNode.slots.getLast (List.cons_ne_nil _ _)
  exact ⟨by decide +kernel, slot, List.getLast_mem _, by decide +kernel, by decide +kernel,
    by decide +kernel, by decide +kernel⟩

end DotAttributes
