import DotAttributes.Proofs.Agreement
import DotAttributes.Proofs.Document.Slot

/-!
# Isolation

What is wrong at one place of a document has no influence on what is reported elsewhere.

* Another value for an attribute changes the diagnostics of that attribute and no others, unless
  it is a shape or a color scheme, which other attributes look up (`validate_withValue`).
* An element that is put into a body adds the diagnostics of its own in one piece, and leaves all
  others as they are (`validate_insert`). A document that belongs to a node reports what it
  reports by itself.
-/

namespace DotAttributes

/-! ## Another value -/

section

variable {a b : Attribute} (hname : b.name = a.name) (hshape : a.name ≠ Site.shapeAttribute)
  (hscheme : a.name ≠ Site.schemeAttribute)

include hname hshape hscheme

/-- An attribute that is neither the color scheme nor the shape may be replaced by another one
of its name: what is looked up in a list stays the same. -/
theorem agreesFor_replace (kind : ElementKind) (front back : AttributeList) :
    AgreesFor kind (front ++ b :: back) (front ++ a :: back) := by
  have hnamed (name : String) (hne : a.name ≠ name) :
      AttributeList.named name (front ++ b :: back) =
        AttributeList.named name (front ++ a :: back) := by
    have hne' : b.name ≠ name := hname ▸ hne
    simp [AttributeList.named, hne, hne']
  exact ⟨value?_congr (hnamed _ hscheme), fun _ => value?_congr (hnamed _ hshape)⟩

/-- A statement assigns the same to its graph when one of its attributes is replaced. -/
theorem agreesFor_assignments_replace (kind : ElementKind) (frame : Frame)
    (before after : List Statement) :
    AgreesFor kind (assignments (before ++ frame.fill b :: after))
      (assignments (before ++ frame.fill a :: after)) := by
  simp only [assignments_append]
  cases frame with
  | assign => exact agreesFor_replace hname hshape hscheme kind _ _
  | defaults target front back => exact AgreesFor.refl kind _
  | element e front back => exact AgreesFor.refl kind _

/-- A statement sets the same for those behind it when one of its attributes is replaced. -/
theorem agrees_step_replace (frame : Frame) (scope : Scope) :
    (scope.step (frame.fill b)).Agrees (scope.step (frame.fill a)) := by
  intro kind
  rw [defaultsFor_step, defaultsFor_step]
  refine (AgreesFor.refl kind _).append ?_
  cases frame with
  | assign =>
    simp only [Frame.fill, Statement.bindings]
    split
    · exact agreesFor_replace hname hshape hscheme kind [] []
    · exact AgreesFor.refl kind _
  | defaults target front back =>
    simp only [Frame.fill, Statement.bindings]
    split
    · exact agreesFor_replace hname hshape hscheme kind front back
    · exact AgreesFor.refl kind _
  | element e front back => exact AgreesFor.refl kind _

end

section

variable {a : Attribute} (hshape : a.name ≠ Site.shapeAttribute)
  (hscheme : a.name ≠ Site.schemeAttribute) (config : Config)

include hshape hscheme

/-- In the reports of a group, what stands around those of one attribute does not depend on its
value. -/
theorem exists_reports_group (kind : ElementKind) (front back : AttributeList) (scope : Scope) :
    ∃ first last, ∀ b : Attribute, b.name = a.name →
      config.reports (Site.visits ⟨kind, front ++ b :: back, scope⟩) =
        first ++ config.report (.attr ⟨kind, front ++ b :: back, scope⟩ b) ++ last := by
  let site : Site := ⟨kind, front ++ a :: back, scope⟩
  refine ⟨config.reports (front.map (.attr site)), config.reports (back.map (.attr site)),
    fun b hname => ?_⟩
  have hsite : Site.Agrees ⟨kind, front ++ b :: back, scope⟩ site :=
    (agreesFor_replace hname hshape hscheme kind front back).site (Scope.Agrees.refl scope)
  have hothers (attrs : AttributeList) :
      config.reports (attrs.map (.attr ⟨kind, front ++ b :: back, scope⟩)) =
        config.reports (attrs.map (.attr site)) := by
    rw [Config.reports, Config.reports, List.flatMap_map, List.flatMap_map]
    exact List.flatMap_congr fun c _ => hsite.report_attr config c
  rw [Site.visits, List.map_append, List.map_cons, reports_append, hothers front, ← hothers back,
    List.append_assoc]
  rfl

/-- In the reports of a statement, what stands around those of one attribute does not depend on
its value. -/
theorem exists_reports_statement {frame : Frame} (h : frame.IsVisited) (directed : Bool)
    (kind : ElementKind) (scope : Scope) :
    ∃ first last, ∀ b : Attribute, b.name = a.name → ∀ assigned,
      config.reports ((frame.fill b).visits directed kind assigned scope) =
        first ++ config.report (.attr (frame.site kind assigned scope b) b) ++ last := by
  cases frame with
  | assign =>
    refine ⟨[], [], fun b _ assigned => ?_⟩
    rw [List.nil_append]
    rfl
  | defaults target front back =>
    obtain ⟨first, last, hgroup⟩ :=
      exists_reports_group hshape hscheme config (target.kindIn kind) front back scope
    exact ⟨first, last, fun b hname _ => hgroup b hname⟩
  | element e front back =>
    let changed (b : Attribute) : Element := { e with attributes := front ++ b :: back }
    obtain ⟨first, last, hgroup⟩ :=
      exists_reports_group hshape hscheme config e.kind front back scope
    have hkind : e.kind = .node ∨ e.kind = .edge := by
      revert h
      cases hkind : e.kind <;> simp [Frame.IsVisited, hkind, ElementKind.isGraphLike]
    rcases hkind with hkind | hkind
    · -- the document of the node comes behind its attributes
      refine ⟨first, last ++ config.reports ((e.nested.map Document.visits).getD []),
        fun b hname assigned => ?_⟩
      have hvisits : (changed b).visits directed scope =
          Site.visits ⟨e.kind, front ++ b :: back, scope⟩ ++
            (e.nested.map Document.visits).getD [] := by
        rw [hkind]
        exact (changed b).visits_of_node directed scope hkind
      show config.reports ((changed b).visits directed scope) = _
      rw [hvisits, reports_append, hgroup b hname, List.append_assoc]
      rfl
    · -- the operators of the edge come in front of its attributes
      refine ⟨config.reports (e.operators.map (.operator directed)) ++ first, last,
        fun b hname assigned => ?_⟩
      have hvisits : (changed b).visits directed scope =
          e.operators.map (.operator directed) ++
            Site.visits ⟨e.kind, front ++ b :: back, scope⟩ := by
        rw [hkind]
        exact (changed b).visits_of_edge directed scope hkind
      show config.reports ((changed b).visits directed scope) = _
      rw [hvisits, reports_append, hgroup b hname]
      simp only [List.append_assoc]
      rfl

end

/-- In the reports of a document, what stands around those of one attribute does not depend on
its value. -/
theorem Slot.exists_reports {slot : Slot} (hwalked : slot.hole.IsWalked)
    (hvisited : slot.frame.IsVisited) (hshape : slot.attr.name ≠ Site.shapeAttribute)
    (hscheme : slot.attr.name ≠ Site.schemeAttribute) (config : Config) :
    ∃ first last, ∀ value, config.reports (slot.withValue value).document.visits =
      first ++ config.report (slot.withValue value).visit ++ last := by
  obtain ⟨hole, before, frame, a, after⟩ := slot
  let scope := hole.scope.after before
  let assigned (b : Attribute) := assignments (before ++ frame.fill b :: after)
  obtain ⟨outer, outer', hfill⟩ := Hole.visits_fill hwalked
  obtain ⟨first, last, hframe⟩ :=
    exists_reports_statement hshape hscheme config hvisited hole.directed hole.kind scope
  refine ⟨config.reports outer ++ config.reports
      (bodyVisits hole.directed hole.kind (assigned a) hole.scope before) ++ first,
    last ++ config.reports (bodyVisits hole.directed hole.kind (assigned a)
      (scope.step (frame.fill a)) after) ++ config.reports outer', fun value => ?_⟩
  let b : Attribute := { a with value := value }
  have hname : b.name = a.name := rfl
  have hassigned : AgreesFor hole.kind (assigned b) (assigned a) :=
    agreesFor_assignments_replace hname hshape hscheme hole.kind frame before after
  have hscope : (scope.step (frame.fill b)).Agrees (scope.step (frame.fill a)) :=
    agrees_step_replace hname hshape hscheme frame scope
  have hbefore := bodyVisits_reports_congr config hole.directed hole.kind
    (Scope.Agrees.refl hole.scope) hassigned before
  have hafter := bodyVisits_reports_congr config hole.directed hole.kind hscope hassigned after
  calc config.reports (hole.fill (before ++ frame.fill b :: after)).visits
      = config.reports outer ++
          (config.reports (bodyVisits hole.directed hole.kind (assigned b) hole.scope before) ++
            config.reports ((frame.fill b).visits hole.directed hole.kind (assigned b) scope) ++
              config.reports (bodyVisits hole.directed hole.kind (assigned b)
                (scope.step (frame.fill b)) after)) ++ config.reports outer' := by
        rw [hfill, Hole.visits, bodyVisits_append_cons]
        simp only [reports_append]
        rfl
    _ = _ := by
        rw [hbefore, hafter, hframe b hname]
        simp only [List.append_assoc]
        rfl

/-- **Isolation of attributes.** The visited attributes of a document stand in its slots. Unless
it is a shape or a color scheme, another value for one of them changes its own diagnostics and
nothing in front of them or behind. -/
theorem validate_withValue (config : Config) (document : Document) :
    document.slots.map Slot.visit = document.visits.filter Visit.isAttribute ∧
      ∀ slot ∈ document.slots, slot.document = document ∧
        (slot.attr.name ≠ "shape" → slot.attr.name ≠ "colorscheme" →
          ∃ first last, ∀ value, (config.validate (slot.withValue value).document).diagnostics =
            first ++ config.report (slot.withValue value).visit ++ last) := by
  refine ⟨document.map_visit_slots, fun slot hslot => ?_⟩
  obtain ⟨hdocument, hwalked, hvisited⟩ := Document.mem_slots hslot
  refine ⟨hdocument, fun hshape hscheme => ?_⟩
  obtain ⟨first, last, hreports⟩ := Slot.exists_reports hwalked hvisited hshape hscheme config
  exact ⟨first, last, fun value => (diagnostics_eq_reports config _).trans (hreports value)⟩

/-- A digraph in which a subgraph sets a color that does not exist for its nodes. A node with a
fault of its own follows, and an edge with the operator of the other sort of graph. -/
def digraphWithColor : Document :=
  let block : DefaultBlock := ⟨.node, [.writtenAt 30 .bare "color" "nocolor"]⟩
  let node := { Element.node "a" with attributes := [.writtenAt 50 .bare "sides" "many"] }
  let subgraph := { Element.subgraph none with body := [.defaults block, .element node] }
  ⟨true, false, { Element.graph with
    body := [.element subgraph, .element (.edge [.writtenAt 70 false])] }⟩

theorem validate_withValue_nocolor :
    ∃ slot ∈ digraphWithColor.slots, slot.attr.name ≠ "shape" ∧ slot.attr.name ≠ "colorscheme" ∧
      (validate (slot.withValue "nocolor").document).map Diagnostic.offset = [30, 50, 70] ∧
      (validate (slot.withValue "red").document).map Diagnostic.offset = [50, 70] ∧
      ∃ first last, ∀ value, (Config.full.validate (slot.withValue value).document).diagnostics =
        first ++ Config.full.report (slot.withValue value).visit ++ last := by
  let slot := digraphWithColor.slots.head (List.cons_ne_nil _ _)
  have hslot : slot ∈ digraphWithColor.slots := List.head_mem _
  have hshape : slot.attr.name ≠ "shape" := by decide +kernel
  have hscheme : slot.attr.name ≠ "colorscheme" := by decide +kernel
  obtain ⟨-, hvalues⟩ := (validate_withValue Config.full digraphWithColor).2 slot hslot
  exact ⟨slot, hslot, hshape, hscheme, by decide +kernel, by decide +kernel,
    hvalues hshape hscheme⟩

/-! ## Elements -/

/-- **Isolation of elements.** Around a body that is walked there are fixed diagnostics. In the
body, an element adds diagnostics of its own at its place, and changes none of those in front of
it or behind. Those of a node end with what its document reports by itself. -/
theorem validate_insert (config : Config) {hole : Hole} (h : hole.IsWalked) :
    ∃ outer outer', ∀ before after : List Statement,
      let assigned := assignments (before ++ after)
      let scope := hole.scope.after before
      let first :=
        outer ++ config.reports (bodyVisits hole.directed hole.kind assigned hole.scope before)
      let last := config.reports (bodyVisits hole.directed hole.kind assigned scope after) ++ outer'
      (config.validate (hole.fill (before ++ after))).diagnostics = first ++ last ∧
        ∀ element : Element,
          (config.validate (hole.fill (before ++ .element element :: after))).diagnostics =
              first ++ config.reports (element.visits hole.directed scope) ++ last ∧
            (element.kind = .node → ∀ document ∈ element.nested,
              config.reports (element.visits hole.directed scope) =
                config.reports (Site.visits ⟨.node, element.attributes, scope⟩) ++
                  (config.validate document).diagnostics) := by
  obtain ⟨outer, outer', hfill⟩ := Hole.visits_fill h
  refine ⟨config.reports outer, config.reports outer',
    fun before after => ⟨?_, fun element => ⟨?_, ?_⟩⟩⟩
  · rw [diagnostics_eq_reports, hfill, Hole.visits, bodyVisits_append]
    simp only [reports_append, List.append_assoc]
  · have hassigned : assignments (before ++ .element element :: after) =
        assignments (before ++ after) := by
      simp [assignments]
    rw [diagnostics_eq_reports, hfill, Hole.visits, bodyVisits_append_cons, hassigned]
    simp only [reports_append, List.append_assoc]
    rfl
  · intro hnode document hdocument
    rw [element.visits_of_node _ _ hnode, reports_append, hdocument, diagnostics_eq_reports]
    rfl

/-- The body of a subgraph in a graph whose nodes are records by default. -/
def recordSubgraph : Hole :=
  .inner (.root false false Element.graph)
    [.defaults ⟨.node, [.writtenAt 10 .bare "shape" "record"]⟩] (Element.subgraph none)
    [.element (.edge [.writtenAt 90 true])]

/-- A node with a label that is no record, to which a digraph with such a node belongs. There
the label is free text. -/
def nodeWithDigraph : Element :=
  let node := { Element.node "a" with attributes := [.writtenAt 40 .quoted "label" "\x7b"] }
  let digraph : Document := ⟨true, false, { Element.graph with
    body := [.element node, .element (.edge [.writtenAt 60 false])] }⟩
  { node with nested := some digraph }

theorem validate_insert_nodeWithDigraph :
    recordSubgraph.IsWalked ∧ nodeWithDigraph.kind = .node ∧
      (validate (recordSubgraph.fill [.element nodeWithDigraph])).map Diagnostic.offset =
        [42, 60, 90] ∧
      ∃ first block last,
        (Config.full.validate (recordSubgraph.fill [])).diagnostics = first ++ last ∧
        (Config.full.validate (recordSubgraph.fill [.element nodeWithDigraph])).diagnostics =
          first ++ block ++ last ∧
        ∀ document ∈ nodeWithDigraph.nested,
          ∃ head, block = head ++ (Config.full.validate document).diagnostics := by
  have hwalked : recordSubgraph.IsWalked := ⟨trivial, rfl⟩
  obtain ⟨_, _, hinsert⟩ := validate_insert Config.full hwalked
  obtain ⟨hwithout, hwith⟩ := hinsert [] []
  obtain ⟨hblock, hnested⟩ := hwith nodeWithDigraph
  exact ⟨hwalked, rfl, by decide +kernel, _, _, _, hwithout, hblock,
    fun document hdocument => ⟨_, hnested rfl document hdocument⟩⟩

end DotAttributes
