import DotAttributes.Proofs.Agreement
import Mathlib.Logic.Relation

/-!
# The order of declarations

Reordering declarations reorders diagnostics and does nothing else (`validate_perm`). What may
be reordered are the attributes of an element or of a block of defaults, as long as shapes stay
in order among themselves and color schemes do, and two assignments that follow each other,
unless both choose the color scheme. Where the graph they are assigned to counts as a node,
which only a root can, they must not both choose the shape either: the last one holds, so
their order is seen (`validate_not_perm_of_shapes`).
-/

namespace DotAttributes

open List (Perm)

/-! ## Reorderings -/

/-- The same attributes in another order that keeps the shapes and the color schemes in order. -/
structure Rearranges (attrs attrs' : AttributeList) : Prop where
  perm : attrs.Perm attrs'
  shapes : AttributeList.named "shape" attrs = AttributeList.named "shape" attrs'
  schemes : AttributeList.named "colorscheme" attrs = AttributeList.named "colorscheme" attrs'

/-- A part of the body of a graph of the given kind, reordered. -/
inductive Reordered (kind : ElementKind) : List Statement → List Statement → Prop
  /-- the attributes of an element -/
  | element {e : Element} {attributes : AttributeList} (h : Rearranges e.attributes attributes) :
      Reordered kind [.element e] [.element { e with attributes := attributes }]
  /-- the attributes of a block of defaults -/
  | defaults {target : DefaultTarget} {attrs attrs' : AttributeList} (h : Rearranges attrs attrs') :
      Reordered kind [.defaults ⟨target, attrs⟩] [.defaults ⟨target, attrs'⟩]
  /-- two assignments -/
  | assign {a b : Attribute} (schemes : ¬ (a.name = "colorscheme" ∧ b.name = "colorscheme"))
      (shapes : kind = .node → ¬ (a.name = "shape" ∧ b.name = "shape")) :
      Reordered kind [.assign a, .assign b] [.assign b, .assign a]

/-- A document with a part of one of its bodies reordered. -/
inductive Document.Reordered : Document → Document → Prop
  | body (hole : Hole) (before after : List Statement) {part part' : List Statement}
      (h : DotAttributes.Reordered hole.kind part part') :
      Reordered (hole.fill (before ++ part ++ after)) (hole.fill (before ++ part' ++ after))

/-! ## What a reordered part sets -/

theorem Rearranges.agreesFor {attrs attrs' : AttributeList} (h : Rearranges attrs attrs')
    (kind : ElementKind) : AgreesFor kind attrs attrs' :=
  ⟨value?_congr h.schemes, fun _ => value?_congr h.shapes⟩

/-- Of two attributes that do not both have a name, the order does not matter for it. -/
theorem named_swap {a b : Attribute} {name : String} (h : ¬ (a.name = name ∧ b.name = name)) :
    AttributeList.named name [a, b] = AttributeList.named name [b, a] := by
  by_cases ha : a.name = name <;> by_cases hb : b.name = name <;>
    simp_all [AttributeList.named]

namespace Reordered

variable {kind : ElementKind} {part part' : List Statement}

/-- A reordered part assigns the same to its graph. -/
theorem agreesFor_assignments (h : Reordered kind part part') :
    AgreesFor kind (assignments part) (assignments part') := by
  cases h with
  | element h => exact AgreesFor.refl kind _
  | defaults h => exact AgreesFor.refl kind _
  | assign schemes shapes =>
    exact ⟨value?_congr (named_swap schemes), fun hkind => value?_congr (named_swap (shapes hkind))⟩

/-- A reordered part sets the same for the statements behind it. -/
theorem agreesFor_bindings (h : Reordered kind part part') (kind' : ElementKind) :
    AgreesFor kind' (part.flatMap (Statement.bindings kind'))
      (part'.flatMap (Statement.bindings kind')) := by
  cases h with
  | element h => exact AgreesFor.refl kind' _
  | @defaults target attrs attrs' h =>
    simp only [List.flatMap_cons, List.flatMap_nil, List.append_nil, Statement.bindings]
    split
    · exact h.agreesFor kind'
    · exact AgreesFor.refl kind' _
  | @assign a b schemes shapes =>
    simp only [List.flatMap_cons, List.flatMap_nil, List.append_nil, Statement.bindings]
    split
    · next hgraph =>
      refine ⟨value?_congr (named_swap schemes), fun hnode => ?_⟩
      rw [hnode] at hgraph
      cases hgraph
    · exact AgreesFor.refl kind' _

end Reordered

/-! ## What a reordered part reports -/

section

variable (config : Config) (directed : Bool)

/-- A group of attributes in another order has the same reports in another order. -/
theorem reports_siteVisits_perm (kind : ElementKind) {attrs attrs' : AttributeList}
    (h : Rearranges attrs attrs') (scope : Scope) :
    (config.reports (Site.visits ⟨kind, attrs, scope⟩)).Perm
      (config.reports (Site.visits ⟨kind, attrs', scope⟩)) := by
  have hsite := (h.agreesFor kind).site (Scope.Agrees.refl scope)
  simp only [Site.visits, Config.reports, List.flatMap_map]
  rw [List.flatMap_congr fun a _ => hsite.report_attr config a]
  exact h.perm.flatMap_right _

/-- An element with its attributes in another order has the same reports in another order. -/
theorem Element.reports_perm {element : Element} {attributes : AttributeList}
    (h : Rearranges element.attributes attributes) (scope : Scope) :
    (config.reports (element.visits directed scope)).Perm
      (config.reports ({ element with attributes := attributes }.visits directed scope)) := by
  obtain ⟨kind, name, old, body, operators, nested, span⟩ := element
  have hsite (kind : ElementKind) := reports_siteVisits_perm config kind h scope
  cases kind with
  | node =>
    rw [Element.visits_of_node _ _ _ rfl, Element.visits_of_node _ _ _ rfl, reports_append,
      reports_append]
    exact (hsite .node).append_right _
  | edge =>
    rw [Element.visits_of_edge _ _ _ rfl, Element.visits_of_edge _ _ _ rfl, reports_append,
      reports_append]
    exact (hsite .edge).append_left _
  | graph | subgraph | cluster => exact Perm.refl _

/-- Two assignments report the same as if neither were among the defaults of the other. -/
theorem reports_assign_assign {kind : ElementKind} {assigned : AttributeList} {a b : Attribute}
    (ha : a ∈ assigned) (scope : Scope) :
    config.reports (bodyVisits directed kind assigned scope [.assign a, .assign b]) =
      config.report (.attr ⟨kind, assigned, scope⟩ a) ++
        config.report (.attr ⟨kind, assigned, scope⟩ b) := by
  have hunseen : Site.Agrees ⟨kind, assigned, scope.assign a⟩ ⟨kind, assigned, scope⟩ :=
    Site.agrees_assign ha scope
  rw [← hunseen.report_attr config b]
  exact congrArg (_ ++ ·) (List.append_nil _)

/-- Under the same assignments, a reordered part has the same reports in another order. -/
theorem Reordered.reports_perm {kind : ElementKind} {part part' : List Statement}
    (h : Reordered kind part part') {assigned assigned' : AttributeList}
    (hassigned : AgreesFor kind assigned assigned')
    (hpart : ∀ a ∈ assignments part, a ∈ assigned)
    (hpart' : ∀ a ∈ assignments part', a ∈ assigned') (scope : Scope) :
    (config.reports (bodyVisits directed kind assigned scope part)).Perm
      (config.reports (bodyVisits directed kind assigned' scope part')) := by
  cases h with
  | element h =>
    rw [bodyVisits_singleton, bodyVisits_singleton]
    exact Element.reports_perm config directed h scope
  | defaults h =>
    rw [bodyVisits_singleton, bodyVisits_singleton]
    exact reports_siteVisits_perm config _ h scope
  | @assign a b schemes shapes =>
    have ha : a ∈ assigned := hpart a List.mem_cons_self
    have hb : b ∈ assigned' := hpart' b List.mem_cons_self
    have hreport (c : Attribute) : config.report (.attr ⟨kind, assigned, scope⟩ c) =
        config.report (.attr ⟨kind, assigned', scope⟩ c) :=
      (hassigned.site (Scope.Agrees.refl scope)).report_attr config c
    rw [reports_assign_assign config directed ha, reports_assign_assign config directed hb,
      hreport a, hreport b]
    exact List.perm_append_comm

/-- A body with a part reordered has the same reports in another order. -/
theorem Hole.reports_visits_perm (hole : Hole) (before after : List Statement)
    {part part' : List Statement} (h : Reordered hole.kind part part') :
    (config.reports (hole.visits (before ++ part ++ after))).Perm
      (config.reports (hole.visits (before ++ part' ++ after))) := by
  have hassigned : AgreesFor hole.kind (assignments (before ++ part ++ after))
      (assignments (before ++ part' ++ after)) := by
    simp only [assignments_append]
    exact ((AgreesFor.refl _ _).append h.agreesFor_assignments).append (AgreesFor.refl _ _)
  have hscope := (Scope.Agrees.refl (hole.scope.after before)).after h.agreesFor_bindings
  have hbefore := bodyVisits_reports_congr config hole.directed hole.kind
    (Scope.Agrees.refl hole.scope) hassigned before
  have hpart := h.reports_perm config hole.directed hassigned
    (fun a ha => by simp [ha]) (fun a ha => by simp [ha]) (hole.scope.after before)
  have hafter := bodyVisits_reports_congr config hole.directed hole.kind hscope hassigned after
  simp only [Hole.visits, bodyVisits_append, reports_append, Scope.after_append]
  rw [hbefore, hafter]
  exact (hpart.append_left _).append_right _

end

/-- A reordering of a document reorders its diagnostics. -/
theorem Document.Reordered.perm (config : Config) {document document' : Document}
    (h : document.Reordered document') :
    (config.validate document).diagnostics.Perm (config.validate document').diagnostics := by
  obtain ⟨hole, before, after, hpart⟩ := h
  rw [diagnostics_eq_reports, diagnostics_eq_reports]
  by_cases hwalked : hole.IsWalked
  · obtain ⟨first, last, hfill⟩ := Hole.visits_fill hwalked
    have hperm := hole.reports_visits_perm config before after hpart
    rw [hfill, hfill, reports_append, reports_append, reports_append, reports_append]
    exact (hperm.append_left _).append_right _
  · rw [Hole.visits_fill_of_not_isWalked hwalked _ _]

/-- **Order.** Documents that reorderings lead to have the same diagnostics in another order. -/
theorem validate_perm (config : Config) {document document' : Document}
    (h : Relation.ReflTransGen Document.Reordered document document') :
    (config.validate document).diagnostics.Perm (config.validate document').diagnostics := by
  induction h with
  | refl => exact Perm.refl _
  | tail _ hstep ih => exact ih.trans (hstep.perm config)

/-- A digraph with one subgraph, in which a node with the given attributes stands. -/
def subgraphWith (attributes : AttributeList) : Document :=
  Hole.fill (.inner (.root true false Element.graph) [] (Element.subgraph none) [])
    [.element { Element.node "a" with attributes := attributes }]

/-- A color and a style that do not exist. -/
def colorAndStyle : AttributeList :=
  [.writtenAt 30 .bare "color" "nocolor", .writtenAt 44 .bare "style" "nostyle"]

theorem validate_perm_colorAndStyle :
    (validate (subgraphWith colorAndStyle)).Perm (validate (subgraphWith colorAndStyle.reverse)) ∧
      (validate (subgraphWith colorAndStyle)).map Diagnostic.offset = [30, 44] ∧
      (validate (subgraphWith colorAndStyle.reverse)).map Diagnostic.offset = [44, 30] := by
  have hrearranges : Rearranges colorAndStyle colorAndStyle.reverse :=
    ⟨(List.reverse_perm _).symm, rfl, rfl⟩
  have hreordered :
      (subgraphWith colorAndStyle).Reordered (subgraphWith colorAndStyle.reverse) :=
    .body _ [] [] (.element (e := { Element.node "a" with attributes := colorAndStyle }) hrearranges)
  exact ⟨validate_perm Config.full (.single hreordered), by decide +kernel, by decide +kernel⟩

/-- A document whose root counts as a node. -/
def nodeRoot : Hole := .root false false { Element.graph with kind := .node }

/-- Two shapes and a label that is no record. -/
def recordShape : Attribute := .writtenAt 14 .bare "shape" "record"

@[inherit_doc recordShape]
def ellipseShape : Attribute := .writtenAt 28 .bare "shape" "ellipse"

@[inherit_doc recordShape]
def openLabel : Attribute := .writtenAt 43 .quoted "label" "\x7b"

/-- Where a root counts as a node, the order of two shapes is seen: the last one decides whether
the label is read as a record. -/
theorem validate_not_perm_of_shapes :
    ¬ (recordShape.name = "colorscheme" ∧ ellipseShape.name = "colorscheme") ∧
      ¬ (validate (nodeRoot.fill
          ([] ++ [.assign recordShape, .assign ellipseShape] ++ [.assign openLabel]))).Perm
        (validate (nodeRoot.fill
          ([] ++ [.assign ellipseShape, .assign recordShape] ++ [.assign openLabel]))) := by
  refine ⟨by decide +kernel, fun hperm => ?_⟩
  have hlength := hperm.length_eq
  revert hlength
  decide +kernel

end DotAttributes
