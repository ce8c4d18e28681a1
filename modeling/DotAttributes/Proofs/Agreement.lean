import DotAttributes.Proofs.Context
import DotAttributes.Proofs.Findings
import Mathlib.Data.List.Basic

/-!
# What checks depend on

A check of an attribute looks at its site for three things only: the kind of element, the
color scheme, and on nodes the shape (`Site.Agrees`). So two sites that agree on them report
the same of every attribute (`report_attr_congr`), and where defaults agree on the two names
that are looked up in them, whole elements and bodies report the same (`reports_congr`).
-/

namespace DotAttributes

/-! ## Lists and defaults -/

/-- Two lists have the same values for what is looked up in them for elements of a kind: the
color scheme, and the shape on nodes. -/
structure AgreesFor (kind : ElementKind) (attrs attrs' : AttributeList) : Prop where
  colorScheme : AttributeList.value? attrs Site.schemeAttribute =
    AttributeList.value? attrs' Site.schemeAttribute
  shape : kind = .node → AttributeList.value? attrs Site.shapeAttribute =
    AttributeList.value? attrs' Site.shapeAttribute

namespace AgreesFor

variable {kind : ElementKind} {attrs attrs' more more' : AttributeList}

theorem refl (kind : ElementKind) (attrs : AttributeList) : AgreesFor kind attrs attrs :=
  ⟨rfl, fun _ => rfl⟩

theorem append (h : AgreesFor kind attrs attrs') (hmore : AgreesFor kind more more') :
    AgreesFor kind (attrs ++ more) (attrs' ++ more') := by
  refine ⟨?_, fun hkind => ?_⟩
  · rw [value?_append, value?_append, h.colorScheme, hmore.colorScheme]
  · rw [value?_append, value?_append, h.shape hkind, hmore.shape hkind]

end AgreesFor

/-- The attributes of a name. -/
def AttributeList.named (name : String) (attrs : AttributeList) : AttributeList :=
  attrs.filter fun a => a.name == name

/-- The value that counts is that of the last attribute of the name. -/
theorem value?_eq_getLast? (attrs : AttributeList) (name : String) :
    AttributeList.value? attrs name =
      (AttributeList.named name attrs).getLast?.map Attribute.value := by
  rw [AttributeList.value?, AttributeList.get?, AttributeList.named, ← List.head?_filter,
    List.filter_reverse, List.head?_reverse]

theorem value?_congr {attrs attrs' : AttributeList} {name : String}
    (h : AttributeList.named name attrs = AttributeList.named name attrs') :
    AttributeList.value? attrs name = AttributeList.value? attrs' name := by
  rw [value?_eq_getLast?, value?_eq_getLast?, h]

/-- A list with an attribute of a name has a value under it. -/
theorem value?_isSome {attrs : AttributeList} {a : Attribute} (h : a ∈ attrs) :
    (AttributeList.value? attrs a.name).isSome := by
  rw [value?_eq_getLast?, Option.isSome_map, List.getLast?_isSome]
  exact List.ne_nil_of_mem (List.mem_filter.2 ⟨h, beq_self_eq_true a.name⟩)

/-- Two lists of defaults agree when they agree for every kind of elements. -/
def Scope.Agrees (scope scope' : Scope) : Prop :=
  ∀ kind, AgreesFor kind (scope.defaultsFor kind) (scope'.defaultsFor kind)

namespace Scope.Agrees

variable {scope scope' : Scope}

theorem refl (scope : Scope) : scope.Agrees scope := fun kind => AgreesFor.refl kind _

/-- Statements that set the same keep defaults in agreement. -/
theorem after (h : scope.Agrees scope') {statements statements' : List Statement}
    (hbindings : ∀ kind, AgreesFor kind (statements.flatMap (Statement.bindings kind))
      (statements'.flatMap (Statement.bindings kind))) :
    (scope.after statements).Agrees (scope'.after statements') := by
  intro kind
  rw [defaultsFor_after, defaultsFor_after]
  exact (h kind).append (hbindings kind)

theorem step (h : scope.Agrees scope') (statement : Statement) :
    (scope.step statement).Agrees (scope'.step statement) :=
  @after _ _ h [statement] [statement] fun kind => AgreesFor.refl kind _

end Scope.Agrees

/-! ## Sites -/

/-- Two sites are for the same kind of element, and agree on the color scheme, and on the shape
if they are for nodes. -/
structure Site.Agrees (site site' : Site) : Prop where
  kind : site.kind = site'.kind
  colorScheme : site.colorScheme = site'.colorScheme
  shape : site.kind = .node → site.shape = site'.shape

theorem AgreesFor.site {kind : ElementKind} {own own' : AttributeList} {scope scope' : Scope}
    (hown : AgreesFor kind own own') (hscope : scope.Agrees scope') :
    Site.Agrees ⟨kind, own, scope⟩ ⟨kind, own', scope'⟩ := by
  refine ⟨rfl, ?_, fun hkind => ?_⟩
  · simp only [Site.colorScheme, Site.lookup?, hown.colorScheme, (hscope kind).colorScheme]
  · simp only [Site.shape, Site.lookup?, hown.shape hkind, (hscope .node).shape rfl]

/-- An attribute that is assigned to a graph does not reach the other ones through the defaults:
they find it in their own list. -/
theorem Site.agrees_assign {kind : ElementKind} {own : AttributeList} {a : Attribute} (h : a ∈ own)
    (scope : Scope) : Site.Agrees ⟨kind, own, scope.assign a⟩ ⟨kind, own, scope⟩ := by
  refine ⟨rfl, ?_, fun _ => rfl⟩
  have hdefaults := defaultsFor_step kind scope (.assign a)
  by_cases hname : a.name = schemeAttribute
  · obtain ⟨scheme, hscheme⟩ := Option.isSome_iff_exists.1 (value?_isSome h)
    rw [hname] at hscheme
    simp only [colorScheme, lookup?, hscheme, Option.some_or]
  · have hnone : AttributeList.value? ((Statement.assign a).bindings kind) schemeAttribute =
        none := by
      cases hgraph : kind.isGraphLike <;>
        simp [Statement.bindings, AttributeList.value?, AttributeList.get?, hgraph, hname]
    simp only [colorScheme, lookup?]
    rw [show scope.assign a = scope.step (.assign a) from rfl, hdefaults, value?_append, hnone,
      Option.none_or]

namespace Site.Agrees

variable {site site' : Site}

theorem hasStripes (h : site.Agrees site') : site.hasStripes = site'.hasStripes := by
  unfold Site.hasStripes
  by_cases hkind : site.kind = .node
  · rw [h.shape hkind, h.kind]
  · rw [bne_iff_ne.2 hkind, bne_iff_ne.2 (h.kind ▸ hkind)]
    rfl

theorem hasRecords (h : site.Agrees site') : site.hasRecords = site'.hasRecords := by
  unfold Site.hasRecords
  by_cases hkind : site.kind = .node
  · rw [h.shape hkind, h.kind]
  · rw [beq_eq_false_iff_ne.2 hkind, beq_eq_false_iff_ne.2 (h.kind ▸ hkind)]
    rfl

/-- Sites that agree have the same findings. -/
theorem checkAttribute (h : site.Agrees site') (config : Config) (a : Attribute) :
    config.checkAttribute site a = config.checkAttribute site' a := by
  unfold Config.checkAttribute
  rw [h.kind]
  cases AttributeType.of site'.kind a.name with
  | color | colorList => simp only [checkColors, h.colorScheme]
  | style => simp only [checkStyle, h.kind, h.hasStripes]
  | label => simp only [Config.checkLabel, h.hasRecords]
  | _ => rfl

theorem report_attr (h : site.Agrees site') (config : Config) (a : Attribute) :
    config.report (.attr site a) = config.report (.attr site' a) :=
  congrArg (List.map Finding.diagnostic) (h.checkAttribute config a)

end Site.Agrees

/-! ## Elements and bodies -/

section

variable (config : Config)

theorem reports_siteVisits {site site' : Site} (h : site.Agrees site')
    (hown : site.own = site'.own) : config.reports site.visits = config.reports site'.visits := by
  rw [Site.visits, Site.visits, hown, Config.reports, Config.reports, List.flatMap_map,
    List.flatMap_map]
  exact List.flatMap_congr fun a _ => h.report_attr config a

variable (directed : Bool)

-- By recursion on the tree of statements, for all defaults that agree: each statement adds the
-- same to both sides.
mutual

/-- Under defaults that agree, elements report the same. -/
theorem Element.reports_congr {scope scope' : Scope} (h : scope.Agrees scope') :
    ∀ element : Element, config.reports (element.visits directed scope) =
      config.reports (element.visits directed scope')
  | ⟨.node, name, attributes, body, operators, nested, span⟩ => by
    have hsite := reports_siteVisits config ((AgreesFor.refl .node attributes).site h) rfl
    rw [Element.visits_of_node _ _ _ rfl, Element.visits_of_node _ _ _ rfl, reports_append,
      reports_append]
    exact congrArg (· ++ _) hsite
  | ⟨.edge, _, attributes, _, operators, _, _⟩ => by
    have hsite := reports_siteVisits config ((AgreesFor.refl .edge attributes).site h) rfl
    rw [Element.visits_of_edge _ _ _ rfl, Element.visits_of_edge _ _ _ rfl, reports_append,
      reports_append]
    exact congrArg (_ ++ ·) hsite
  | ⟨.graph, _, _, body, _, _, _⟩ => bodyVisits_reports_congr .graph h (AgreesFor.refl _ _) body
  | ⟨.subgraph, _, _, body, _, _, _⟩ =>
    bodyVisits_reports_congr .subgraph h (AgreesFor.refl _ _) body
  | ⟨.cluster, _, _, body, _, _, _⟩ => bodyVisits_reports_congr .cluster h (AgreesFor.refl _ _) body
termination_by structural element => element

theorem Statement.reports_congr (kind : ElementKind) {scope scope' : Scope}
    (h : scope.Agrees scope') {assigned assigned' : AttributeList}
    (hassigned : AgreesFor kind assigned assigned') : ∀ statement : Statement,
      config.reports (statement.visits directed kind assigned scope) =
        config.reports (statement.visits directed kind assigned' scope')
  | .assign a => by
    have hsite := hassigned.site h
    exact congrArg (· ++ []) (hsite.report_attr config a)
  | .defaults block => reports_siteVisits config ((AgreesFor.refl _ block.attributes).site h) rfl
  | .element element => Element.reports_congr h element
termination_by structural statement => statement

/-- Under defaults that agree, bodies to which the same is assigned report the same. -/
theorem bodyVisits_reports_congr (kind : ElementKind) {scope scope' : Scope}
    (h : scope.Agrees scope') {assigned assigned' : AttributeList}
    (hassigned : AgreesFor kind assigned assigned') : ∀ body : List Statement,
      config.reports (bodyVisits directed kind assigned scope body) =
        config.reports (bodyVisits directed kind assigned' scope' body)
  | [] => rfl
  | statement :: rest => by
    rw [bodyVisits_cons, bodyVisits_cons, reports_append, reports_append,
      Statement.reports_congr kind h hassigned statement,
      bodyVisits_reports_congr kind (h.step statement) hassigned rest]
termination_by structural body => body

end

end

end DotAttributes
