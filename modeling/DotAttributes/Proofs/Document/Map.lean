import DotAttributes.Proofs.Document.Hole
import Mathlib.Data.List.Basic

/-!
# Documents with changed attributes

`Document.map f g` changes every attribute of a document by `f` and every operator by `g`, wherever
they stand: on elements of every kind, in blocks of defaults, in the bodies of graphs, and in the
documents that belong to nodes. Which statements there are, and how they are nested, stays.

The walk does not look at attributes, so it goes through the changed document as it goes through the
document: it visits the changed attributes at sites whose attributes and defaults are changed
(`Document.visits_map`).
-/

namespace DotAttributes

/-! ## Changing attributes and operators -/

/-- Changes the attributes of a block of defaults. -/
def DefaultBlock.map (f : Attribute → Attribute) (block : DefaultBlock) : DefaultBlock :=
  { block with attributes := block.attributes.map f }

mutual

/-- Changes the attributes and operators of an element, and of everything inside it. -/
def Element.map (f : Attribute → Attribute) (g : EdgeOperator → EdgeOperator) : Element → Element
  | ⟨kind, name, attributes, body, operators, nested, span⟩ =>
    ⟨kind, name, attributes.map f, mapBody f g body, operators.map g,
      match nested with
      | some document => some (document.map f g)
      | none => none,
      span⟩

/-- Changes all attributes and operators of a document. -/
def Document.map (f : Attribute → Attribute) (g : EdgeOperator → EdgeOperator) :
    Document → Document
  | ⟨directed, strict, root⟩ => ⟨directed, strict, root.map f g⟩

/-- Changes the attributes and operators of a statement. -/
def Statement.map (f : Attribute → Attribute) (g : EdgeOperator → EdgeOperator) :
    Statement → Statement
  | .element element => .element (element.map f g)
  | .defaults block => .defaults (block.map f)
  | .assign a => .assign (f a)

/-- Changes the attributes and operators of the statements of a body. -/
def mapBody (f : Attribute → Attribute) (g : EdgeOperator → EdgeOperator) :
    List Statement → List Statement
  | [] => []
  | statement :: rest => statement.map f g :: mapBody f g rest

end

/-- Changes the defaults of a scope. -/
def Scope.map (f : Attribute → Attribute) (scope : Scope) : Scope :=
  ⟨scope.graph.map f, scope.node.map f, scope.edge.map f⟩

/-- Changes the attributes and the defaults of a site. -/
def Site.map (f : Attribute → Attribute) (site : Site) : Site :=
  ⟨site.kind, site.own.map f, site.scope.map f⟩

/-- Changes what is visited, and the site it is visited at. -/
def Visit.map (f : Attribute → Attribute) (g : EdgeOperator → EdgeOperator) : Visit → Visit
  | .attr site a => .attr (site.map f) (f a)
  | .operator directed op => .operator directed (g op)

variable (f : Attribute → Attribute) (g : EdgeOperator → EdgeOperator)

/-! ## Lookup in changed lists -/

theorem defaultsFor_map (scope : Scope) (kind : ElementKind) :
    (scope.map f).defaultsFor kind = (scope.defaultsFor kind).map f := by
  cases kind <;> rfl

variable {f}

/-- If names stay and the values under a name are changed by `change`, so is the one that counts. -/
theorem value?_map {name : String} {change : String → String} (hname : ∀ a, (f a).name = a.name)
    (hvalue : ∀ a, a.name = name → (f a).value = change a.value) (attrs : AttributeList) :
    AttributeList.value? (attrs.map f) name = (AttributeList.value? attrs name).map change := by
  have hfits : (fun a => (f a).name == name) = fun a : Attribute => a.name == name := by
    simp only [hname]
  rw [AttributeList.value?, AttributeList.get?, ← List.map_reverse, List.find?_map,
    AttributeList.value?, AttributeList.get?, Function.comp_def, hfits]
  cases hfind : attrs.reverse.find? fun a => a.name == name with
  | none => rfl
  | some a =>
    have ha : a.name == name := List.find?_some (p := fun a : Attribute => a.name == name) hfind
    exact congrArg some (hvalue a (beq_iff_eq.1 ha))

variable (f)

/-! ## Visits of changed documents -/

theorem assignments_mapBody (body : List Statement) :
    assignments (mapBody f g body) = (assignments body).map f := by
  induction body with
  | nil => rfl
  | cons statement rest ih =>
    cases statement with
    | assign a => exact congrArg (f a :: ·) ih
    | defaults block => exact ih
    | element element => exact ih

/-- Behind a changed statement the changed defaults hold. -/
theorem step_map (scope : Scope) (statement : Statement) :
    (scope.map f).step (statement.map f g) = (scope.step statement).map f := by
  cases statement with
  | element element => rfl
  | assign a => simp [Statement.map, Scope.step, Scope.assign, Scope.map]
  | defaults block =>
    obtain ⟨target, attributes⟩ := block
    cases target <;> simp [Statement.map, Scope.step, Scope.apply, Scope.map, DefaultBlock.map]

theorem siteVisits_map (site : Site) :
    (site.map f).visits = site.visits.map (Visit.map f g) := by
  simp only [Site.visits, Site.map, List.map_map]
  rfl

theorem operatorVisits_map (directed : Bool) (operators : List EdgeOperator) :
    (operators.map g).map (Visit.operator directed) =
      (operators.map (Visit.operator directed)).map (Visit.map f g) := by
  rw [List.map_map, List.map_map]
  rfl

-- By recursion on the tree of statements: every statement leaves the changed defaults to those
-- behind it, and a document that belongs to a node starts without any, changed or not.
mutual

theorem Element.visits_map (directed : Bool) (scope : Scope) :
    ∀ element : Element, (element.map f g).visits directed (scope.map f) =
      (element.visits directed scope).map (Visit.map f g)
  | ⟨.node, _, attributes, _, _, some document, _⟩ => by
    have hsite := siteVisits_map f g ⟨.node, attributes, scope⟩
    have hdocument := Document.visits_map document
    rw [Element.visits_of_node _ _ _ rfl, Element.visits_of_node _ _ _ rfl, List.map_append]
    exact congrArg₂ (· ++ ·) hsite hdocument
  | ⟨.node, _, attributes, _, _, none, _⟩ => by
    have hsite := siteVisits_map f g ⟨.node, attributes, scope⟩
    rw [Element.visits_of_node _ _ _ rfl, Element.visits_of_node _ _ _ rfl, List.map_append]
    exact congrArg (· ++ []) hsite
  | ⟨.edge, _, attributes, _, operators, _, _⟩ => by
    have hsite := siteVisits_map f g ⟨.edge, attributes, scope⟩
    have hoperators := operatorVisits_map f g directed operators
    rw [Element.visits_of_edge _ _ _ rfl, Element.visits_of_edge _ _ _ rfl, List.map_append]
    exact congrArg₂ (· ++ ·) hoperators hsite
  | ⟨.graph, _, _, body, _, _, _⟩ =>
    bodyVisits_map directed .graph (assignments_mapBody f g body) scope body
  | ⟨.subgraph, _, _, body, _, _, _⟩ =>
    bodyVisits_map directed .subgraph (assignments_mapBody f g body) scope body
  | ⟨.cluster, _, _, body, _, _, _⟩ =>
    bodyVisits_map directed .cluster (assignments_mapBody f g body) scope body
termination_by structural element => element

/-- **Changed documents.** The visits of a changed document are the visits of the document,
changed. -/
theorem Document.visits_map :
    ∀ document : Document, (document.map f g).visits = document.visits.map (Visit.map f g)
  | ⟨directed, _, ⟨kind, _, _, body, _, _, _⟩⟩ =>
    bodyVisits_map directed kind (assignments_mapBody f g body) .empty body
termination_by structural document => document

theorem Statement.visits_map (directed : Bool) (kind : ElementKind)
    {assigned assigned' : AttributeList} (hassigned : assigned' = assigned.map f)
    (scope : Scope) : ∀ statement : Statement,
      (statement.map f g).visits directed kind assigned' (scope.map f) =
        (statement.visits directed kind assigned scope).map (Visit.map f g)
  | .assign a => by
    rw [hassigned]
    rfl
  | .defaults block => siteVisits_map f g ⟨block.target.kindIn kind, block.attributes, scope⟩
  | .element element => Element.visits_map directed scope element
termination_by structural statement => statement

theorem bodyVisits_map (directed : Bool) (kind : ElementKind)
    {assigned assigned' : AttributeList} (hassigned : assigned' = assigned.map f)
    (scope : Scope) : ∀ body : List Statement,
      bodyVisits directed kind assigned' (scope.map f) (mapBody f g body) =
        (bodyVisits directed kind assigned scope body).map (Visit.map f g)
  | [] => rfl
  | statement :: rest => by
    have hstatement := Statement.visits_map directed kind hassigned scope statement
    have hrest := bodyVisits_map directed kind hassigned (scope.step statement) rest
    rw [mapBody, bodyVisits_cons, bodyVisits_cons, List.map_append, step_map, hstatement, hrest]
termination_by structural body => body

end

end DotAttributes
