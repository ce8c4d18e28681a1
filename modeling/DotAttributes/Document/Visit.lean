import DotAttributes.AttributeType
import DotAttributes.Color.Scheme
import DotAttributes.Document.Element

/-!
# Visits

A document is gone through from its beginning to its end, and everything in it that can be
wrong is visited once: attributes where they stand, and operators of edges.

What an attribute means depends on its site: the kind of element it is for, the attributes
that are written with it, and the defaults set in front of it. Defaults set in a graph hold
for the graphs inside it, but not the other way round, and a document that belongs to a node
starts without any.

* `Scope` is the defaults that hold at one point, `Site` a group of attributes with them.
* `Site.colorScheme` and `Site.shape` are what the site says about its colors and its node.
* `Document.visits` lists the visits of a document in order.
-/

namespace DotAttributes

/-! ## Scopes -/

/-- The defaults that have been set so far for graphs, nodes and edges, oldest first. -/
structure Scope where
  graph : AttributeList
  node : AttributeList
  edge : AttributeList
deriving DecidableEq, Repr

namespace Scope

/-- No defaults. -/
def empty : Scope := ⟨[], [], []⟩

/-- Adds the attributes of a block of defaults. -/
def apply (scope : Scope) (block : DefaultBlock) : Scope :=
  match block.target with
  | .graph => { scope with graph := scope.graph ++ block.attributes }
  | .node => { scope with node := scope.node ++ block.attributes }
  | .edge => { scope with edge := scope.edge ++ block.attributes }

/-- Adds an attribute that is assigned to a graph; the graphs inside it inherit it. -/
def assign (scope : Scope) (a : Attribute) : Scope := { scope with graph := scope.graph ++ [a] }

/-- The defaults of a kind of elements. -/
def defaultsFor (scope : Scope) : ElementKind → AttributeList
  | .node => scope.node
  | .edge => scope.edge
  | .graph | .subgraph | .cluster => scope.graph

end Scope

/-! ## Sites -/

/-- A group of attributes: the kind of element they are for, the attributes themselves, and
the defaults that hold around them. -/
structure Site where
  kind : ElementKind
  own : AttributeList
  scope : Scope
deriving DecidableEq, Repr

namespace Site

/-- The name of the attribute that chooses a color scheme. -/
def schemeAttribute : String := "colorscheme"

/-- The name of the attribute that chooses the shape of a node. -/
def shapeAttribute : String := "shape"

/-- The value of an attribute in the group itself, or else among the defaults of a kind. -/
def lookup? (site : Site) (kind : ElementKind) (name : String) : Option String :=
  (AttributeList.value? site.own name).or
    (AttributeList.value? (site.scope.defaultsFor kind) name)

/-- The name of the color scheme in which the colors of the group are looked up. -/
def colorScheme (site : Site) : String :=
  (site.lookup? site.kind schemeAttribute).getD Scheme.default

/-- The name of the shape of a node with the attributes of the group. -/
def shape (site : Site) : String := (site.lookup? .node shapeAttribute).getD NodeShape.default

end Site

/-! ## Visits -/

/-- Something that is visited: an attribute at its site, or an operator of an edge in a
document that is directed or not. -/
inductive Visit
  | attr (site : Site) (attr : Attribute)
  | operator (directed : Bool) (op : EdgeOperator)
deriving DecidableEq, Repr

/-- The visits of the attributes of a group. -/
def Site.visits (site : Site) : List Visit := site.own.map (.attr site)

mutual

/-- The visits of a document. Its root counts as a graph whatever its kind is. -/
def Document.visits : Document → List Visit
  | ⟨directed, _, ⟨kind, _, _, body, _, _, _⟩⟩ =>
    bodyVisits directed kind (assignments body) .empty body

/-- The visits of an element that stands in a scope. -/
def Element.visits (directed : Bool) (scope : Scope) : Element → List Visit
  | ⟨.node, _, attributes, _, _, nested, _⟩ =>
    Site.visits ⟨.node, attributes, scope⟩ ++
      match nested with
      | some document => document.visits
      | none => []
  | ⟨.edge, _, attributes, _, operators, _, _⟩ =>
    operators.map (.operator directed) ++ Site.visits ⟨.edge, attributes, scope⟩
  | ⟨kind, _, _, body, _, _, _⟩ => bodyVisits directed kind (assignments body) scope body

/-- The visits of the statements of a graph of the given kind, to which the attributes
`assigned` are assigned. Every statement sees the defaults set in front of it. -/
def bodyVisits (directed : Bool) (kind : ElementKind) (assigned : AttributeList) :
    Scope → List Statement → List Visit
  | _, [] => []
  | scope, .assign a :: rest =>
    .attr ⟨kind, assigned, scope⟩ a :: bodyVisits directed kind assigned (scope.assign a) rest
  | scope, .defaults block :: rest =>
    Site.visits ⟨block.target.kindIn kind, block.attributes, scope⟩ ++
      bodyVisits directed kind assigned (scope.apply block) rest
  | scope, .element element :: rest =>
    element.visits directed scope ++ bodyVisits directed kind assigned scope rest

end

end DotAttributes
