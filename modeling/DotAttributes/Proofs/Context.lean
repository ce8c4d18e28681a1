import DotAttributes.Proofs.Document.Position
import Mathlib.Data.List.Basic

/-!
# The context of an attribute

The color scheme and the shape that a check asks for are found by looking around the statement
(`lookups_eq_nearest`): in the attributes that are written with the one in question, then in the
statements in front, going back to the beginning of the body, then in front of the graph the
body belongs to, and so on outwards to the root of the document. The first statement that has
an attribute of the name decides.

The walk keeps all defaults it has met in lists instead. What it finds in the lists is the same
(`value?_scope`), because a list of defaults is made of what the statements around set
(`defaultsFor_after`), and its last entry stands in the nearest of them.
-/

namespace DotAttributes

/-! ## Looking around -/

/-- The blocks that set defaults for elements of a kind. -/
def ElementKind.target : ElementKind → DefaultTarget
  | .node => .node
  | .edge => .edge
  | .graph | .subgraph | .cluster => .graph

/-- What a statement sets for the elements of a kind behind it: a block for them all its
attributes, an assignment its attribute for graphs, and an element nothing. -/
def Statement.bindings (kind : ElementKind) : Statement → AttributeList
  | .element _ => []
  | .defaults block => if block.target = kind.target then block.attributes else []
  | .assign a => if kind.isGraphLike then [a] else []

/-- The bodies around a hole up to the root of its document, innermost first: of each, the
statements in front of the hole. -/
def Hole.around : Hole → List (List Statement)
  | inner outer before _ _ => before :: outer.around
  | root .. | nested .. => []

/-- The last value of a name in the nearest statement that has one, where `bodies` lists the
statements in front, innermost body first. -/
def nearest? (kind : ElementKind) (name : String) (bodies : List (List Statement)) :
    Option String :=
  (bodies.flatMap List.reverse).findSome? fun statement =>
    AttributeList.value? (statement.bindings kind) name

namespace Position

/-- What an attribute with the given ones around it finds under a name: the last of these, or
else the nearest default of a kind. -/
def value? (p : Position) (own : AttributeList) (kind : ElementKind) (name : String) :
    Option String :=
  (AttributeList.value? own name).or (nearest? kind name (p.before :: p.hole.around))

end Position

/-- An attribute as it is checked: the kind of element it is for, the attributes written with
it, the color scheme of its colors and the shape of its node. -/
structure Lookup where
  kind : ElementKind
  own : AttributeList
  attr : Attribute
  colorScheme : String
  shape : String

/-- What the walk looks up for the attributes it visits. -/
def Visit.lookup? : Visit → Option Lookup
  | .attr site a => some ⟨site.kind, site.own, a, site.colorScheme, site.shape⟩
  | .operator .. => none

namespace Position

/-- What is found around an attribute of the statement. -/
def lookup (p : Position) (kind : ElementKind) (own : AttributeList) (a : Attribute) : Lookup where
  kind := kind
  own := own
  attr := a
  colorScheme := (p.value? own kind "colorscheme").getD "x11"
  shape := (p.value? own .node "shape").getD "ellipse"

/-- What is found around the attributes of the statement. An assignment belongs to all
assignments of its body, any other attribute to the list it is written in. -/
def lookups (p : Position) : List Lookup :=
  match p.statement with
  | .assign a => [p.lookup p.hole.kind (assignments p.body) a]
  | .defaults block =>
    block.attributes.map (p.lookup (block.target.kindIn p.hole.kind) block.attributes)
  | .element element =>
    if element.kind.isGraphLike then []
    else element.attributes.map (p.lookup element.kind element.attributes)

end Position

/-! ## Lists of defaults -/

/-- Of two lists, the second one counts where it has the name. -/
theorem value?_append (attrs attrs' : AttributeList) (name : String) :
    AttributeList.value? (attrs ++ attrs') name =
      (AttributeList.value? attrs' name).or (AttributeList.value? attrs name) := by
  simp only [AttributeList.value?, AttributeList.get?, List.reverse_append, List.find?_append,
    Option.map_or]

/-- The last value in the bindings of statements is in the last statement that has one. -/
theorem value?_flatMap_bindings (kind : ElementKind) (name : String) (statements : List Statement) :
    AttributeList.value? (statements.flatMap (Statement.bindings kind)) name =
      statements.reverse.findSome? fun statement =>
        AttributeList.value? (statement.bindings kind) name := by
  induction statements with
  | nil => rfl
  | cons statement rest ih =>
    rw [List.flatMap_cons, value?_append, ih, List.reverse_cons, List.findSome?_append,
      List.findSome?_singleton]

theorem defaultsFor_step (kind : ElementKind) (scope : Scope) (statement : Statement) :
    (scope.step statement).defaultsFor kind =
      scope.defaultsFor kind ++ statement.bindings kind := by
  cases statement with
  | element element => exact (List.append_nil _).symm
  | defaults block =>
    obtain ⟨target, attributes⟩ := block
    cases target <;> cases kind <;>
      simp [Scope.step, Scope.apply, Scope.defaultsFor, Statement.bindings, ElementKind.target]
  | assign a =>
    cases kind <;> simp [Scope.step, Scope.assign, Scope.defaultsFor, Statement.bindings,
      ElementKind.isGraphLike]

/-- Statements add to the defaults what they set. -/
theorem defaultsFor_after (kind : ElementKind) (scope : Scope) (statements : List Statement) :
    (scope.after statements).defaultsFor kind =
      scope.defaultsFor kind ++ statements.flatMap (Statement.bindings kind) := by
  induction statements generalizing scope with
  | nil => exact (List.append_nil _).symm
  | cons statement rest ih =>
    rw [Scope.after_cons, ih, defaultsFor_step, List.flatMap_cons, List.append_assoc]

/-- What the lists say after statements is what the nearest statement says, or else what they
said before. -/
theorem value?_after (kind : ElementKind) (name : String) (scope : Scope)
    (statements : List Statement) :
    AttributeList.value? ((scope.after statements).defaultsFor kind) name =
      (nearest? kind name [statements]).or
        (AttributeList.value? (scope.defaultsFor kind) name) := by
  rw [defaultsFor_after, value?_append, value?_flatMap_bindings]
  simp [nearest?]

theorem nearest?_cons (kind : ElementKind) (name : String) (body : List Statement)
    (bodies : List (List Statement)) :
    nearest? kind name (body :: bodies) =
      (nearest? kind name [body]).or (nearest? kind name bodies) := by
  simp [nearest?, List.findSome?_append]

/-- The lists with which a body starts say what is found around it. -/
theorem Hole.value?_scope (kind : ElementKind) (name : String) (hole : Hole) :
    AttributeList.value? (hole.scope.defaultsFor kind) name = nearest? kind name hole.around := by
  induction hole with
  | root => cases kind <;> rfl
  | inner outer before graph after ih =>
    rw [Hole.scope, value?_after, ih, Hole.around, ← nearest?_cons]
  | nested => cases kind <;> rfl

/-- The lists at a statement say what is found around it. -/
theorem Position.value?_scope (p : Position) (kind : ElementKind) (name : String) :
    AttributeList.value? (p.scope.defaultsFor kind) name =
      nearest? kind name (p.before :: p.hole.around) := by
  rw [Position.scope, value?_after, Hole.value?_scope, ← nearest?_cons]

/-! ## Visits -/

namespace Position

theorem lookup?_visit (p : Position) (kind : ElementKind) (own : AttributeList) (a : Attribute) :
    (Visit.attr ⟨kind, own, p.scope⟩ a).lookup? = some (p.lookup kind own a) := by
  simp only [Visit.lookup?, lookup, value?, Site.colorScheme, Site.shape, Site.lookup?,
    p.value?_scope]
  rfl

theorem filterMap_lookup?_siteVisits (p : Position) (kind : ElementKind) (own : AttributeList) :
    (Site.visits ⟨kind, own, p.scope⟩).filterMap Visit.lookup? = own.map (p.lookup kind own) := by
  rw [Site.visits, List.filterMap_map, ← List.filterMap_eq_map]
  exact List.filterMap_congr fun a _ => p.lookup?_visit kind own a

/-- What is looked up for a statement is what is found around it. -/
theorem filterMap_lookup?_visits (p : Position) : p.visits.filterMap Visit.lookup? = p.lookups := by
  obtain ⟨hole, before, statement, after⟩ := p
  cases statement with
  | assign a =>
    let p : Position := ⟨hole, before, .assign a, after⟩
    have ha := p.lookup?_visit hole.kind (assignments p.body) a
    exact List.filterMap_cons_some ha
  | defaults block =>
    exact filterMap_lookup?_siteVisits ⟨hole, before, .defaults block, after⟩ _ _
  | element element =>
    let p : Position := ⟨hole, before, .element element, after⟩
    have hsite := p.filterMap_lookup?_siteVisits element.kind element.attributes
    have hoperators : (element.operators.map (.operator hole.directed)).filterMap Visit.lookup? =
        [] := by
      simp [List.filterMap_map, Visit.lookup?, Function.comp_def]
    simp only [visits, lookups, Element.ownVisits]
    cases hkind : element.kind with
    | node =>
      rw [hkind] at hsite
      exact hsite
    | edge =>
      rw [hkind] at hsite
      rw [List.filterMap_append, hoperators]
      exact hsite
    | graph | subgraph | cluster => rfl

end Position

/-- **Nearest bindings.** The attributes that are visited are those of the positions of the
document, in order, each with the color scheme and the shape that are found around it. -/
theorem lookups_eq_nearest (document : Document) :
    (∀ p ∈ document.positions, p.hole.IsWalked ∧ p.document = document) ∧
      document.visits.filterMap Visit.lookup? = document.positions.flatMap Position.lookups := by
  refine ⟨Document.mem_positions, ?_⟩
  rw [Document.visits_eq_flatMap, List.filterMap_flatMap]
  exact List.flatMap_congr fun p _ => p.filterMap_lookup?_visits

-- a default set in a subgraph hides the one set in front of it, and ends with the subgraph
example :
    let label := Attribute.writtenAt 0 .bare "label" ""
    let shape (value : String) : Statement :=
      .defaults ⟨.node, [.writtenAt 0 .bare "shape" value]⟩
    let node : Statement := .element { Element.node "a" with attributes := [label] }
    let inner : Statement :=
      .element { Element.subgraph none with body := [node, shape "record", node] }
    let document : Document :=
      ⟨false, false, { Element.graph with body := [shape "box", inner, node] }⟩
    (document.visits.filterMap Visit.lookup?).map Lookup.shape =
      ["box", "box", "record", "record", "box"] := by
  decide +kernel

end DotAttributes
