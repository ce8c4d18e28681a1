import DotAttributes.Proofs.Agreement
import DotAttributes.Proofs.Document.Map

/-!
# Moved documents

A document that is moved has all its attributes and operators some bytes further on: those of
elements of every kind, of blocks of defaults, of graphs, and of the documents that belong to
nodes (`Document.shift`). Names, values and everything else stay.

The walk goes through a moved document as it goes through the document. It visits the same
attributes and operators, moved, at sites whose attributes and defaults are moved
(`Document.visits_shift`). Such a site says the same about its colors and its node as before
(`Site.agrees_shift`), because a lookup asks for names and values only.
-/

namespace DotAttributes

/-! ## Moving -/

/-- Moves an attribute by `k` bytes to the right. -/
def Attribute.shift (k : Nat) (a : Attribute) : Attribute := { a with span := a.span.shift k }

/-- Moves an operator by `k` bytes to the right. -/
def EdgeOperator.shift (k : Nat) (op : EdgeOperator) : EdgeOperator :=
  { op with span := op.span.shift k }

/-- Moves all attributes of a list. -/
def AttributeList.shift (k : Nat) (attrs : AttributeList) : AttributeList :=
  attrs.map (Attribute.shift k)

/-- Moves the attributes of a block of defaults. -/
def DefaultBlock.shift (k : Nat) (block : DefaultBlock) : DefaultBlock :=
  { block with attributes := AttributeList.shift k block.attributes }

mutual

/-- Moves the attributes and operators of an element, and everything inside it. -/
def Element.shift (k : Nat) : Element → Element
  | ⟨kind, name, attributes, body, operators, nested, span⟩ =>
    ⟨kind, name, AttributeList.shift k attributes, shiftBody k body,
      operators.map (EdgeOperator.shift k),
      match nested with
      | some document => some (document.shift k)
      | none => none,
      span⟩

/-- Moves everything in a document. -/
def Document.shift (k : Nat) : Document → Document
  | ⟨directed, strict, root⟩ => ⟨directed, strict, root.shift k⟩

/-- Moves everything in a statement. -/
def Statement.shift (k : Nat) : Statement → Statement
  | .element element => .element (element.shift k)
  | .defaults block => .defaults (block.shift k)
  | .assign a => .assign (a.shift k)

/-- Moves everything in the statements of a body. -/
def shiftBody (k : Nat) : List Statement → List Statement
  | [] => []
  | statement :: rest => statement.shift k :: shiftBody k rest

end

/-- Moves the defaults of a scope. -/
def Scope.shift (k : Nat) (scope : Scope) : Scope :=
  ⟨AttributeList.shift k scope.graph, AttributeList.shift k scope.node,
    AttributeList.shift k scope.edge⟩

/-- Moves the attributes and the defaults of a site. -/
def Site.shift (k : Nat) (site : Site) : Site :=
  ⟨site.kind, AttributeList.shift k site.own, site.scope.shift k⟩

/-- Moves what is visited, and the site it is visited at. -/
def Visit.shift (k : Nat) : Visit → Visit
  | .attr site a => .attr (site.shift k) (a.shift k)
  | .operator directed op => .operator directed (op.shift k)

variable (k : Nat)

/-! ## Moved attributes -/

namespace Attribute

variable (a : Attribute)

@[simp] theorem shift_name : (a.shift k).name = a.name := rfl

@[simp] theorem shift_value : (a.shift k).value = a.value := rfl

@[simp] theorem shift_span : (a.shift k).span = a.span.shift k := rfl

@[simp] theorem chars_shift : (a.shift k).chars = a.chars := rfl

@[simp] theorem isMarkup_shift : (a.shift k).isMarkup = a.isMarkup := rfl

/-- The place of something in the value moves with the attribute. -/
theorem absolute_shift (s : Span) : (a.shift k).absolute s = (a.absolute s).shift k := by
  simp only [absolute, valueOffset, shift, Span.shift, Span.mk.injEq]
  omega

theorem valueSpan_shift : (a.shift k).valueSpan = a.valueSpan.shift k := by
  simp only [valueSpan, valueOffset, chars, shift, Span.shift, Span.ofSize, Span.mk.injEq]
  omega

end Attribute

/-! ## Moved sites -/

/-- Lookup asks for names and values only, so moving a list does not change it. -/
theorem value?_shift (attrs : AttributeList) (name : String) :
    AttributeList.value? (AttributeList.shift k attrs) name = AttributeList.value? attrs name := by
  have hmap : AttributeList.value? (attrs.map (Attribute.shift k)) name =
      (AttributeList.value? attrs name).map id :=
    value?_map (Attribute.shift_name k) (fun a _ => Attribute.shift_value k a) attrs
  exact hmap.trans (congrFun Option.map_id _)

theorem defaultsFor_shift (scope : Scope) (kind : ElementKind) :
    (scope.shift k).defaultsFor kind = AttributeList.shift k (scope.defaultsFor kind) :=
  defaultsFor_map (Attribute.shift k) scope kind

theorem agreesFor_shift (kind : ElementKind) (attrs : AttributeList) :
    AgreesFor kind (AttributeList.shift k attrs) attrs :=
  ⟨value?_shift k attrs _, fun _ => value?_shift k attrs _⟩

/-- A moved site says the same about its colors and its node. -/
theorem Site.agrees_shift (site : Site) : (site.shift k).Agrees site := by
  refine (agreesFor_shift k site.kind site.own).site ?_
  intro kind
  rw [defaultsFor_shift]
  exact agreesFor_shift k kind _

/-! ## Moved visits -/

-- By recursion on the tree of statements: on every level moving changes attributes and operators
-- only.
mutual

theorem Element.shift_eq_map : ∀ element : Element,
    element.shift k = element.map (Attribute.shift k) (EdgeOperator.shift k)
  | ⟨kind, name, attributes, body, operators, none, span⟩ => by
    rw [Element.shift, Element.map, shiftBody_eq_map body]
    rfl
  | ⟨kind, name, attributes, body, operators, some document, span⟩ => by
    rw [Element.shift, Element.map, shiftBody_eq_map body, Document.shift_eq_map document]
    rfl
termination_by structural element => element

theorem Document.shift_eq_map : ∀ document : Document,
    document.shift k = document.map (Attribute.shift k) (EdgeOperator.shift k)
  | ⟨directed, strict, root⟩ =>
    congrArg (Document.mk directed strict) (Element.shift_eq_map root)
termination_by structural document => document

theorem Statement.shift_eq_map : ∀ statement : Statement,
    statement.shift k = statement.map (Attribute.shift k) (EdgeOperator.shift k)
  | .element element => congrArg Statement.element (Element.shift_eq_map element)
  | .defaults _ => rfl
  | .assign _ => rfl
termination_by structural statement => statement

theorem shiftBody_eq_map : ∀ body : List Statement,
    shiftBody k body = mapBody (Attribute.shift k) (EdgeOperator.shift k) body
  | [] => rfl
  | statement :: rest =>
    congrArg₂ List.cons (Statement.shift_eq_map statement) (shiftBody_eq_map rest)
termination_by structural body => body

end

/-- **Moved documents.** The visits of a moved document are the visits of the document, moved. -/
theorem Document.visits_shift (document : Document) :
    (document.shift k).visits = document.visits.map (Visit.shift k) := by
  have hvisit : Visit.map (Attribute.shift k) (EdgeOperator.shift k) = Visit.shift k := by
    funext visit
    cases visit <;> rfl
  rw [Document.shift_eq_map, Document.visits_map, hvisit]

end DotAttributes
