import DotAttributes.Document.Visit

/-!
# Bodies in documents

A `Hole` is a document without the body of one of its graphs, which may stand at any depth:
in the body of another graph or at the root of a document that belongs to a node. Filling a
hole gives a document back.

What the walk sees of a body is decided by the hole alone: whether it comes there at all
(`Hole.IsWalked`), in what sort of document and kind of graph it is then, and under which
defaults (`Hole.scope`). The visits of a body that is walked stand together in those of the
document, and the others do not depend on it (`visits_fill`). A body that is not walked has no
part in them (`visits_fill_of_not_isWalked`).
-/

namespace DotAttributes

/-! ## Defaults after statements -/

namespace Scope

/-- The defaults behind a statement. -/
def step (scope : Scope) : Statement → Scope
  | .element _ => scope
  | .defaults block => scope.apply block
  | .assign a => scope.assign a

/-- The defaults behind statements. -/
def after (scope : Scope) (statements : List Statement) : Scope := statements.foldl step scope

@[simp] theorem after_cons (scope : Scope) (statement : Statement) (rest : List Statement) :
    scope.after (statement :: rest) = (scope.step statement).after rest := rfl

@[simp] theorem after_append (scope : Scope) (before rest : List Statement) :
    scope.after (before ++ rest) = (scope.after before).after rest :=
  List.foldl_append

end Scope

/-! ## Bodies in pieces -/

@[simp] theorem assignments_append (before rest : List Statement) :
    assignments (before ++ rest) = assignments before ++ assignments rest := by
  induction before with
  | nil => rfl
  | cons statement before ih =>
    cases statement with
    | assign a => exact congrArg (a :: ·) ih
    | defaults block => exact ih
    | element element => exact ih

/-- The visits of one statement of a body. -/
def Statement.visits (directed : Bool) (kind : ElementKind) (assigned : AttributeList)
    (scope : Scope) : Statement → List Visit
  | .assign a => [.attr ⟨kind, assigned, scope⟩ a]
  | .defaults block => Site.visits ⟨block.target.kindIn kind, block.attributes, scope⟩
  | .element e => e.visits directed scope

section

variable {directed : Bool} {kind : ElementKind} {assigned : AttributeList}

theorem bodyVisits_cons (scope : Scope) (statement : Statement) (rest : List Statement) :
    bodyVisits directed kind assigned scope (statement :: rest) =
      statement.visits directed kind assigned scope ++
        bodyVisits directed kind assigned (scope.step statement) rest := by
  cases statement <;> rfl

theorem bodyVisits_singleton (scope : Scope) (statement : Statement) :
    bodyVisits directed kind assigned scope [statement] =
      statement.visits directed kind assigned scope := by
  rw [bodyVisits_cons]
  exact List.append_nil _

theorem bodyVisits_append (scope : Scope) (before rest : List Statement) :
    bodyVisits directed kind assigned scope (before ++ rest) =
      bodyVisits directed kind assigned scope before ++
        bodyVisits directed kind assigned (scope.after before) rest := by
  induction before generalizing scope with
  | nil => rfl
  | cons statement before ih =>
    rw [List.cons_append, bodyVisits_cons, bodyVisits_cons, ih, List.append_assoc]
    rfl

/-- The visits of one statement in its body. -/
theorem bodyVisits_append_cons (scope : Scope) (before rest : List Statement)
    (statement : Statement) :
    bodyVisits directed kind assigned scope (before ++ statement :: rest) =
      bodyVisits directed kind assigned scope before ++
        statement.visits directed kind assigned (scope.after before) ++
          bodyVisits directed kind assigned ((scope.after before).step statement) rest := by
  rw [bodyVisits_append, bodyVisits_cons, List.append_assoc]

end

/-! ## Elements -/

namespace Element

variable (element : Element) (directed : Bool) (scope : Scope)

/-- The visits of a graph in a body are those of its own body. -/
theorem visits_of_isGraphLike (h : element.kind.isGraphLike = true) :
    element.visits directed scope =
      bodyVisits directed element.kind (assignments element.body) scope element.body := by
  obtain ⟨kind, _, _, _, _, _, _⟩ := element
  cases kind with
  | graph => rfl
  | subgraph => rfl
  | cluster => rfl
  | node => cases h
  | edge => cases h

/-- The visits of a node are those of its attributes, then those of its document. -/
theorem visits_of_node (h : element.kind = .node) :
    element.visits directed scope = Site.visits ⟨.node, element.attributes, scope⟩ ++
      (element.nested.map Document.visits).getD [] := by
  obtain ⟨kind, _, _, _, _, nested, _⟩ := element
  cases h
  cases nested with
  | none => rfl
  | some document => rfl

/-- The visits of an edge are its operators, then those of its attributes. -/
theorem visits_of_edge (h : element.kind = .edge) :
    element.visits directed scope = element.operators.map (.operator directed) ++
      Site.visits ⟨.edge, element.attributes, scope⟩ := by
  obtain ⟨kind, _, _, _, _, _, _⟩ := element
  cases h
  rfl

/-- The body of an element that is no graph does not count. -/
theorem visits_body (h : element.kind.isGraphLike = false) (body : List Statement) :
    { element with body := body }.visits directed scope = element.visits directed scope := by
  obtain ⟨kind, name, attributes, old, operators, nested, span⟩ := element
  let changed : Element := ⟨kind, name, attributes, body, operators, nested, span⟩
  let element : Element := ⟨kind, name, attributes, old, operators, nested, span⟩
  have hcases : kind = .node ∨ kind = .edge := by
    cases kind <;> simp_all [ElementKind.isGraphLike]
  rcases hcases with hkind | hkind
  · exact (changed.visits_of_node directed scope hkind).trans
      (element.visits_of_node directed scope hkind).symm
  · exact (changed.visits_of_edge directed scope hkind).trans
      (element.visits_of_edge directed scope hkind).symm

/-- The document of an element that is no node does not count. -/
theorem visits_nested (h : element.kind ≠ .node) (nested : Option Document) :
    { element with nested := nested }.visits directed scope = element.visits directed scope := by
  obtain ⟨kind, name, attributes, body, operators, old, span⟩ := element
  let changed : Element := ⟨kind, name, attributes, body, operators, nested, span⟩
  let element : Element := ⟨kind, name, attributes, body, operators, old, span⟩
  have hcases : kind.isGraphLike = true ∨ kind = .edge := by
    cases kind <;> simp_all [ElementKind.isGraphLike]
  rcases hcases with hkind | hkind
  · exact (changed.visits_of_isGraphLike directed scope hkind).trans
      (element.visits_of_isGraphLike directed scope hkind).symm
  · exact (changed.visits_of_edge directed scope hkind).trans
      (element.visits_of_edge directed scope hkind).symm

end Element

theorem Document.visits_mk (directed strict : Bool) (root : Element) :
    Document.visits ⟨directed, strict, root⟩ =
      bodyVisits directed root.kind (assignments root.body) .empty root.body := by
  obtain ⟨_, _, _, _, _, _, _⟩ := root
  rfl

/-! ## Holes -/

/-- A document without the body of one graph in it. -/
inductive Hole
  /-- the graph is the root of the document -/
  | root (directed strict : Bool) (graph : Element)
  /-- the graph stands in a body, between other statements -/
  | inner (outer : Hole) (before : List Statement) (graph : Element) (after : List Statement)
  /-- the graph is the root of the document of a node, which stands in a body -/
  | nested (outer : Hole) (before : List Statement) (node : Element) (directed strict : Bool)
      (graph : Element) (after : List Statement)

namespace Hole

/-- The document with a body in the hole. -/
def fill : Hole → List Statement → Document
  | root directed strict graph, body => ⟨directed, strict, { graph with body := body }⟩
  | inner outer before graph after, body =>
    outer.fill (before ++ .element { graph with body := body } :: after)
  | nested outer before node directed strict graph after, body =>
    let document : Document := ⟨directed, strict, { graph with body := body }⟩
    outer.fill (before ++ .element { node with nested := some document } :: after)

/-- The walk comes to the hole: the graphs around it are graphs, and the documents around it
belong to nodes. -/
def IsWalked : Hole → Prop
  | root .. => True
  | inner outer _ graph _ => outer.IsWalked ∧ graph.kind.isGraphLike = true
  | nested outer _ node _ _ _ _ => outer.IsWalked ∧ node.kind = .node

/-- Whether the innermost document around the hole is directed. -/
def directed : Hole → Bool
  | root directed _ _ => directed
  | inner outer _ _ _ => outer.directed
  | nested _ _ _ directed _ _ _ => directed

/-- The kind of the graph whose body is missing. -/
def kind : Hole → ElementKind
  | root _ _ graph | inner _ _ graph _ | nested _ _ _ _ _ graph _ => graph.kind

/-- The defaults with which the body starts. -/
def scope : Hole → Scope
  | inner outer before _ _ => outer.scope.after before
  | root .. | nested .. => .empty

/-- The visits of a body in the hole. -/
def visits (hole : Hole) (body : List Statement) : List Visit :=
  bodyVisits hole.directed hole.kind (assignments body) hole.scope body

/-- What stands around the visits of an element in a body does not depend on the element. -/
theorem visits_element (hole : Hole) (before after : List Statement) :
    ∃ first last, ∀ element : Element, hole.visits (before ++ .element element :: after) =
      first ++ element.visits hole.directed (hole.scope.after before) ++ last := by
  let assigned := assignments before ++ assignments after
  refine ⟨bodyVisits hole.directed hole.kind assigned hole.scope before,
    bodyVisits hole.directed hole.kind assigned (hole.scope.after before) after, fun element => ?_⟩
  rw [visits, bodyVisits_append_cons, assignments_append]
  rfl

/-- **Bodies in documents.** The visits of a body that is walked are a part of those of the
document, and what stands around them does not depend on the body. -/
theorem visits_fill {hole : Hole} (h : hole.IsWalked) :
    ∃ first last, ∀ body, (hole.fill body).visits = first ++ hole.visits body ++ last := by
  induction hole with
  | root directed strict graph =>
    refine ⟨[], [], fun body => ?_⟩
    rw [fill, Document.visits_mk, List.nil_append, List.append_nil]
    rfl
  | inner outer before graph after ih =>
    obtain ⟨houter, hgraph⟩ := h
    obtain ⟨first, last, hfill⟩ := ih houter
    obtain ⟨first', last', helement⟩ := outer.visits_element before after
    refine ⟨first ++ first', last' ++ last, fun body => ?_⟩
    have hgraph : Element.visits outer.directed (outer.scope.after before)
        { graph with body := body } = (inner outer before graph after).visits body :=
      Element.visits_of_isGraphLike _ _ _ hgraph
    rw [fill, hfill, helement, hgraph]
    simp only [List.append_assoc]
  | nested outer before node directed strict graph after ih =>
    obtain ⟨houter, hnode⟩ := h
    obtain ⟨first, last, hfill⟩ := ih houter
    obtain ⟨first', last', helement⟩ := outer.visits_element before after
    let site : Site := ⟨.node, node.attributes, outer.scope.after before⟩
    refine ⟨first ++ first' ++ site.visits, last' ++ last, fun body => ?_⟩
    have hnode : Element.visits outer.directed (outer.scope.after before)
        { node with nested := some ⟨directed, strict, { graph with body := body }⟩ } =
          site.visits ++ (nested outer before node directed strict graph after).visits body := by
      refine (Element.visits_of_node { node with nested := _ } _ _ hnode).trans ?_
      have hdocument := Document.visits_mk directed strict { graph with body := body }
      exact congrArg (site.visits ++ ·) hdocument
    rw [fill, hfill, helement, hnode]
    simp only [List.append_assoc]

/-- A body that is not walked does not count. -/
theorem visits_fill_of_not_isWalked {hole : Hole} (h : ¬ hole.IsWalked)
    (body body' : List Statement) : (hole.fill body).visits = (hole.fill body').visits := by
  induction hole generalizing body body' with
  | root => exact absurd trivial h
  | inner outer before graph after ih =>
    -- the first element on the way in that is passed over hides everything inside it
    by_cases houter : outer.IsWalked
    · have hgraph : graph.kind.isGraphLike = false := by simpa [IsWalked, houter] using h
      obtain ⟨first, last, hfill⟩ := visits_fill houter
      obtain ⟨first', last', helement⟩ := outer.visits_element before after
      rw [fill, fill, hfill, hfill, helement, helement, Element.visits_body _ _ _ hgraph,
        Element.visits_body _ _ _ hgraph]
    · exact ih houter _ _
  | nested outer before node directed strict graph after ih =>
    by_cases houter : outer.IsWalked
    · have hnode : node.kind ≠ .node := fun hnode => h ⟨houter, hnode⟩
      obtain ⟨first, last, hfill⟩ := visits_fill houter
      obtain ⟨first', last', helement⟩ := outer.visits_element before after
      rw [fill, fill, hfill, hfill, helement, helement, Element.visits_nested _ _ _ hnode,
        Element.visits_nested _ _ _ hnode]
    · exact ih houter _ _

end Hole

end DotAttributes
