import DotAttributes.Proofs.Document.Hole

/-!
# Positions of statements

A position is a statement together with everything around it: the hole that its body leaves in
the document, and the statements in front of it and behind it. `Document.positions` lists the
positions the walk comes to, in its order. Each of them is a position of that document
(`mem_positions`), and the visits of the document are those of its positions, one after the
other (`visits_eq_flatMap`).
-/

namespace DotAttributes

/-- A statement at its place in a document. -/
structure Position where
  hole : Hole
  before : List Statement
  statement : Statement
  after : List Statement

namespace Position

/-- The body in which the statement stands. -/
def body (p : Position) : List Statement := p.before ++ p.statement :: p.after

/-- The document in which the statement stands. -/
def document (p : Position) : Document := p.hole.fill p.body

/-- The defaults that hold for the statement. -/
def scope (p : Position) : Scope := p.hole.scope.after p.before

end Position

/-- The visits of an element itself, without those of anything inside it. -/
def Element.ownVisits (directed : Bool) (scope : Scope) (element : Element) : List Visit :=
  match element.kind with
  | .node => Site.visits ⟨.node, element.attributes, scope⟩
  | .edge =>
    element.operators.map (.operator directed) ++ Site.visits ⟨.edge, element.attributes, scope⟩
  | .graph | .subgraph | .cluster => []

/-- The visits of the statement itself, without those of anything inside it. -/
def Position.visits (p : Position) : List Visit :=
  match p.statement with
  | .assign a => [.attr ⟨p.hole.kind, assignments p.body, p.scope⟩ a]
  | .defaults block => Site.visits ⟨block.target.kindIn p.hole.kind, block.attributes, p.scope⟩
  | .element element => element.ownVisits p.hole.directed p.scope

/-! ## All positions -/

mutual

/-- The positions inside an element that stands in a body. -/
def Element.positions (hole : Hole) (before after : List Statement) : Element → List Position
  | ⟨.node, name, attributes, body, operators, nested, span⟩ =>
    match nested with
    | some document =>
      document.positionsIn fun directed strict graph =>
        .nested hole before ⟨.node, name, attributes, body, operators, nested, span⟩ directed strict
          graph after
    | none => []
  | ⟨.edge, _, _, _, _, _, _⟩ => []
  | ⟨kind, name, attributes, body, operators, nested, span⟩ =>
    bodyPositions (.inner hole before ⟨kind, name, attributes, body, operators, nested, span⟩ after)
      [] body
termination_by structural element => element

/-- The positions of a document, where `hole` is the hole that the body of its root leaves. -/
def Document.positionsIn (hole : Bool → Bool → Element → Hole) : Document → List Position
  | ⟨directed, strict, ⟨kind, name, attributes, body, operators, nested, span⟩⟩ =>
    bodyPositions
      (hole directed strict ⟨kind, name, attributes, body, operators, nested, span⟩) [] body
termination_by structural document => document

/-- The positions inside a statement. -/
def Statement.positions (hole : Hole) (before after : List Statement) : Statement → List Position
  | .element element => element.positions hole before after
  | .defaults _ | .assign _ => []
termination_by structural statement => statement

/-- The positions of the statements of a body behind `before`, and of those inside them. -/
def bodyPositions (hole : Hole) : List Statement → List Statement → List Position
  | _, [] => []
  | before, statement :: rest =>
    ⟨hole, before, statement, rest⟩ :: statement.positions hole before rest ++
      bodyPositions hole (before ++ [statement]) rest
termination_by structural _ rest => rest

end

/-- The positions of a document, in the order of the walk. -/
def Document.positions (document : Document) : List Position := document.positionsIn .root

/-! ## Positions and their documents -/

-- By recursion on the tree of statements: filling the hole with what has been passed and what
-- is still to come gives the document all the way down.
mutual

theorem Element.mem_positions {document : Document} (hole : Hole) (before after : List Statement) :
    ∀ element : Element, hole.IsWalked →
      hole.fill (before ++ .element element :: after) = document →
      ∀ p ∈ element.positions hole before after, p.hole.IsWalked ∧ p.document = document
  | ⟨.node, _, _, _, _, some nested, _⟩, hwalked, hfill => by
    refine Document.mem_positionsIn _ nested ⟨hwalked, rfl⟩ ?_
    obtain ⟨_, _, ⟨_, _, _, _, _, _, _⟩⟩ := nested
    exact hfill
  | ⟨.node, _, _, _, _, none, _⟩, _, _ => nofun
  | ⟨.edge, _, _, _, _, _, _⟩, _, _ => nofun
  | ⟨.graph, _, _, body, _, _, _⟩, hwalked, hfill =>
    mem_bodyPositions _ [] body ⟨hwalked, rfl⟩ hfill
  | ⟨.subgraph, _, _, body, _, _, _⟩, hwalked, hfill =>
    mem_bodyPositions _ [] body ⟨hwalked, rfl⟩ hfill
  | ⟨.cluster, _, _, body, _, _, _⟩, hwalked, hfill =>
    mem_bodyPositions _ [] body ⟨hwalked, rfl⟩ hfill
termination_by structural element => element

theorem Document.mem_positionsIn {whole : Document} (hole : Bool → Bool → Element → Hole) :
    ∀ document : Document, (hole document.directed document.strict document.root).IsWalked →
      (hole document.directed document.strict document.root).fill document.root.body = whole →
      ∀ p ∈ document.positionsIn hole, p.hole.IsWalked ∧ p.document = whole
  | ⟨_, _, ⟨_, _, _, body, _, _, _⟩⟩, hwalked, hfill => mem_bodyPositions _ [] body hwalked hfill
termination_by structural document => document

theorem Statement.mem_positions {document : Document} (hole : Hole)
    (before after : List Statement) :
    ∀ statement : Statement, hole.IsWalked → hole.fill (before ++ statement :: after) = document →
      ∀ p ∈ statement.positions hole before after, p.hole.IsWalked ∧ p.document = document
  | .element element, hwalked, hfill =>
    Element.mem_positions hole before after element hwalked hfill
  | .defaults _, _, _ => nofun
  | .assign _, _, _ => nofun
termination_by structural statement => statement

theorem mem_bodyPositions {document : Document} (hole : Hole) (before : List Statement) :
    ∀ rest : List Statement, hole.IsWalked → hole.fill (before ++ rest) = document →
      ∀ p ∈ bodyPositions hole before rest, p.hole.IsWalked ∧ p.document = document
  | [], _, _ => nofun
  | statement :: rest, hwalked, hfill => by
    intro p hp
    have hrest : hole.fill ((before ++ [statement]) ++ rest) = document := by
      rwa [List.append_assoc]
    rcases List.mem_append.1 hp with hp | hp
    · rcases List.mem_cons.1 hp with rfl | hp
      · exact ⟨hwalked, hfill⟩
      · exact Statement.mem_positions hole before rest statement hwalked hfill p hp
    · exact mem_bodyPositions hole _ rest hwalked hrest p hp
termination_by structural rest => rest

end

/-- The positions of a document are positions of that document, and the walk comes to them. -/
theorem Document.mem_positions {document : Document} :
    ∀ p ∈ document.positions, p.hole.IsWalked ∧ p.document = document := by
  refine Document.mem_positionsIn .root document trivial ?_
  obtain ⟨_, _, ⟨_, _, _, _, _, _, _⟩⟩ := document
  rfl

/-! ## Positions and visits -/

-- The same recursion. The defaults behind the statements that have been passed are those of the
-- walk, and the assignments of the body are those in front and those behind together.
mutual

theorem Element.visits_eq (hole : Hole) (before after : List Statement) :
    ∀ element : Element, element.visits hole.directed (hole.scope.after before) =
      element.ownVisits hole.directed (hole.scope.after before) ++
        (element.positions hole before after).flatMap Position.visits
  | ⟨.node, _, attributes, _, _, some nested, _⟩ =>
    congrArg (Site.visits ⟨.node, attributes, hole.scope.after before⟩ ++ ·)
      (Document.visits_eq_in _ (fun _ _ _ => ⟨rfl, rfl, rfl⟩) nested)
  | ⟨.node, _, _, _, _, none, _⟩ => rfl
  | ⟨.edge, _, _, _, _, _, _⟩ => (List.append_nil _).symm
  | ⟨.graph, name, attributes, body, operators, nested, span⟩ =>
    bodyVisits_eq
      (.inner hole before ⟨.graph, name, attributes, body, operators, nested, span⟩ after) [] body
  | ⟨.subgraph, name, attributes, body, operators, nested, span⟩ =>
    bodyVisits_eq
      (.inner hole before ⟨.subgraph, name, attributes, body, operators, nested, span⟩ after)
      [] body
  | ⟨.cluster, name, attributes, body, operators, nested, span⟩ =>
    bodyVisits_eq
      (.inner hole before ⟨.cluster, name, attributes, body, operators, nested, span⟩ after) [] body
termination_by structural element => element

theorem Document.visits_eq_in (hole : Bool → Bool → Element → Hole)
    (h : ∀ directed strict graph, (hole directed strict graph).directed = directed ∧
      (hole directed strict graph).kind = graph.kind ∧
      (hole directed strict graph).scope = .empty) :
    ∀ document : Document,
      document.visits = (document.positionsIn hole).flatMap Position.visits
  | ⟨directed, strict, ⟨kind, name, attributes, body, operators, nested, span⟩⟩ => by
    have hbody := bodyVisits_eq
      (hole directed strict ⟨kind, name, attributes, body, operators, nested, span⟩) [] body
    obtain ⟨hdirected, hkind, hscope⟩ :=
      h directed strict ⟨kind, name, attributes, body, operators, nested, span⟩
    rw [hdirected, hkind, hscope] at hbody
    exact hbody
termination_by structural document => document

theorem Statement.visits_eq (hole : Hole) (before after : List Statement) :
    ∀ statement : Statement,
      statement.visits hole.directed hole.kind (assignments (before ++ statement :: after))
          (hole.scope.after before) =
        Position.visits ⟨hole, before, statement, after⟩ ++
          (statement.positions hole before after).flatMap Position.visits
  | .element element => Element.visits_eq hole before after element
  | .defaults _ => (List.append_nil _).symm
  | .assign _ => rfl
termination_by structural statement => statement

theorem bodyVisits_eq (hole : Hole) (before : List Statement) :
    ∀ rest : List Statement,
      bodyVisits hole.directed hole.kind (assignments (before ++ rest)) (hole.scope.after before)
          rest =
        (bodyPositions hole before rest).flatMap Position.visits
  | [] => rfl
  | statement :: rest => by
    have hstatement := Statement.visits_eq hole before rest statement
    have hrest := bodyVisits_eq hole (before ++ [statement]) rest
    rw [List.append_assoc, Scope.after_append] at hrest
    rw [bodyVisits_cons, hstatement]
    rw [bodyPositions, List.flatMap_append, List.flatMap_cons, ← hrest]
    rfl
termination_by structural rest => rest

end

/-- **Positions.** The visits of a document are those of its positions, one after the other. -/
theorem Document.visits_eq_flatMap (document : Document) :
    document.visits = document.positions.flatMap Position.visits :=
  Document.visits_eq_in .root (fun _ _ _ => ⟨rfl, rfl, rfl⟩) document

end DotAttributes
