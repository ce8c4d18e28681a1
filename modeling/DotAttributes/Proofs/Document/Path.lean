import DotAttributes.Proofs.Document.Position

/-!
# Paths

A path leads to a statement of a document by indices: that of a statement in the body of the root,
then that of a statement in the body one comes to from there, and so on. The walk comes from a
graph into its body, from a node into the root of its document, and from anything else nowhere
(`Statement.inner?`). `Document.statementAt?` is the statement at a path, together with the sort of
the innermost document around it.

The positions of a document are in the order of their paths (`Document.pairwise_path`), and they
are complete: a path leads to a statement exactly if it is the path of a position at which that
statement stands (`Document.statementAt?_eq_some_iff`).
-/

namespace DotAttributes

/-! ## Statements at paths -/

/-- The body in which the walk goes on from a statement, and whether the innermost document around
that body is directed. -/
def Statement.inner? (directed : Bool) : Statement → Option (Bool × List Statement)
  | .element e =>
    match e.kind with
    | .graph | .subgraph | .cluster => some (directed, e.body)
    | .node => e.nested.map fun document => (document.directed, document.root.body)
    | .edge => none
  | .defaults _ | .assign _ => none

/-- The statement at a path that starts in a body, and whether the innermost document around it is
directed; `directed` says so of the body. -/
def statementAt? : Bool → List Statement → List Nat → Option (Bool × Statement)
  | _, _, [] => none
  | directed, body, [i] => body[i]?.map fun statement => (directed, statement)
  | directed, body, i :: j :: path =>
    body[i]?.bind fun statement =>
      (statement.inner? directed).bind fun inside => statementAt? inside.1 inside.2 (j :: path)

/-- The statement at a path of a document, and whether the innermost document around it is
directed. -/
def Document.statementAt? (document : Document) (path : List Nat) : Option (Bool × Statement) :=
  DotAttributes.statementAt? document.directed document.root.body path

/-! ## Paths of positions -/

/-- The path to the graph whose body is missing. -/
def Hole.path : Hole → List Nat
  | root .. => []
  | inner outer before _ _ | nested outer before _ _ _ _ _ => outer.path ++ [before.length]

/-- The path of the statement. -/
def Position.path (p : Position) : List Nat := p.hole.path ++ [p.before.length]

/-! ## Order -/

/-- The positions are in the order of their paths, all of which lead from `path` through a
statement that does not stand in front of the index `n`. -/
structure IsOrdered (path : List Nat) (n : Nat) (positions : List Position) : Prop where
  path_of_mem : ∀ p ∈ positions, ∃ i rest, n ≤ i ∧ p.path = path ++ i :: rest
  pairwise : positions.Pairwise fun p q => p.path < q.path

theorem isOrdered_nil (path : List Nat) (n : Nat) : IsOrdered path n [] := ⟨nofun, .nil⟩

/-- The position of a statement comes before those inside the statement, and these come before
those of the statements behind it. -/
theorem IsOrdered.cons {path : List Nat} {n : Nat} {p : Position} {inside behind : List Position}
    (hp : p.path = path ++ [n]) (hinside : IsOrdered (path ++ [n]) 0 inside)
    (hbehind : IsOrdered path (n + 1) behind) : IsOrdered path n (p :: inside ++ behind) := by
  have hinside_path : ∀ q ∈ inside, ∃ i rest, q.path = path ++ n :: i :: rest := by
    intro q hq
    obtain ⟨i, rest, -, hpath⟩ := hinside.path_of_mem q hq
    exact ⟨i, rest, by rw [hpath, List.append_assoc]; rfl⟩
  constructor
  · intro q hq
    rcases List.mem_append.1 hq with hq | hq
    · rcases List.mem_cons.1 hq with rfl | hq
      · exact ⟨n, [], Nat.le_refl n, hp⟩
      · obtain ⟨i, rest, hpath⟩ := hinside_path q hq
        exact ⟨n, i :: rest, Nat.le_refl n, hpath⟩
    · obtain ⟨i, rest, hle, hpath⟩ := hbehind.path_of_mem q hq
      exact ⟨i, rest, by omega, hpath⟩
  · refine List.pairwise_append.2 ⟨.cons ?_ hinside.pairwise, hbehind.pairwise, ?_⟩
    · intro q hq
      obtain ⟨i, rest, hpath⟩ := hinside_path q hq
      rw [hp, hpath]
      exact List.append_left_lt (List.cons_lt_cons_self.2 (List.nil_lt_cons i rest))
    · intro q hq r hr
      obtain ⟨i, rest, hle, hr⟩ := hbehind.path_of_mem r hr
      have hq : ∃ tail, q.path = path ++ n :: tail := by
        rcases List.mem_cons.1 hq with rfl | hq
        · exact ⟨[], hp⟩
        · obtain ⟨j, tail, hq⟩ := hinside_path q hq
          exact ⟨j :: tail, hq⟩
      obtain ⟨tail, hq⟩ := hq
      rw [hq, hr]
      exact List.append_left_lt (List.cons_lt_cons_iff.2 (Or.inl hle))

-- By recursion on the tree of statements, as the positions themselves.
mutual

theorem Element.isOrdered_positions (hole : Hole) (before after : List Statement) :
    ∀ element : Element,
      IsOrdered (hole.path ++ [before.length]) 0 (element.positions hole before after)
  | ⟨.node, _, _, _, _, some nested, _⟩ => by
    refine Document.isOrdered_positionsIn _ _ ?_ nested
    intro directed strict graph
    rfl
  | ⟨.node, _, _, _, _, none, _⟩ => isOrdered_nil _ _
  | ⟨.edge, _, _, _, _, _, _⟩ => isOrdered_nil _ _
  | ⟨.graph, name, attributes, body, operators, nested, span⟩ =>
    isOrdered_bodyPositions
      (.inner hole before ⟨.graph, name, attributes, body, operators, nested, span⟩ after) [] body
  | ⟨.subgraph, name, attributes, body, operators, nested, span⟩ =>
    isOrdered_bodyPositions
      (.inner hole before ⟨.subgraph, name, attributes, body, operators, nested, span⟩ after)
      [] body
  | ⟨.cluster, name, attributes, body, operators, nested, span⟩ =>
    isOrdered_bodyPositions
      (.inner hole before ⟨.cluster, name, attributes, body, operators, nested, span⟩ after) [] body
termination_by structural element => element

theorem Document.isOrdered_positionsIn (hole : Bool → Bool → Element → Hole) (path : List Nat)
    (h : ∀ directed strict graph, (hole directed strict graph).path = path) :
    ∀ document : Document, IsOrdered path 0 (document.positionsIn hole)
  | ⟨directed, strict, ⟨kind, name, attributes, body, operators, nested, span⟩⟩ => by
    rw [← h directed strict ⟨kind, name, attributes, body, operators, nested, span⟩]
    exact isOrdered_bodyPositions _ [] body
termination_by structural document => document

theorem Statement.isOrdered_positions (hole : Hole) (before after : List Statement) :
    ∀ statement : Statement,
      IsOrdered (hole.path ++ [before.length]) 0 (statement.positions hole before after)
  | .element element => Element.isOrdered_positions hole before after element
  | .defaults _ => isOrdered_nil _ _
  | .assign _ => isOrdered_nil _ _
termination_by structural statement => statement

theorem isOrdered_bodyPositions (hole : Hole) (before : List Statement) :
    ∀ rest : List Statement, IsOrdered hole.path before.length (bodyPositions hole before rest)
  | [] => isOrdered_nil _ _
  | statement :: rest => by
    have hbehind := isOrdered_bodyPositions hole (before ++ [statement]) rest
    rw [List.length_append] at hbehind
    exact .cons rfl (Statement.isOrdered_positions hole before rest statement) hbehind
termination_by structural rest => rest

end

/-- The positions of a document are in the order of their paths. -/
theorem Document.pairwise_path (document : Document) :
    document.positions.Pairwise fun p q => p.path < q.path :=
  (Document.isOrdered_positionsIn .root [] (fun _ _ _ => rfl) document).pairwise

/-! ## Completeness -/

/-- Behind the statement at its first index, a path goes on where the walk does. -/
theorem statementAt?_cons {path : List Nat} (hpath : path ≠ []) (directed : Bool)
    (before after : List Statement) (statement : Statement) :
    statementAt? directed (before ++ statement :: after) (before.length :: path) =
      (statement.inner? directed).bind fun inside => statementAt? inside.1 inside.2 path := by
  cases path with
  | nil => exact absurd rfl hpath
  | cons j path =>
    have hhere : (before ++ statement :: after)[before.length]? = some statement := by simp
    rw [statementAt?, hhere, Option.bind_some]

theorem inner?_of_isGraphLike (element : Element) (h : element.kind.isGraphLike = true)
    (directed : Bool) :
    (Statement.element element).inner? directed = some (directed, element.body) := by
  obtain ⟨kind, _, _, _, _, _, _⟩ := element
  cases kind with
  | graph => rfl
  | subgraph => rfl
  | cluster => rfl
  | node => cases h
  | edge => cases h

theorem inner?_of_node (element : Element) (h : element.kind = .node) (directed : Bool) :
    (Statement.element element).inner? directed =
      element.nested.map fun document => (document.directed, document.root.body) := by
  simp only [Statement.inner?, h]

/-- A path into a hole that is walked goes on in the body there. -/
theorem Hole.statementAt?_fill {hole : Hole} (hwalked : hole.IsWalked) (body : List Statement)
    {path : List Nat} (hpath : path ≠ []) :
    (hole.fill body).statementAt? (hole.path ++ path) = statementAt? hole.directed body path := by
  induction hole generalizing body path with
  | root directed strict graph => rfl
  | inner outer before graph after ih =>
    obtain ⟨houter, hgraph⟩ := hwalked
    let filled : Element := { graph with body := body }
    have hinner : (Statement.element filled).inner? outer.directed = some (outer.directed, body) :=
      inner?_of_isGraphLike filled hgraph outer.directed
    rw [Hole.fill, Hole.path, List.append_assoc, List.singleton_append,
      ih houter _ (List.cons_ne_nil _ _), statementAt?_cons hpath, hinner]
    rfl
  | nested outer before node directed strict graph after ih =>
    obtain ⟨houter, hnode⟩ := hwalked
    let filled : Element :=
      { node with nested := some ⟨directed, strict, { graph with body := body }⟩ }
    have hinner : (Statement.element filled).inner? outer.directed = some (directed, body) :=
      inner?_of_node filled hnode outer.directed
    rw [Hole.fill, Hole.path, List.append_assoc, List.singleton_append,
      ih houter _ (List.cons_ne_nil _ _), statementAt?_cons hpath, hinner]
    rfl

/-- The path of a position leads to the statement there. -/
theorem Position.statementAt?_path {p : Position} (hwalked : p.hole.IsWalked) :
    p.document.statementAt? p.path = some (p.hole.directed, p.statement) := by
  have hhere : p.body[p.before.length]? = some p.statement := by simp [Position.body]
  rw [Position.document, Position.path, Hole.statementAt?_fill hwalked _ (List.cons_ne_nil _ _),
    DotAttributes.statementAt?, hhere]
  rfl

/-- The positions inside a statement are those of the body in which the walk goes on. -/
theorem Statement.exists_positions_eq {hole : Hole} {statement : Statement} {directed : Bool}
    {body : List Statement} (h : statement.inner? hole.directed = some (directed, body))
    (before after : List Statement) :
    ∃ inside : Hole, inside.directed = directed ∧ inside.path = hole.path ++ [before.length] ∧
      statement.positions hole before after = bodyPositions inside [] body := by
  cases statement with
  | assign a => cases h
  | defaults block => cases h
  | element element =>
    obtain ⟨kind, name, attributes, own, operators, nested, span⟩ := element
    cases kind with
    | edge => cases h
    | node =>
      cases nested with
      | none => cases h
      | some document =>
        obtain ⟨sort, strict, ⟨_, _, _, _, _, _, _⟩⟩ := document
        cases h
        exact ⟨.nested hole before _ _ strict _ after, rfl, rfl, rfl⟩
    | graph =>
      cases h
      exact ⟨.inner hole before _ after, rfl, rfl, rfl⟩
    | subgraph =>
      cases h
      exact ⟨.inner hole before _ after, rfl, rfl, rfl⟩
    | cluster =>
      cases h
      exact ⟨.inner hole before _ after, rfl, rfl, rfl⟩

/-- Every statement of a body has its position, and the positions inside it are there as well. -/
theorem exists_mem_bodyPositions {rest : List Statement} {i : Nat} {statement : Statement}
    (h : rest[i]? = some statement) (hole : Hole) (before : List Statement) :
    ∃ front after, front.length = before.length + i ∧
      ⟨hole, front, statement, after⟩ ∈ bodyPositions hole before rest ∧
      statement.positions hole front after ⊆ bodyPositions hole before rest := by
  induction rest generalizing i before with
  | nil => cases h
  | cons first rest ih =>
    cases i with
    | zero =>
      cases h
      refine ⟨before, rest, rfl, List.mem_cons_self, ?_⟩
      intro p hp
      exact List.mem_cons_of_mem _ (List.mem_append_left _ hp)
    | succ i =>
      obtain ⟨front, after, hlength, hmem, hinside⟩ := ih h (before ++ [first])
      refine ⟨front, after, ?_, List.mem_append_right _ hmem, ?_⟩
      · rw [hlength, List.length_append, List.length_singleton]
        omega
      · intro p hp
        exact List.mem_append_right _ (hinside hp)

/-- Every path to a statement is that of a position. -/
theorem exists_position_of_statementAt? (hole : Hole) {body : List Statement} {path : List Nat}
    {directed : Bool} {statement : Statement}
    (h : statementAt? hole.directed body path = some (directed, statement)) :
    ∃ p ∈ bodyPositions hole [] body, p.path = hole.path ++ path ∧
      p.statement = statement ∧ p.hole.directed = directed := by
  induction path generalizing hole body with
  | nil => cases h
  | cons i path ih =>
    cases path with
    | nil =>
      obtain ⟨found, hfound, heq⟩ := Option.map_eq_some_iff.1 h
      cases heq
      obtain ⟨front, after, hlength, hmem, -⟩ := exists_mem_bodyPositions hfound hole []
      have hlength : front.length = i := by simpa using hlength
      exact ⟨_, hmem, by rw [Position.path, hlength], rfl, rfl⟩
    | cons j path =>
      -- the path goes on inside the statement at its first index
      obtain ⟨found, hfound, h⟩ := Option.bind_eq_some_iff.1 h
      obtain ⟨⟨sort, inner⟩, hinner, h⟩ := Option.bind_eq_some_iff.1 h
      obtain ⟨front, after, hlength, -, hsub⟩ := exists_mem_bodyPositions hfound hole []
      have hlength : front.length = i := by simpa using hlength
      obtain ⟨inside, rfl, hpath, hpositions⟩ := Statement.exists_positions_eq hinner front after
      obtain ⟨p, hp, hp_path, hstatement, hdirected⟩ := ih inside h
      rw [← hpositions] at hp
      refine ⟨p, hsub hp, ?_, hstatement, hdirected⟩
      rw [hp_path, hpath, hlength, List.append_assoc]
      rfl

/-- **Paths.** A statement is at a path exactly if the walk comes to a position with that path, in a
document of the same sort, at which the statement stands. -/
theorem Document.statementAt?_eq_some_iff {document : Document} {path : List Nat} {directed : Bool}
    {statement : Statement} : document.statementAt? path = some (directed, statement) ↔
      ∃ p ∈ document.positions, p.path = path ∧ p.statement = statement ∧
        p.hole.directed = directed := by
  constructor
  · intro h
    obtain ⟨sort, strict, ⟨kind, name, attributes, body, operators, nested, span⟩⟩ := document
    exact exists_position_of_statementAt? (.root sort strict _) h
  · rintro ⟨p, hp, rfl, rfl, rfl⟩
    obtain ⟨hwalked, hdocument⟩ := Document.mem_positions p hp
    rw [← hdocument]
    exact Position.statementAt?_path hwalked

/-- The paths of positions are those at which there is a statement. -/
theorem Document.mem_map_path {document : Document} {path : List Nat} :
    path ∈ document.positions.map Position.path ↔ (document.statementAt? path).isSome := by
  rw [List.mem_map, Option.isSome_iff_exists]
  constructor
  · rintro ⟨p, hp, hpath⟩
    exact ⟨_, Document.statementAt?_eq_some_iff.2 ⟨p, hp, hpath, rfl, rfl⟩⟩
  · rintro ⟨⟨directed, statement⟩, h⟩
    obtain ⟨p, hp, hpath, -⟩ := Document.statementAt?_eq_some_iff.1 h
    exact ⟨p, hp, hpath⟩

end DotAttributes
