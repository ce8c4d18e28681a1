import DotAttributes.Proofs.Document.Path
import DotAttributes.Proofs.WellFormed
import Mathlib.Data.List.Basic

/-!
# Operators of edges

The operators that do not fit are reported completely, and each one against the right graph
(`validate_operators`). Which graph that is and which edges count is read off the paths of the
document: `Document.statementAt?` gives for every path the statement there and the sort of the
innermost document around it, through graphs and through the documents of nodes.

The diagnostics of a document are those of its positions. What is reported at a position for an
operator is what is wrong with the operators of the edge there (`filter_reports_visits`), since
nothing that is found in an attribute has the code of edge operators.
-/

namespace DotAttributes

/-! ## Operators that do not fit -/

/-- The diagnostic of an operator in a document of the other sort. -/
def EdgeOperator.misfit (op : EdgeOperator) : Diagnostic :=
  let symbol := if op.directed then "->" else "--"
  let sort := if op.directed then "directed" else "undirected"
  { severity := .error
    message := s!"EdgeOp '{symbol}' may only be used in {sort} graphs."
    labels := [⟨.primary, op.span, s!"'{symbol}' requires a {sort} graph"⟩]
    help := none
    code := some "EDGE_OP_INVALID"
    attr := none }

/-- The operators of an edge that do not fit a document which is directed or not; any other
statement has none. -/
def Statement.misfits (directed : Bool) : Statement → List EdgeOperator
  | .element e => if e.kind = .edge then e.operators.filter (·.directed != directed) else []
  | .defaults _ | .assign _ => []

/-- The operators at a path that do not fit the innermost document around them. -/
def Document.misfitsAt (document : Document) (path : List Nat) : List EdgeOperator :=
  match document.statementAt? path with
  | some (directed, statement) => statement.misfits directed
  | none => []

theorem diagnostic_operator (op : EdgeOperator) : (Finding.operator op).diagnostic = op.misfit := by
  obtain ⟨directed, span⟩ := op
  cases directed <;> rfl

/-! ## Reports of operators -/

section

variable (config : Config)

/-- Nothing that is reported for an attribute has the code of edge operators. -/
theorem filter_report_attr (site : Site) (a : Attribute) :
    (config.report (.attr site a)).filter (Diagnostic.hasKind .edgeOperator) = [] := by
  rw [List.filter_eq_nil_iff]
  intro d hd hkind
  have hformed := isWellFormed_of_mem_report d hd
  have hnone : d.attr = none := hformed.operator.2 (beq_iff_eq.1 hkind)
  rw [hformed.attr] at hnone
  cases hnone

theorem filter_reports_siteVisits (site : Site) :
    (config.reports site.visits).filter (Diagnostic.hasKind .edgeOperator) = [] := by
  rw [Config.reports, List.filter_flatMap, Site.visits, List.flatMap_map, List.flatMap_eq_nil_iff]
  intro a _
  exact filter_report_attr config site a

variable {config}

theorem report_operator (h : config.edgeDirection = true) (directed : Bool) (op : EdgeOperator) :
    config.report (.operator directed op) =
      if op.directed != directed then [op.misfit] else [] := by
  rw [Config.report, Config.check, Config.checkOperator, h, Bool.true_and]
  split
  · rw [List.map_singleton, diagnostic_operator]
  · rfl

/-- The reports of operators are those of the operators that do not fit. -/
theorem filter_reports_operators (h : config.edgeDirection = true) (directed : Bool)
    (operators : List EdgeOperator) :
    (config.reports (operators.map (.operator directed))).filter
        (Diagnostic.hasKind .edgeOperator) =
      (operators.filter (·.directed != directed)).map EdgeOperator.misfit := by
  induction operators with
  | nil => rfl
  | cons op rest ih =>
    rw [List.map_cons, Config.reports, List.flatMap_cons, List.filter_append, ← Config.reports, ih,
      report_operator h, List.filter_cons]
    by_cases hop : (op.directed != directed) = true
    · rw [if_pos hop, if_pos hop]
      rfl
    · rw [if_neg hop, if_neg hop]
      rfl

/-- What is reported at a position for operators are those of the edge there that do not fit. -/
theorem filter_reports_visits (h : config.edgeDirection = true) (p : Position) :
    (config.reports p.visits).filter (Diagnostic.hasKind .edgeOperator) =
      (p.statement.misfits p.hole.directed).map EdgeOperator.misfit := by
  obtain ⟨hole, before, statement, after⟩ := p
  cases statement with
  | assign a =>
    simp only [Position.visits, Config.reports, List.flatMap_singleton, filter_report_attr]
    rfl
  | defaults block => exact filter_reports_siteVisits config _
  | element e =>
    obtain ⟨kind, name, attributes, body, operators, nested, span⟩ := e
    cases kind with
    | node => exact filter_reports_siteVisits config _
    | edge =>
      simp only [Position.visits, Element.ownVisits, reports_append, List.filter_append,
        filter_reports_operators h, filter_reports_siteVisits, List.append_nil]
      rfl
    | graph => rfl
    | subgraph => rfl
    | cluster => rfl

end

/-! ## Documents -/

theorem misfitsAt_path {document : Document} {p : Position} (hp : p ∈ document.positions) :
    document.misfitsAt p.path = p.statement.misfits p.hole.directed := by
  have hpath := Document.statementAt?_eq_some_iff.2 ⟨p, hp, rfl, rfl, rfl⟩
  rw [Document.misfitsAt, hpath]

/-- **Operators of edges.** When operators are checked, the diagnostics with the code of edge
operators are, in the order of paths and one for one, those of the operators of edges that do not
fit the innermost document around them. Every path to a statement is taken into account. -/
theorem validate_operators (config : Config) (h : config.edgeDirection = true)
    (document : Document) :
    ∃ paths : List (List Nat), paths.Pairwise (· < ·) ∧
      (∀ path, path ∈ paths ↔ (document.statementAt? path).isSome) ∧
      (config.validate document).diagnostics.filter (Diagnostic.hasKind .edgeOperator) =
        (paths.flatMap document.misfitsAt).map EdgeOperator.misfit := by
  refine ⟨document.positions.map Position.path, ?_, fun _ => Document.mem_map_path, ?_⟩
  · rw [List.pairwise_map]
    exact document.pairwise_path
  · rw [diagnostics_eq_reports, document.visits_eq_flatMap, Config.reports, List.flatMap_assoc,
      List.filter_flatMap, List.flatMap_map, List.map_flatMap]
    apply List.flatMap_congr
    intro p hp
    rw [misfitsAt_path hp]
    exact filter_reports_visits h p

/-- A digraph with a chain of two operators in a cluster. To a node behind it belongs a graph that
is not directed, in which a chain of the same two operators stands in a subgraph. -/
def mixedDocument : Document :=
  let chain (offset : Nat) :=
    Element.edge [.writtenAt offset true, .writtenAt (offset + 5) false]
  let cluster := { Element.subgraph (some "cluster") with body := [.element (chain 20)] }
  let subgraph := { Element.subgraph none with body := [.element (chain 60)] }
  let inner : Document := ⟨false, false, { Element.graph with body := [.element subgraph] }⟩
  let node := { Element.node "a" with nested := some inner }
  ⟨true, false, { Element.graph with body := [.element cluster, .element node] }⟩

theorem validate_operators_mixed : Config.full.edgeDirection = true ∧
    (validate mixedDocument).map Diagnostic.offset = [25, 60] ∧
    (mixedDocument.misfitsAt [0, 0]).map EdgeOperator.span = [⟨25, 27⟩] ∧
    (mixedDocument.misfitsAt [1, 0, 0]).map EdgeOperator.span = [⟨60, 62⟩] ∧
    ∃ paths : List (List Nat), paths.Pairwise (· < ·) ∧
      (∀ path, path ∈ paths ↔ (mixedDocument.statementAt? path).isSome) ∧
      (validate mixedDocument).filter (Diagnostic.hasKind .edgeOperator) =
        (paths.flatMap mixedDocument.misfitsAt).map EdgeOperator.misfit :=
  ⟨rfl, by decide +kernel, by decide +kernel, by decide +kernel,
    validate_operators Config.full rfl mixedDocument⟩

end DotAttributes
