import DotAttributes.Document.Attribute

/-!
# Documents

A document is a graph. Its body is a list of statements: attributes of the graph, blocks of
defaults, and elements, which are nodes, edges and graphs inside the graph. A node may own a
document of its own.
-/

namespace DotAttributes

/-- The kinds of elements. -/
inductive ElementKind
  /-- the graph at the top -/
  | graph
  /-- a subgraph that is no cluster -/
  | subgraph
  /-- a subgraph whose name makes it a cluster -/
  | cluster
  | node
  | edge
deriving DecidableEq, Repr

namespace ElementKind

/-- The name of a kind. -/
def name : ElementKind → String
  | graph => "graph"
  | subgraph => "subgraph"
  | cluster => "cluster"
  | node => "node"
  | edge => "edge"

/-- Whether elements of this kind have a body of statements. -/
def isGraphLike : ElementKind → Bool
  | graph | subgraph | cluster => true
  | node | edge => false

end ElementKind

/-- What a block of defaults is for. -/
inductive DefaultTarget
  | graph
  | node
  | edge
deriving DecidableEq, Repr

namespace DefaultTarget

/-- The kind of elements whose defaults are set. -/
def kind : DefaultTarget → ElementKind
  | graph => .graph
  | node => .node
  | edge => .edge

/-- The kind of elements whose defaults are set by a block in the body of a graph of the
given kind: a block for graphs is for that graph itself. -/
def kindIn (enclosing : ElementKind) : DefaultTarget → ElementKind
  | graph => enclosing
  | node => .node
  | edge => .edge

end DefaultTarget

/-- An operator between the nodes of an edge, with its place. -/
structure EdgeOperator where
  directed : Bool
  span : Span
deriving DecidableEq, Repr

namespace EdgeOperator

/-- The operator as it is written. -/
def symbol (op : EdgeOperator) : String := if op.directed then "->" else "--"

/-- An operator that starts at `offset`. -/
def writtenAt (offset : Nat) (directed : Bool) : EdgeOperator := ⟨directed, Span.ofSize offset 2⟩

end EdgeOperator

/-- A block of defaults. -/
structure DefaultBlock where
  target : DefaultTarget
  attributes : AttributeList
deriving DecidableEq, Repr

mutual

/-- An element. Which parts count depends on the kind: the body on a graph, the attributes
on a node or an edge, the operators on an edge, the nested document on a node. -/
structure Element where
  kind : ElementKind
  name : Option String
  attributes : AttributeList
  body : List Statement
  operators : List EdgeOperator
  nested : Option Document
  span : Span

/-- A statement of a body. -/
inductive Statement where
  | element (element : Element)
  | defaults (block : DefaultBlock)
  | assign (attr : Attribute)

/-- A graph that stands by itself. -/
structure Document where
  directed : Bool
  strict : Bool
  root : Element

end

/-- The attributes that a body assigns to its graph, wherever they stand in it. -/
def assignments : List Statement → AttributeList
  | [] => []
  | .assign a :: rest => a :: assignments rest
  | _ :: rest => assignments rest

namespace Element

/-- An element of which only the kind and the name are given. -/
def bare (kind : ElementKind) (name : Option String) : Element :=
  ⟨kind, name, [], [], [], none, ⟨0, 0⟩⟩

/-- A graph at the top of a document. -/
def graph : Element := bare .graph none

/-- The beginning of a name that makes a subgraph a cluster. -/
def clusterMark : String := "cluster"

/-- Whether a name makes a subgraph a cluster. -/
def isClusterName (name : String) : Bool :=
  (Text.after? clusterMark.toList name.toList).isSome

/-- A subgraph, which is a cluster if its name says so. -/
def subgraph (name : Option String) : Element :=
  bare (if name.any isClusterName then .cluster else .subgraph) name

/-- A node. -/
def node (name : String) : Element := bare .node (some name)

/-- An edge with its operators. -/
def edge (operators : List EdgeOperator) : Element :=
  { bare .edge none with operators := operators }

end Element

end DotAttributes
