import DotAttributes.Document.Element
import DotAttributes.NodeShape
import DotAttributes.Number.Literal

/-!
# Types of attributes

The type of an attribute says how its value is read. It depends on the name of the attribute
and on the kind of the element; an attribute that is not in the table is not read at all.
-/

namespace DotAttributes

/-- A closed set of words, with the name it has in messages. -/
structure Enumeration where
  name : String
  words : List String
deriving DecidableEq, Repr

namespace Enumeration

/-- The directions in which an edge is drawn. -/
def direction : Enumeration := ⟨"dirType", ["forward", "back", "both", "none"]⟩

/-- The ranks of subgraphs. -/
def rank : Enumeration := ⟨"rankType", ["same", "min", "source", "max", "sink"]⟩

/-- The directions in which ranks follow each other. -/
def rankDirection : Enumeration := ⟨"rankdir", ["TB", "LR", "BT", "RL"]⟩

/-- The ways to treat clusters. -/
def clusterMode : Enumeration := ⟨"clusterMode", ["local", "global", "none"]⟩

/-- The orders of drawing. -/
def outputMode : Enumeration := ⟨"outputMode", ["breadthfirst", "nodesfirst", "edgesfirst"]⟩

/-- The orders of pages. -/
def pageDirection : Enumeration :=
  ⟨"pagedir", ["BL", "BR", "TL", "TR", "RB", "RT", "LB", "LT"]⟩

end Enumeration

/-- How the value of an attribute is read. -/
inductive AttributeType
  | arrow
  | color
  | colorList
  | colorScheme
  | shape
  | style
  | label
  /-- a number that is not below a bound -/
  | number (bound : Number)
  | enumeration (words : Enumeration)
  | unchecked
deriving DecidableEq, Repr

namespace AttributeType

/-- A row of the table: the attributes of these names on elements of these kinds. -/
structure Row where
  names : List String
  kinds : List ElementKind
  type : AttributeType
deriving DecidableEq, Repr

/-- The type of doubles that are not below a fraction. -/
def atLeast (n : Int) (d : Nat) : AttributeType :=
  number (.double (.ofRatio (n < 0) n.natAbs d))

/-- The type of integers that are not negative. -/
def natural : AttributeType := number (.int 0)

/-- The types of attributes; the first row that fits counts. -/
def table : List Row :=
  [⟨["arrowhead", "arrowtail"], [.edge], arrow⟩,
    ⟨["arrowsize", "weight"], [.edge], atLeast 0 1⟩,
    ⟨["labelfontsize"], [.edge], atLeast 1 1⟩,
    ⟨["penwidth"], [.cluster, .node, .edge], atLeast 0 1⟩,
    ⟨["fontsize"], [.graph, .cluster, .node, .edge], atLeast 1 1⟩,
    ⟨["distortion", "skew"], [.node], atLeast (-100) 1⟩,
    ⟨["width"], [.node], atLeast 1 100⟩,
    ⟨["height"], [.node], atLeast 2 100⟩,
    ⟨["nodesep"], [.graph], atLeast 2 100⟩,
    ⟨["sides"], [.node], natural⟩,
    ⟨["peripheries"], [.node, .cluster], natural⟩,
    ⟨["minlen"], [.edge], natural⟩,
    ⟨["dir"], [.edge], enumeration .direction⟩,
    ⟨["rank"], [.subgraph, .cluster], enumeration .rank⟩,
    ⟨["rankdir"], [.graph], enumeration .rankDirection⟩,
    ⟨["clusterrank"], [.graph], enumeration .clusterMode⟩,
    ⟨["outputorder"], [.graph], enumeration .outputMode⟩,
    ⟨["pagedir"], [.graph], enumeration .pageDirection⟩,
    ⟨["shape"], [.node], shape⟩,
    ⟨["style"], [.graph, .cluster, .node, .edge], style⟩,
    ⟨["colorscheme"], [.graph, .cluster, .node, .edge], colorScheme⟩,
    ⟨["bgcolor"], [.graph, .cluster], colorList⟩,
    ⟨["color"], [.edge], colorList⟩,
    ⟨["color"], [.node, .cluster], color⟩,
    ⟨["fillcolor"], [.node, .cluster], colorList⟩,
    ⟨["fillcolor"], [.edge], color⟩,
    ⟨["fontcolor"], [.graph, .cluster, .node, .edge], color⟩,
    ⟨["pencolor"], [.cluster], color⟩,
    ⟨["labelfontcolor"], [.edge], color⟩,
    ⟨["label"], [.graph, .cluster, .node, .edge], label⟩,
    ⟨["xlabel"], [.node, .edge], label⟩,
    ⟨["headlabel", "taillabel"], [.edge], label⟩]

/-- Whether a row is for an attribute. -/
def Row.fits (row : Row) (kind : ElementKind) (name : String) : Bool :=
  row.names.contains name && row.kinds.contains kind

/-- The type of an attribute on elements of a kind. -/
def of (kind : ElementKind) (name : String) : AttributeType :=
  match table.find? fun row => row.fits kind name with
  | some row => row.type
  | none => unchecked

end AttributeType

end DotAttributes
