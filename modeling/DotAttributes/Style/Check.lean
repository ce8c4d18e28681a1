import DotAttributes.Style.Reading
import DotAttributes.Text.Case

/-!
# Checking style lists

Nodes, edges and clusters each know their own set of style items. The item that used to set
the width of lines is deprecated everywhere, and stripes need a cluster or a node of a
rectangular shape.
-/

namespace DotAttributes.Style

/-- What is wrong with an item of a style list. -/
inductive Problem
  | deprecatedWidth
  | notAllowed (allowed : List String)
  | stripedShape
deriving DecidableEq, Repr

/-- The items of nodes. -/
def nodeItems : List String :=
  ["bold", "dashed", "diagonals", "dotted", "filled", "invis", "radial", "rounded", "solid",
    "striped", "wedged"]

/-- The items of edges. -/
def edgeItems : List String := ["bold", "dashed", "dotted", "invis", "solid", "tapered"]

/-- The items of clusters, and of graphs. -/
def clusterItems : List String :=
  ["bold", "dashed", "dotted", "filled", "invis", "radial", "rounded", "solid", "striped"]

/-- The deprecated item that sets the width of lines. -/
def widthItem : String := "setlinewidth"

/-- The item that paints stripes. -/
def stripedItem : String := "striped"

/-- The problem of one item, where `allowed` is the set of items and `stripes` says whether
stripes can be painted. -/
def checkItem (deprecations : Bool) (allowed : List String) (stripes : Bool) (item : Item) :
    List (Located Problem) :=
  let name := String.ofList item.name.item
  if name = widthItem then
    if deprecations then [⟨.deprecatedWidth, item.name.span⟩] else []
  else if !allowed.contains name then [⟨.notAllowed allowed, item.name.span⟩]
  else if name = stripedItem ∧ stripes = false then [⟨.stripedShape, item.name.span⟩]
  else []

/-- The problems of a style list. -/
def check (deprecations : Bool) (allowed : List String) (stripes : Bool) (items : List Item) :
    List (Located Problem) :=
  items.flatMap (checkItem deprecations allowed stripes)

end DotAttributes.Style
