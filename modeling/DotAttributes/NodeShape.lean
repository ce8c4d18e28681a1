import DotAttributes.Text.Case

/-!
# Shapes of nodes

The names of the shapes of nodes, and of those among them that draw records or can be
painted with stripes. Names are compared without regard to case.
-/

namespace DotAttributes.NodeShape

/-- The shapes drawn as polygons. -/
def polygons : List String :=
  ["box", "polygon", "ellipse", "oval", "circle", "point", "egg", "triangle", "plaintext",
    "plain", "diamond", "trapezium", "parallelogram", "house", "pentagon", "hexagon", "septagon",
    "octagon", "doublecircle", "doubleoctagon", "tripleoctagon", "invtriangle", "invtrapezium",
    "invhouse", "Mdiamond", "Msquare", "Mcircle", "rect", "rectangle", "square", "star", "none",
    "underline", "cylinder", "note", "tab", "folder", "box3d", "component", "promoter", "cds",
    "terminator", "utr", "primersite", "restrictionsite", "fivepoverhang", "threepoverhang",
    "noverhang", "assembly", "signature", "insulator", "ribosite", "rnastab", "proteasesite",
    "proteinstab", "rpromoter", "rarrow", "larrow", "lpromoter"]

/-- The shapes whose labels are records. -/
def records : List String := ["record", "Mrecord"]

/-- The shapes that can be painted with stripes. -/
def rectangles : List String := ["box", "rect", "rectangle", "square"]

/-- The shape of a node for which none is chosen. -/
def default : String := "ellipse"

/-- Whether a name is the name of a shape. -/
def isKnown (name : String) : Bool :=
  Text.containsIgnoringCase polygons name.toList || Text.containsIgnoringCase records name.toList

/-- Whether nodes of a shape have records as labels. -/
def isRecord (name : String) : Bool := Text.containsIgnoringCase records name.toList

/-- Whether nodes of a shape can be painted with stripes. -/
def hasStripes (name : String) : Bool := Text.containsIgnoringCase rectangles name.toList

end DotAttributes.NodeShape
