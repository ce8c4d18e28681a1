import DotAttributes.Record.Reading

/-!
# Checking record labels

The ports of a record share one space of names, however deep they stand in groups. A port
without a name cannot be referred to, and a name that two leaves carry is reported at each
of them.
-/

namespace DotAttributes.Record

/-- What is wrong with a port. -/
inductive Problem
  | unnamed
  | duplicate (name : List Char)
deriving DecidableEq, Repr

/-- The wording of a problem. -/
def Problem.detail : Problem → String
  | unnamed => "Port unnamed: port cannot be referenced"
  | duplicate name =>
    let port := String.ofList name
    s!"Port name not unique: {port}"

/-- The names of the ports of leaves, those without a name left out. -/
def portNames (leaves : List Leaf) : List (List Char) :=
  (leaves.filterMap fun leaf => leaf.port.map Located.item).filter fun name => !name.isEmpty

/-- The problem of the port of a leaf among ports of the given names. -/
def checkLeaf (names : List (List Char)) (leaf : Leaf) : List (Located Problem) :=
  match leaf.port with
  | none => []
  | some port =>
    if port.item.isEmpty then [⟨.unnamed, leaf.span⟩]
    else if 1 < names.count port.item then [⟨.duplicate port.item, port.span⟩]
    else []

/-- The problems of a label. -/
def check (label : List Field) : List (Located Problem) :=
  let leaves := leavesOf label
  leaves.flatMap (checkLeaf (portNames leaves))

end DotAttributes.Record
