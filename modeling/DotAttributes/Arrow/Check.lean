import DotAttributes.Arrow.Basic

/-!
# Checking arrow types

What an arrow type that reads well can still suffer from: a deprecated shape, a modifier
that its shape does not take, and `none` in the last of several places.

A deprecated shape is reported at its first occurrence only. A modifier that does not fit is
reported for the whole value, clause by clause, the half before the open form. `none` in
the last place is reported at its clause, modifiers included.
-/

namespace DotAttributes.Arrow

/-- What is wrong with an arrow type. -/
inductive Problem
  | deprecated (shape : Deprecated)
  | side (side : Side) (shape : Primitive)
  | isOpen (shape : Primitive)
  | noneLast
deriving DecidableEq, Repr

/-- The wording of a problem. -/
def Problem.detail : Problem → String
  | deprecated shape =>
    let name := shape.name
    s!"The shape '{name}' is deprecated."
  | side half shape =>
    let letter := half.letter
    let name := shape.name
    s!"The side modifier '{letter}' may not be combined with primitive shape '{name}'."
  | isOpen shape =>
    let name := shape.name
    s!"The open modifier 'o' may not be combined with primitive shape '{name}'."
  | noneLast => "The shape 'none' may not be the last shape."

/-- The modifiers of a clause that its shape does not take. -/
def modifierProblems (isOpen : Bool) (side : Option Side) (shape : Primitive) : List Problem :=
  (match side with
    | some half => if shape.acceptsSide then [] else [.side half shape]
    | none => []) ++
  if isOpen && !shape.acceptsOpen then [.isOpen shape] else []

/-- A modifier is a problem when it is there and the shape does not take it. -/
theorem mem_modifierProblems {isOpen : Bool} {side : Option Side} {shape : Primitive}
    {p : Problem} : p ∈ modifierProblems isOpen side shape ↔
      (∃ half, side = some half ∧ shape.acceptsSide = false ∧ p = .side half shape) ∨
        (isOpen = true ∧ shape.acceptsOpen = false ∧ p = .isOpen shape) := by
  unfold modifierProblems
  rw [List.mem_append]
  refine or_congr ?_ ?_
  · cases side with
    | none => simp
    | some half => cases hshape : shape.acceptsSide <;> simp
  · cases isOpen <;> cases hshape : shape.acceptsOpen <;> simp

/-- The problems of the clauses of a value that covers `whole`, where the shapes `seen` have
been reported already. Deprecated shapes are passed over unless asked for. -/
def checkClauses (deprecations : Bool) (whole : Span) (seen : List Deprecated) :
    List Clause → List (Located Problem)
  | [] => []
  | c :: cs =>
    match c.shape with
    | .primitive shape =>
      (modifierProblems c.isOpen c.side shape).map (⟨·, whole⟩) ++
        checkClauses deprecations whole seen cs
    | .deprecated shape =>
      if deprecations && !seen.contains shape then
        ⟨.deprecated shape, c.span⟩ :: checkClauses deprecations whole (shape :: seen) cs
      else checkClauses deprecations whole seen cs

/-- The problem of `none` standing last among several clauses. -/
def checkLast (a : Arrow) : List (Located Problem) :=
  match a.last? with
  | some c =>
    if 1 < a.clauses.length ∧ c.shape = .primitive .none then [⟨.noneLast, c.fullSpan⟩] else []
  | none => []

/-- The problems of an arrow type whose value covers `whole`. -/
def check (deprecations : Bool) (whole : Span) (a : Arrow) : List (Located Problem) :=
  checkClauses deprecations whole [] a.clauses ++ checkLast a

end DotAttributes.Arrow
