import DotAttributes.Color.Basic
import DotAttributes.Color.Scheme

/-!
# Checking colors

A named color has to be in its scheme: the one written in front of it, or else the one that
holds where the attribute stands. A scheme that is not known makes no color wrong; it is
reported where it is chosen.
-/

namespace DotAttributes.Color

/-- What is wrong with a color. -/
inductive Problem
  | notInScheme (name scheme : List Char)
deriving DecidableEq, Repr

/-- The wording of a problem. -/
def Problem.detail : Problem → String
  | notInScheme name scheme =>
    let color := String.ofList name
    let palette := String.ofList scheme
    s!"The '{color}' color is not valid within the '{palette}' color scheme."

/-- The scheme in which a name is looked up, where `site` is the one that holds around it. -/
def schemeFor (site : List Char) : Option (List Char) → List Char
  | some (c :: cs) => c :: cs
  | _ => site

/-- The problem of a color. -/
def checkColor (site : List Char) : Color → List (Located Problem)
  | .named scheme name =>
    let chosen := schemeFor site scheme
    match Scheme.find? chosen with
    | some palette =>
      if palette.contains name.item then [] else [⟨.notInScheme name.item chosen, name.span⟩]
    | none => []
  | .rgb .. | .hsv .. => []

/-- The problems of the colors of a list. -/
def check (site : List Char) (items : List Item) : List (Located Problem) :=
  items.flatMap fun item => checkColor site item.color

end DotAttributes.Color
