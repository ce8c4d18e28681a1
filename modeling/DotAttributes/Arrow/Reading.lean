import DotAttributes.Arrow.Basic
import DotAttributes.Text.Basic

/-!
# Reading arrow types

A value is cut into clauses from the left. A bare name is tried before modifiers, so that
`open` is one deprecated shape and not an open `pen`, and the longest name wins.

* `Arrow.readClause?` takes one clause off the front of a text.
* `Arrow.read` reads a whole value.
-/

namespace DotAttributes.Arrow

/-- Why a value is no arrow type. -/
inductive Fault
  | empty
  | noClause (found : Option Char)
  | tooMany
deriving DecidableEq, Repr

/-- The wording of a fault. -/
def Fault.detail : Fault → String
  | empty => "No viable alternative at input '<EOF>'."
  | noClause found =>
    let character := Text.describe found
    s!"No viable alternative at character '{character}'."
  | tooMany =>
    let limit := toString maxClauses
    s!"At most {limit} arrow shapes may be combined."

/-! ## One clause -/

/-- The shapes of a list with whose names a text starts, each with the rest of the text. -/
def matching (shapes : List Shape) (cs : List Char) : List (Shape × List Char) :=
  shapes.filterMap fun shape => (Text.after? shape.name.toList cs).map fun rest => (shape, rest)

/-- Of two readings, the one with the longer name. -/
def longer (best : Option (Shape × List Char)) (next : Shape × List Char) :
    Option (Shape × List Char) :=
  match best with
  | none => some next
  | some b => if b.1.name.length ≤ next.1.name.length then some next else some b

/-- Takes the longest name of a shape off the front of a text. -/
def longest? (shapes : List Shape) (cs : List Char) : Option (Shape × List Char) :=
  (matching shapes cs).foldl longer none

/-- Takes the modifier of the open form off the front of a text. -/
def takeOpen : List Char → Bool × List Char
  | 'o' :: cs => (true, cs)
  | cs => (false, cs)

/-- Takes the letter of a half off the front of a text. -/
def takeSide : List Char → Option Side × List Char
  | 'l' :: cs => (some .left, cs)
  | 'r' :: cs => (some .right, cs)
  | cs => (none, cs)

/-- Takes a clause, which starts at `offset`, off the front of a text. -/
def readClause? (offset : Nat) (cs : List Char) : Option (Clause × List Char) :=
  match longest? Shape.all cs with
  | some (shape, rest) =>
    some (⟨false, none, shape, Span.ofSize offset (Text.size shape.name.toList)⟩, rest)
  | none =>
    let opened := takeOpen cs
    let halved := takeSide opened.2
    (longest? Shape.primitives halved.2).map fun (shape, rest) =>
      (⟨opened.1, halved.1, shape,
        Span.ofSize (offset + modifierSize opened.1 halved.1) (Text.size shape.name.toList)⟩, rest)

theorem mem_of_foldl_longer {l : List (Shape × List Char)} {best : Option (Shape × List Char)}
    {x : Shape × List Char} (h : l.foldl longer best = some x) : best = some x ∨ x ∈ l := by
  induction l generalizing best with
  | nil => exact Or.inl h
  | cons y l ih =>
    rcases ih h with hb | hm
    · cases best with
      | none =>
        have : y = x := by simpa [longer] using hb
        exact Or.inr (this ▸ List.mem_cons_self)
      | some b =>
        simp only [longer] at hb
        split at hb
        · exact Or.inr (Option.some.inj hb ▸ List.mem_cons_self)
        · exact Or.inl hb
    · exact Or.inr (List.mem_cons_of_mem y hm)

/-- The longest name found is a name of the list, and the text starts with it. -/
theorem longest?_eq_some {shapes : List Shape} {cs rest : List Char} {shape : Shape}
    (h : longest? shapes cs = some (shape, rest)) :
    shape ∈ shapes ∧ cs = shape.name.toList ++ rest := by
  rcases mem_of_foldl_longer h with h | h
  · cases h
  · obtain ⟨s, hs, hr⟩ := List.mem_filterMap.1 h
    obtain ⟨r, hr, he⟩ := Option.map_eq_some_iff.1 hr
    cases he
    exact ⟨hs, Text.after?_eq_some_iff.1 hr⟩

theorem length_lt_of_longest? {shapes : List Shape} {cs rest : List Char} {shape : Shape}
    (h : longest? shapes cs = some (shape, rest)) : rest.length < cs.length := by
  have hne := List.length_pos_iff.2 (Shape.name_ne_nil shape)
  rw [(longest?_eq_some h).2, List.length_append]
  omega

theorem takeOpen_length_le (cs : List Char) : (takeOpen cs).2.length ≤ cs.length := by
  unfold takeOpen
  split <;> simp

theorem takeSide_length_le (cs : List Char) : (takeSide cs).2.length ≤ cs.length := by
  unfold takeSide
  split <;> simp

/-- A clause takes at least one character. -/
theorem length_lt_of_readClause? {offset : Nat} {cs rest : List Char} {clause : Clause}
    (h : readClause? offset cs = some (clause, rest)) : rest.length < cs.length := by
  unfold readClause? at h
  split at h
  · next shape rest' hl =>
    have hr : rest' = rest := (Prod.mk.inj (Option.some.inj h)).2
    exact hr ▸ length_lt_of_longest? hl
  · obtain ⟨⟨shape, rest'⟩, hl, he⟩ := Option.map_eq_some_iff.1 h
    have hr : rest' = rest := (Prod.mk.inj he).2
    subst hr
    have h1 := length_lt_of_longest? hl
    have h2 := takeSide_length_le (takeOpen cs).2
    have h3 := takeOpen_length_le cs
    omega

/-! ## The whole value -/

/-- Cuts a text, which starts at `offset`, into clauses. -/
def readClauses (offset : Nat) (cs : List Char) : Except (Located Fault) (List Clause) :=
  if cs = [] then .ok []
  else
    match _h : readClause? offset cs with
    | none => .error ⟨.noClause cs.head?, Text.charSpan offset cs.head?⟩
    | some (clause, rest) =>
      match readClauses clause.span.stop rest with
      | .ok clauses => .ok (clause :: clauses)
      | .error fault => .error fault
termination_by cs.length
decreasing_by exact length_lt_of_readClause? _h

/-- Reads an arrow type. -/
def read (cs : List Char) : Except (Located Fault) Arrow :=
  if cs = [] then .error ⟨.empty, Span.empty 0⟩
  else
    match readClauses 0 cs with
    | .error fault => .error fault
    | .ok clauses =>
      if maxClauses < clauses.length then .error ⟨.tooMany, ⟨0, Text.size cs⟩⟩
      else .ok ⟨clauses⟩

end DotAttributes.Arrow
