import DotAttributes.Text.Blank

/-!
# Style lists

A style is a list of items, separated by commas and blanks of ASCII. An item is a name,
which may be followed at once by arguments in parentheses; the arguments are separated by
commas and do not nest.

* `Style.Item` is one item, `Style.read` reads a value.
-/

namespace DotAttributes.Style

/-- An item of a style list: its name with its place, and the arguments, trimmed, those that
are empty left out. -/
structure Item where
  name : Located (List Char)
  args : List (List Char)
deriving DecidableEq, Repr

/-- Why a value is no style list. -/
inductive Fault
  | noItem (found : Option Char)
  | unclosed
deriving DecidableEq, Repr

/-- The wording of a fault. -/
def Fault.detail : Fault → String
  | noItem found =>
    let character := Text.describe found
    s!"Extraneous input '{character}' expecting a style item."
  | unclosed => "Mismatched input '<EOF>' expecting ')'."

/-- Whether a character separates items: a comma, or one of the blanks of ASCII other than
the vertical tab. -/
def isSeparator (c : Char) : Bool :=
  c == ',' || c == ' ' || c == '\t' || c == '\n' || c == '\x0c' || c == '\r'

/-- Whether a character may stand in the name of an item. -/
def isNameChar (c : Char) : Bool := !isSeparator c && c != '(' && c != ')'

/-- The arguments between a pair of parentheses. -/
def arguments (inner : List Char) : List (List Char) :=
  ((Text.pieces (· == ',') inner).map Text.trim).filter fun arg => !arg.isEmpty

/-- The fault of a character that starts no item. -/
def noItemAt (offset : Nat) (cs : List Char) : Located Fault :=
  ⟨.noItem cs.head?, Text.charSpan offset cs.head?⟩

/-- The arguments of an item, the offset behind them and the text that is left. -/
structure ArgumentsRead where
  args : List (List Char)
  stop : Nat
  rest : List Char

/-- Takes the arguments, which start at `offset`, off the front of a text; without an opening
parenthesis there are none. -/
def readArguments (offset : Nat) (cs : List Char) : Except (Located Fault) ArgumentsRead :=
  match cs with
  | '(' :: body =>
    match Text.splitFirst? ')' body with
    | none => .error ⟨.unclosed, Span.empty (offset + Text.size cs)⟩
    | some (inner, rest) =>
      match inner.dropWhile (· != '(') with
      | [] => .ok ⟨arguments inner, offset + Text.size inner + 2, rest⟩
      | c :: _ =>
        let nested := offset + 1 + Text.size (inner.takeWhile (· != '('))
        .error ⟨.noItem (some c), Text.charSpan nested (some c)⟩
  | _ => .ok ⟨[], offset, cs⟩

theorem length_dropWhile_le (p : Char → Bool) (cs : List Char) :
    (cs.dropWhile p).length ≤ cs.length := (List.dropWhile_suffix p).length_le

theorem length_le_of_readArguments {offset : Nat} {cs : List Char} {r : ArgumentsRead}
    (h : readArguments offset cs = .ok r) : r.rest.length ≤ cs.length := by
  unfold readArguments at h
  split at h
  · next body =>
    split at h
    · cases h
    · next inner rest hs =>
      split at h
      · cases h
        unfold Text.splitFirst? at hs
        split at hs
        · cases hs
        · next c d hd =>
          cases hs
          have := length_dropWhile_le (· != ')') body
          rw [hd] at this
          simp only [List.length_cons] at this ⊢
          omega
      · cases h
  · cases h
    exact Nat.le_refl _

/-- Reads the items of a text that starts at `offset`. -/
def readItems (offset : Nat) (cs : List Char) : Except (Located Fault) (List Item) :=
  let start := offset + Text.size (cs.takeWhile isSeparator)
  match _hd : cs.dropWhile isSeparator with
  | [] => .ok []
  | c :: body =>
    if isNameChar c then
      let name := c :: body.takeWhile isNameChar
      match _ha : readArguments (start + Text.size name) (body.dropWhile isNameChar) with
      | .error fault => .error fault
      | .ok read =>
        if read.rest.head?.all isSeparator then
          match readItems read.stop read.rest with
          | .ok items => .ok (⟨⟨name, Span.ofSize start (Text.size name)⟩, read.args⟩ :: items)
          | .error fault => .error fault
        else .error (noItemAt read.stop read.rest)
    else .error (noItemAt start (c :: body))
termination_by cs.length
decreasing_by
  have h1 := length_le_of_readArguments _ha
  have h2 := length_dropWhile_le isNameChar body
  have h3 := length_dropWhile_le isSeparator cs
  rw [_hd, List.length_cons] at h3
  omega

/-- Reads a style list. -/
def read (cs : List Char) : Except (Located Fault) (List Item) := readItems 0 cs

end DotAttributes.Style
