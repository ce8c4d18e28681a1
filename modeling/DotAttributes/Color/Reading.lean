import DotAttributes.Color.Basic
import DotAttributes.Number.Decimal
import DotAttributes.Text.Basic

/-!
# Reading colors

A value that starts with `#` is read as hexadecimal digits, one that starts with `/` as a
name behind a scheme, one that starts with a digit or a point and has a comma or a blank in
it as three numbers, and any other one as a name.

* `Color.readColor` reads one color, `Color.read` the value of a color attribute.
* `Color.readList` reads a color list: colors separated by colons, each with a share of the
  area behind a semicolon, if it has one.
-/

namespace DotAttributes.Color

/-- Why a value is no color or no color list. -/
inductive Fault
  | noColor (found : Option Char)
  | badWeight (text : List Char)
  | badHexDigit (found : Option Char)
  | extraHexDigit (found : Option Char)
  | noSecondSlash
  | noName
  | badCharacter (found : Option Char)
  | badNumber (found : Option Char)
  | extraNumber (found : Option Char)
deriving DecidableEq, Repr

/-- The wording of a mismatch between what was found and what was expected. -/
def mismatch (found expected : String) : String :=
  s!"Mismatched input '{found}' expecting {expected}."

/-- The wording of a fault. -/
def Fault.detail : Fault → String
  | noColor found => mismatch (Text.describe found) "a color"
  | badWeight text => mismatch (String.ofList text) "a weight between 0 and 1"
  | badHexDigit found => mismatch (Text.describe found) "a hexadecimal digit"
  | extraHexDigit found =>
    let character := Text.describe found
    s!"Extraneous input '{character}' expecting <EOF>."
  | noSecondSlash => mismatch (Text.describe none) "'/'"
  | noName => mismatch (Text.describe none) "a color name"
  | badCharacter found =>
    let character := Text.describe found
    s!"No viable alternative at character '{character}'."
  | badNumber found => mismatch (Text.describe found) "a number"
  | extraNumber found => mismatch (Text.describe found) "<EOF>"

/-- The outcome of reading a part of a value. -/
abbrev Read (α : Type) := Except (Located Fault) α

/-! ## Hexadecimal digits -/

/-- The value of a hexadecimal digit, capital or small. -/
def hexValue? (c : Char) : Option Nat :=
  if '0' ≤ c ∧ c ≤ '9' then some (c.toNat - '0'.toNat)
  else if 'a' ≤ c ∧ c ≤ 'f' then some (c.toNat - 'a'.toNat + 10)
  else if 'A' ≤ c ∧ c ≤ 'F' then some (c.toNat - 'A'.toNat + 10)
  else none

/-- Whether a character is a hexadecimal digit. -/
def isHexDigit (c : Char) : Bool := (hexValue? c).isSome

/-- The byte written with two hexadecimal digits. -/
def hexByte (high low : Char) : UInt8 :=
  UInt8.ofNat (16 * (hexValue? high).getD 0 + (hexValue? low).getD 0)

/-- The fault of digits, the first one at `offset`, that are not six or eight: the first
character that no longer fits. -/
def hexFault (offset : Nat) (digits : List Char) : Located Fault :=
  let count := (digits.takeWhile isHexDigit).length
  let position := min count 8
  let found := (digits.drop position).head?
  ⟨if count = 6 ∨ 8 ≤ count then .extraHexDigit found else .badHexDigit found,
    Text.charSpan (offset + position) found⟩

/-- Reads the digits behind the `#`. -/
def readHex (offset : Nat) (digits : List Char) : Read Color :=
  if digits.all isHexDigit then
    match digits with
    | [r, r', g, g', b, b'] => .ok (.rgb (hexByte r r') (hexByte g g') (hexByte b b') none)
    | [r, r', g, g', b, b', a, a'] =>
      .ok (.rgb (hexByte r r') (hexByte g g') (hexByte b b') (some (hexByte a a')))
    | _ => .error (hexFault offset digits)
  else .error (hexFault offset digits)

/-! ## Three numbers -/

/-- Whether a character separates the three numbers. -/
def isNumberSeparator (c : Char) : Bool := c == ',' || c == ' ' || c == '\t'

/-- Whether a text starts like a number: with a digit or a point. -/
def startsNumeric : List Char → Bool
  | [] => false
  | c :: _ => c.isDigit || c == '.'

/-- Reads parts as numbers, `read` being those in front of them, until there are three.
`stop` is the end of the text. -/
def readNumbers (stop : Nat) (read : List Binary64) : List (Nat × List Char) → Read Color
  | [] =>
    match read with
    | [hue, saturation, value] => .ok (.hsv hue saturation value)
    | _ => .error ⟨.badNumber none, Span.empty stop⟩
  | (offset, part) :: parts =>
    if read.length = 3 then
      .error ⟨.extraNumber part.head?, Text.charSpan offset part.head?⟩
    else
      match Binary64.read? part with
      | some x => readNumbers stop (read ++ [x]) parts
      | none => .error ⟨.badNumber part.head?, Text.charSpan offset part.head?⟩

/-- Reads hue, saturation and value; any number of separators may stand around them. -/
def readHsv (offset : Nat) (cs : List Char) : Read Color :=
  let parts := Text.withOffsets offset (Text.pieces isNumberSeparator cs)
  readNumbers (offset + Text.size cs) [] (parts.filter fun part => !part.2.isEmpty)

/-! ## Names -/

/-- Whether a character may stand in the name of a color or of a scheme. -/
def isNameChar (c : Char) : Bool := c.isAlphanum || c == '_'

/-- The fault of the first character that may not stand in a name. -/
def nameFault? (offset : Nat) (cs : List Char) : Option (Located Fault) :=
  match cs.dropWhile isNameChar with
  | [] => none
  | c :: _ =>
    some ⟨.badCharacter (some c),
      Text.charSpan (offset + Text.size (cs.takeWhile isNameChar)) (some c)⟩

/-- Reads a name, with the scheme that stands in front of it. -/
def readName (scheme : Option (List Char)) (offset : Nat) (cs : List Char) : Read Color :=
  match nameFault? offset cs with
  | some fault => .error fault
  | none => .ok (.named scheme ⟨cs, Span.ofSize offset (Text.size cs)⟩)

/-- Reads what follows the first slash: a scheme, which may be empty, another slash and a
name. -/
def readQualified (offset : Nat) (cs : List Char) : Read Color :=
  match Text.splitFirst? '/' cs with
  | none => .error ⟨.noSecondSlash, Span.empty (offset + Text.size cs)⟩
  | some (scheme, name) =>
    match nameFault? offset scheme with
    | some fault => .error fault
    | none =>
      let start := offset + Text.size scheme + 1
      if name.isEmpty then .error ⟨.noName, Span.empty start⟩
      else readName (some scheme) start name

/-! ## Colors and color lists -/

/-- Reads one color that starts at `offset`. -/
def readColor (offset : Nat) (cs : List Char) : Read Color :=
  match cs with
  | '#' :: digits => readHex (offset + 1) digits
  | '/' :: qualified => readQualified (offset + 1) qualified
  | _ =>
    if startsNumeric cs && cs.any isNumberSeparator then readHsv offset cs
    else readName none offset cs

/-- Reads the value of a color attribute. -/
def read (cs : List Char) : Read Item :=
  match readColor 0 cs with
  | .ok color => .ok ⟨color, none, ⟨0, Text.size cs⟩⟩
  | .error fault => .error fault

/-- Reads a share of the area: a number between zero and one. -/
def readWeight (offset : Nat) (cs : List Char) : Read Binary64 :=
  let fault : Located Fault := ⟨.badWeight cs, Span.ofSize offset (Text.size cs)⟩
  match Binary64.read? cs with
  | some weight =>
    if .zero false ≤ weight ∧ weight ≤ .ofRatio false 1 1 then .ok weight else .error fault
  | none => .error fault

/-- Reads a segment of a color list; `next` is the character behind it. -/
def readItem (offset : Nat) (next : Option Char) (segment : List Char) : Read Item :=
  let color := segment.takeWhile (· != ';')
  if color.isEmpty then
    let found := segment.head?.or next
    .error ⟨.noColor found, Text.charSpan offset found⟩
  else
    let stop := offset + Text.size color
    match readColor offset color with
    | .error fault => .error fault
    | .ok c =>
      match segment.dropWhile (· != ';') with
      | [] => .ok ⟨c, none, ⟨offset, stop⟩⟩
      | _ :: weight =>
        match readWeight (stop + 1) weight with
        | .error fault => .error fault
        | .ok w => .ok ⟨c, some w, ⟨offset, stop⟩⟩

/-- Reads the segments of a color list, the first one at `offset`. -/
def readSegments (offset : Nat) : List (List Char) → Read (List Item)
  | [] => .ok []
  | segment :: segments =>
    match readItem offset (if segments.isEmpty then none else some ':') segment with
    | .error fault => .error fault
    | .ok item =>
      match readSegments (offset + Text.size segment + 1) segments with
      | .error fault => .error fault
      | .ok items => .ok (item :: items)

/-- Reads a color list. -/
def readList (cs : List Char) : Read (List Item) := readSegments 0 (Text.pieces (· == ':') cs)

end DotAttributes.Color
