import DotAttributes.Color.Check
import DotAttributes.Color.Reading
import DotAttributes.Proofs.Color.Spans
import DotAttributes.Proofs.Offsets

/-!
# Reading colors by offsets

In a color only hexadecimal digits are sliced, two by two once their bytes have been counted, and
in the scheme `x11` the number behind a name. The digits that are counted are as many bytes as
characters, so the slices do not fail, and neither does the one behind a name. What is read and
found is the same (`read?_eq`, `readList?_eq`, `check?_eq`).
-/

namespace DotAttributes.Color.Indexed

open Text

/-! ## The readers -/

/-- Whether a byte is a hexadecimal digit. -/
def isHexByte (b : UInt8) : Bool :=
  ('0'.toNat ≤ b.toNat && b.toNat ≤ '9'.toNat) || ('a'.toNat ≤ b.toNat && b.toNat ≤ 'f'.toNat) ||
    ('A'.toNat ≤ b.toNat && b.toNat ≤ 'F'.toNat)

/-- The value of the two digits at an index. It fails, too, where there are not two characters. -/
def hexByte? (digits : List Char) (index : Nat) : Option UInt8 := do
  match ← slice? digits ⟨index, index + 2⟩ with
  | [high, low] => some (hexByte high low)
  | _ => none

/-- Reads the digits behind the `#`. -/
def readHex? (offset : Nat) (digits : List Char) : Option (Read Color) :=
  let valid := ((bytes digits).takeWhile isHexByte).length
  if (valid = 6 ∨ valid = 8) ∧ valid = size digits then do
    let red ← hexByte? digits 0
    let green ← hexByte? digits 2
    let blue ← hexByte? digits 4
    if valid = 8 then
      let alpha ← hexByte? digits 6
      some (.ok (.rgb red green blue (some alpha)))
    else some (.ok (.rgb red green blue none))
  else some (.error (hexFault offset digits))

/-- Reads one color that starts at `offset`. -/
def readColor? (offset : Nat) (cs : List Char) : Option (Read Color) :=
  match cs with
  | '#' :: digits => readHex? (offset + 1) digits
  | _ => some (readColor offset cs)

/-- Reads the value of a color attribute. -/
def read? (text : List Char) : Option (Read Item) := do
  match ← readColor? 0 text with
  | .ok color => some (.ok ⟨color, none, ⟨0, size text⟩⟩)
  | .error fault => some (.error fault)

/-- Reads a segment of a color list; `next` is the character behind it. -/
def readItem? (offset : Nat) (next : Option Char) (segment : List Char) : Option (Read Item) :=
  let color := segment.takeWhile (· != ';')
  if color.isEmpty then
    let found := segment.head?.or next
    some (.error ⟨.noColor found, charSpan offset found⟩)
  else do
    let stop := offset + size color
    match ← readColor? offset color with
    | .error fault => some (.error fault)
    | .ok c =>
      match segment.dropWhile (· != ';') with
      | [] => some (.ok ⟨c, none, ⟨offset, stop⟩⟩)
      | _ :: weight =>
        match readWeight (stop + 1) weight with
        | .error fault => some (.error fault)
        | .ok w => some (.ok ⟨c, some w, ⟨offset, stop⟩⟩)

/-- Reads the segments of a color list, the first one at `offset`. -/
def readSegments? (offset : Nat) : List (List Char) → Option (Read (List Item))
  | [] => some (.ok [])
  | segment :: segments => do
    match ← readItem? offset (if segments.isEmpty then none else some ':') segment with
    | .error fault => some (.error fault)
    | .ok item =>
      match ← readSegments? (offset + size segment + 1) segments with
      | .error fault => some (.error fault)
      | .ok items => some (.ok (item :: items))

/-- Reads a color list. -/
def readList? (text : List Char) : Option (Read (List Item)) :=
  readSegments? 0 (pieces (· == ':') text)

/-! ## The checks -/

/-- Whether a name, written in small letters, is a color of the scheme `x11`. -/
def isX11? (color : List Char) : Option Bool :=
  if Scheme.isAmong Palette.x11Plain color || Scheme.isAmong Palette.x11Numbered color ||
      Scheme.isAmong Palette.x11Grays color then some true
  else do
    let base := (Scheme.splitDigits color).1
    match Scheme.readIndex? (← from? color (size base)) with
    | none => some false
    | some number =>
      some (if Scheme.isAmong Palette.x11Grays base then number ≤ 100
        else Scheme.isAmong Palette.x11Numbered base && (1 ≤ number && number ≤ 4))

/-- Whether a scheme has a color, ignoring case. -/
def contains? (scheme : Scheme) (color : List Char) : Option Bool :=
  match scheme with
  | .x11 => isX11? (foldCase color)
  | _ => some (scheme.contains color)

/-- The problem of a color. -/
def checkColor? (site : List Char) : Color → Option (List (Located Problem))
  | .named scheme name =>
    let chosen := schemeFor site scheme
    match Scheme.find? chosen with
    | some palette => do
      if ← contains? palette name.item then some []
      else some [⟨.notInScheme name.item chosen, name.span⟩]
    | none => some []
  | .rgb .. | .hsv .. => some []

/-- The problems of the colors of a list. -/
def check? (site : List Char) : List Item → Option (List (Located Problem))
  | [] => some []
  | item :: items => do
    let first ← checkColor? site item.color
    let rest ← check? site items
    some (first ++ rest)

/-! ## Hexadecimal digits -/

theorem isHexDigit_iff (c : Char) : isHexDigit c = true ↔
    ('0'.toNat ≤ c.toNat ∧ c.toNat ≤ '9'.toNat) ∨ ('a'.toNat ≤ c.toNat ∧ c.toNat ≤ 'f'.toNat) ∨
      ('A'.toNat ≤ c.toNat ∧ c.toNat ≤ 'F'.toNat) := by
  have hle : ∀ d e : Char, d ≤ e ↔ d.toNat ≤ e.toNat := fun _ _ => Iff.rfl
  unfold isHexDigit hexValue?
  simp only [hle]
  repeat' split
  all_goals simp_all

theorem isHexByte_eq (c : Char) : ∀ b ∈ String.utf8EncodeChar c, isHexByte b = isHexDigit c := by
  intro b hb
  have hnumbers : '0'.toNat = 48 ∧ '9'.toNat = 57 ∧ 'a'.toNat = 97 ∧ 'f'.toNat = 102 ∧
      'A'.toNat = 65 ∧ 'F'.toNat = 70 := by decide
  have := toNat_of_mem_utf8EncodeChar hb
  rw [Bool.eq_iff_iff, isHexDigit_iff, isHexByte]
  simp only [Bool.or_eq_true, Bool.and_eq_true, decide_eq_true_eq]
  omega

section

variable {digits : List Char} (hall : ∀ c ∈ digits, isHexDigit c = true)

include hall

theorem hexByte?_eq {index : Nat} {high low : Char}
    (hpair : (digits.take (index + 2)).drop index = [high, low]) :
    hexByte? digits index = some (hexByte high low) := by
  have hle : index + 2 ≤ digits.length := by
    have hlength := congrArg List.length hpair
    simp only [List.length_drop, List.length_take, List.length_cons, List.length_nil] at hlength
    omega
  have hslice := slice?_of_oneByte (fun c hc => utf8Size_of_isHexDigit (hall c hc))
    (Nat.le_add_right index 2) hle
  rw [hexByte?, hslice, hpair]
  rfl

theorem length_takeWhile_isHexByte :
    ((bytes digits).takeWhile isHexByte).length = digits.length := by
  rw [takeWhile_bytes isHexByte_eq, List.takeWhile_eq_self_iff.2 hall, length_bytes]
  exact size_eq_length fun c hc => utf8Size_of_isHexDigit (hall c hc)

end

/-- Digits of which each byte counts as one are all digits. -/
theorem all_isHexDigit_of_length {digits : List Char}
    (h : ((bytes digits).takeWhile isHexByte).length = size digits) :
    ∀ c ∈ digits, isHexDigit c = true := by
  rw [takeWhile_bytes isHexByte_eq, length_bytes] at h
  have hsplit := List.takeWhile_append_dropWhile (p := isHexDigit) (l := digits)
  have hrest : digits.dropWhile isHexDigit = [] := by
    apply size_eq_zero_iff.1
    have hsize := congrArg size hsplit
    rw [size_append] at hsize
    omega
  exact List.dropWhile_eq_nil_iff.1 hrest

theorem readHex?_eq (offset : Nat) (digits : List Char) :
    readHex? offset digits = some (readHex offset digits) := by
  unfold readHex? readHex
  by_cases hall : ∀ c ∈ digits, isHexDigit c = true
  · have hvalid := length_takeWhile_isHexByte hall
    have hsize : size digits = digits.length :=
      size_eq_length fun c hc => utf8Size_of_isHexDigit (hall c hc)
    simp only [hvalid, hsize, and_true]
    rw [if_pos (List.all_eq_true.2 hall)]
    clear hvalid hsize
    by_cases hlength : digits.length = 6 ∨ digits.length = 8
    · rw [if_pos hlength]
      rcases hlength with hsix | height
      · match digits, hsix, hall with
        | [r, r', g, g', b, b'], _, hall =>
          rw [hexByte?_eq hall rfl, hexByte?_eq hall rfl,
            hexByte?_eq hall rfl]
          rfl
      · match digits, height, hall with
        | [r, r', g, g', b, b', a, a'], _, hall =>
          rw [hexByte?_eq hall rfl, hexByte?_eq hall rfl,
            hexByte?_eq hall rfl, hexByte?_eq hall rfl]
          rfl
    · rw [if_neg hlength]
      split
      · exact absurd (Or.inl rfl) hlength
      · exact absurd (Or.inr rfl) hlength
      · rfl
  · have hnot : ¬ digits.all isHexDigit = true := fun h => hall (List.all_eq_true.1 h)
    rw [if_neg hnot]
    exact if_neg fun h => hall (all_isHexDigit_of_length h.2)

/-! ## Colors and color lists -/

theorem readColor?_eq (offset : Nat) (cs : List Char) :
    readColor? offset cs = some (readColor offset cs) := by
  unfold readColor?
  split
  · rw [readHex?_eq]
    rfl
  · rfl

theorem readItem?_eq (offset : Nat) (next : Option Char) (segment : List Char) :
    readItem? offset next segment = some (readItem offset next segment) := by
  unfold readItem? readItem
  simp only [readColor?_eq, Option.bind_eq_bind, Option.bind_some]
  repeat' split
  all_goals simp_all

theorem readSegments?_eq (segments : List (List Char)) : ∀ offset,
    readSegments? offset segments = some (readSegments offset segments) := by
  induction segments with
  | nil => exact fun _ => rfl
  | cons segment segments ih =>
    intro offset
    rw [readSegments?, readSegments, readItem?_eq, ih]
    simp only [Option.bind_eq_bind, Option.bind_some]
    cases readItem offset (if segments.isEmpty then none else some ':') segment with
    | error fault => rfl
    | ok item => cases readSegments (offset + size segment + 1) segments <;> rfl

/-- **Colors by offsets.** No slice of the reader fails, and it reads what it should. -/
theorem read?_eq (text : List Char) : read? text = some (Color.read text) := by
  rw [read?, Color.read, readColor?_eq]
  simp only [Option.bind_eq_bind, Option.bind_some]
  cases readColor 0 text <;> rfl

theorem readList?_eq (text : List Char) : readList? text = some (Color.readList text) :=
  readSegments?_eq _ 0

/-! ## Schemes -/

theorem isX11?_eq (color : List Char) : isX11? color = some (Scheme.isX11 color) := by
  have hdigits : from? color (size (Scheme.splitDigits color).1) =
      some (Scheme.splitDigits color).2 := by
    have hfrom := from?_append (Scheme.splitDigits color).1 (Scheme.splitDigits color).2
    rwa [Scheme.splitDigits_append] at hfrom
  unfold isX11? Scheme.isX11
  simp only [hdigits, Option.bind_eq_bind, Option.bind_some]
  split
  · rfl
  · cases Scheme.readIndex? (Scheme.splitDigits color).2 <;> rfl

theorem checkColor?_eq (site : List Char) (color : Color) :
    checkColor? site color = some (checkColor site color) := by
  cases color with
  | rgb | hsv => rfl
  | named scheme name =>
    rw [checkColor?, checkColor]
    cases Scheme.find? (schemeFor site scheme) with
    | none => rfl
    | some palette =>
      have hcontains : contains? palette name.item = some (palette.contains name.item) := by
        cases palette with
        | x11 => exact isX11?_eq _
        | svg | brewer => rfl
      simp only [hcontains, Option.bind_eq_bind, Option.bind_some]
      cases palette.contains name.item <;> rfl

/-- **Checks of colors by offsets.** No slice fails. -/
theorem check?_eq (site : List Char) (items : List Item) :
    check? site items = some (check site items) := by
  induction items with
  | nil => rfl
  | cons item items ih =>
    rw [check?, checkColor?_eq, ih]
    rfl

end DotAttributes.Color.Indexed
