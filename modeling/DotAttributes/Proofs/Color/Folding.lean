import DotAttributes.Color.Check
import DotAttributes.Color.Reading
import DotAttributes.Proofs.Folding
import Mathlib.Data.List.Basic

/-!
# Colors in either case

Letters stand in hexadecimal digits, in the exponents of numbers, and in the names of colors and
schemes. A color whose letters are folded is read exactly if the color is, as the same color with
its names folded, at the same place (`readColor_foldCase`, `read_foldCase`, `readList_foldCase`);
why a value cannot be read is left open, since a fault quotes the text. Schemes and their colors are
looked up ignoring case, so the problems of the colors stand at the same places
(`map_span_check_foldCase`).
-/

namespace DotAttributes

open Text

namespace Color

/-- Folds the names of a color. -/
def foldCase : Color → Color
  | named scheme name => named (scheme.map Text.foldCase) (name.map Text.foldCase)
  | color => color

/-- Folds the names of a color of a color list. -/
def Item.foldCase (item : Item) : Item := { item with color := item.color.foldCase }

/-! ## Reading a color -/

theorem isCaseless_hexValue? : IsCaseless hexValue? := isCaseless_of_capitals (by decide)

theorem isCaseless_isHexDigit : IsCaseless isHexDigit := isCaseless_of_capitals (by decide)

theorem isCaseless_isNumberSeparator : IsCaseless isNumberSeparator :=
  isCaseless_of_capitals (by decide)

theorem isCaseless_isNameChar : IsCaseless isNameChar := isCaseless_of_capitals (by decide)

/-- Hexadecimal digits may be capital or small. -/
theorem readHex_foldCase (offset : Nat) (digits : List Char) :
    (readHex offset (Text.foldCase digits)).toOption =
      (readHex offset digits).toOption.map foldCase := by
  have hbyte (high low : Char) : hexByte high.toLower low.toLower = hexByte high low := by
    rw [hexByte, isCaseless_hexValue?, isCaseless_hexValue?, hexByte]
  unfold readHex
  rw [all_foldCase isCaseless_isHexDigit]
  split
  · match digits with
    | [r, r', g, g', b, b'] => simp [hbyte, Except.toOption, foldCase]
    | [r, r', g, g', b, b', a, a'] => simp [hbyte, Except.toOption, foldCase]
    | [] | [_] | [_, _] | [_, _, _] | [_, _, _, _] | [_, _, _, _, _] | [_, _, _, _, _, _, _]
    | _ :: _ :: _ :: _ :: _ :: _ :: _ :: _ :: _ :: _ => rfl
  · rfl

theorem readNumbers_foldCase (stop : Nat) (read : List Binary64)
    (parts : List (Nat × List Char)) :
    (readNumbers stop read (parts.map fun part => (part.1, Text.foldCase part.2))).toOption =
      (readNumbers stop read parts).toOption.map foldCase := by
  induction parts generalizing read with
  | nil =>
    rw [List.map_nil]
    unfold readNumbers
    split <;> rfl
  | cons part parts ih =>
    rw [List.map_cons, readNumbers, readNumbers]
    split
    · rfl
    · rw [Binary64.read?_foldCase]
      split
      · exact ih _
      · rfl

theorem readHsv_foldCase (offset : Nat) (cs : List Char) :
    (readHsv offset (Text.foldCase cs)).toOption = (readHsv offset cs).toOption.map foldCase := by
  simp only [readHsv, pieces_foldCase isCaseless_isNumberSeparator, withOffsets_foldCase,
    List.filter_map, size_foldCase, readNumbers_foldCase, Function.comp_def, isEmpty_foldCase]

theorem nameFault?_foldCase (offset : Nat) (cs : List Char) :
    (nameFault? offset (Text.foldCase cs)).isSome = (nameFault? offset cs).isSome := by
  rw [nameFault?, dropWhile_foldCase isCaseless_isNameChar, nameFault?]
  cases cs.dropWhile isNameChar <;> rfl

/-- Reading a name fails, in either case, if one of its characters may not stand in it. -/
theorem toOption_readName (scheme : Option (List Char)) (offset : Nat) (cs : List Char) :
    (readName scheme offset cs).toOption =
      if (nameFault? offset cs).isSome then none
      else some (named scheme ⟨cs, Span.ofSize offset (size cs)⟩) := by
  unfold readName
  cases nameFault? offset cs <;> rfl

theorem readName_foldCase (scheme : Option (List Char)) (offset : Nat) (cs : List Char) :
    (readName (scheme.map Text.foldCase) offset (Text.foldCase cs)).toOption =
      (readName scheme offset cs).toOption.map foldCase := by
  rw [toOption_readName, toOption_readName, nameFault?_foldCase, size_foldCase]
  split <;> rfl

theorem toOption_readQualified (offset : Nat) (cs : List Char) :
    (readQualified offset cs).toOption = (splitFirst? '/' cs).bind fun (scheme, name) =>
      if (nameFault? offset scheme).isSome || name.isEmpty then none
      else (readName (some scheme) (offset + size scheme + 1) name).toOption := by
  unfold readQualified
  cases splitFirst? '/' cs with
  | none => rfl
  | some parts =>
    obtain ⟨scheme, name⟩ := parts
    cases hscheme : nameFault? offset scheme with
    | some fault => simp [hscheme, Except.toOption]
    | none =>
      simp only [hscheme, Option.bind_some, Option.isSome_none, Bool.false_or]
      split <;> rfl

theorem readQualified_foldCase (offset : Nat) (cs : List Char) :
    (readQualified offset (Text.foldCase cs)).toOption =
      (readQualified offset cs).toOption.map foldCase := by
  rw [toOption_readQualified, toOption_readQualified, splitFirst?_foldCase rfl]
  cases splitFirst? '/' cs with
  | none => rfl
  | some parts =>
    obtain ⟨scheme, name⟩ := parts
    simp only [Option.map_some, Option.bind_some, nameFault?_foldCase, isEmpty_foldCase,
      size_foldCase]
    split
    · rfl
    · exact readName_foldCase (some scheme) _ name

theorem startsNumeric_foldCase (cs : List Char) :
    startsNumeric (Text.foldCase cs) = startsNumeric cs := by
  cases cs with
  | nil => rfl
  | cons c cs =>
    have hstart : IsCaseless fun c : Char => c.isDigit || c == '.' :=
      isCaseless_of_capitals (by decide)
    exact hstart c

theorem readColor_cons (offset : Nat) (c : Char) (cs : List Char) : readColor offset (c :: cs) =
    if c = '#' then readHex (offset + 1) cs
    else if c = '/' then readQualified (offset + 1) cs
    else if startsNumeric (c :: cs) && (c :: cs).any isNumberSeparator then
      readHsv offset (c :: cs)
    else readName none offset (c :: cs) := by
  unfold readColor
  split <;> simp_all

/-- **Colors.** A color is read in either case of its letters, at the same place. -/
theorem readColor_foldCase (offset : Nat) (cs : List Char) :
    (readColor offset (Text.foldCase cs)).toOption =
      (readColor offset cs).toOption.map foldCase := by
  cases cs with
  | nil => exact readName_foldCase none offset []
  | cons c cs =>
    rw [foldCase_cons, readColor_cons, readColor_cons, if_congr (toLower_eq_iff rfl) rfl rfl,
      if_congr (toLower_eq_iff rfl) rfl rfl, ← foldCase_cons, startsNumeric_foldCase,
      any_foldCase isCaseless_isNumberSeparator]
    split_ifs
    · exact readHex_foldCase _ _
    · exact readQualified_foldCase _ _
    · exact readHsv_foldCase _ _
    · exact readName_foldCase none _ _

/-! ## Reading values -/

theorem read_foldCase (cs : List Char) :
    (read (Text.foldCase cs)).toOption = (read cs).toOption.map Item.foldCase := by
  unfold read
  rw [size_foldCase]
  rcases cases_of_toOption_eq_map (readColor_foldCase 0 cs) with ⟨e, e', he, he'⟩ | ⟨v, hv, hv'⟩
  · rw [he, he']
    rfl
  · rw [hv, hv']
    rfl

theorem readWeight_foldCase (offset : Nat) (cs : List Char) :
    (readWeight offset (Text.foldCase cs)).toOption = (readWeight offset cs).toOption := by
  unfold readWeight
  rw [Binary64.read?_foldCase]
  split
  · dsimp only
    split <;> rfl
  · rfl

theorem readItem_foldCase (offset : Nat) (next : Option Char) (segment : List Char) :
    (readItem offset next (Text.foldCase segment)).toOption =
      (readItem offset next segment).toOption.map Item.foldCase := by
  have hmark : IsCaseless fun c => c != ';' := isCaseless_bne rfl
  simp only [readItem, takeWhile_foldCase hmark, dropWhile_foldCase hmark, isEmpty_foldCase,
    size_foldCase]
  split
  · rfl
  · rcases cases_of_toOption_eq_map (readColor_foldCase offset (segment.takeWhile (· != ';')))
      with ⟨e, e', he, he'⟩ | ⟨v, hv, hv'⟩
    · rw [he, he']
      rfl
    · rw [hv, hv']
      dsimp only
      cases segment.dropWhile (· != ';') with
      | nil => rfl
      | cons c weight =>
        have hweight :=
          readWeight_foldCase (offset + size (segment.takeWhile (· != ';')) + 1) weight
        rw [← Option.map_id' (x := (readWeight _ weight).toOption)] at hweight
        rcases cases_of_toOption_eq_map hweight with ⟨e, e', he, he'⟩ | ⟨w, hw, hw'⟩
        · simp only [foldCase_cons, he, he']
          rfl
        · simp only [foldCase_cons, hw, hw']
          rfl

theorem readSegments_foldCase (offset : Nat) (segments : List (List Char)) :
    (readSegments offset (segments.map Text.foldCase)).toOption =
      (readSegments offset segments).toOption.map (List.map Item.foldCase) := by
  induction segments generalizing offset with
  | nil => rfl
  | cons segment segments ih =>
    rw [List.map_cons, readSegments, readSegments, List.isEmpty_map, size_foldCase]
    rcases cases_of_toOption_eq_map (readItem_foldCase offset _ segment)
      with ⟨e, e', he, he'⟩ | ⟨v, hv, hv'⟩
    · rw [he, he']
      rfl
    · rw [hv, hv']
      rcases cases_of_toOption_eq_map (ih (offset + size segment + 1))
        with ⟨e, e', he, he'⟩ | ⟨vs, hvs, hvs'⟩
      · simp only [he, he']
        rfl
      · simp only [hvs, hvs']
        rfl

/-- **Color lists.** A color list is read in either case of its letters, with the same places. -/
theorem readList_foldCase (cs : List Char) :
    (readList (Text.foldCase cs)).toOption =
      (readList cs).toOption.map (List.map Item.foldCase) := by
  rw [readList, pieces_foldCase (isCaseless_beq rfl), readSegments_foldCase, readList]

/-! ## Looking colors up -/

end Color

namespace Scheme

theorem find?_foldCase (name : List Char) : find? (foldCase name) = find? name := by
  rw [find?, foldCase_foldCase, find?]

theorem contains_foldCase (scheme : Scheme) (color : List Char) :
    scheme.contains (foldCase color) = scheme.contains color := by
  unfold contains
  rw [foldCase_foldCase]

end Scheme

namespace Color

theorem find?_schemeFor_foldCase (site : List Char) (scheme : Option (List Char)) :
    Scheme.find? (schemeFor (Text.foldCase site) (scheme.map Text.foldCase)) =
      Scheme.find? (schemeFor site scheme) := by
  have hchosen : schemeFor (Text.foldCase site) (scheme.map Text.foldCase) =
      Text.foldCase (schemeFor site scheme) := by
    match scheme with
    | none | some [] | some (_ :: _) => rfl
  rw [hchosen, Scheme.find?_foldCase]

/-- A color with folded names has a problem where the color has one, also if the scheme around it
is folded. -/
theorem map_span_checkColor_foldCase (site : List Char) (color : Color) :
    (checkColor (Text.foldCase site) color.foldCase).map Located.span =
      (checkColor site color).map Located.span := by
  cases color with
  | rgb red green blue alpha => rfl
  | hsv hue saturation value => rfl
  | named scheme name =>
    have hname (palette : Scheme) : palette.contains (Text.foldCase name.item) =
      palette.contains name.item := palette.contains_foldCase _
    simp only [foldCase, checkColor, find?_schemeFor_foldCase, Located.map, hname]
    split
    · split <;> rfl
    · rfl

/-- **Problems of colors.** They stand at the same places in either case. -/
theorem map_span_check_foldCase (site : List Char) (items : List Item) :
    (check (Text.foldCase site) (items.map Item.foldCase)).map Located.span =
      (check site items).map Located.span := by
  rw [check, check, List.flatMap_map, List.map_flatMap, List.map_flatMap]
  exact List.flatMap_congr fun item _ => map_span_checkColor_foldCase site item.color

end Color

end DotAttributes
