import DotAttributes.Color.Check
import DotAttributes.Color.Reading
import DotAttributes.Proofs.Slice
import Mathlib.Data.List.Forall2

/-!
# Where the names of colors stand

A color that is a name carries the place of the name. However it is written, alone, behind a
scheme, or as one of a list with a share behind it, the name stands at that place of the value
(`isNamedAt_of_readColor`, `isNamedAt_of_readSegments`). A color that is missing from its
scheme is reported there. The places of the items of a list (`standsAt_of_readSegments`) and of
faults (`hasSpan_of_read_error`, `hasSpan_of_readList_error`) are places of the value, too.
-/

namespace DotAttributes.Color

open Text

/-- The name of a color, if it is one, stands at its place. -/
def IsNamedAt (offset : Nat) (cs : List Char) : Color → Prop
  | named _ name => StandsAt offset cs name.span name.item
  | rgb .. | hsv .. => True

theorem IsNamedAt.append_left {offset : Nat} {cs ds : List Char} {color : Color}
    (h : color.IsNamedAt (offset + size ds) cs) : color.IsNamedAt offset (ds ++ cs) := by
  cases color with
  | named scheme name => exact StandsAt.append_left h
  | rgb | hsv => trivial

theorem IsNamedAt.append_right {offset : Nat} {cs ds : List Char} {color : Color}
    (h : color.IsNamedAt offset cs) : color.IsNamedAt offset (cs ++ ds) := by
  cases color with
  | named scheme name => exact StandsAt.append_right h
  | rgb | hsv => trivial

/-! ## One color -/

theorem isNamedAt_of_readHex {offset offset' : Nat} {digits cs : List Char} {color : Color}
    (h : readHex offset digits = .ok color) : color.IsNamedAt offset' cs := by
  unfold readHex at h
  split at h
  · split at h <;> cases h <;> trivial
  · cases h

/-- Three numbers are no name. -/
theorem readNumbers_ne_named {stop : Nat} {scheme : Option (List Char)}
    {name : Located (List Char)} {parts : List (Nat × List Char)} :
    ∀ read, readNumbers stop read parts ≠ .ok (.named scheme name) := by
  induction parts with
  | nil =>
    intro read h
    unfold readNumbers at h
    split at h <;> cases h
  | cons part parts ih =>
    intro read h
    rw [readNumbers] at h
    split at h
    · cases h
    · split at h
      · exact ih _ h
      · cases h

theorem isNamedAt_of_readNumbers {stop offset : Nat} {cs : List Char} {color : Color}
    {parts : List (Nat × List Char)} (read : List Binary64)
    (h : readNumbers stop read parts = .ok color) : color.IsNamedAt offset cs := by
  cases color with
  | named scheme name => exact absurd h (readNumbers_ne_named read)
  | rgb | hsv => trivial

theorem isNamedAt_of_readName {scheme : Option (List Char)} {offset : Nat} {cs : List Char}
    {color : Color} (h : readName scheme offset cs = .ok color) : color.IsNamedAt offset cs := by
  unfold readName at h
  split at h
  · cases h
  · cases h
    exact standsAt_self

theorem isNamedAt_of_readQualified {offset : Nat} {cs : List Char} {color : Color}
    (h : readQualified offset cs = .ok color) : color.IsNamedAt offset cs := by
  unfold readQualified at h
  split at h
  · cases h
  · next scheme name hsplit =>
    split at h
    · cases h
    · simp only at h
      split at h
      · cases h
      · have hname := isNamedAt_of_readName h
        rw [add_size_add_one (c := '/') rfl] at hname
        rw [← splitFirst?_append hsplit, List.append_cons]
        exact hname.append_left

theorem isNamedAt_of_readColor {offset : Nat} {cs : List Char} {color : Color}
    (h : readColor offset cs = .ok color) : color.IsNamedAt offset cs := by
  unfold readColor at h
  split at h
  · exact isNamedAt_of_readHex h
  · next qualified =>
    have hqualified : color.IsNamedAt (offset + size ['/']) qualified :=
      isNamedAt_of_readQualified h
    exact hqualified.append_left
  · split at h
    · exact isNamedAt_of_readNumbers [] h
    · exact isNamedAt_of_readName h

/-! ## Lists -/

/-- The separator of a list is of one byte. -/
theorem utf8Size_of_isColon {c : Char} (h : (c == ':') = true) : c.utf8Size = 1 := by
  rw [eq_of_beq h]
  rfl

theorem isNamedAt_of_readItem {offset : Nat} {next : Option Char} {segment : List Char}
    {item : Item} (h : readItem offset next segment = .ok item) :
    item.color.IsNamedAt offset segment := by
  unfold readItem at h
  simp only at h
  split at h
  · cases h
  · split at h
    · cases h
    · next color hcolor =>
      have hplaced : color.IsNamedAt offset segment := by
        rw [← List.takeWhile_append_dropWhile (p := (· != ';')) (l := segment)]
        exact (isNamedAt_of_readColor hcolor).append_right
      split at h
      · cases h
        exact hplaced
      · split at h
        · cases h
        · cases h
          exact hplaced

theorem isNamedAt_of_readSegments {offset : Nat} {cs : List Char} {segments : List (List Char)}
    {items : List Item} (hpieces : pieces (· == ':') cs = segments)
    (h : readSegments offset segments = .ok items) :
    ∀ item ∈ items, item.color.IsNamedAt offset cs := by
  induction segments generalizing offset cs items with
  | nil => exact absurd hpieces (pieces_ne_nil _ cs)
  | cons segment segments ih =>
    rw [readSegments] at h
    split at h
    · cases h
    · next item hitem =>
      split at h
      · cases h
      · next items' hitems =>
        cases h
        have hfirst := isNamedAt_of_readItem hitem
        rcases pieces_eq_cons hpieces with ⟨rfl, rfl⟩ | ⟨c, rest, hc, rfl, hrest⟩
        · intro x hx
          cases hitems
          rw [List.mem_singleton.1 hx]
          exact hfirst
        · intro x hx
          rcases List.mem_cons.1 hx with rfl | hx
          · exact hfirst.append_right
          · have hx := ih hrest hitems x hx
            rw [add_size_add_one (utf8Size_of_isColon hc)] at hx
            rw [List.append_cons]
            exact hx.append_left

theorem readColor_of_read {cs : List Char} {item : Item} (h : read cs = .ok item) :
    readColor 0 cs = .ok item.color := by
  unfold read at h
  split at h
  · next color hcolor =>
    cases h
    exact hcolor
  · cases h

theorem isNamedAt_of_read {cs : List Char} {item : Item} (h : read cs = .ok item) :
    item.color.IsNamedAt 0 cs := isNamedAt_of_readColor (readColor_of_read h)

/-! ## The places of the items of a list -/

theorem span_of_readItem {offset : Nat} {next : Option Char} {segment : List Char} {item : Item}
    (h : readItem offset next segment = .ok item) :
    item.span = Span.ofSize offset (size (segment.takeWhile (· != ';'))) := by
  unfold readItem at h
  simp only at h
  split at h
  · cases h
  · split at h
    · cases h
    · split at h
      · cases h
        rfl
      · split at h
        · cases h
        · cases h
          rfl

/-- The items of a list stand, without their shares, at their places. -/
theorem standsAt_of_readSegments {segments : List (List Char)} :
    ∀ {offset : Nat} {cs : List Char} {items : List Item}, pieces (· == ':') cs = segments →
      readSegments offset segments = .ok items →
      List.Forall₂ (fun item segment =>
        StandsAt offset cs item.span (segment.takeWhile (· != ';'))) items segments := by
  induction segments with
  | nil => exact fun hpieces => absurd hpieces (pieces_ne_nil _ _)
  | cons segment segments ih =>
    intro offset cs items hpieces h
    rw [readSegments] at h
    split at h
    · cases h
    · next item hitem =>
      split at h
      · cases h
      · next items' hitems =>
        cases h
        have hfirst : StandsAt offset segment item.span (segment.takeWhile (· != ';')) := by
          rw [span_of_readItem hitem]
          have hprefix := List.takeWhile_append_dropWhile (p := (· != ';')) (l := segment)
          exact ⟨[], segment.dropWhile (· != ';'), hprefix.symm, rfl⟩
        rcases pieces_eq_cons hpieces with ⟨rfl, rfl⟩ | ⟨c, rest, hc, rfl, hrest⟩
        · cases hitems
          exact .cons hfirst .nil
        · refine .cons hfirst.append_right ((ih hrest hitems).imp fun x y hx => ?_)
          rw [add_size_add_one (utf8Size_of_isColon hc)] at hx
          rw [List.append_cons]
          exact hx.append_left

theorem span_of_read {cs : List Char} {item : Item} (h : read cs = .ok item) :
    item.span = ⟨0, size cs⟩ := by
  unfold read at h
  split at h
  · cases h
    rfl
  · cases h

/-! ## Faults -/

theorem utf8Size_of_isHexDigit {c : Char} (h : isHexDigit c = true) : c.utf8Size = 1 := by
  rw [Char.utf8Size_eq_one_iff]
  have hvalue : (hexValue? c).isSome := h
  unfold hexValue? at hvalue
  split at hvalue
  · next hdigit => exact UInt32.le_trans hdigit.2 (by decide)
  · split at hvalue
    · next hsmall => exact UInt32.le_trans hsmall.2 (by decide)
    · split at hvalue
      · next hcapital => exact UInt32.le_trans hcapital.2 (by decide)
      · cases hvalue

theorem hasSpan_hexFault (offset : Nat) (digits : List Char) :
    HasSpan offset digits (hexFault offset digits).span := by
  obtain ⟨position, hposition⟩ :
      ∃ position, min (digits.takeWhile isHexDigit).length 8 = position := ⟨_, rfl⟩
  have hspan : (hexFault offset digits).span =
      charSpan (offset + position) (digits.drop position).head? := by
    rw [← hposition]
    rfl
  -- the digits in front of the fault are as many bytes as characters
  have hle : position ≤ (digits.takeWhile isHexDigit).length := hposition ▸ Nat.min_le_left _ _
  have hdigits := List.takeWhile_append_dropWhile (p := isHexDigit) (l := digits)
  have htake : digits.take position = (digits.takeWhile isHexDigit).take position := by
    conv => lhs; rw [← hdigits, List.take_append_of_le_length hle]
  have hone : ∀ c ∈ digits.take position, c.utf8Size = 1 := by
    intro c hc
    rw [htake] at hc
    exact utf8Size_of_isHexDigit (List.mem_takeWhile_imp (List.mem_of_mem_take hc))
  have hsize : size (digits.take position) = position := by
    rw [size_eq_length hone, htake, List.length_take]
    exact Nat.min_eq_left hle
  have hfault := (hasSpan_charSpan_head? (offset + size (digits.take position))
    (digits.drop position)).append_left
  rwa [List.take_append_drop, hsize, ← hspan] at hfault

theorem hasSpan_of_readHex_error {offset : Nat} {digits : List Char} {fault : Located Fault}
    (h : readHex offset digits = .error fault) : HasSpan offset digits fault.span := by
  unfold readHex at h
  split at h
  · split at h
    · cases h
    · cases h
    · cases h
      exact hasSpan_hexFault offset digits
  · cases h
    exact hasSpan_hexFault offset digits

theorem utf8Size_of_isNumberSeparator {c : Char} (h : isNumberSeparator c = true) :
    c.utf8Size = 1 := by
  simp only [isNumberSeparator, Bool.or_eq_true, beq_iff_eq] at h
  rcases h with (rfl | rfl) | rfl <;> decide

/-- A part that is no number, or one too many, is reported where it starts. -/
theorem hasSpan_of_readNumbers_error {offset : Nat} {cs : List Char} {fault : Located Fault}
    {parts : List (Nat × List Char)}
    (hparts : ∀ part ∈ parts, StandsAt offset cs (Span.ofSize part.1 (size part.2)) part.2) :
    ∀ read, readNumbers (offset + size cs) read parts = .error fault →
      HasSpan offset cs fault.span := by
  induction parts with
  | nil =>
    intro read h
    unfold readNumbers at h
    split at h
    · cases h
    · cases h
      exact (standsAt_end offset cs).hasSpan
  | cons part parts ih =>
    intro read h
    obtain ⟨hpart, hparts⟩ := List.forall_mem_cons.1 hparts
    have hstart : HasSpan offset cs (charSpan part.1 part.2.head?) :=
      HasSpan.trans hpart (hasSpan_charSpan_head? _ _)
    rw [readNumbers] at h
    split at h
    · cases h
      exact hstart
    · split at h
      · exact ih hparts _ h
      · cases h
        exact hstart

theorem hasSpan_of_readHsv_error {offset : Nat} {cs : List Char} {fault : Located Fault}
    (h : readHsv offset cs = .error fault) : HasSpan offset cs fault.span := by
  refine hasSpan_of_readNumbers_error (fun part hpart => ?_) [] h
  exact standsAt_of_mem_withOffsets (fun _ => utf8Size_of_isNumberSeparator) rfl part
    (List.mem_filter.1 hpart).1

theorem hasSpan_of_nameFault? {offset : Nat} {cs : List Char} {fault : Located Fault}
    (h : nameFault? offset cs = some fault) : HasSpan offset cs fault.span := by
  unfold nameFault? at h
  split at h
  · cases h
  · next c tail hc =>
    cases h
    have hcs := List.takeWhile_append_dropWhile (p := isNameChar) (l := cs)
    rw [hc] at hcs
    have hspan : HasSpan offset (cs.takeWhile isNameChar ++ c :: tail)
        (charSpan (offset + size (cs.takeWhile isNameChar)) (some c)) :=
      hasSpan_charSpan_append _ c tail
    rwa [hcs] at hspan

theorem hasSpan_of_readName_error {scheme : Option (List Char)} {offset : Nat} {cs : List Char}
    {fault : Located Fault} (h : readName scheme offset cs = .error fault) :
    HasSpan offset cs fault.span := by
  unfold readName at h
  split at h
  · next hfault =>
    cases h
    exact hasSpan_of_nameFault? hfault
  · cases h

theorem hasSpan_of_readQualified_error {offset : Nat} {cs : List Char} {fault : Located Fault}
    (h : readQualified offset cs = .error fault) : HasSpan offset cs fault.span := by
  unfold readQualified at h
  split at h
  · cases h
    exact (standsAt_end offset cs).hasSpan
  · next scheme name hsplit =>
    have hcs := splitFirst?_append hsplit
    split at h
    · next hfault =>
      cases h
      rw [← hcs]
      exact (hasSpan_of_nameFault? hfault).append_right
    · simp only at h
      rw [← hcs, List.append_cons]
      rw [add_size_add_one (c := '/') rfl] at h
      split at h
      · next hempty =>
        cases h
        rw [List.isEmpty_iff.1 hempty]
        exact (standsAt_end _ []).hasSpan.append_left
      · exact (hasSpan_of_readName_error h).append_left

theorem hasSpan_of_readColor_error {offset : Nat} {cs : List Char} {fault : Located Fault}
    (h : readColor offset cs = .error fault) : HasSpan offset cs fault.span := by
  unfold readColor at h
  split at h
  · next digits =>
    have hdigits : HasSpan (offset + size ['#']) digits fault.span := hasSpan_of_readHex_error h
    exact hdigits.append_left
  · next qualified =>
    have hqualified : HasSpan (offset + size ['/']) qualified fault.span :=
      hasSpan_of_readQualified_error h
    exact hqualified.append_left
  · split at h
    · exact hasSpan_of_readHsv_error h
    · exact hasSpan_of_readName_error h

/-- A value that is no color is reported at a place of it. -/
theorem hasSpan_of_read_error {cs : List Char} {fault : Located Fault}
    (h : read cs = .error fault) : HasSpan 0 cs fault.span := by
  unfold read at h
  split at h
  · cases h
  · next hcolor =>
    cases h
    exact hasSpan_of_readColor_error hcolor

theorem span_of_readWeight_error {offset : Nat} {cs : List Char} {fault : Located Fault}
    (h : readWeight offset cs = .error fault) : fault.span = Span.ofSize offset (size cs) := by
  unfold readWeight at h
  simp only at h
  split at h
  · split at h
    · cases h
    · cases h
      rfl
  · cases h
    rfl

/-- A segment that is no color is reported at a place of it, or at the character behind it. -/
theorem hasSpan_of_readItem_error {offset : Nat} {segment : List Char} {fault : Located Fault}
    (behind : List Char) (h : readItem offset behind.head? segment = .error fault) :
    HasSpan offset (segment ++ behind) fault.span := by
  have hsegment := List.takeWhile_append_dropWhile (p := (· != ';')) (l := segment)
  unfold readItem at h
  simp only at h
  split at h
  · cases h
    rw [← List.head?_append]
    exact hasSpan_charSpan_head? offset (segment ++ behind)
  · split at h
    · next hcolor =>
      cases h
      have hfault : HasSpan offset (segment.takeWhile (· != ';') ++ segment.dropWhile (· != ';'))
          fault.span := (hasSpan_of_readColor_error hcolor).append_right
      rw [hsegment] at hfault
      exact hfault.append_right
    · split at h
      · cases h
      · next c weight hweight =>
        split at h
        · next fault' hfault =>
          cases h
          have hsplit : splitFirst? ';' segment = some (segment.takeWhile (· != ';'), weight) := by
            rw [splitFirst?, hweight]
          rw [← splitFirst?_append hsplit, List.append_cons, span_of_readWeight_error hfault,
            add_size_add_one (c := ';') rfl]
          exact standsAt_self.hasSpan.append_left.append_right
        · cases h

theorem hasSpan_of_readSegments_error {segments : List (List Char)} {fault : Located Fault} :
    ∀ {offset : Nat} {cs : List Char}, pieces (· == ':') cs = segments →
      readSegments offset segments = .error fault → HasSpan offset cs fault.span := by
  induction segments with
  | nil => exact fun hpieces => absurd hpieces (pieces_ne_nil _ _)
  | cons segment segments ih =>
    intro offset cs hpieces h
    rw [readSegments] at h
    -- what stands behind the segment: nothing, or a colon and the others
    rcases pieces_eq_cons hpieces with ⟨rfl, rfl⟩ | ⟨c, rest, hc, rfl, hrest⟩
    · split at h
      · next hitem =>
        cases h
        have hfault := hasSpan_of_readItem_error [] hitem
        rwa [List.append_nil] at hfault
      · cases h
    · have hcolon : c = ':' := eq_of_beq hc
      subst hcolon
      split at h
      · next hitem =>
        cases h
        refine hasSpan_of_readItem_error (':' :: rest) ?_
        have hne : segments.isEmpty = false := by
          rw [List.isEmpty_eq_false_iff, ← hrest]
          exact pieces_ne_nil _ rest
        rw [hne] at hitem
        exact hitem
      · split at h
        · next hitems =>
          cases h
          rw [add_size_add_one (c := ':') rfl] at hitems
          rw [List.append_cons]
          exact (ih hrest hitems).append_left
        · cases h

/-- A value that is no color list is reported at a place of it. -/
theorem hasSpan_of_readList_error {cs : List Char} {fault : Located Fault}
    (h : readList cs = .error fault) : HasSpan 0 cs fault.span :=
  hasSpan_of_readSegments_error rfl h

/-! ## Reported problems -/

/-- A color that is missing from its scheme is reported at its name. -/
def Problem.IsPlaced (cs : List Char) (p : Located Problem) : Prop :=
  ∀ name scheme, p.item = .notInScheme name scheme → StandsAt 0 cs p.span name

theorem isPlaced_of_mem_check {cs site : List Char} {items : List Item}
    (h : ∀ item ∈ items, item.color.IsNamedAt 0 cs) {p : Located Problem}
    (hp : p ∈ check site items) : Problem.IsPlaced cs p := by
  obtain ⟨item, hitem, hp⟩ := List.mem_flatMap.1 hp
  have hitem := h item hitem
  unfold checkColor at hp
  split at hp
  · next scheme name hcolor =>
    rw [hcolor] at hitem
    simp only at hp
    split at hp
    · split at hp
      · cases hp
      · rw [List.mem_singleton.1 hp]
        intro name' scheme' heq
        cases heq
        exact hitem
    · cases hp
  · cases hp
  · cases hp

/-! ## Problems one after the other -/

/-- A text that is not empty is not read as an empty name. -/
theorem name_ne_nil_of_readColor {offset : Nat} {cs : List Char} {scheme : Option (List Char)}
    {name : Located (List Char)} (h : readColor offset cs = .ok (.named scheme name))
    (hne : cs ≠ []) : name.item ≠ [] := by
  have hname {scheme' : Option (List Char)} {offset' : Nat} {cs' : List Char} (hne' : cs' ≠ [])
      (hread : readName scheme' offset' cs' = .ok (.named scheme name)) : name.item ≠ [] := by
    unfold readName at hread
    split at hread
    · cases hread
    · cases hread
      exact hne'
  unfold readColor at h
  split at h
  · unfold readHex at h
    split at h
    · split at h <;> cases h
    · cases h
  · next qualified =>
    unfold readQualified at h
    split at h
    · cases h
    · split at h
      · cases h
      · simp only at h
        split at h
        · cases h
        · next hempty => exact hname (fun hnil => hempty (List.isEmpty_iff.2 hnil)) h
  · split at h
    · exact absurd h (readNumbers_ne_named [])
    · exact hname hne h

/-- What is reported of a color is one problem, at its name. -/
theorem exists_name_of_mem_checkColor {site : List Char} {color : Color} {p : Located Problem}
    (h : p ∈ checkColor site color) :
    ∃ scheme name, color = .named scheme name ∧ p.span = name.span := by
  unfold checkColor at h
  split at h
  · next scheme name =>
    simp only at h
    split at h
    · split at h
      · cases h
      · rw [List.mem_singleton.1 h]
        exact ⟨scheme, name, rfl, rfl⟩
    · cases h
  · cases h
  · cases h

theorem length_checkColor_le (site : List Char) (color : Color) :
    (checkColor site color).length ≤ 1 := by
  unfold checkColor
  split
  · simp only
    split
    · split
      · exact Nat.zero_le _
      · exact Nat.le_refl _
    · exact Nat.zero_le _
  · exact Nat.zero_le _
  · exact Nat.zero_le _

theorem readColor_of_readItem {offset : Nat} {next : Option Char} {segment : List Char}
    {item : Item} (h : readItem offset next segment = .ok item) :
    segment.takeWhile (· != ';') ≠ [] ∧
      readColor offset (segment.takeWhile (· != ';')) = .ok item.color := by
  unfold readItem at h
  simp only at h
  split at h
  · cases h
  · next hne =>
    refine ⟨fun hnil => hne (List.isEmpty_iff.2 hnil), ?_⟩
    split at h
    · cases h
    · next color hcolor =>
      split at h
      · cases h
        exact hcolor
      · split at h
        · cases h
        · cases h
          exact hcolor

/-- What is reported of a color is not empty and stands in its text. -/
theorem span_of_mem_checkColor {offset : Nat} {site cs : List Char} {color : Color}
    {p : Located Problem} (hread : readColor offset cs = .ok color) (hne : cs ≠ [])
    (h : p ∈ checkColor site color) :
    offset ≤ p.span.start ∧ p.span.start < p.span.stop ∧ p.span.stop ≤ offset + size cs := by
  obtain ⟨scheme, name, rfl, hspan⟩ := exists_name_of_mem_checkColor h
  have hstands : StandsAt offset cs name.span name.item := isNamedAt_of_readColor hread
  rw [hspan]
  exact ⟨hstands.le_start, hstands.start_lt_stop (name_ne_nil_of_readColor hread hne),
    hstands.stop_le⟩

/-- The problems of a color list follow each other. -/
theorem successive_of_readSegments {site : List Char} {segments : List (List Char)} :
    ∀ {offset : Nat} {items : List Item}, readSegments offset segments = .ok items →
      Successive offset (check site items) := by
  induction segments with
  | nil =>
    intro offset items h
    cases h
    exact ⟨nofun, .nil⟩
  | cons segment segments ih =>
    intro offset items h
    rw [readSegments] at h
    split at h
    · cases h
    · next item hitem =>
      split at h
      · cases h
      · next items' hitems =>
        cases h
        obtain ⟨hsolid, hpairwise⟩ := ih hitems
        obtain ⟨hne, hcolor⟩ := readColor_of_readItem hitem
        have hsize : size (segment.takeWhile (· != ';')) ≤ size segment := by
          conv => rhs; rw [← List.takeWhile_append_dropWhile (p := (· != ';')) (l := segment)]
          rw [size_append]
          omega
        have hfirst : ∀ p ∈ checkColor site item.color, offset ≤ p.span.start ∧
            p.span.start < p.span.stop ∧ p.span.stop ≤ offset + size segment := by
          intro p hp
          obtain ⟨hle, hlt, hstop⟩ := span_of_mem_checkColor hcolor hne hp
          exact ⟨hle, hlt, by omega⟩
        constructor
        · refine List.forall_mem_append.2 ⟨?_, ?_⟩
          · intro p hp
            obtain ⟨hle, hlt, -⟩ := hfirst p hp
            exact ⟨hle, hlt⟩
          · intro p hp
            obtain ⟨hle, hlt⟩ := hsolid p hp
            exact ⟨by omega, hlt⟩
        · refine List.pairwise_append.2 ⟨?_, hpairwise, ?_⟩
          · exact pairwise_of_length_le_one (length_checkColor_le site item.color)
          · intro p hp q hq
            have hstop := (hfirst p hp).2.2
            have hstart := (hsolid q hq).1
            omega

end DotAttributes.Color
