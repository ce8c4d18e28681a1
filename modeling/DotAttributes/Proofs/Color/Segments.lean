import DotAttributes.Proofs.Color.Spans

/-!
# Color lists one behind the other

Two color lists with a colon between them are read one after the other: the colors of the first,
then those of the second where they stand now (`readList_append`).

A reader looks at its text and not at the offset of it, which only goes into places. So at another
offset every reader does the same, with its places moved (`readColor_shift`, `readItem_shift`,
`readSegments_shift`). Only at a missing color a reader looks at what stands behind its segment, and
finds a colon instead of the end there when another list follows (`IsFollowed`).
-/

namespace DotAttributes.Color

open Text

/-! ## Moving -/

/-- Moves a color by `k` bytes to the right: its name, if it has one. -/
def shift (k : Nat) : Color → Color
  | rgb red green blue alpha => rgb red green blue alpha
  | hsv hue saturation value => hsv hue saturation value
  | named scheme name => named scheme (name.shift k)

/-- Moves a color of a list by `k` bytes to the right. -/
def Item.shift (k : Nat) (item : Item) : Item :=
  { item with color := item.color.shift k, span := item.span.shift k }

/-- Moves the outcome of reading by `k` bytes to the right, be it something that is read, which
`move` moves, or a fault. -/
def moveRead {α : Type} (move : α → α) (k : Nat) : Read α → Read α
  | .ok x => .ok (move x)
  | .error fault => .error (fault.shift k)

variable (k offset : Nat)

theorem ofSize_add (n : Nat) : Span.ofSize (offset + k) n = (Span.ofSize offset n).shift k := by
  rw [Span.shift, Span.ofSize, Span.ofSize, Nat.add_right_comm]

theorem charSpan_add (found : Option Char) :
    charSpan (offset + k) found = (charSpan offset found).shift k := by
  cases found with
  | none => rfl
  | some c => exact ofSize_add k offset _

/-! ## One color -/

theorem hexFault_shift (digits : List Char) :
    hexFault (offset + k) digits = (hexFault offset digits).shift k := by
  simp only [hexFault, Nat.add_right_comm offset k, charSpan_add]
  rfl

theorem readHex_shift (digits : List Char) :
    readHex (offset + k) digits = moveRead (shift k) k (readHex offset digits) := by
  unfold readHex
  rw [hexFault_shift]
  split
  · split <;> rfl
  · rfl

theorem withOffsets_shift (parts : List (List Char)) :
    withOffsets (offset + k) parts =
      (withOffsets offset parts).map fun part => (part.1 + k, part.2) := by
  induction parts generalizing offset with
  | nil => rfl
  | cons part parts ih =>
    have hnext : offset + k + size part + 1 = offset + size part + 1 + k := by omega
    rw [withOffsets, withOffsets, hnext, ih]
    rfl

theorem readNumbers_shift (stop : Nat) (read : List Binary64) (parts : List (Nat × List Char)) :
    readNumbers (stop + k) read (parts.map fun part => (part.1 + k, part.2)) =
      moveRead (shift k) k (readNumbers stop read parts) := by
  induction parts generalizing read with
  | nil =>
    rw [List.map_nil]
    unfold readNumbers
    split <;> rfl
  | cons part parts ih =>
    rw [List.map_cons, readNumbers, readNumbers, charSpan_add]
    split
    · rfl
    · split
      · exact ih _
      · rfl

theorem readHsv_shift (cs : List Char) :
    readHsv (offset + k) cs = moveRead (shift k) k (readHsv offset cs) := by
  rw [readHsv, withOffsets_shift, List.filter_map, Nat.add_right_comm, readNumbers_shift]
  rfl

theorem nameFault?_shift (cs : List Char) :
    nameFault? (offset + k) cs = (nameFault? offset cs).map (Located.shift k) := by
  unfold nameFault?
  rw [Nat.add_right_comm]
  split
  · rfl
  · rw [charSpan_add]
    rfl

theorem readName_shift (scheme : Option (List Char)) (cs : List Char) :
    readName scheme (offset + k) cs = moveRead (shift k) k (readName scheme offset cs) := by
  rw [readName, readName, nameFault?_shift, ofSize_add]
  cases nameFault? offset cs <;> rfl

theorem readQualified_shift (cs : List Char) :
    readQualified (offset + k) cs = moveRead (shift k) k (readQualified offset cs) := by
  unfold readQualified
  cases splitFirst? '/' cs with
  | none => simp only [Nat.add_right_comm offset k]; rfl
  | some parts =>
    have hstart : offset + k + size parts.1 + 1 = offset + size parts.1 + 1 + k := by omega
    simp only [nameFault?_shift, hstart, readName_shift]
    cases nameFault? offset parts.1 with
    | some fault => rfl
    | none =>
      simp only [Option.map_none]
      split <;> rfl

/-- A color is the same wherever it stands, and so is the fault of a text that is none. -/
theorem readColor_shift (cs : List Char) :
    readColor (offset + k) cs = moveRead (shift k) k (readColor offset cs) := by
  unfold readColor
  split
  · rw [Nat.add_right_comm, readHex_shift]
  · rw [Nat.add_right_comm, readQualified_shift]
  · split
    · exact readHsv_shift k offset cs
    · exact readName_shift k offset none cs

/-! ## Colors of a list -/

theorem readWeight_shift (cs : List Char) :
    readWeight (offset + k) cs = moveRead id k (readWeight offset cs) := by
  unfold readWeight
  rw [ofSize_add]
  split
  · split <;> rfl
  · rfl

theorem readItem_shift (next : Option Char) (segment : List Char) :
    readItem (offset + k) next segment =
      moveRead (Item.shift k) k (readItem offset next segment) := by
  simp only [readItem, charSpan_add, readColor_shift]
  generalize segment.takeWhile (· != ';') = text
  split
  · rfl
  · cases readColor offset text with
    | error fault => rfl
    | ok color =>
      have hstop : offset + k + size text = offset + size text + k := Nat.add_right_comm _ _ _
      simp only [moveRead, hstop]
      split
      · rfl
      · next share _ =>
        rw [Nat.add_right_comm, readWeight_shift k (offset + size text + 1)]
        cases readWeight (offset + size text + 1) share <;> rfl

/-- The segments of a list that stands further on have the same colors, further on. -/
theorem readSegments_shift (segments : List (List Char)) :
    readSegments (offset + k) segments =
      moveRead (List.map (Item.shift k)) k (readSegments offset segments) := by
  induction segments generalizing offset with
  | nil => rfl
  | cons segment segments ih =>
    have hnext : offset + k + size segment + 1 = offset + size segment + 1 + k := by omega
    rw [readSegments, readSegments, readItem_shift, hnext, ih]
    cases readItem offset (if segments.isEmpty then none else some ':') segment with
    | error fault => rfl
    | ok item =>
      cases readSegments (offset + size segment + 1) segments <;> rfl

/-! ## Two lists -/

/-- A fault of a text, and what is reported instead when a colon follows: the same, unless it is
that there is no color at the end. -/
def IsFollowed (fault fault' : Located Fault) : Prop :=
  fault' = fault ∨
    (fault.item = .noColor none ∧
      fault' = ⟨.noColor (some ':'), charSpan fault.span.start (some ':')⟩)

theorem IsFollowed.start_eq {fault fault' : Located Fault} (h : IsFollowed fault fault') :
    fault'.span.start = fault.span.start := by
  rcases h with rfl | ⟨-, rfl⟩ <;> rfl

/-- The outcome of reading two lists one behind the other, from those of the first and of the
second: all colors, or a fault of the first, or else that of the second. -/
inductive IsJoint (second : Read (List Item)) : Read (List Item) → Read (List Item) → Prop
  | ok (items : List Item) : IsJoint second (.ok items) (second.map (items ++ ·))
  | error {fault fault' : Located Fault} (h : IsFollowed fault fault') :
      IsJoint second (.error fault) (.error fault')

/-- One more color in front. -/
theorem IsJoint.cons {first second whole : Read (List Item)} (item : Item)
    (h : IsJoint second first whole) :
    IsJoint second (first.map (item :: ·)) (whole.map (item :: ·)) := by
  cases h with
  | error hfollowed => exact .error hfollowed
  | ok items =>
    have hmap : (second.map (items ++ ·)).map (item :: ·) = second.map (item :: items ++ ·) := by
      cases second <;> rfl
    rw [hmap]
    exact .ok (item :: items)

theorem readSegments_cons (offset : Nat) (segment : List Char) (segments : List (List Char)) :
    readSegments offset (segment :: segments) =
      (readItem offset (if segments.isEmpty then none else some ':') segment).bind fun item =>
        (readSegments (offset + size segment + 1) segments).map (item :: ·) := by
  rw [readSegments]
  cases readItem offset (if segments.isEmpty then none else some ':') segment with
  | error fault => rfl
  | ok item => cases readSegments (offset + size segment + 1) segments <;> rfl

/-- Only the fault of an empty segment depends on what stands behind it. -/
theorem readItem_colon (offset : Nat) (segment : List Char) :
    readItem offset (some ':') segment = readItem offset none segment ∨
      ∃ fault fault', readItem offset none segment = .error fault ∧
        readItem offset (some ':') segment = .error fault' ∧ IsFollowed fault fault' := by
  cases segment with
  | nil => exact .inr ⟨_, _, rfl, rfl, .inr ⟨rfl, rfl⟩⟩
  | cons c segment => exact .inl rfl

/-- The segments of a text in front of others are read as they are alone, and then the others. -/
theorem readSegments_append (offset : Nat) {cs : List Char} {segments more : List (List Char)}
    (hpieces : pieces (· == ':') cs = segments) (hmore : more ≠ []) :
    IsJoint (readSegments (offset + size cs + 1) more) (readSegments offset segments)
      (readSegments offset (segments ++ more)) := by
  induction segments generalizing offset cs with
  | nil => exact absurd hpieces (pieces_ne_nil _ cs)
  | cons segment segments ih =>
    have hnext : (segments ++ more).isEmpty = false :=
      List.isEmpty_eq_false_iff.2 (List.append_ne_nil_of_right_ne_nil _ hmore)
    rw [List.cons_append, readSegments_cons, readSegments_cons, hnext]
    rcases pieces_eq_cons hpieces with ⟨rfl, rfl⟩ | ⟨c, rest, hc, rfl, hrest⟩
    · -- the last segment of the text, which a colon follows only now
      rcases readItem_colon offset cs with hsame | ⟨fault, fault', hfault, hfault', hfollowed⟩
      · simp only [List.isEmpty_nil, Bool.false_eq_true, if_true, if_false, hsame]
        cases readItem offset none cs with
        | error fault => exact .error (.inl rfl)
        | ok item => exact .ok [item]
      · simp only [List.isEmpty_nil, Bool.false_eq_true, if_true, if_false, hfault, hfault']
        exact .error hfollowed
    · have hcolon : segments.isEmpty = false :=
        List.isEmpty_eq_false_iff.2 (hrest ▸ pieces_ne_nil _ rest)
      have hsize : offset + size (segment ++ c :: rest) + 1 =
          offset + size segment + 1 + size rest + 1 := by
        rw [size_append, size_cons, utf8Size_of_isColon hc]
        omega
      simp only [hcolon, hsize]
      cases readItem offset (if false = true then none else some ':') segment with
      | error fault => exact .error (.inl rfl)
      | ok item => exact (ih _ hrest).cons item

theorem pieces_append_colon (a b : List Char) :
    pieces (· == ':') (a ++ ':' :: b) = pieces (· == ':') a ++ pieces (· == ':') b := by
  simp only [pieces_eq_splitOnP]
  exact List.splitOnP_append_cons a b rfl

theorem isJoint_readList (a b : List Char) :
    IsJoint (moveRead (List.map (Item.shift (size a + 1))) (size a + 1) (readList b)) (readList a)
      (readList (a ++ ':' :: b)) := by
  have hjoint := @readSegments_append 0 a _ _ rfl (pieces_ne_nil (· == ':') b)
  rwa [← pieces_append_colon, Nat.add_assoc, readSegments_shift] at hjoint

/-- **Two color lists.** With a colon between them, two texts are a color list exactly if each of
them is, and its colors are those of the first, then those of the second, moved behind the first and
the colon. A fault of the first is reported where it starts, in the first or at its end; a fault of
the second alone is reported as it is, moved in the same way. -/
theorem readList_append (a b : List Char) :
    ((∃ items, readList (a ++ ':' :: b) = .ok items) ↔
        (∃ items, readList a = .ok items) ∧ ∃ items, readList b = .ok items) ∧
      (∀ items items', readList a = .ok items → readList b = .ok items' →
        readList (a ++ ':' :: b) = .ok (items ++ items'.map (Item.shift (size a + 1)))) ∧
      (∀ fault, readList a = .error fault → ∃ fault', readList (a ++ ':' :: b) = .error fault' ∧
        IsFollowed fault fault' ∧ fault'.span.start ≤ size a) ∧
      ∀ items fault, readList a = .ok items → readList b = .error fault →
        readList (a ++ ':' :: b) = .error (fault.shift (size a + 1)) := by
  have hjoint := isJoint_readList a b
  generalize readList (a ++ ':' :: b) = whole at hjoint ⊢
  cases ha : readList a with
  | error fault =>
    rw [ha] at hjoint
    cases hjoint with
    | @error _ fault' hfollowed =>
      have hle : fault'.span.start ≤ size a := by
        obtain ⟨before, after, rfl, hstart⟩ := (hasSpan_of_readList_error ha).boundaries.1
        rw [hfollowed.start_eq, hstart, size_append]
        omega
      simp [hfollowed, hle]
  | ok items =>
    rw [ha] at hjoint
    cases hjoint
    cases readList b with
    | error fault => simp [moveRead, Except.map]
    | ok items' => simp [moveRead, Except.map]

/-- Two lists with a share and a scheme, and texts that are none: nothing, a name of two bytes, and
too few digits. -/
theorem readList_append_lists :
    (∃ items items', readList "red;.5".toList = .ok items ∧
        readList "/svg/teal:#ffffff".toList = .ok items' ∧
        readList "red;.5:/svg/teal:#ffffff".toList = .ok (items ++ items'.map (Item.shift 7))) ∧
      (∃ fault, readList "é::".toList = .error fault ∧ fault.span.start ≤ 2) ∧
      (∃ fault, readList "red:".toList = .error fault ∧ fault.item = .noColor none ∧
        ∃ fault', readList "red::blue".toList = .error fault' ∧ IsFollowed fault fault') ∧
      readList "red:#ff".toList = .error ⟨.badHexDigit none, ⟨7, 7⟩⟩ := by
  refine ⟨⟨_, _, rfl, rfl, ?_⟩, ⟨_, rfl, by decide⟩, ⟨_, rfl, rfl, ?_⟩, ?_⟩
  · exact (readList_append "red;.5".toList "/svg/teal:#ffffff".toList).2.1 _ _ rfl rfl
  · obtain ⟨fault', hread, hfollowed, -⟩ :=
      (readList_append "red:".toList "blue".toList).2.2.1 _ rfl
    exact ⟨fault', hread, hfollowed⟩
  · exact (readList_append "red".toList "#ff".toList).2.2.2 _ ⟨.badHexDigit none, ⟨3, 3⟩⟩ rfl rfl

end DotAttributes.Color
