import DotAttributes.Proofs.Color.Grammar

/-!
# Hue, saturation and value

Any three numbers make a color. Their range is not looked at, unlike that of a share, so a hue, a
saturation or a value may be above one, infinite or missing; only the hue cannot be below zero,
since it starts the text (`IsTriple.zero_le_hue`). A color is in range exactly if each number of
its text is (`isMeasuredBy_of_read`).
-/

namespace DotAttributes.Color

open Text

variable {offset : Nat} {cs text : List Char} {color : Color} {item : Item}
  {hue saturation value : Binary64}

/-- Hue, saturation and value lie between zero and one, if these are what a color is given by. -/
def IsInRange : Color → Prop
  | hsv hue saturation value => hue.IsShare ∧ saturation.IsShare ∧ value.IsShare
  | rgb .. | named .. => True

instance : (color : Color) → Decidable color.IsInRange
  | hsv .. => inferInstanceAs (Decidable (_ ∧ _ ∧ _))
  | rgb .. | named .. => inferInstanceAs (Decidable True)

/-- A color that is given by hue, saturation and value has them from three numbers of the text, the
first of which is not below zero. It is in range exactly if each of these numbers is. -/
def IsMeasuredBy (text : List Char) : Color → Prop
  | hsv hue saturation value =>
    IsTriple text hue saturation value ∧ .zero false ≤ hue ∧
      (IsInRange (hsv hue saturation value) ↔
        ∀ part ∈ numbersIn text, ∃ x, Binary64.read? part = some x ∧ x.IsShare)
  | rgb .. | named .. => True

namespace IsTriple

/-- The first number starts the text. -/
theorem zero_le_hue (h : IsTriple cs hue saturation value) : .zero false ≤ hue := by
  have hnumbers := h.numbers
  have hstart := h.startsNumeric
  cases cs with
  | nil => cases hstart
  | cons c rest =>
    have hc : c.isDigit = true ∨ c = '.' := by
      simpa only [Color.startsNumeric, Bool.or_eq_true, beq_iff_eq] using hstart
    have hseparator : isNumberSeparator c = false := by
      rw [Bool.eq_false_iff]
      intro hsep
      simp only [isNumberSeparator, Bool.or_eq_true, beq_iff_eq] at hsep
      rcases hsep with (rfl | rfl) | rfl <;> revert hc <;> decide
    obtain ⟨part, parts, hparts⟩ : ∃ part parts, numbersIn (c :: rest) = (c :: part) :: parts := by
      rw [numbersIn, pieces, hseparator]
      cases pieces isNumberSeparator rest with
      | nil => exact ⟨[], [], rfl⟩
      | cons p ps => exact ⟨p, _, rfl⟩
    rw [hparts, List.map_cons, List.cons.injEq] at hnumbers
    exact Binary64.zero_le_of_read? hnumbers.1 hc

theorem isMeasuredBy (h : IsTriple cs hue saturation value) :
    IsMeasuredBy cs (hsv hue saturation value) := by
  refine ⟨h, h.zero_le_hue, ?_⟩
  have hparts : (∀ part ∈ numbersIn cs, ∃ x, Binary64.read? part = some x ∧ x.IsShare) ↔
      ∀ read ∈ (numbersIn cs).map Binary64.read?, ∃ x, read = some x ∧ x.IsShare := by
    rw [List.forall_mem_map]
  rw [hparts, h.numbers]
  simp [IsInRange]

end IsTriple

theorem IsWritten.isMeasuredBy (h : IsWritten offset cs color) : color.IsMeasuredBy cs := by
  cases h with
  | rgb | rgba | qualified | plain => trivial
  | hsv htriple => exact htriple.isMeasuredBy

/-- **Ranges.** Three numbers are read as a color whatever they are, alone and in a list. Every
color that is read has its numbers as they stand in its text, so it is in range exactly if each of
them is. The shares of a list are always in range. -/
theorem isMeasuredBy_of_read (cs : List Char) :
    (∀ hue saturation value, IsTriple cs hue saturation value →
        read cs = .ok ⟨.hsv hue saturation value, none, ⟨0, size cs⟩⟩ ∧
          readList cs = .ok [⟨.hsv hue saturation value, none, ⟨0, size cs⟩⟩]) ∧
      (∀ item, read cs = .ok item → item.color.IsMeasuredBy cs) ∧
      ∀ items, readList cs = .ok items → ∀ item ∈ items,
        (∃ text, StandsAt 0 cs item.span text ∧ item.color.IsMeasuredBy text) ∧
          ∀ weight ∈ item.weight, weight.IsShare := by
  refine ⟨fun hue saturation value htriple => ⟨?_, ?_⟩, fun item hread => ?_,
    fun items hread item hitem => ?_⟩
  · exact read_eq_ok_iff.2 ⟨_, .hsv htriple, rfl⟩
  · have hne : cs ≠ [] := by
      rintro rfl
      exact Bool.false_ne_true htriple.startsNumeric
    rw [readList_eq_ok_iff, ← ofSize_zero]
    exact .last (.alone hne (.hsv htriple))
  · obtain ⟨color, hcolor, rfl⟩ := read_eq_ok_iff.1 hread
    exact hcolor.isMeasuredBy
  · obtain ⟨text, htext⟩ := (readList_eq_ok_iff.1 hread).exists_isTextOf item hitem
    exact ⟨⟨text, htext.standsAt, htext.isWritten.isMeasuredBy⟩, htext.isShare⟩

/-- Two colors by hue, saturation and value, one in range and one that is not. -/
theorem isMeasuredBy_of_read_list :
    (∃ hue saturation value, IsTriple ".6, .3, .9".toList hue saturation value ∧
        read ".6, .3, .9".toList = .ok ⟨.hsv hue saturation value, none, ⟨0, 10⟩⟩ ∧
          IsInRange (.hsv hue saturation value)) ∧
      ∃ items, readList ".6 .3 .9;.5:2,-1e9,inf".toList = .ok items ∧
        items.map (fun item => decide item.color.IsInRange) = [true, false] ∧
          ∀ item ∈ items, ∃ text,
            StandsAt 0 ".6 .3 .9;.5:2,-1e9,inf".toList item.span text ∧
              item.color.IsMeasuredBy text := by
  constructor
  · have htriple : IsTriple ".6, .3, .9".toList _ _ _ := ⟨rfl, rfl, rfl⟩
    exact ⟨_, _, _, htriple, ((isMeasuredBy_of_read _).1 _ _ _ htriple).1, by decide +kernel⟩
  · obtain ⟨items, hread, hrange⟩ : ∃ items,
        readList ".6 .3 .9;.5:2,-1e9,inf".toList = .ok items ∧
          items.map (fun item => decide item.color.IsInRange) = [true, false] :=
      ⟨_, rfl, by decide +kernel⟩
    exact ⟨items, hread, hrange, fun item hitem =>
      ((isMeasuredBy_of_read _).2.2 items hread item hitem).1⟩

/-- A saturation above one and a missing value. -/
theorem read_not_isInRange :
    ∃ item, read "0.5 2 nan".toList = .ok item ∧ ¬ item.color.IsInRange :=
  ⟨_, rfl, by decide +kernel⟩

end DotAttributes.Color
