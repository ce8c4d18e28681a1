import DotAttributes.Span

/-!
# Texts and their byte offsets

The sub-languages of attribute values are read from lists of characters, while every place
is given as a byte offset into the UTF-8 form. This module ties the two together.

* `Text.size` counts the bytes of a text.
* `Text.splitAt?` cuts a text after a number of bytes, `Text.slice?` takes the part that a
  span covers; both refuse offsets past the end and offsets inside a character.
* `Text.pieces` cuts a text at every occurrence of a separator, `Text.splitFirst?` at the
  first one; `Text.withOffsets` says where the pieces start.
-/

namespace DotAttributes.Text

/-- The number of bytes of the UTF-8 form of a text. -/
def size : List Char → Nat
  | [] => 0
  | c :: cs => c.utf8Size + size cs

@[simp] theorem size_nil : size [] = 0 := rfl

@[simp] theorem size_cons (c : Char) (cs : List Char) : size (c :: cs) = c.utf8Size + size cs := rfl

@[simp] theorem size_append (cs ds : List Char) : size (cs ++ ds) = size cs + size ds := by
  induction cs with
  | nil => simp
  | cons c cs ih => simp [ih, Nat.add_assoc]

/-- A text without bytes is empty. -/
theorem size_eq_zero_iff {cs : List Char} : size cs = 0 ↔ cs = [] := by
  cases cs with
  | nil => simp
  | cons c cs =>
    have := Char.utf8Size_pos c
    simp only [size_cons, reduceCtorEq, iff_false]
    omega

/-! ## Cutting at byte offsets -/

/-- Cuts a text after `n` bytes. There is no answer when `n` lies past the end of the text
or inside one of its characters. -/
def splitAt? : Nat → List Char → Option (List Char × List Char)
  | 0, cs => some ([], cs)
  | _ + 1, [] => none
  | n + 1, c :: cs =>
    if c.utf8Size ≤ n + 1 then
      (splitAt? (n + 1 - c.utf8Size) cs).map fun (before, after) => (c :: before, after)
    else none

/-- The part of a text that a span covers; there is none when the span is reversed, reaches
past the end, or cuts through a character. -/
def slice? (cs : List Char) (s : Span) : Option (List Char) :=
  if s.start ≤ s.stop then
    match splitAt? s.start cs with
    | some (_, rest) => (splitAt? (s.stop - s.start) rest).map Prod.fst
    | none => none
  else none

/-! ## Cutting at separators -/

/-- The pieces between the separators of a text: one more than there are separators. -/
def pieces (isSeparator : Char → Bool) : List Char → List (List Char)
  | [] => [[]]
  | c :: cs =>
    if isSeparator c then [] :: pieces isSeparator cs
    else
      match pieces isSeparator cs with
      | [] => [[c]]
      | p :: ps => (c :: p) :: ps

theorem pieces_ne_nil (isSeparator : Char → Bool) (cs : List Char) :
    pieces isSeparator cs ≠ [] := by
  cases cs with
  | nil => exact List.cons_ne_nil _ _
  | cons c cs =>
    rw [pieces]
    split
    · exact List.cons_ne_nil _ _
    · split <;> exact List.cons_ne_nil _ _

/-- Behind the first piece the text ends, or a separator stands and the other pieces follow. -/
theorem pieces_eq_cons {isSeparator : Char → Bool} {cs p : List Char} {ps : List (List Char)}
    (h : pieces isSeparator cs = p :: ps) :
    (cs = p ∧ ps = []) ∨
      ∃ c rest, isSeparator c = true ∧ cs = p ++ c :: rest ∧ pieces isSeparator rest = ps := by
  induction cs generalizing p with
  | nil =>
    cases h
    exact Or.inl ⟨rfl, rfl⟩
  | cons c cs ih =>
    rw [pieces] at h
    split at h
    · next hc =>
      cases h
      exact Or.inr ⟨c, cs, hc, rfl, rfl⟩
    · split at h
      · next hnil => exact absurd hnil (pieces_ne_nil isSeparator cs)
      · next q qs hq =>
        cases h
        rcases ih hq with ⟨rfl, rfl⟩ | ⟨d, rest, hd, rfl, hrest⟩
        · exact Or.inl ⟨rfl, rfl⟩
        · exact Or.inr ⟨d, rest, hd, rfl, hrest⟩

/-- The pieces of a text that starts at `offset`, each with its own offset; separators take
one byte. -/
def withOffsets : Nat → List (List Char) → List (Nat × List Char)
  | _, [] => []
  | offset, p :: ps => (offset, p) :: withOffsets (offset + size p + 1) ps

/-- What stands before and after the first occurrence of a character. -/
def splitFirst? (separator : Char) (cs : List Char) : Option (List Char × List Char) :=
  match cs.dropWhile (· != separator) with
  | [] => none
  | _ :: after => some (cs.takeWhile (· != separator), after)

/-- A text is put together again from what stands before and after a separator. -/
theorem splitFirst?_append {separator : Char} {cs before after : List Char}
    (h : splitFirst? separator cs = some (before, after)) :
    before ++ separator :: after = cs := by
  unfold splitFirst? at h
  split at h
  · cases h
  · next c d hd =>
    cases h
    have hc : c = separator := by
      have hne : cs.dropWhile (· != separator) ≠ [] := by rw [hd]; exact List.cons_ne_nil _ _
      have := List.head_dropWhile_not (p := (· != separator)) (l := cs) hne
      simpa [hd] using this
    have happ := List.takeWhile_append_dropWhile (p := (· != separator)) (l := cs)
    rw [hd, hc] at happ
    exact happ

/-- What is left of a text after a given beginning, if it begins so. -/
def after? : List Char → List Char → Option (List Char)
  | [], cs => some cs
  | _ :: _, [] => none
  | b :: bs, c :: cs => if b = c then after? bs cs else none

theorem after?_eq_some_iff {pattern cs rest : List Char} :
    after? pattern cs = some rest ↔ cs = pattern ++ rest := by
  induction pattern generalizing cs with
  | nil => simp [after?]
  | cons b bs ih =>
    cases cs with
    | nil => simp [after?]
    | cons c cs =>
      rw [after?]
      by_cases hbc : b = c
      · simp [hbc, ih]
      · have hcb : c ≠ b := fun h => hbc h.symm
        simp [hbc, hcb]

/-! ## The character at an offset -/

/-- Names the character at which reading stopped, or the end of the text. -/
def describe : Option Char → String
  | none => "<EOF>"
  | some c => String.singleton c

/-- The span of the character at an offset; empty at the end of the text. -/
def charSpan (offset : Nat) : Option Char → Span
  | none => Span.empty offset
  | some c => Span.ofSize offset c.utf8Size

end DotAttributes.Text
