import DotAttributes.Number.Decimal
import DotAttributes.Proofs.Slice

/-!
# Texts with folded case

Two texts are equal up to the case of ASCII letters if folding makes them the same, so whatever
gives the same for a text and for its folded form gives the same for both of them. Folding moves
nothing: characters keep their number of bytes (`size_foldCase`), and everything that looks for
separators, blanks or digits cuts the folded text where it cuts the text (`takeWhile_foldCase`,
`pieces_foldCase`, `trimAt_foldCase`). The readers of numbers, which know letters in exponents and
in the names of infinity and of the missing number, read the same number from both
(`Binary64.read_foldCase`, `Integer.read_foldCase`).
-/

namespace DotAttributes.Text

/-! ## Characters -/

/-- The capital letters of ASCII. -/
def capitals : List Char := "ABCDEFGHIJKLMNOPQRSTUVWXYZ".toList

/-- Folding changes nothing but capital letters. -/
theorem toLower_eq_or_mem (c : Char) : c.toLower = c ∨ c ∈ capitals := by
  unfold Char.toLower
  split
  · next h =>
    have hcapital : ∀ i : Fin 26, Char.ofNat (65 + i) ∈ capitals := by decide
    have hlow : 65 ≤ c.toNat := h.1
    have hhigh : c.toNat ≤ 90 := h.2
    have hc := hcapital ⟨c.toNat - 65, by omega⟩
    rw [show 65 + (c.toNat - 65) = c.toNat by omega, Char.ofNat_toNat] at hc
    exact Or.inr hc
  · exact Or.inl rfl

/-- A function of characters gives the same for capital letters and small ones. -/
def IsCaseless {β : Type} (f : Char → β) : Prop := ∀ c, f c.toLower = f c

theorem isCaseless_of_capitals {β : Type} {f : Char → β}
    (h : capitals.map (fun c => f c.toLower) = capitals.map f) : IsCaseless f := by
  intro c
  rcases toLower_eq_or_mem c with hc | hc
  · rw [hc]
  · exact List.map_inj_left.1 h c hc

theorem isCaseless_toLower : IsCaseless Char.toLower := isCaseless_of_capitals (by decide)

theorem isCaseless_utf8Size : IsCaseless Char.utf8Size := isCaseless_of_capitals (by decide)

theorem isCaseless_isDigit : IsCaseless Char.isDigit := isCaseless_of_capitals (by decide)

theorem isCaseless_isAlpha : IsCaseless Char.isAlpha := isCaseless_of_capitals (by decide)

theorem isCaseless_isBlank : IsCaseless isBlank := isCaseless_of_capitals (by decide)

/-- Only the character itself is folded to one that is no letter. -/
theorem toLower_eq_iff {c d : Char} (hd : d.isAlpha = false) : c.toLower = d ↔ c = d := by
  have hletters : capitals.all (fun c => c.isAlpha && c.toLower.isAlpha) = true := by decide
  rcases toLower_eq_or_mem c with hc | hc
  · rw [hc]
  · obtain ⟨hcapital, hsmall⟩ := Bool.and_eq_true_iff.1 (List.all_eq_true.1 hletters c hc)
    refine iff_of_false ?_ ?_
    · rintro rfl
      exact Bool.noConfusion (hsmall.symm.trans hd)
    · rintro rfl
      exact Bool.noConfusion (hcapital.symm.trans hd)

theorem toLower_of_isDigit {c : Char} (h : c.isDigit = true) : c.toLower = c := by
  have hdigit : capitals.any Char.isDigit = false := by decide
  rcases toLower_eq_or_mem c with hc | hc
  · exact hc
  · exact absurd h (List.any_eq_false.1 hdigit c hc)

theorem isAlpha_of_isDigit {c : Char} (h : c.isDigit = true) : c.isAlpha = false := by
  have hlast : c.toNat ≤ 57 := (Char.isDigit_iff_toNat.1 h).2
  rw [Bool.eq_false_iff]
  intro hletter
  rcases Bool.or_eq_true_iff.1 hletter with hcapital | hsmall
  · have hfirst : 65 ≤ c.toNat := (of_decide_eq_true hcapital).1
    omega
  · have hfirst : 97 ≤ c.toNat := of_decide_eq_true (Bool.and_eq_true_iff.1 hsmall).1
    omega

theorem isCaseless_bne {d : Char} (hd : d.isAlpha = false) : IsCaseless (· != d) := by
  intro c
  rw [Bool.eq_iff_iff, bne_iff_ne, bne_iff_ne, ne_eq, toLower_eq_iff hd]

theorem isCaseless_beq {d : Char} (hd : d.isAlpha = false) : IsCaseless (· == d) := by
  intro c
  rw [Bool.eq_iff_iff, beq_iff_eq, beq_iff_eq, toLower_eq_iff hd]

/-! ## Texts -/

@[simp] theorem foldCase_nil : foldCase [] = [] := rfl

@[simp] theorem foldCase_cons (c : Char) (cs : List Char) :
    foldCase (c :: cs) = c.toLower :: foldCase cs := rfl

@[simp] theorem foldCase_append (cs ds : List Char) :
    foldCase (cs ++ ds) = foldCase cs ++ foldCase ds := List.map_append

@[simp] theorem isEmpty_foldCase (cs : List Char) : (foldCase cs).isEmpty = cs.isEmpty :=
  List.isEmpty_map

theorem head?_foldCase_eq_iff {d : Char} (hd : d.isAlpha = false) (cs : List Char) :
    (foldCase cs).head? = some d ↔ cs.head? = some d := by
  cases cs with
  | nil => exact Iff.rfl
  | cons c cs => simp [toLower_eq_iff hd]

theorem tail_foldCase (cs : List Char) : (foldCase cs).tail = foldCase cs.tail :=
  List.map_tail.symm

theorem take_foldCase (n : Nat) (cs : List Char) : (foldCase cs).take n = foldCase (cs.take n) :=
  List.map_take.symm

theorem drop_foldCase (n : Nat) (cs : List Char) : (foldCase cs).drop n = foldCase (cs.drop n) :=
  List.map_drop.symm

/-- Only the text itself is folded to one without letters. -/
theorem foldCase_eq_iff {cs ds : List Char} (hds : ds.all fun d => !d.isAlpha) :
    foldCase cs = ds ↔ cs = ds := by
  induction ds generalizing cs with
  | nil => exact List.map_eq_nil_iff
  | cons d ds ih =>
    rw [List.all_cons, Bool.and_eq_true, Bool.not_eq_true'] at hds
    cases cs with
    | nil => simp
    | cons c cs =>
      rw [foldCase_cons, List.cons.injEq, List.cons.injEq, toLower_eq_iff hds.1, ih hds.2]

@[simp] theorem foldCase_foldCase (cs : List Char) : foldCase (foldCase cs) = foldCase cs := by
  rw [foldCase, foldCase, List.map_map]
  exact List.map_congr_left fun c _ => isCaseless_toLower c

@[simp] theorem size_foldCase (cs : List Char) : size (foldCase cs) = size cs := by
  induction cs with
  | nil => rfl
  | cons c cs ih => rw [foldCase_cons, size_cons, size_cons, ih, isCaseless_utf8Size]

/-- Digits are folded to themselves. -/
theorem foldCase_of_isDigit {cs : List Char} (h : cs.all Char.isDigit = true) :
    foldCase cs = cs := by
  rw [foldCase]
  refine Eq.trans (List.map_congr_left fun c hc => ?_) (List.map_id cs)
  exact toLower_of_isDigit (List.all_eq_true.1 h c hc)

section

variable {p : Char → Bool} (hp : IsCaseless p) (cs : List Char)

include hp

theorem comp_toLower : p ∘ Char.toLower = p := funext hp

theorem all_foldCase : (foldCase cs).all p = cs.all p := by
  rw [foldCase, List.all_map, comp_toLower hp]

theorem any_foldCase : (foldCase cs).any p = cs.any p := by
  rw [foldCase, List.any_map, comp_toLower hp]

theorem takeWhile_foldCase : (foldCase cs).takeWhile p = foldCase (cs.takeWhile p) := by
  rw [foldCase, List.takeWhile_map, comp_toLower hp, foldCase]

theorem dropWhile_foldCase : (foldCase cs).dropWhile p = foldCase (cs.dropWhile p) := by
  rw [foldCase, List.dropWhile_map, comp_toLower hp, foldCase]

theorem pieces_foldCase : pieces p (foldCase cs) = (pieces p cs).map foldCase := by
  induction cs with
  | nil => rfl
  | cons c cs ih =>
    rw [foldCase_cons, pieces, pieces, ih, hp c]
    split
    · rfl
    · cases pieces p cs <;> rfl

end

theorem withOffsets_foldCase (offset : Nat) (parts : List (List Char)) :
    withOffsets offset (parts.map foldCase) =
      (withOffsets offset parts).map fun part => (part.1, foldCase part.2) := by
  induction parts generalizing offset with
  | nil => rfl
  | cons part parts ih =>
    rw [List.map_cons, withOffsets, withOffsets, size_foldCase, ih, List.map_cons]

theorem splitFirst?_foldCase {separator : Char} (hseparator : separator.isAlpha = false)
    (cs : List Char) : splitFirst? separator (foldCase cs) =
      (splitFirst? separator cs).map fun (before, after) => (foldCase before, foldCase after) := by
  have hcaseless := isCaseless_bne hseparator
  unfold splitFirst?
  rw [dropWhile_foldCase hcaseless, takeWhile_foldCase hcaseless]
  cases cs.dropWhile (· != separator) <;> rfl

theorem trim_foldCase (cs : List Char) : trim (foldCase cs) = foldCase (trim cs) := by
  have hreverse (ds : List Char) : (foldCase ds).reverse = foldCase ds.reverse :=
    List.map_reverse.symm
  rw [trim, trimStart, trimEnd, dropWhile_foldCase isCaseless_isBlank, hreverse,
    dropWhile_foldCase isCaseless_isBlank, hreverse]
  rfl

theorem trimAt_foldCase (offset : Nat) (cs : List Char) :
    trimAt offset (foldCase cs) = (trimAt offset cs).map foldCase := by
  rw [trimAt, trim_foldCase, takeWhile_foldCase isCaseless_isBlank, size_foldCase, size_foldCase]
  rfl

/-! ## Comparing texts -/

theorem sameIgnoringCase_foldCase (cs ds : List Char) :
    sameIgnoringCase cs (foldCase ds) = sameIgnoringCase cs ds := by
  rw [sameIgnoringCase, foldCase_foldCase, sameIgnoringCase]

theorem containsIgnoringCase_foldCase (words : List String) (cs : List Char) :
    containsIgnoringCase words (foldCase cs) = containsIgnoringCase words cs := by
  simp only [containsIgnoringCase, sameIgnoringCase_foldCase]

/-! ## Strings -/

/-- Replaces the capital letters of ASCII in a string by small ones. -/
def foldString (s : String) : String := String.ofList (foldCase s.toList)

theorem toList_foldString (s : String) : (foldString s).toList = foldCase s.toList :=
  String.toList_ofList

theorem foldString_eq_iff {s t : String} :
    foldString s = foldString t ↔ sameIgnoringCase s.toList t.toList = true := by
  rw [foldString, foldString, String.ofList_inj, sameIgnoringCase_iff]

end DotAttributes.Text

namespace DotAttributes

open Text

/-! ## Outcomes of readers -/

/-- A reader that gives the same up to `f`, whatever it finds wrong, fails on both sides or on
none. -/
theorem cases_of_toOption_eq_map {ε α : Type} {f : α → α} {x y : Except ε α}
    (h : x.toOption = y.toOption.map f) :
    (∃ e e', x = .error e ∧ y = .error e') ∨ ∃ v, x = .ok (f v) ∧ y = .ok v := by
  cases x with
  | error e =>
    cases y with
    | error e' => exact Or.inl ⟨e, e', rfl, rfl⟩
    | ok v => cases h
  | ok u =>
    cases y with
    | error e' => cases h
    | ok v =>
      cases h
      exact Or.inr ⟨v, rfl, rfl⟩

/-! ## Numbers -/

namespace Decimal

theorem takeSign_cons (c : Char) (cs : List Char) : takeSign (c :: cs) =
    if c = '-' then (true, cs) else if c = '+' then (false, cs) else (false, c :: cs) := by
  unfold takeSign
  split <;> simp_all

theorem takeSign_foldCase (cs : List Char) :
    takeSign (foldCase cs) = ((takeSign cs).1, foldCase (takeSign cs).2) := by
  cases cs with
  | nil => rfl
  | cons c cs =>
    rw [foldCase_cons, takeSign_cons, takeSign_cons, if_congr (toLower_eq_iff rfl) rfl rfl,
      if_congr (toLower_eq_iff rfl) rfl rfl]
    split_ifs <;> rfl

theorem takeFraction_cons (c : Char) (cs : List Char) : takeFraction (c :: cs) =
    if c = '.' then (cs.takeWhile Char.isDigit, cs.dropWhile Char.isDigit) else ([], c :: cs) := by
  unfold takeFraction
  split <;> simp_all

theorem takeFraction_foldCase (cs : List Char) :
    takeFraction (foldCase cs) = (foldCase (takeFraction cs).1, foldCase (takeFraction cs).2) := by
  cases cs with
  | nil => rfl
  | cons c cs =>
    rw [foldCase_cons, takeFraction_cons, takeFraction_cons,
      if_congr (toLower_eq_iff rfl) rfl rfl, takeWhile_foldCase isCaseless_isDigit,
      dropWhile_foldCase isCaseless_isDigit]
    split_ifs <;> rfl

theorem readNatural?_foldCase (cs : List Char) : readNatural? (foldCase cs) = readNatural? cs := by
  rw [readNatural?, isEmpty_foldCase, all_foldCase isCaseless_isDigit, readNatural?]
  split
  · rfl
  · next h =>
    simp only [Bool.or_eq_true, Bool.not_eq_true', not_or, Bool.not_eq_false] at h
    rw [foldCase_of_isDigit h.2]

theorem readExponent?_foldCase (cs : List Char) :
    readExponent? (foldCase cs) = readExponent? cs := by
  cases cs with
  | nil => rfl
  | cons c cs =>
    have hmark : IsCaseless fun c : Char => decide (c = 'e' ∨ c = 'E') :=
      isCaseless_of_capitals (by decide)
    have hiff : (c.toLower = 'e' ∨ c.toLower = 'E') ↔ (c = 'e' ∨ c = 'E') :=
      decide_eq_decide.1 (hmark c)
    rw [foldCase_cons, readExponent?, readExponent?, if_congr hiff rfl rfl, takeSign_foldCase]
    simp only [readNatural?_foldCase]

/-- A literal may be written with a small or with a capital letter in front of its exponent. -/
theorem readUnsigned?_foldCase (negative : Bool) (cs : List Char) :
    readUnsigned? negative (foldCase cs) = readUnsigned? negative cs := by
  have hall (ds : List Char) : (ds.takeWhile Char.isDigit).all Char.isDigit = true :=
    List.all_takeWhile
  have hfraction : (takeFraction (cs.dropWhile Char.isDigit)).1.all Char.isDigit = true := by
    unfold takeFraction
    split
    · exact hall _
    · rfl
  simp only [readUnsigned?, takeWhile_foldCase isCaseless_isDigit,
    dropWhile_foldCase isCaseless_isDigit, takeFraction_foldCase, readExponent?_foldCase,
    foldCase_of_isDigit (hall cs), foldCase_of_isDigit hfraction]

end Decimal

/-- A floating point literal reads as the same number in either case. -/
theorem Binary64.read_foldCase (cs : List Char) : read (foldCase cs) = read cs := by
  simp only [read, isEmpty_foldCase, Decimal.takeSign_foldCase, Decimal.readUnsigned?_foldCase,
    readName?, foldCase_foldCase]

theorem Binary64.read?_foldCase (cs : List Char) : read? (foldCase cs) = read? cs := by
  rw [read?, read_foldCase, read?]

namespace Integer

theorem readDigits_foldCase (negative : Bool) (acc : Nat) (cs : List Char) :
    readDigits negative acc (foldCase cs) = readDigits negative acc cs := by
  induction cs generalizing acc with
  | nil => rfl
  | cons c cs ih =>
    rw [foldCase_cons, readDigits, readDigits, isCaseless_isDigit]
    by_cases hc : c.isDigit
    · rw [if_pos hc, if_pos hc, toLower_of_isDigit hc, ih]
    · rw [if_neg hc, if_neg hc]

theorem read_cons (c : Char) (cs : List Char) : read (c :: cs) =
    if c = '-' then if cs = [] then .error .badDigit else readDigits true 0 cs
    else if c = '+' then if cs = [] then .error .badDigit else readDigits false 0 cs
    else readDigits false 0 (c :: cs) := by
  unfold read
  split <;> simp_all

theorem read_foldCase (cs : List Char) : read (foldCase cs) = read cs := by
  cases cs with
  | nil => rfl
  | cons c cs =>
    have hnil : foldCase cs = [] ↔ cs = [] := List.map_eq_nil_iff
    rw [foldCase_cons, read_cons, read_cons, if_congr (toLower_eq_iff rfl) rfl rfl,
      if_congr (toLower_eq_iff rfl) rfl rfl, if_congr hnil rfl rfl, if_congr hnil rfl rfl,
      ← foldCase_cons, readDigits_foldCase, readDigits_foldCase, readDigits_foldCase]

end Integer

end DotAttributes
