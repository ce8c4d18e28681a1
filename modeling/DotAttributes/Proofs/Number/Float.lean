import DotAttributes.Proofs.Folding

/-!
# Floating point literals

What can be read as a floating point number is an optional sign in front of digits, with at most
one point and perhaps an exponent, or in front of the name of infinity or of the missing number.
So a literal is made of few characters (`isLiteralChar_of_read?`). A decimal fraction is never
rounded to a pattern that is no number, and keeps its sign (`Decimal.toBinary64_isNaN`,
`Decimal.toBinary64_negative`); what starts with a digit or a point is therefore a number that is
not below zero (`zero_le_of_read?`).
-/

namespace DotAttributes

open Text

-- Powers here are those of `Nat` itself, as in the definition of the numbers.
attribute [local instance (high)] instPowNat

/-! ## Rounding -/

namespace Binary64

theorem nearestMagnitude_le (n d : Nat) : nearestMagnitude n d ≤ infinite := Nat.min_le_right _ _

theorem isNaN_ofNat {negative : Bool} {n : Nat} (h : n ≤ infinite) :
    isNaN ⟨negative, Fin.ofNat _ n⟩ = false := by
  have hmod : n % 2 ^ (63 : Nat) ≤ n := Nat.mod_le _ _
  simp only [isNaN, Fin.val_ofNat, decide_eq_false_iff_not]
  omega

@[simp] theorem isNaN_zero (negative : Bool) : (zero negative).isNaN = false := rfl

@[simp] theorem isNaN_infinity (negative : Bool) : (infinity negative).isNaN = false :=
  isNaN_ofNat (Nat.le_refl _)

@[simp] theorem isNaN_ofRatio (negative : Bool) (n d : Nat) :
    (ofRatio negative n d).isNaN = false := by
  unfold ofRatio
  split
  · rfl
  · exact isNaN_ofNat (nearestMagnitude_le n d)

@[simp] theorem negative_ofRatio (negative : Bool) (n d : Nat) :
    (ofRatio negative n d).negative = negative := by
  unfold ofRatio
  split <;> rfl

end Binary64

namespace Decimal

/-- Rounding leads to a number. -/
theorem toBinary64_isNaN (d : Decimal) : d.toBinary64.isNaN = false := by
  simp only [toBinary64]
  split_ifs <;> simp

/-- Rounding keeps the sign. -/
theorem toBinary64_negative (d : Decimal) : d.toBinary64.negative = d.negative := by
  simp only [toBinary64]
  split_ifs <;> first | rfl | exact Binary64.negative_ofRatio _ _ _

end Decimal

/-! ## Literals of decimal fractions -/

/-- Whether a character may stand in a floating point literal. -/
def isLiteralChar (c : Char) : Bool := c.isAlphanum || c == '.' || c == '+' || c == '-'

theorem isLiteralChar_of_isDigit {c : Char} (h : c.isDigit = true) : isLiteralChar c = true := by
  simp [isLiteralChar, Char.isAlphanum, h]

namespace Decimal

variable {cs : List Char} {negative : Bool}

/-- An optional sign. -/
inductive IsSign : List Char → Prop
  | none : IsSign []
  | plus : IsSign ['+']
  | minus : IsSign ['-']

/-- Nothing, or the mark of an exponent, an optional sign and digits. -/
inductive IsExponent : List Char → Prop
  | none : IsExponent []
  | some {mark : Char} {sign digits : List Char} (hmark : mark = 'e' ∨ mark = 'E')
      (hsign : IsSign sign) (hne : digits ≠ []) (hdigits : ∀ c ∈ digits, c.isDigit = true) :
      IsExponent (mark :: (sign ++ digits))

/-- A literal without its sign: digits, perhaps a point and more digits, at least one digit in all,
and an exponent. -/
structure IsUnsigned (cs whole point fraction exponent : List Char) : Prop where
  text : cs = whole ++ (point ++ (fraction ++ exponent))
  isDigit_whole : ∀ c ∈ whole, c.isDigit = true
  cases_point : (point = [] ∧ fraction = []) ∨ point = ['.']
  isDigit_fraction : ∀ c ∈ fraction, c.isDigit = true
  ne_nil : whole ++ fraction ≠ []
  isExponent : IsExponent exponent

theorem takeSign_append (cs : List Char) : ∃ sign, IsSign sign ∧ cs = sign ++ (takeSign cs).2 := by
  cases cs with
  | nil => exact ⟨[], .none, rfl⟩
  | cons c cs =>
    rw [takeSign_cons]
    split
    · next hminus => exact ⟨['-'], .minus, by rw [hminus]; rfl⟩
    · split
      · next hplus => exact ⟨['+'], .plus, by rw [hplus]; rfl⟩
      · exact ⟨[], .none, rfl⟩

/-- Digits, at least one, are read as the number they stand for. -/
theorem readNatural?_eq_some_iff {n : Nat} : readNatural? cs = some n ↔
    (cs ≠ [] ∧ ∀ c ∈ cs, c.isDigit = true) ∧ ofDigits cs = n := by
  have hdigits : ¬ (cs.isEmpty || !cs.all Char.isDigit) = true ↔
      cs ≠ [] ∧ ∀ c ∈ cs, c.isDigit = true := by
    simp
  rw [← hdigits, readNatural?]
  split
  · next h => simp [h]
  · next h => simp [h]

theorem isExponent_of_readExponent? {e : Int} (h : readExponent? cs = some e) : IsExponent cs := by
  cases cs with
  | nil => exact .none
  | cons c cs =>
    simp only [readExponent?] at h
    split at h
    · next hmark =>
      obtain ⟨sign, hsign, htext⟩ := takeSign_append cs
      cases hnatural : readNatural? (takeSign cs).2 with
      | none =>
        rw [hnatural] at h
        cases h
      | some n =>
        obtain ⟨⟨hne, hdigits⟩, -⟩ := readNatural?_eq_some_iff.1 hnatural
        rw [htext]
        exact .some hmark hsign hne hdigits
    · cases h

/-- The digits behind a point, if there is one, are all that stands there. -/
theorem takeFraction_append (cs : List Char) :
    ∃ point, cs = point ++ ((takeFraction cs).1 ++ (takeFraction cs).2) ∧
      ((point = [] ∧ (takeFraction cs).1 = []) ∨ point = ['.']) ∧
      ∀ c ∈ (takeFraction cs).1, c.isDigit = true := by
  cases cs with
  | nil => exact ⟨[], rfl, .inl ⟨rfl, rfl⟩, nofun⟩
  | cons c cs =>
    rw [takeFraction_cons]
    split
    · next hpoint =>
      refine ⟨['.'], ?_, .inr rfl, fun d hd => List.mem_takeWhile_imp hd⟩
      rw [List.takeWhile_append_dropWhile, hpoint]
      rfl
    · exact ⟨[], rfl, .inl ⟨rfl, rfl⟩, nofun⟩

/-- What is read is written as a literal, and has the sign it is read with. -/
theorem isUnsigned_of_readUnsigned? {x : Decimal} (h : readUnsigned? negative cs = some x) :
    (∃ whole point fraction exponent, IsUnsigned cs whole point fraction exponent) ∧
      x.negative = negative := by
  simp only [readUnsigned?] at h
  split at h
  · cases h
  · next hdigits =>
    obtain ⟨e, he, rfl⟩ := Option.map_eq_some_iff.1 h
    obtain ⟨point, htext, hpoint, hfraction⟩ := takeFraction_append (cs.dropWhile Char.isDigit)
    refine ⟨⟨cs.takeWhile Char.isDigit, point, _, _, ?_, fun c hc => List.mem_takeWhile_imp hc,
      hpoint, hfraction, ?_, isExponent_of_readExponent? he⟩, rfl⟩
    · rw [← htext, List.takeWhile_append_dropWhile]
    · intro hnil
      obtain ⟨hwhole, hnone⟩ := List.append_eq_nil_iff.1 hnil
      exact hdigits (by rw [hwhole, hnone]; rfl)

theorem IsSign.isLiteralChar (h : IsSign cs) : ∀ c ∈ cs, isLiteralChar c = true := by
  cases h with
  | none => exact nofun
  | plus | minus => exact List.forall_mem_singleton.2 rfl

theorem IsExponent.isLiteralChar (h : IsExponent cs) : ∀ c ∈ cs, isLiteralChar c = true := by
  cases h with
  | none => exact nofun
  | some hmark hsign _ hdigits =>
    refine List.forall_mem_cons.2 ⟨?_, List.forall_mem_append.2 ⟨hsign.isLiteralChar, ?_⟩⟩
    · rcases hmark with rfl | rfl <;> decide
    · exact fun c hc => isLiteralChar_of_isDigit (hdigits c hc)

theorem IsUnsigned.isLiteralChar {whole point fraction exponent : List Char}
    (h : IsUnsigned cs whole point fraction exponent) : ∀ c ∈ cs, isLiteralChar c = true := by
  have hpoint : ∀ c ∈ point, DotAttributes.isLiteralChar c = true := by
    rcases h.cases_point with ⟨rfl, -⟩ | rfl
    · exact nofun
    · exact List.forall_mem_singleton.2 rfl
  rw [h.text]
  simp only [List.forall_mem_append]
  exact ⟨fun c hc => isLiteralChar_of_isDigit (h.isDigit_whole c hc), hpoint,
    fun c hc => isLiteralChar_of_isDigit (h.isDigit_fraction c hc), h.isExponent.isLiteralChar⟩

end Decimal

/-! ## Literals of floating point numbers -/

namespace Binary64

variable {cs : List Char} {x : Binary64}

theorem isCaseless_isLiteralChar : IsCaseless isLiteralChar := isCaseless_of_capitals (by decide)

/-- The names of infinity and of the missing number, in small letters. -/
def specialNames : List (List Char) := ["inf".toList, "infinity".toList, "nan".toList]

/-- The names that can be read are those of infinity and of the missing number. -/
theorem mem_of_readName? {negative : Bool} (h : readName? negative cs = some x) :
    foldCase cs ∈ specialNames := by
  simp only [readName?] at h
  split at h
  · next hinf => rcases hinf with hinf | hinf <;> simp [specialNames, hinf]
  · split at h
    · next hnan => simp [specialNames, hnan]
    · cases h

/-- Names start with a letter. -/
theorem exists_letter_of_mem_specialNames (h : foldCase cs ∈ specialNames) :
    ∃ c rest, cs = c :: rest ∧ c.isAlpha = true := by
  have hletters : ∀ name ∈ specialNames, name.head?.any Char.isAlpha = true := by decide
  have hletter := hletters _ h
  cases cs with
  | nil => cases hletter
  | cons c rest =>
    rw [foldCase_cons, List.head?_cons, Option.any_some, isCaseless_isAlpha] at hletter
    exact ⟨c, rest, rfl, hletter⟩

theorem isLiteralChar_of_readName? {negative : Bool} (h : readName? negative cs = some x) :
    ∀ c ∈ cs, isLiteralChar c = true := by
  have hletters : ∀ name ∈ specialNames, name.all isLiteralChar = true := by decide
  rw [← List.all_eq_true, ← all_foldCase isCaseless_isLiteralChar]
  exact hletters _ (mem_of_readName? h)

/-- What is read behind its sign is a decimal fraction or a name. -/
theorem cases_of_read? (h : read? cs = some x) :
    (∃ d, Decimal.readUnsigned? (Decimal.takeSign cs).1 (Decimal.takeSign cs).2 = some d ∧
        x = d.toBinary64) ∨
      readName? (Decimal.takeSign cs).1 (Decimal.takeSign cs).2 = some x := by
  unfold read? read at h
  split at h
  · cases h
  · simp only at h
    split at h
    · next d hd =>
      cases h
      exact Or.inl ⟨d, hd, rfl⟩
    · split at h
      · next y hy =>
        cases h
        exact Or.inr hy
      · cases h

/-- A literal is made of ASCII letters and digits, points and signs. -/
theorem isLiteralChar_of_read? (h : read? cs = some x) : ∀ c ∈ cs, isLiteralChar c = true := by
  obtain ⟨sign, hsign, htext⟩ := Decimal.takeSign_append cs
  rw [htext]
  refine List.forall_mem_append.2 ⟨hsign.isLiteralChar, ?_⟩
  rcases cases_of_read? h with ⟨d, hd, -⟩ | hname
  · obtain ⟨⟨_, _, _, _, hparts⟩, -⟩ := Decimal.isUnsigned_of_readUnsigned? hd
    exact hparts.isLiteralChar
  · exact isLiteralChar_of_readName? hname

/-- A number from zero to one, both included; it is neither infinite nor missing. -/
def IsShare (x : Binary64) : Prop := zero false ≤ x ∧ x ≤ ofRatio false 1 1

instance (x : Binary64) : Decidable x.IsShare := inferInstanceAs (Decidable (_ ∧ _))

/-- Numbers without a sign are not below zero. -/
theorem zero_le_of_negative_eq_false {x : Binary64} (hnumber : x.isNaN = false)
    (hsign : x.negative = false) : zero false ≤ x := by
  refine le_def.2 ⟨rfl, hnumber, ?_⟩
  have hkey : x.key = x.magnitude.val := by simp [key, hsign]
  rw [hkey]
  exact Int.natCast_nonneg _

/-- What starts with a digit or a point is neither a name nor negative. -/
theorem zero_le_of_read? {c : Char} {cs : List Char} {x : Binary64}
    (h : read? (c :: cs) = some x) (hc : c.isDigit = true ∨ c = '.') : zero false ≤ x := by
  have hsign : Decimal.takeSign (c :: cs) = (false, c :: cs) := by
    rw [Decimal.takeSign_cons, if_neg, if_neg]
    all_goals
      rintro rfl
      revert hc
      decide
  have hparts := cases_of_read? h
  rw [hsign] at hparts
  rcases hparts with ⟨d, hd, rfl⟩ | hname
  · refine zero_le_of_negative_eq_false d.toBinary64_isNaN ?_
    rw [d.toBinary64_negative]
    exact (Decimal.isUnsigned_of_readUnsigned? hd).2
  · obtain ⟨d, rest, hcons, hletter⟩ :=
      exists_letter_of_mem_specialNames (mem_of_readName? hname)
    cases hcons
    rcases hc with hdigit | rfl
    · rw [isAlpha_of_isDigit hdigit] at hletter
      cases hletter
    · cases hletter

end Binary64

end DotAttributes
