import DotAttributes.Proofs.Checks
import DotAttributes.Proofs.Number.Float

/-!
# Doubles

A double is read exactly from a literal in digits (`Decimal.exists_read?_iff`): where a decimal
fraction is read no letter stands in front, and where a name would be read one does, so the test for
letters takes away the names and nothing else (`read_double_of_read?`,
`read_double_of_read?_eq_none`). What is left is always a number, as are the bounds of the table, and
of two numbers one is below the other or not (`Binary64.le_of_not_lt`). So the check of a double
against its bound comes to a verdict on every value (`read_double_iff`).
-/

namespace DotAttributes

open Text

/-! ## Literals -/

namespace Decimal

variable {cs sign : List Char} {negative : Bool}

theorem takeSign_of_isSign (hsign : IsSign sign) (hcs : ∀ c ∈ cs.head?, c ≠ '-' ∧ c ≠ '+') :
    (takeSign (sign ++ cs)).2 = cs := by
  cases hsign with
  | none =>
    cases cs with
    | nil => rfl
    | cons c cs =>
      obtain ⟨hminus, hplus⟩ := hcs c rfl
      rw [List.nil_append, takeSign_cons, if_neg hminus, if_neg hplus]
  | plus | minus => rfl

theorem ne_sign_of_isDigit {c : Char} (h : c.isDigit = true) : c ≠ '-' ∧ c ≠ '+' := by
  constructor <;> rintro rfl <;> cases h

theorem exists_readExponent? (h : IsExponent cs) : ∃ e, readExponent? cs = some e := by
  cases h with
  | none => exact ⟨0, rfl⟩
  | some hmark hsign hne hdigits =>
    have hbehind := takeSign_of_isSign hsign fun c hc =>
      ne_sign_of_isDigit (hdigits c (List.mem_of_head? hc))
    have hnatural := readNatural?_eq_some_iff.2 ⟨⟨hne, hdigits⟩, rfl⟩
    simp only [readExponent?, if_pos hmark, hbehind, hnatural]
    exact ⟨_, rfl⟩

/-- An exponent does not go on with what stands in front of it. -/
theorem IsExponent.head? (h : IsExponent cs) : ∀ c ∈ cs.head?, c.isDigit = false ∧ c ≠ '.' := by
  cases h with
  | none => exact nofun
  | some hmark _ _ _ =>
    rintro c hc
    cases hc
    rcases hmark with rfl | rfl <;> decide

variable {whole point fraction exponent : List Char}

/-- A point and digits, or neither, are taken off the front. -/
theorem takeFraction_of_isUnsigned (h : IsUnsigned cs whole point fraction exponent) :
    takeFraction (point ++ (fraction ++ exponent)) = (fraction, exponent) := by
  have hexponent : ∀ c ∈ exponent.head?, c.isDigit = false := fun c hc =>
    (h.isExponent.head? c hc).1
  rcases h.cases_point with ⟨rfl, rfl⟩ | rfl
  · cases exponent with
    | nil => rfl
    | cons c cs =>
      rw [List.nil_append, List.nil_append, takeFraction_cons,
        if_neg (h.isExponent.head? c rfl).2]
  · rw [List.singleton_append, takeFraction_cons, if_pos rfl,
      takeWhile_append_of_all h.isDigit_fraction hexponent,
      dropWhile_append_of_all h.isDigit_fraction hexponent]

/-- Every literal is read. -/
theorem IsUnsigned.exists_readUnsigned? (h : IsUnsigned cs whole point fraction exponent) :
    ∃ x, readUnsigned? negative cs = some x := by
  have hbehind : ∀ c ∈ (point ++ (fraction ++ exponent)).head?, c.isDigit = false := by
    rcases h.cases_point with ⟨rfl, rfl⟩ | rfl
    · exact fun c hc => (h.isExponent.head? c hc).1
    · intro c hc
      cases hc
      rfl
  have hsome : (whole.isEmpty && fraction.isEmpty) = false := by
    rw [Bool.eq_false_iff, ne_eq, Bool.and_eq_true, List.isEmpty_iff, List.isEmpty_iff,
      ← List.append_eq_nil_iff]
    exact h.ne_nil
  obtain ⟨e, he⟩ := exists_readExponent? h.isExponent
  rw [h.text]
  simp only [readUnsigned?, takeWhile_append_of_all h.isDigit_whole hbehind,
    dropWhile_append_of_all h.isDigit_whole hbehind, takeFraction_of_isUnsigned h, hsome, he]
  exact ⟨_, rfl⟩

/-- A literal without its sign starts with a digit or a point. -/
theorem IsUnsigned.exists_head (h : IsUnsigned cs whole point fraction exponent) :
    ∃ c rest, cs = c :: rest ∧ (c.isDigit = true ∨ c = '.') := by
  cases whole with
  | nil =>
    rcases h.cases_point with ⟨-, hfraction⟩ | rfl
    · exact absurd hfraction h.ne_nil
    · exact ⟨'.', fraction ++ exponent, h.text, .inr rfl⟩
  | cons c whole =>
    exact ⟨c, _, h.text, .inl (h.isDigit_whole c List.mem_cons_self)⟩

/-- The literal of a decimal fraction: an optional sign and a literal without one. -/
def IsLiteral (cs : List Char) : Prop :=
  ∃ sign body whole point fraction exponent, cs = sign ++ body ∧ IsSign sign ∧
    IsUnsigned body whole point fraction exponent

/-- **Literals.** A decimal fraction is read exactly from the literals. -/
theorem exists_read?_iff : (∃ x, read? cs = some x) ↔ IsLiteral cs := by
  constructor
  · rintro ⟨x, hread⟩
    obtain ⟨sign, hsign, htext⟩ := takeSign_append cs
    obtain ⟨⟨whole, point, fraction, exponent, hbody⟩, -⟩ := isUnsigned_of_readUnsigned? hread
    exact ⟨sign, _, whole, point, fraction, exponent, htext, hsign, hbody⟩
  · rintro ⟨sign, body, whole, point, fraction, exponent, rfl, hsign, hbody⟩
    have hbehind : (takeSign (sign ++ body)).2 = body := by
      obtain ⟨c, rest, rfl, hc⟩ := hbody.exists_head
      refine takeSign_of_isSign hsign fun d hd => ?_
      cases hd
      rcases hc with hdigit | rfl
      · exact ne_sign_of_isDigit hdigit
      · decide
    obtain ⟨x, hx⟩ := hbody.exists_readUnsigned?
    refine ⟨x, ?_⟩
    simp only [read?, hbehind]
    exact hx

end Decimal

/-! ## Doubles -/

namespace Number

variable {cs signs : List Char}

theorem isSpelledOut_append (hsigns : ∀ c ∈ signs, c = '+' ∨ c = '-') (cs : List Char) :
    isSpelledOut (signs ++ cs) = isSpelledOut cs := by
  have hdrop : ∀ c ∈ signs, (c == '+' || c == '-') = true := fun c hc => by
    simpa using hsigns c hc
  rw [isSpelledOut, isSpelledOut, List.dropWhile_append_of_pos hdrop]

theorem isSpelledOut_cons {c : Char} (hplus : c ≠ '+') (hminus : c ≠ '-') (cs : List Char) :
    isSpelledOut (c :: cs) = c.isAlpha := by
  simp [isSpelledOut, hplus, hminus]

/-- Names are spelled out. -/
theorem isSpelledOut_of_mem_specialNames (h : foldCase cs ∈ Binary64.specialNames) :
    isSpelledOut cs = true := by
  obtain ⟨c, rest, rfl, hletter⟩ := Binary64.exists_letter_of_mem_specialNames h
  rw [isSpelledOut_cons _ _, hletter]
  all_goals
    rintro rfl
    cases hletter

theorem isSpelledOut_of_isSign {sign : List Char} (hsign : Decimal.IsSign sign) (cs : List Char) :
    isSpelledOut (sign ++ cs) = isSpelledOut cs := by
  refine isSpelledOut_append ?_ cs
  cases hsign with
  | none => exact nofun
  | plus | minus => simp

/-- Literals are not spelled out. -/
theorem isSpelledOut_of_isLiteral (h : Decimal.IsLiteral cs) : isSpelledOut cs = false := by
  obtain ⟨sign, body, whole, point, fraction, exponent, rfl, hsign, hbody⟩ := h
  obtain ⟨c, rest, rfl, hc⟩ := hbody.exists_head
  rw [isSpelledOut_of_isSign hsign]
  rcases hc with hdigit | rfl
  · obtain ⟨hminus, hplus⟩ := Decimal.ne_sign_of_isDigit hdigit
    rw [isSpelledOut_cons hplus hminus, isAlpha_of_isDigit hdigit]
  · rfl

theorem read_double_of_read? {x : Decimal} (h : Decimal.read? cs = some x) :
    read .double cs = .ok (.double x.toBinary64) := by
  have hspelled := isSpelledOut_of_isLiteral (Decimal.exists_read?_iff.1 ⟨x, h⟩)
  have hne : cs.isEmpty = false := by
    cases cs with
    | nil => cases h
    | cons c cs => rfl
  have hbody : Decimal.readUnsigned? (Decimal.takeSign cs).1 (Decimal.takeSign cs).2 = some x := h
  simp [read, hspelled, Binary64.read, hne, hbody]

theorem read_double_of_read?_eq_none (h : Decimal.read? cs = none) :
    read .double cs = .error (.float (if cs = [] then .empty else .invalid)) := by
  have hbody : Decimal.readUnsigned? (Decimal.takeSign cs).1 (Decimal.takeSign cs).2 = none := h
  cases hspelled : isSpelledOut cs with
  | true =>
    have hne : cs ≠ [] := by
      rintro rfl
      cases hspelled
    simp [read, hspelled, hne]
  | false =>
    have hname : Binary64.readName? (Decimal.takeSign cs).1 (Decimal.takeSign cs).2 = none := by
      rw [Option.eq_none_iff_forall_ne_some]
      intro x hx
      obtain ⟨sign, hsign, htext⟩ := Decimal.takeSign_append cs
      rw [htext, isSpelledOut_of_isSign hsign,
        isSpelledOut_of_mem_specialNames (Binary64.mem_of_readName? hx)] at hspelled
      cases hspelled
    cases cs with
    | nil => rfl
    | cons c cs => simp [read, hspelled, Binary64.read, hbody, hname]

/-- Doubles are numbers. -/
theorem exists_double_of_read {n : Number} (h : read .double cs = .ok n) :
    ∃ x : Binary64, n = .double x ∧ x.isNaN = false := by
  cases hread : Decimal.read? cs with
  | none =>
    rw [read_double_of_read?_eq_none hread] at h
    cases h
  | some d =>
    rw [read_double_of_read? hread] at h
    cases h
    exact ⟨_, rfl, d.toBinary64_isNaN⟩

/-- **Doubles.** A double is read exactly from a literal in digits. -/
theorem exists_read_double_iff : (∃ n, read .double cs = .ok n) ↔ Decimal.IsLiteral cs := by
  rw [← Decimal.exists_read?_iff]
  cases hread : Decimal.read? cs with
  | none => simp [read_double_of_read?_eq_none hread]
  | some d => simp [read_double_of_read? hread]

end Number

/-! ## Bounds -/

theorem Binary64.le_of_not_lt {x y : Binary64} (hx : x.isNaN = false) (hy : y.isNaN = false)
    (h : ¬ x < y) : y ≤ x := by
  refine le_def.2 ⟨hy, hx, Int.not_lt.1 fun hkey => ?_⟩
  exact h (lt_def.2 ⟨hx, hy, hkey⟩)

theorem Binary64.not_lt_of_le {x y : Binary64} (h : y ≤ x) : ¬ x < y := fun hlt =>
  Int.not_lt.2 (le_def.1 h).2.2 (lt_def.1 hlt).2.2

/-- The bounds of the table are numbers. -/
theorem AttributeType.isNaN_bound {kind : ElementKind} {name : String} {bound : Binary64}
    (h : of kind name = .number (.double bound)) : bound.isNaN = false := by
  have hrow : ∀ row ∈ table, ∀ bound, row.type = .number (.double bound) → bound.isNaN = false := by
    simp [table, atLeast, natural]
  exact of_mem (P := fun type => ∀ bound, type = .number (.double bound) → bound.isNaN = false)
    hrow nofun kind name bound h

/-! ## The check against a bound -/

variable {bound : Binary64} (a : Attribute)

/-- What the check of a double comes to where the bound is a number. -/
theorem checkNumber_double_cases (hbound : bound.isNaN = false) :
    (¬ Decimal.IsLiteral a.chars ∧
        ∃ detail, checkNumber (.double bound) a = [a.notReadable "double" detail]) ∨
      (∃ x, Number.read .double a.chars = .ok (.double x) ∧ x < bound ∧
        checkNumber (.double bound) a = [.value a a.valueSpan (.belowBound (.double bound))]) ∨
      ∃ x, Number.read .double a.chars = .ok (.double x) ∧ bound ≤ x ∧
        checkNumber (.double bound) a = [] := by
  cases hread : Number.read .double a.chars with
  | error fault =>
    refine .inl ⟨fun hliteral => ?_, fault.detail, ?_⟩
    · obtain ⟨n, hn⟩ := Number.exists_read_double_iff.2 hliteral
      rw [hread] at hn
      cases hn
    · simp only [checkNumber, Number.kind, hread, NumberKind.name]
  | ok n =>
    obtain ⟨x, rfl, hx⟩ := Number.exists_double_of_read hread
    have hcheck : checkNumber (.double bound) a =
        if x < bound then [.value a a.valueSpan (.belowBound (.double bound))] else [] := by
      simp only [checkNumber, Number.kind, hread]
      rfl
    rw [hcheck]
    by_cases hlt : x < bound
    · exact .inr (.inl ⟨x, rfl, hlt, if_pos hlt⟩)
    · exact .inr (.inr ⟨x, rfl, Binary64.le_of_not_lt hx hbound hlt, if_neg hlt⟩)

namespace Number

/-- **Doubles.** A double is read exactly from a literal in digits, and is a number; the names of
infinity and of the missing number, with whatever signs in front, are refused. So the check against a
bound of the table finds that the value is not a double, or that it is below the bound, or nothing,
the last exactly where the value is a double that is not below the bound. -/
theorem read_double_iff (cs : List Char) :
    ((∃ n, read .double cs = .ok n) ↔ Decimal.IsLiteral cs) ∧
      (∀ n, read .double cs = .ok n → ∃ x : Binary64, n = .double x ∧ x.isNaN = false) ∧
      (∀ signs name, cs = signs ++ name → (∀ c ∈ signs, c = '+' ∨ c = '-') →
        foldCase name ∈ Binary64.specialNames → read .double cs = .error (.float .invalid)) ∧
      ∀ kind name bound, AttributeType.of kind name = .number (.double bound) →
        ∀ a : Attribute, a.chars = cs →
          ((∃ detail, checkNumber (.double bound) a = [a.notReadable "double" detail]) ↔
            ¬ Decimal.IsLiteral cs) ∧
          (checkNumber (.double bound) a = [.value a a.valueSpan (.belowBound (.double bound))] ↔
            ∃ x, read .double cs = .ok (.double x) ∧ x < bound) ∧
          (checkNumber (.double bound) a = [] ↔
            ∃ x, read .double cs = .ok (.double x) ∧ bound ≤ x) ∧
          ((∃ detail, checkNumber (.double bound) a = [a.notReadable "double" detail]) ∨
            checkNumber (.double bound) a = [.value a a.valueSpan (.belowBound (.double bound))] ∨
            checkNumber (.double bound) a = []) := by
  refine ⟨exists_read_double_iff, fun n => exists_double_of_read, ?_, ?_⟩
  · rintro signs name rfl hsigns hname
    have hspelled : isSpelledOut (signs ++ name) = true := by
      rw [isSpelledOut_append hsigns, isSpelledOut_of_mem_specialNames hname]
    rw [read, if_pos hspelled]
  · rintro kind name bound htype a rfl
    have hnot (hliteral : ¬ Decimal.IsLiteral a.chars) (x : Binary64) :
        read .double a.chars ≠ .ok (.double x) := fun hread =>
      hliteral (exists_read_double_iff.1 ⟨_, hread⟩)
    have hliteral {x : Binary64} (hread : read .double a.chars = .ok (.double x)) :
        Decimal.IsLiteral a.chars := exists_read_double_iff.1 ⟨_, hread⟩
    rcases checkNumber_double_cases a (AttributeType.isNaN_bound htype) with
      ⟨hno, detail, hcheck⟩ | ⟨x, hread, hlt, hcheck⟩ | ⟨x, hread, hle, hcheck⟩
    · simp [hcheck, Attribute.notReadable, hno, hnot hno]
    · have hnle : ¬ bound ≤ x := fun hle => Binary64.not_lt_of_le hle hlt
      simp [hcheck, Attribute.notReadable, hread, hliteral hread, hlt, hnle]
    · simp [hcheck, Attribute.notReadable, hread, hliteral hread, hle, Binary64.not_lt_of_le hle]

/-- The width of a line. -/
def thinLine : Attribute := .writtenAt 0 .quoted "penwidth" "-2.0"

theorem read_double_iff_thinLine :
    read .double "+-NaN".toList = .error (.float .invalid) ∧
      (∃ x, double (Decimal.toBinary64 ⟨true, 20, -1⟩) = double x ∧ x.isNaN = false) ∧
      checkNumber (.double (.ofRatio false 0 1)) thinLine =
        [.value thinLine ⟨1, 5⟩ (.belowBound (.double (.ofRatio false 0 1)))] := by
  have hread : read .double "-2.0".toList = .ok (.double (Decimal.toBinary64 ⟨true, 20, -1⟩)) := by
    decide +kernel
  obtain ⟨-, -, hspelled, -⟩ := read_double_iff "+-NaN".toList
  obtain ⟨-, hnumber, -, hcheck⟩ := read_double_iff "-2.0".toList
  refine ⟨hspelled ['+', '-'] "NaN".toList rfl (by simp) (by decide), hnumber _ hread, ?_⟩
  obtain ⟨-, hbelow, -⟩ :=
    hcheck .edge "penwidth" (.ofRatio false 0 1) (by decide +kernel) thinLine rfl
  exact hbelow.2 ⟨_, hread, by decide +kernel⟩

end Number

end DotAttributes
