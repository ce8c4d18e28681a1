import DotAttributes.Proofs.Number.Float
import Mathlib.Data.List.Basic

/-!
# Plain decimal forms

A natural number has one decimal form without a zero in front of it, zero itself being written with
one digit. Digits in this form are those of the number they are read as (`toDigits_ofDigits`,
`readNatural?_toDigits`); no number but zero starts with a zero (`head?_toDigits_ne`), and folding
case makes no text a number (`foldCase_eq_toDigits_iff`).
-/

namespace DotAttributes

open Text

namespace Decimal

variable {c : Char} {cs : List Char} {n : Nat}

theorem digitValue_add (h : c.isDigit = true) : Integer.digitValue c + 48 = c.toNat :=
  Nat.sub_add_cancel (Char.isDigit_iff_toNat.1 h).1

theorem digitValue_lt (h : c.isDigit = true) : Integer.digitValue c < 10 := by
  have hlast : c.toNat ≤ 57 := (Char.isDigit_iff_toNat.1 h).2
  have hvalue := digitValue_add h
  omega

/-- A digit is written for its value. -/
theorem digitChar_digitValue (h : c.isDigit = true) : (Integer.digitValue c).digitChar = c := by
  rw [← Char.toNat_inj, Nat.toNat_digitChar_of_lt_ten (digitValue_lt h), Nat.add_comm,
    digitValue_add h]

/-- Digits behind a number that is not zero are written behind it. -/
theorem toDigits_foldl (hdigits : ∀ c ∈ cs, c.isDigit = true) (hpos : 0 < n) :
    Nat.toDigits 10 (cs.foldl (fun n c => 10 * n + Integer.digitValue c) n) =
      Nat.toDigits 10 n ++ cs := by
  induction cs generalizing n with
  | nil => rw [List.foldl_nil, List.append_nil]
  | cons c cs ih =>
    obtain ⟨hc, hcs⟩ := List.forall_mem_cons.1 hdigits
    have hlt := digitValue_lt hc
    rw [List.foldl_cons, ih hcs (by omega), ← Nat.toDigits_append_toDigits (by decide) hpos hlt,
      Nat.toDigits_of_lt_base hlt, digitChar_digitValue hc, List.append_assoc,
      List.singleton_append]

/-- Digits without a zero in front, except for zero itself, are the decimal form of the number they
stand for. -/
theorem toDigits_ofDigits (hne : cs ≠ []) (hdigits : ∀ c ∈ cs, c.isDigit = true)
    (hplain : cs.length = 1 ∨ cs.head? ≠ some '0') : Nat.toDigits 10 (ofDigits cs) = cs := by
  match cs, hne, hplain with
  | [c], _, _ =>
    obtain ⟨hc, -⟩ := List.forall_mem_cons.1 hdigits
    have hvalue : ofDigits [c] = Integer.digitValue c := by simp [ofDigits]
    rw [hvalue, Nat.toDigits_of_lt_base (digitValue_lt hc), digitChar_digitValue hc]
  | c :: d :: cs, _, hplain =>
    obtain ⟨hc, hcs⟩ := List.forall_mem_cons.1 hdigits
    have hzero : c ≠ '0' := by simpa using hplain
    have hpos : 0 < Integer.digitValue c := by
      rw [Nat.pos_iff_ne_zero]
      intro hvalue
      apply hzero
      rw [← digitChar_digitValue hc, hvalue]
      rfl
    have hvalue : ofDigits (c :: d :: cs) =
        (d :: cs).foldl (fun n c => 10 * n + Integer.digitValue c) (Integer.digitValue c) := by
      rw [ofDigits, List.foldl_cons, Nat.mul_zero, Nat.zero_add]
    rw [hvalue, toDigits_foldl hcs hpos, Nat.toDigits_of_lt_base (digitValue_lt hc),
      digitChar_digitValue hc, List.singleton_append]

theorem ofDigits_toDigits (n : Nat) : ofDigits (Nat.toDigits 10 n) = n :=
  Nat.ofDigitChars_ten_toDigits

theorem isDigit_of_mem_toDigits : ∀ c ∈ Nat.toDigits 10 n, c.isDigit = true :=
  fun _ hc => Nat.isDigit_of_mem_toDigits (by decide) (by decide) hc

/-- No number but zero has a zero in front. -/
theorem head?_toDigits_ne (hpos : 0 < n) : (Nat.toDigits 10 n).head? ≠ some '0' := by
  induction n using Nat.base_induction 10 (by decide) with
  | single m hm =>
    rw [Nat.toDigits_of_lt_base hm, List.head?_cons, ne_eq, Option.some.injEq,
      Nat.digitChar_eq_zero]
    omega
  | digit m k hk hm ih =>
    rw [← Nat.toDigits_append_toDigits (by decide) hm hk,
      List.head?_append_of_ne_nil _ Nat.toDigits_ne_nil]
    exact ih hm

theorem readNatural?_toDigits (n : Nat) : readNatural? (Nat.toDigits 10 n) = some n :=
  readNatural?_eq_some_iff.2
    ⟨⟨Nat.toDigits_ne_nil, isDigit_of_mem_toDigits⟩, ofDigits_toDigits n⟩

theorem foldCase_toDigits (n : Nat) : foldCase (Nat.toDigits 10 n) = Nat.toDigits 10 n :=
  foldCase_of_isDigit (List.all_eq_true.2 isDigit_of_mem_toDigits)

/-- Folding makes no text a number. -/
theorem foldCase_eq_toDigits_iff :
    foldCase cs = Nat.toDigits 10 n ↔ cs = Nat.toDigits 10 n := by
  constructor
  · intro h
    have hdigits : cs.all Char.isDigit = true := by
      rw [← all_foldCase isCaseless_isDigit, h]
      exact List.all_eq_true.2 isDigit_of_mem_toDigits
    rwa [foldCase_of_isDigit hdigits] at h
  · rintro rfl
    exact foldCase_toDigits n

end Decimal

end DotAttributes
