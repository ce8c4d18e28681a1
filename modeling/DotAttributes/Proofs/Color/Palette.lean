import DotAttributes.Color.Scheme
import DotAttributes.Proofs.Number.Natural

/-!
# Members of palettes

The colors of a Brewer scheme, and the shades of the names of `x11` that have some, are numbers in
their plain decimal form, which is the only form that is read (`readIndex?_eq_some_iff`): other digits
in front of them, however many, make another number or none. No name that is numbered ends with a
digit, so the number behind a name is all digits that stand there, and the scheme has exactly the
names of its tables and the numbered ones (`isX11_iff`).
-/

namespace DotAttributes

open Text

namespace Scheme

/-! ## Indices -/

/-- **Numbers.** An index is read exactly from its plain decimal form, and reaches up to 255. -/
theorem readIndex?_eq_some_iff {cs : List Char} {n : Nat} :
    readIndex? cs = some n ↔ n ≤ 255 ∧ cs = Nat.toDigits 10 n := by
  constructor
  · intro h
    unfold readIndex? at h
    split at h
    · next m hnatural =>
      split at h
      · next hplain =>
        cases h
        obtain ⟨⟨hne, hdigits⟩, rfl⟩ := Decimal.readNatural?_eq_some_iff.1 hnatural
        exact ⟨hplain.2, (Decimal.toDigits_ofDigits hne hdigits hplain.1).symm⟩
      · cases h
    · cases h
  · rintro ⟨hle, rfl⟩
    have hplain : (Nat.toDigits 10 n).length = 1 ∨ (Nat.toDigits 10 n).head? ≠ some '0' := by
      rcases Nat.eq_zero_or_pos n with rfl | hpos
      · exact Or.inl rfl
      · exact Or.inr (Decimal.head?_toDigits_ne hpos)
    simp only [readIndex?, Decimal.readNatural?_toDigits, if_pos (And.intro hplain hle)]

/-! ## The scheme `x11` -/

/-- The names of the colors of the scheme, in small letters. -/
inductive IsX11Name : List Char → Prop
  | plain {name : String} (hname : name ∈ Palette.x11Plain) : IsX11Name name.toList
  | numbered {name : String} (hname : name ∈ Palette.x11Numbered) : IsX11Name name.toList
  | shade {name : String} {n : Nat} (hname : name ∈ Palette.x11Numbered) (hone : 1 ≤ n)
      (hfour : n ≤ 4) : IsX11Name (name.toList ++ Nat.toDigits 10 n)
  | gray {name : String} (hname : name ∈ Palette.x11Grays) : IsX11Name name.toList
  | level {name : String} {n : Nat} (hname : name ∈ Palette.x11Grays) (hhundred : n ≤ 100) :
      IsX11Name (name.toList ++ Nat.toDigits 10 n)

variable {names : List String} {cs base digits : List Char}

theorem isAmong_iff : isAmong names cs = true ↔ ∃ name ∈ names, name.toList = cs := by
  rw [isAmong, List.contains_iff_mem]
  constructor
  · intro h
    exact ⟨_, h, String.toList_ofList⟩
  · rintro ⟨name, hname, rfl⟩
    rwa [String.ofList_toList]

/-- The digits at the end of a text are all that stand there. -/
theorem splitDigits_eq (hbase : ∀ c ∈ base.getLast?, c.isDigit = false)
    (hdigits : ∀ c ∈ digits, c.isDigit = true) : splitDigits (base ++ digits) = (base, digits) := by
  have hdigits' : ∀ c ∈ digits.reverse, c.isDigit = true := fun c hc =>
    hdigits c (List.mem_reverse.1 hc)
  have hbase' : ∀ c ∈ base.reverse.head?, c.isDigit = false := by
    rwa [List.head?_reverse]
  rw [splitDigits, List.reverse_append, dropWhile_append_of_all hdigits' hbase',
    takeWhile_append_of_all hdigits' hbase', List.reverse_reverse, List.reverse_reverse]

/-- The names are made of small letters. -/
theorem isLower_of_mem {name : String}
    (h : name ∈ Palette.x11Plain ++ Palette.x11Numbered ++ Palette.x11Grays) :
    ∀ c ∈ name.toList, c.isLower = true := by
  have htables : ∀ name ∈ Palette.x11Plain ++ Palette.x11Numbered ++ Palette.x11Grays,
      name.toList.all Char.isLower = true := by decide +kernel
  exact List.all_eq_true.1 (htables name h)

theorem isDigit_of_isLower {c : Char} (h : c.isLower = true) : c.isDigit = false := by
  rw [Bool.eq_false_iff]
  intro hdigit
  have hletter : c.isAlpha = true := Bool.or_eq_true_iff.2 (Or.inr h)
  rw [isAlpha_of_isDigit hdigit] at hletter
  cases hletter

theorem toLower_of_isLower {c : Char} (h : c.isLower = true) : c.toLower = c := by
  have hcapitals : capitals.any Char.isLower = false := by decide
  rcases toLower_eq_or_mem c with hc | hc
  · exact hc
  · exact absurd h (List.any_eq_false.1 hcapitals c hc)

/-- A number behind a name that has numbers. -/
theorem isX11_append_toDigits {name : String} {n : Nat}
    (h : (name ∈ Palette.x11Numbered ∧ 1 ≤ n ∧ n ≤ 4) ∨ (name ∈ Palette.x11Grays ∧ n ≤ 100)) :
    isX11 (name.toList ++ Nat.toDigits 10 n) = true := by
  have hmem : name ∈ Palette.x11Plain ++ Palette.x11Numbered ++ Palette.x11Grays := by
    rcases h with ⟨hname, -⟩ | ⟨hname, -⟩ <;> simp [hname]
  have hlast : ∀ c ∈ name.toList.getLast?, c.isDigit = false := fun c hc =>
    isDigit_of_isLower (isLower_of_mem hmem c (List.mem_of_getLast? hc))
  have hsplit := splitDigits_eq hlast (Decimal.isDigit_of_mem_toDigits (n := n))
  have hindex : readIndex? (Nat.toDigits 10 n) = some n :=
    readIndex?_eq_some_iff.2 ⟨by omega, rfl⟩
  unfold isX11
  split
  · rfl
  · rw [hsplit]
    simp only [hindex]
    rcases h with ⟨hname, hone, hfour⟩ | ⟨hname, hhundred⟩
    · have hnumbered : isAmong Palette.x11Numbered name.toList = true :=
        isAmong_iff.2 ⟨name, hname, rfl⟩
      have hhundred : n ≤ 100 := by omega
      split <;> simp [hnumbered, hone, hfour, hhundred]
    · rw [if_pos (isAmong_iff.2 ⟨name, hname, rfl⟩)]
      exact decide_eq_true hhundred

/-- **The scheme `x11`.** Its colors are those of its names. -/
theorem isX11_iff : isX11 cs = true ↔ IsX11Name cs := by
  constructor
  · intro h
    unfold isX11 at h
    split at h
    · next hamong =>
      simp only [Bool.or_eq_true, isAmong_iff] at hamong
      rcases hamong with (⟨name, hname, rfl⟩ | ⟨name, hname, rfl⟩) | ⟨name, hname, rfl⟩
      · exact .plain hname
      · exact .numbered hname
      · exact .gray hname
    · have hcs := splitDigits_append cs
      simp only at h
      split at h
      · cases h
      · next n hindex =>
        rw [(readIndex?_eq_some_iff.1 hindex).2] at hcs
        rw [← hcs]
        split at h
        · next hgray =>
          obtain ⟨name, hname, hbase⟩ := isAmong_iff.1 hgray
          rw [← hbase]
          exact .level hname (of_decide_eq_true h)
        · simp only [Bool.and_eq_true, decide_eq_true_eq] at h
          obtain ⟨hnumbered, hone, hfour⟩ := h
          obtain ⟨name, hname, hbase⟩ := isAmong_iff.1 hnumbered
          rw [← hbase]
          exact .shade hname hone hfour
  · intro h
    have hamong {names : List String} {name : String} (hname : name ∈ names) :
        isAmong names name.toList = true := isAmong_iff.2 ⟨name, hname, rfl⟩
    cases h with
    | plain hname => simp [isX11, hamong hname]
    | numbered hname => simp [isX11, hamong hname]
    | gray hname => simp [isX11, hamong hname]
    | shade hname hone hfour => exact isX11_append_toDigits (.inl ⟨hname, hone, hfour⟩)
    | level hname hhundred => exact isX11_append_toDigits (.inr ⟨hname, hhundred⟩)

/-- The names are written in small letters. -/
theorem IsX11Name.foldCase_eq (h : IsX11Name cs) : foldCase cs = cs := by
  have hsmall {name : String}
      (hname : name ∈ Palette.x11Plain ++ Palette.x11Numbered ++ Palette.x11Grays) :
      foldCase name.toList = name.toList := by
    rw [foldCase]
    refine (List.map_congr_left fun c hc => ?_).trans (List.map_id _)
    exact toLower_of_isLower (isLower_of_mem hname c hc)
  cases h with
  | plain hname | numbered hname | gray hname => exact hsmall (by simp [hname])
  | shade hname | level hname =>
    rw [foldCase_append, hsmall (by simp [hname]), Decimal.foldCase_toDigits]

/-- **Palettes.** The scheme `x11` has exactly the colors that are, ignoring case, among its names,
and a Brewer scheme, of however many colors, has exactly the numbers from one to their number, in
their plain decimal form. -/
theorem contains_iff (color : List Char) :
    (x11.contains color = true ↔ ∃ name, IsX11Name name ∧ sameIgnoringCase name color = true) ∧
      ∀ family (size : UInt8), (brewer family size.toNat).contains color = true ↔
        ∃ n, 1 ≤ n ∧ n ≤ size.toNat ∧ color = Nat.toDigits 10 n := by
  constructor
  · have hcontains : x11.contains color = isX11 (foldCase color) := rfl
    rw [hcontains, isX11_iff]
    constructor
    · intro h
      exact ⟨foldCase color, h, sameIgnoringCase_iff.2 (foldCase_foldCase color)⟩
    · rintro ⟨name, hname, hsame⟩
      rw [← sameIgnoringCase_iff.1 hsame, hname.foldCase_eq]
      exact hname
  · intro family size
    have hsize : size.toNat < 256 := size.toNat_lt
    have hcontains : (brewer family size.toNat).contains color = true ↔
        ∃ n, readIndex? (foldCase color) = some n ∧ 1 ≤ n ∧ n ≤ size.toNat := by
      rw [contains]
      cases readIndex? (foldCase color) <;> simp
    simp only [hcontains, readIndex?_eq_some_iff, Decimal.foldCase_eq_toDigits_iff]
    constructor
    · rintro ⟨n, ⟨-, htext⟩, hone, hlast⟩
      exact ⟨n, hone, hlast, htext⟩
    · rintro ⟨n, hone, hlast, htext⟩
      exact ⟨n, ⟨by omega, htext⟩, hone, hlast⟩

/-- Numbers neither wrap around nor lose digits: 268 is 12 and the number of all bytes. -/
example : x11.contains "Gray100".toList = true ∧ x11.contains "gray007".toList = false ∧
    (brewer "set3" 12).contains "12".toList = true ∧
    (brewer "set3" 12).contains "268".toList = false := by decide +kernel

end Scheme

end DotAttributes
