import DotAttributes.Proofs.Color.Folding
import DotAttributes.Proofs.Color.Grammar

/-!
# Hexadecimal colors

Behind a `#` six or eight digits are read, two for each byte, and nothing else is. Writing the bytes
back gives the digits up to case, so a color has, but for the case, one hexadecimal form
(`isWritten_hash_iff`). Any other text is refused behind its longest beginning with which some
hexadecimal color starts: at the first character that is no digit, or behind eight digits
(`hexFault_eq`). Seven digits are such a beginning, so what is missing then is a digit.
-/

namespace DotAttributes.Color

open Text

variable {digits : List Char} {color : Color} {c high low : Char} {b : UInt8} {n : Nat}

/-! ## Digits -/

/-- A byte in two hexadecimal digits. -/
def hexText (b : UInt8) : List Char := [(b.toNat / 16).digitChar, (b.toNat % 16).digitChar]

/-- A character of a range is one of the characters of the range. -/
theorem mem_of_le_toNat (first count : Nat) {cs : List Char}
    (hall : ∀ i < count, Char.ofNat (first + i) ∈ cs) (hfirst : first ≤ c.toNat)
    (hlast : c.toNat < first + count) : c ∈ cs := by
  have hc := hall (c.toNat - first) (by omega)
  rwa [Nat.add_sub_cancel' hfirst, Char.ofNat_toNat] at hc

/-- The value of a digit is its place among the digits, in either case. -/
theorem hexValue?_eq_some_iff : hexValue? c = some n ↔ n < 16 ∧ c.toLower = n.digitChar := by
  constructor
  · intro h
    have hchars : c ∈ "0123456789abcdefABCDEF".toList := by
      unfold hexValue? at h
      split_ifs at h with hdigit hsmall hcapital
      · exact mem_of_le_toNat 48 10 (by decide) hdigit.1 (Nat.lt_succ_of_le hdigit.2)
      · exact mem_of_le_toNat 97 6 (by decide) hsmall.1 (Nat.lt_succ_of_le hsmall.2)
      · exact mem_of_le_toNat 65 6 (by decide) hcapital.1 (Nat.lt_succ_of_le hcapital.2)
    have hvalues : "0123456789abcdefABCDEF".toList.all (fun d => (hexValue? d).all fun m =>
        decide (m < 16) && d.toLower == m.digitChar) = true := by
      decide
    have hvalue := List.all_eq_true.1 hvalues c hchars
    rw [h, Option.all_some, Bool.and_eq_true, decide_eq_true_eq, beq_iff_eq] at hvalue
    exact hvalue
  · rintro ⟨hn, hlower⟩
    have hvalues : ∀ m < 16, hexValue? m.digitChar = some m := by decide
    rw [← isCaseless_hexValue? c, hlower, hvalues n hn]

theorem isHexDigit_eq (c : Char) : isHexDigit c = c.isHexDigit := by
  unfold isHexDigit hexValue? Char.isHexDigit Char.isDigit
  split_ifs <;> simp_all [Char.le_def]

/-! ## Bytes -/

/-- Two digits are read as the byte that is written with them. -/
theorem hexText_eq_iff : hexText b = [high.toLower, low.toLower] ↔
    isHexDigit high = true ∧ isHexDigit low = true ∧ hexByte high low = b := by
  have hb : b.toNat < 256 := b.toNat_lt
  constructor
  · intro h
    simp only [hexText, List.cons.injEq, and_true] at h
    have hhigh : hexValue? high = some (b.toNat / 16) :=
      hexValue?_eq_some_iff.2 ⟨by omega, h.1.symm⟩
    have hlow : hexValue? low = some (b.toNat % 16) :=
      hexValue?_eq_some_iff.2 ⟨by omega, h.2.symm⟩
    refine ⟨by rw [isHexDigit, hhigh]; rfl, by rw [isHexDigit, hlow]; rfl, ?_⟩
    rw [hexByte, hhigh, hlow, Option.getD_some, Option.getD_some, Nat.div_add_mod,
      UInt8.ofNat_toNat]
  · rintro ⟨hhigh, hlow, rfl⟩
    obtain ⟨m, hm⟩ := Option.isSome_iff_exists.1 hhigh
    obtain ⟨n, hn⟩ := Option.isSome_iff_exists.1 hlow
    obtain ⟨hm16, hmlower⟩ := hexValue?_eq_some_iff.1 hm
    obtain ⟨hn16, hnlower⟩ := hexValue?_eq_some_iff.1 hn
    have hbyte : (hexByte high low).toNat = 16 * m + n := by
      rw [hexByte, hm, hn, Option.getD_some, Option.getD_some,
        UInt8.toNat_ofNat_of_lt' (by simp only [UInt8.size]; omega)]
    rw [hexText, hbyte, hmlower, hnlower, show (16 * m + n) / 16 = m by omega,
      show (16 * m + n) % 16 = n by omega]

/-- What is written with a byte in front starts with two digits for it. -/
theorem exists_of_hexText_append {rest : List Char}
    (h : hexText b ++ rest = Text.foldCase digits) : ∃ high low behind,
      digits = high :: low :: behind ∧ isHexDigit high = true ∧ isHexDigit low = true ∧
        hexByte high low = b ∧ rest = Text.foldCase behind := by
  match digits, h with
  | [], h => simp [hexText] at h
  | [_], h => simp [hexText] at h
  | high :: low :: behind, h =>
    rw [foldCase_cons, foldCase_cons, hexText, List.cons_append, List.cons_append, List.nil_append,
      List.cons.injEq, List.cons.injEq] at h
    obtain ⟨hhigh, hlow, hrest⟩ := h
    have hdigits := (hexText_eq_iff (b := b)).1 (by rw [hexText, hhigh, hlow])
    exact ⟨high, low, behind, rfl, hdigits.1, hdigits.2.1, hdigits.2.2, hrest⟩

/-- The digits of bytes are small. -/
theorem foldCase_flatMap_hexText (bs : List UInt8) :
    Text.foldCase (bs.flatMap hexText) = bs.flatMap hexText := by
  have hsmall : ∀ m < 16, (Nat.digitChar m).toLower = m.digitChar := by decide
  rw [Text.foldCase, List.map_flatMap]
  refine List.flatMap_congr fun b _ => ?_
  have hb : b.toNat < 256 := b.toNat_lt
  rw [hexText, List.map_cons, List.map_cons, List.map_nil, hsmall _ (by omega),
    hsmall _ (by omega)]

/-- The digits of a color: red, green, blue and, if it is given, alpha. -/
def rgbText (red green blue : UInt8) (alpha : Option UInt8) : List Char :=
  (red :: green :: blue :: alpha.toList).flatMap hexText

/-- **Bytes.** What stands behind a `#` is written exactly if it is, up to case, the digits of a
red, a green, a blue and perhaps an alpha, which then make up the color. -/
theorem isWritten_hash_iff {offset : Nat} : IsWritten offset ('#' :: digits) color ↔
    ∃ red green blue alpha, color = .rgb red green blue alpha ∧
      sameIgnoringCase (rgbText red green blue alpha) digits = true := by
  simp only [sameIgnoringCase_iff, rgbText, foldCase_flatMap_hexText]
  constructor
  · intro h
    cases h with
    | rgb hdigits =>
      refine ⟨_, _, _, none, rfl, ?_⟩
      simp only [List.forall_mem_cons] at hdigits
      obtain ⟨hr, hr', hg, hg', hb, hb', -⟩ := hdigits
      simp [hexText_eq_iff.2 ⟨hr, hr', rfl⟩, hexText_eq_iff.2 ⟨hg, hg', rfl⟩,
        hexText_eq_iff.2 ⟨hb, hb', rfl⟩]
    | rgba hdigits =>
      refine ⟨_, _, _, some _, rfl, ?_⟩
      simp only [List.forall_mem_cons] at hdigits
      obtain ⟨hr, hr', hg, hg', hb, hb', ha, ha', -⟩ := hdigits
      simp [hexText_eq_iff.2 ⟨hr, hr', rfl⟩, hexText_eq_iff.2 ⟨hg, hg', rfl⟩,
        hexText_eq_iff.2 ⟨hb, hb', rfl⟩, hexText_eq_iff.2 ⟨ha, ha', rfl⟩]
    | hsv htriple => exact absurd htriple.startsNumeric Bool.false_ne_true
    | plain hname => exact absurd (hname '#' List.mem_cons_self) (by decide)
  · rintro ⟨red, green, blue, alpha, rfl, hred⟩
    simp only [List.flatMap_cons] at hred
    obtain ⟨r, r', _, rfl, hr, hr', rfl, hgreen⟩ := exists_of_hexText_append hred
    obtain ⟨g, g', _, rfl, hg, hg', rfl, hblue⟩ := exists_of_hexText_append hgreen
    obtain ⟨b, b', _, rfl, hb, hb', rfl, halpha⟩ := exists_of_hexText_append hblue
    cases alpha with
    | none =>
      cases List.map_eq_nil_iff.1 halpha.symm
      exact .rgb (by simp [hr, hr', hg, hg', hb, hb'])
    | some alpha =>
      obtain ⟨a, a', _, rfl, ha, ha', rfl, hend⟩ := exists_of_hexText_append halpha
      cases List.map_eq_nil_iff.1 hend.symm
      exact .rgba (by simp [hr, hr', hg, hg', hb, hb', ha, ha'])

/-! ## The first character that does not fit -/

/-- A hexadecimal color: a `#`, and behind it six or eight digits, capital or small. -/
def IsHex (cs : List Char) : Prop :=
  ∃ digits, cs = '#' :: digits ∧ (digits.length = 6 ∨ digits.length = 8) ∧
    ∀ c ∈ digits, c.isHexDigit = true

/-- A text with which a hexadecimal color starts. -/
def IsHexStart (cs : List Char) : Prop := ∃ rest, IsHex (cs ++ rest)

theorem isHex_hash_iff : IsHex ('#' :: digits) ↔
    (digits.length = 6 ∨ digits.length = 8) ∧ ∀ c ∈ digits, isHexDigit c = true := by
  simp only [IsHex, List.cons.injEq, true_and, exists_eq_left', isHexDigit_eq]

/-- Six or eight digits are a color, whatever they are. -/
theorem exists_isWritten_hash_iff {offset : Nat} :
    (∃ color, IsWritten offset ('#' :: digits) color) ↔ IsHex ('#' :: digits) := by
  rw [isHex_hash_iff]
  constructor
  · rintro ⟨color, h⟩
    cases h with
    | rgb hdigits => exact ⟨Or.inl rfl, hdigits⟩
    | rgba hdigits => exact ⟨Or.inr rfl, hdigits⟩
    | hsv htriple => exact absurd htriple.startsNumeric Bool.false_ne_true
    | plain hname => exact absurd (hname '#' List.mem_cons_self) (by decide)
  · rintro ⟨hlength, hdigits⟩
    rcases hlength with hsix | height
    · match digits, hsix with
      | [r, r', g, g', b, b'], _ => exact ⟨_, .rgb hdigits⟩
    · match digits, height with
      | [r, r', g, g', b, b', a, a'], _ => exact ⟨_, .rgba hdigits⟩

/-- Up to eight digits can be continued to a color. -/
theorem isHexStart_hash_iff : IsHexStart ('#' :: digits) ↔
    digits.length ≤ 8 ∧ ∀ c ∈ digits, isHexDigit c = true := by
  simp only [IsHexStart, List.cons_append, isHex_hash_iff, List.length_append,
    List.forall_mem_append]
  constructor
  · rintro ⟨rest, hlength, hdigits, -⟩
    exact ⟨by omega, hdigits⟩
  · rintro ⟨hlength, hdigits⟩
    refine ⟨List.replicate (8 - digits.length) '0', Or.inr ?_, hdigits, ?_⟩
    · rw [List.length_replicate]
      omega
    · intro c hc
      rw [List.eq_of_mem_replicate hc]
      rfl

/-- `start` is the longest beginning of `cs` with which a hexadecimal color starts. -/
structure IsLongestStart (cs start : List Char) : Prop where
  isPrefix : start <+: cs
  isHexStart : IsHexStart start
  isPrefix_of : ∀ other, other <+: cs → IsHexStart other → other <+: start

/-- In front of the end of a run of digits stand digits. -/
theorem isHexDigit_of_mem_take (hn : n ≤ (digits.takeWhile isHexDigit).length)
    (hc : c ∈ digits.take n) : isHexDigit c = true := by
  have hrun := List.takeWhile_append_dropWhile (p := isHexDigit) (l := digits)
  rw [← hrun, List.take_append_of_le_length hn] at hc
  exact List.mem_takeWhile_imp (List.mem_of_mem_take hc)

/-- Of the digits behind a `#` at most eight are taken. -/
theorem isLongestStart_take (digits : List Char) : IsLongestStart ('#' :: digits)
    ('#' :: digits.take (min (digits.takeWhile isHexDigit).length 8)) := by
  refine ⟨List.cons_prefix_cons.2 ⟨rfl, List.take_prefix _ _⟩, isHexStart_hash_iff.2 ⟨?_, ?_⟩, ?_⟩
  · rw [List.length_take]
    omega
  · intro c hc
    exact isHexDigit_of_mem_take (Nat.min_le_left _ _) hc
  · rintro (_ | ⟨c, other⟩) hprefix hstart
    · exact List.nil_prefix
    · obtain ⟨rfl, hother⟩ := List.cons_prefix_cons.1 hprefix
      obtain ⟨hlength, hdigits⟩ := isHexStart_hash_iff.1 hstart
      -- a beginning of digits is one of the run of digits
      have hrun : other <+: digits.takeWhile isHexDigit := by
        obtain ⟨rest, rfl⟩ := hother
        rw [List.takeWhile_append_of_pos hdigits]
        exact List.prefix_append _ _
      refine List.cons_prefix_cons.2 ⟨rfl, List.prefix_take_iff.2 ⟨hother, ?_⟩⟩
      exact le_min hrun.length_le hlength

/-- Whatever stands behind a `#`, there is one fault it can have. -/
theorem eq_hexFault_of_read {fault : Located Fault} (h : read ('#' :: digits) = .error fault) :
    fault = hexFault 1 digits := by
  have hread : read ('#' :: digits) =
      (readHex 1 digits).map fun color => ⟨color, none, ⟨0, size ('#' :: digits)⟩⟩ := by
    rw [read, readColor]
    cases readHex 1 digits <;> rfl
  rw [hread] at h
  unfold readHex at h
  split at h
  · split at h <;> cases h
    rfl
  · cases h
    rfl

/-- A fault is at the end of the longest beginning. The character there, or the end of the text, is
one too many behind a color, and no digit otherwise. -/
theorem hexFault_eq (digits : List Char) : ∃ start rest,
    '#' :: digits = start ++ rest ∧ IsLongestStart ('#' :: digits) start ∧
      (hexFault 1 digits).span = Span.ofSize (size start) (size rest.head?.toList) ∧
      ((IsHex start ∧ (hexFault 1 digits).item = .extraHexDigit rest.head?) ∨
        (¬ IsHex start ∧ (hexFault 1 digits).item = .badHexDigit rest.head?)) := by
  obtain ⟨count, hcount⟩ : ∃ count, (digits.takeWhile isHexDigit).length = count := ⟨_, rfl⟩
  have hle : count ≤ digits.length := hcount ▸ (List.takeWhile_prefix _).length_le
  have hlength : (digits.take (min count 8)).length = min count 8 := by
    rw [List.length_take]
    omega
  have hdigits : ∀ c ∈ digits.take (min count 8), isHexDigit c = true := fun c hc =>
    isHexDigit_of_mem_take (hcount ▸ Nat.min_le_left _ _) hc
  have hlongest := isLongestStart_take digits
  have hwhole : IsHex ('#' :: digits.take (min count 8)) ↔ count = 6 ∨ 8 ≤ count := by
    rw [isHex_hash_iff, hlength, and_iff_left hdigits]
    omega
  have hsize : size ('#' :: digits.take (min count 8)) = 1 + min count 8 := by
    rw [size_cons, size_eq_length fun c hc => utf8Size_of_isHexDigit (hdigits c hc), hlength]
    rfl
  rw [hcount] at hlongest
  refine ⟨'#' :: digits.take (min count 8), digits.drop (min count 8), ?_, hlongest, ?_, ?_⟩
  · rw [List.cons_append, List.take_append_drop]
  · rw [hsize]
    simp only [hexFault, hcount]
    cases (digits.drop (min count 8)).head? <;> rfl
  · rw [hwhole]
    simp only [hexFault, hcount]
    split_ifs with hextra
    · exact Or.inl ⟨hextra, rfl⟩
    · exact Or.inr ⟨hextra, rfl⟩

/-- **Hexadecimal colors.** What starts with a `#` is read exactly if six or eight digits stand
behind it, and as the color whose bytes are written with these digits. Otherwise the fault is at the
end of the longest beginning with which a hexadecimal color starts, and covers the one character
there, or nothing at the end of the text. -/
theorem read_hash (digits : List Char) :
    ((∃ item, read ('#' :: digits) = .ok item) ↔ IsHex ('#' :: digits)) ∧
      (∀ item, read ('#' :: digits) = .ok item ↔ ∃ red green blue alpha,
        item = ⟨.rgb red green blue alpha, none, ⟨0, size ('#' :: digits)⟩⟩ ∧
          sameIgnoringCase (rgbText red green blue alpha) digits = true) ∧
      ∀ fault, read ('#' :: digits) = .error fault → ∃ start rest,
        '#' :: digits = start ++ rest ∧ IsLongestStart ('#' :: digits) start ∧
          fault.span = Span.ofSize (size start) (size rest.head?.toList) ∧
          ((IsHex start ∧ fault.item = .extraHexDigit rest.head?) ∨
            (¬ IsHex start ∧ fault.item = .badHexDigit rest.head?)) := by
  refine ⟨?_, fun item => ⟨?_, ?_⟩, fun fault h => ?_⟩
  · rw [← @exists_isWritten_hash_iff digits 0]
    simp only [read_eq_ok_iff]
    constructor
    · rintro ⟨item, color, hcolor, -⟩
      exact ⟨color, hcolor⟩
    · rintro ⟨color, hcolor⟩
      exact ⟨_, color, hcolor, rfl⟩
  · intro hread
    obtain ⟨color, hcolor, rfl⟩ := read_eq_ok_iff.1 hread
    obtain ⟨red, green, blue, alpha, rfl, hdigits⟩ := isWritten_hash_iff.1 hcolor
    exact ⟨red, green, blue, alpha, rfl, hdigits⟩
  · rintro ⟨red, green, blue, alpha, rfl, hdigits⟩
    exact read_eq_ok_iff.2 ⟨_, isWritten_hash_iff.2 ⟨red, green, blue, alpha, rfl, hdigits⟩, rfl⟩
  · rw [eq_hexFault_of_read h]
    exact hexFault_eq digits

/-- Capital digits with an alpha, and seven digits, behind which no eighth one stands. -/
theorem read_hash_digits :
    (∃ item, read "#FF008040".toList = .ok item ∧
      ∃ red green blue alpha, item.color = .rgb red green blue alpha ∧
        sameIgnoringCase (rgbText red green blue alpha) "FF008040".toList = true) ∧
      ∃ fault, read "#1234567é".toList = .error fault ∧ fault.span = ⟨8, 10⟩ ∧ ∃ start rest,
        "#1234567é".toList = start ++ rest ∧ IsLongestStart "#1234567é".toList start ∧
          fault.span = Span.ofSize (size start) (size rest.head?.toList) := by
  constructor
  · obtain ⟨item, hread⟩ : ∃ item, read "#FF008040".toList = .ok item := ⟨_, rfl⟩
    obtain ⟨red, green, blue, alpha, hitem, hdigits⟩ :=
      ((read_hash "FF008040".toList).2.1 item).1 hread
    exact ⟨item, hread, red, green, blue, alpha, by rw [hitem], hdigits⟩
  · obtain ⟨fault, hread, hplace⟩ :
        ∃ fault, read "#1234567é".toList = .error fault ∧ fault.span = ⟨8, 10⟩ := ⟨_, rfl, rfl⟩
    obtain ⟨start, rest, htext, hstart, hspan, -⟩ :=
      (read_hash "1234567é".toList).2.2 fault hread
    exact ⟨fault, hread, hplace, start, rest, htext, hstart, hspan⟩

end DotAttributes.Color
