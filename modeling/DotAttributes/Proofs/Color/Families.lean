import DotAttributes.Proofs.Color.Palette

/-!
# Names of Brewer palettes

A Brewer palette is named after its family and the number of its colors. Some families have names
that others start with (`pubu`, `pubugn`), and the names of some end with a digit (`set1`, `dark2`);
still no two families have names that digits make the same (`families_pairwise`). So a text names the
palette of one family at most, and a search that takes the first family that fits finds this one in
whatever order the families stand (`find?_eq_some_brewer_iff`).
-/

namespace DotAttributes

open Text

/-! ## The first of results that exclude each other -/

section FindSome

variable {α β : Type} {f : α → Option β} {l l' : List α} {b : β}

/-- Where no two elements have a result, the result that is found is the one of any element. -/
theorem findSome?_eq_some_iff_of_pairwise (hpair : l.Pairwise fun x y => f x = none ∨ f y = none) :
    l.findSome? f = some b ↔ ∃ x ∈ l, f x = some b := by
  constructor
  · exact List.exists_of_findSome?_eq_some
  · rintro ⟨x, hx, hb⟩
    induction l with
    | nil => cases hx
    | cons y l ih =>
      obtain ⟨hy, hl⟩ := List.pairwise_cons.1 hpair
      rw [List.findSome?_cons]
      rcases List.mem_cons.1 hx with rfl | hx
      · rw [hb]
      · have hnone : f y = none := (hy x hx).resolve_right (by simp [hb])
        rw [hnone]
        exact ih hl hx

theorem findSome?_perm (hpair : l.Pairwise fun x y => f x = none ∨ f y = none) (h : l'.Perm l) :
    l'.findSome? f = l.findSome? f := by
  have hpair' : l'.Pairwise fun x y => f x = none ∨ f y = none :=
    (h.pairwise_iff fun hxy => hxy.symm).2 hpair
  refine Option.ext fun b => ?_
  simp only [findSome?_eq_some_iff_of_pairwise hpair, findSome?_eq_some_iff_of_pairwise hpair',
    h.mem_iff]

end FindSome

/-! ## Names of palettes -/

namespace Palette

/-- The name of the palette of a family that has `size` colors. -/
def Family.paletteName (family : Family) (size : Nat) : List Char :=
  family.name.toList ++ Nat.toDigits 10 size

/-- A family has a palette of `size` colors, and a text is, ignoring case, its name. -/
structure Family.Names (family : Family) (size : Nat) (name : List Char) : Prop where
  smallest_le : family.smallest ≤ size
  le_largest : size ≤ family.largest
  same : sameIgnoringCase (family.paletteName size) name = true

variable {family : Family} {size : Nat} {name : List Char}

theorem foldCase_paletteName (h : family ∈ families) :
    foldCase (family.paletteName size) = family.paletteName size := by
  have hsmall : ∀ family ∈ families, foldCase family.name.toList = family.name.toList := by
    decide +kernel
  rw [Family.paletteName, foldCase_append, hsmall family h, Decimal.foldCase_toDigits]

theorem le_of_mem_families (h : family ∈ families) : family.largest ≤ 255 := by
  have hlargest : ∀ family ∈ families, family.largest ≤ 255 := by decide +kernel
  exact hlargest family h

theorem Family.Names.iff_foldCase_eq (h : family ∈ families) :
    family.Names size name ↔
      (family.smallest ≤ size ∧ size ≤ family.largest) ∧
        foldCase name = family.paletteName size := by
  constructor
  · rintro ⟨hsmallest, hlargest, hsame⟩
    rw [sameIgnoringCase_iff, foldCase_paletteName h] at hsame
    exact ⟨⟨hsmallest, hlargest⟩, hsame.symm⟩
  · rintro ⟨⟨hsmallest, hlargest⟩, hname⟩
    refine ⟨hsmallest, hlargest, ?_⟩
    rw [sameIgnoringCase_iff, foldCase_paletteName h, hname]

/-- Digits behind the names of two families do not make them the same text. -/
theorem families_pairwise :
    families.Pairwise fun family family' => ∀ ds ds' : List Char,
      (∀ c ∈ ds, c.isDigit = true) → (∀ c ∈ ds', c.isDigit = true) →
        family.name.toList ++ ds ≠ family'.name.toList ++ ds' := by
  -- Where one name starts with another, a letter stands behind the shorter one.
  have hrests : families.Pairwise fun family family' =>
      (∀ rest ∈ after? family.name.toList family'.name.toList, rest.all Char.isDigit = false) ∧
        ∀ rest ∈ after? family'.name.toList family.name.toList, rest.all Char.isDigit = false := by
    decide +kernel
  have hbetween {cs cs' rest ds ds' : List Char}
      (hrest : ∀ rest ∈ after? cs cs', rest.all Char.isDigit = false) (hname : cs' = cs ++ rest)
      (hdigits : ds = rest ++ ds') (hds : ∀ c ∈ ds, c.isDigit = true) : False := by
    have hall : rest.all Char.isDigit = true := List.all_eq_true.2 fun c hc =>
      hds c (hdigits ▸ List.mem_append_left ds' hc)
    rw [hrest rest (after?_eq_some_iff.2 hname)] at hall
    cases hall
  refine hrests.imp ?_
  rintro family family' ⟨hrest, hrest'⟩ ds ds' hds hds' heq
  rcases List.append_eq_append_iff.1 heq with ⟨rest, hname, hdigits⟩ | ⟨rest, hname, hdigits⟩
  · exact hbetween hrest hname hdigits hds
  · exact hbetween hrest' hname hdigits hds'

/-- No two families have a palette of the same name. -/
theorem families_pairwise_names (name : List Char) :
    families.Pairwise fun family family' => ∀ size size',
      ¬ (family.Names size name ∧ family'.Names size' name) := by
  refine families_pairwise.imp_of_mem ?_
  rintro family family' hmem hmem' hne size size' ⟨hnames, hnames'⟩
  have hname := ((Family.Names.iff_foldCase_eq hmem).1 hnames).2
  have hname' := ((Family.Names.iff_foldCase_eq hmem').1 hnames').2
  exact hne _ _ Decimal.isDigit_of_mem_toDigits Decimal.isDigit_of_mem_toDigits
    (hname.symm.trans hname')

end Palette

/-! ## The search -/

namespace Scheme

/-- The search for a scheme, with the families in the order in which they are tried. -/
def findAmong? (families : List Palette.Family) (name : List Char) : Option Scheme :=
  let folded := foldCase name
  if folded = "x11".toList then some x11
  else if folded = "svg".toList then some svg
  else families.findSome? (ofFamily? folded)

theorem find?_eq_findAmong? (name : List Char) : find? name = findAmong? Palette.families name :=
  rfl

variable {family : Palette.Family} {name : List Char} {scheme : Scheme}

/-- A family has the schemes of its palettes. -/
theorem ofFamily?_foldCase_eq_some_iff (h : family ∈ Palette.families) :
    ofFamily? (foldCase name) family = some scheme ↔
      ∃ size, family.Names size name ∧ scheme = brewer family.name size := by
  have hindex (size : Nat) :
      (after? family.name.toList (foldCase name)).bind readIndex? = some size ↔
        size ≤ 255 ∧ foldCase name = family.paletteName size := by
    simp only [Option.bind_eq_some_iff, after?_eq_some_iff, readIndex?_eq_some_iff]
    constructor
    · rintro ⟨rest, hname, hle, rfl⟩
      exact ⟨hle, hname⟩
    · rintro ⟨hle, hname⟩
      exact ⟨_, hname, hle, rfl⟩
  have hlargest := Palette.le_of_mem_families h
  simp only [Palette.Family.Names.iff_foldCase_eq h]
  constructor
  · intro hfound
    unfold ofFamily? at hfound
    split at hfound
    · next size hsize =>
      split at hfound
      · next hbounds =>
        cases hfound
        exact ⟨size, ⟨hbounds, ((hindex size).1 hsize).2⟩, rfl⟩
      · cases hfound
    · cases hfound
  · rintro ⟨size, ⟨hbounds, hname⟩, rfl⟩
    have hsize := (hindex size).2 ⟨by omega, hname⟩
    simp only [ofFamily?, hsize, if_pos hbounds]

/-- At most one family has a scheme of a given name. -/
theorem pairwise_ofFamily? (name : List Char) :
    Palette.families.Pairwise fun family family' =>
      ofFamily? (foldCase name) family = none ∨ ofFamily? (foldCase name) family' = none := by
  refine (Palette.families_pairwise_names name).imp_of_mem ?_
  intro family family' hmem hmem' hnot
  cases hfound : ofFamily? (foldCase name) family with
  | none => exact .inl rfl
  | some scheme =>
    cases hfound' : ofFamily? (foldCase name) family' with
    | none => exact .inr rfl
    | some scheme' =>
      obtain ⟨size, hnames, -⟩ := (ofFamily?_foldCase_eq_some_iff hmem).1 hfound
      obtain ⟨size', hnames', -⟩ := (ofFamily?_foldCase_eq_some_iff hmem').1 hfound'
      exact (hnot size size' ⟨hnames, hnames'⟩).elim

/-- The families do not have the schemes with proper names. -/
theorem find?_eq_some_brewer_iff_findSome? {family : String} {size : Nat} :
    find? name = some (brewer family size) ↔
      Palette.families.findSome? (ofFamily? (foldCase name)) = some (brewer family size) := by
  have hx11 : Palette.families.findSome? (ofFamily? "x11".toList) = none := by decide +kernel
  have hsvg : Palette.families.findSome? (ofFamily? "svg".toList) = none := by decide +kernel
  simp only [find?]
  split
  · next h =>
    rw [h, hx11]
    simp
  · split
    · next h =>
      rw [h, hsvg]
      simp
    · rfl

/-- **Brewer schemes.** A Brewer scheme is found exactly by the texts that are, ignoring case, the
name of a palette of its family with its number of colors. No two families have a palette of this
name, the order in which the families are tried makes no difference, and the name of a palette finds
the scheme of its family and its number of colors. -/
theorem find?_eq_some_brewer_iff (name : List Char) :
    (∀ family size, find? name = some (brewer family size) ↔
        ∃ row ∈ Palette.families, row.Names size name ∧ family = row.name) ∧
      (Palette.families.Pairwise fun row row' => ∀ size size',
        ¬ (row.Names size name ∧ row'.Names size' name)) ∧
      (∀ rows : List Palette.Family, rows.Perm Palette.families →
        findAmong? rows name = find? name) ∧
      ∀ row ∈ Palette.families, ∀ size, row.smallest ≤ size → size ≤ row.largest →
        find? (row.paletteName size) = some (brewer row.name size) := by
  have hiff (name : List Char) (family : String) (size : Nat) :
      find? name = some (brewer family size) ↔
        ∃ row ∈ Palette.families, row.Names size name ∧ family = row.name := by
    rw [find?_eq_some_brewer_iff_findSome?,
      findSome?_eq_some_iff_of_pairwise (pairwise_ofFamily? name)]
    refine exists_congr fun row => and_congr_right fun hrow => ?_
    rw [ofFamily?_foldCase_eq_some_iff hrow]
    simp only [brewer.injEq]
    constructor
    · rintro ⟨size, hnames, rfl, rfl⟩
      exact ⟨hnames, rfl⟩
    · rintro ⟨hnames, rfl⟩
      exact ⟨size, hnames, rfl, rfl⟩
  refine ⟨hiff name, Palette.families_pairwise_names name, ?_, ?_⟩
  · intro rows hperm
    rw [find?_eq_findAmong?]
    simp only [findAmong?, findSome?_perm (pairwise_ofFamily? name) hperm]
  · intro row hrow size hsmallest hlargest
    exact (hiff _ _ _).2 ⟨row, hrow, ⟨hsmallest, hlargest, sameIgnoringCase_iff.2 rfl⟩, rfl⟩

theorem find?_eq_some_brewer_iff_blueGreens :
    find? "PuBuGn9".toList = some (brewer "pubugn" 9) ∧
      findAmong? Palette.families.reverse "PuBuGn9".toList = find? "PuBuGn9".toList ∧
      find? "set312".toList = some (brewer "set3" 12) := by
  obtain ⟨hiff, -, hperm, hprinted⟩ := find?_eq_some_brewer_iff "PuBuGn9".toList
  refine ⟨(hiff "pubugn" 9).2 ⟨⟨"pubugn", 3, 9⟩, by decide, ⟨by decide, by decide, by decide⟩, rfl⟩,
    hperm _ (List.reverse_perm _), ?_⟩
  exact hprinted ⟨"set3", 3, 12⟩ (by decide) 12 (by decide) (by decide)

end Scheme

end DotAttributes
