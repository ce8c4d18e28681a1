import DotAttributes.Proofs.Color.Spans
import DotAttributes.Proofs.Number.Float

/-!
# The grammar of colors

A color is written as six or eight hexadecimal digits behind a `#`, as three numbers with
separators around them, or as a name, alone or behind a scheme between slashes (`IsWritten`). A
color list is written as colors with colons between them, each with a number from zero to one
behind a semicolon, if it has a share (`IsList`).

The readers accept exactly what is written so, and return what is written (`readColor_eq_ok_iff`,
`read_eq_ok_iff`, `readList_eq_ok_iff`). None of the forms of a color has a colon or a semicolon in
it (`IsWritten.not_mem`), so a list can be cut at these before its colors are looked at.
-/

namespace DotAttributes.Color

open Text

variable {offset : Nat} {cs name scheme : List Char} {color : Color}

/-! ## Three numbers -/

/-- The texts between the separators, where there are any. -/
def numbersIn (cs : List Char) : List (List Char) :=
  (pieces isNumberSeparator cs).filter fun part => !part.isEmpty

/-- A text that starts like a number and is made of three numbers with separators around them. -/
structure IsTriple (cs : List Char) (hue saturation value : Binary64) : Prop where
  startsNumeric : startsNumeric cs = true
  separated : cs.any isNumberSeparator = true
  numbers : (numbersIn cs).map Binary64.read? = [some hue, some saturation, some value]

theorem map_snd_withOffsets (offset : Nat) (parts : List (List Char)) :
    (withOffsets offset parts).map Prod.snd = parts := by
  induction parts generalizing offset with
  | nil => rfl
  | cons part parts ih => rw [withOffsets, List.map_cons, ih]

/-- Three numbers are read if there are that many, and each part is one. -/
theorem readNumbers_eq_ok_iff {stop : Nat} {read : List Binary64} {parts : List (Nat × List Char)} :
    readNumbers stop read parts = .ok color ↔
      ∃ hue saturation value, color = .hsv hue saturation value ∧
        read.map some ++ (parts.map Prod.snd).map Binary64.read? =
          [some hue, some saturation, some value] := by
  induction parts generalizing read with
  | nil =>
    unfold readNumbers
    split
    · simp [eq_comm]
    · next hthree =>
      simp only [reduceCtorEq, List.map_nil, List.append_nil, false_iff, not_exists, not_and]
      intro hue saturation value _ hread
      have hsome : read.map some = [hue, saturation, value].map some := hread
      exact hthree _ _ _ ((List.map_inj_right fun _ _ => Option.some.inj).1 hsome)
  | cons part parts ih =>
    rw [readNumbers]
    split
    · next hthree =>
      simp only [reduceCtorEq, List.map_cons, false_iff, not_exists, not_and]
      intro hue saturation value _ hread
      have hlength := congrArg List.length hread
      simp only [List.length_append, List.length_map, List.length_cons, List.length_nil] at hlength
      omega
    · cases hpart : Binary64.read? part.2 with
      | none =>
        simp only [reduceCtorEq, List.map_cons, hpart, false_iff, not_exists, not_and]
        intro hue saturation value _ hread
        have hmem : none ∈ [some hue, some saturation, some value] := by
          rw [← hread]
          simp
        simp at hmem
      | some x =>
        simp only [ih, List.map_cons, hpart, List.map_append, List.map_nil, List.append_assoc,
          List.cons_append, List.nil_append]

theorem readHsv_eq_ok_iff : readHsv offset cs = .ok color ↔
    ∃ hue saturation value, color = .hsv hue saturation value ∧
      (numbersIn cs).map Binary64.read? = [some hue, some saturation, some value] := by
  have hparts : ((withOffsets offset (pieces isNumberSeparator cs)).filter
      fun part => !part.2.isEmpty).map Prod.snd = numbersIn cs := by
    rw [numbersIn]
    conv => rhs; rw [← map_snd_withOffsets offset (pieces isNumberSeparator cs)]
    rw [List.filter_map]
    rfl
  rw [readHsv, readNumbers_eq_ok_iff, hparts]
  rfl

/-- A character between two separators stands in one of the texts there. -/
theorem mem_pieces_of_mem {isSeparator : Char → Bool} {c : Char} (hc : c ∈ cs)
    (hsep : isSeparator c = false) : ∃ piece ∈ pieces isSeparator cs, c ∈ piece := by
  induction cs with
  | nil => cases hc
  | cons d cs ih =>
    rw [pieces]
    split
    · next hd =>
      have hne : c ≠ d := fun heq => by rw [heq, hd] at hsep; cases hsep
      obtain ⟨piece, hpiece, hmem⟩ := ih ((List.mem_cons.1 hc).resolve_left hne)
      exact ⟨piece, List.mem_cons_of_mem _ hpiece, hmem⟩
    · split
      · next hnil => exact absurd hnil (pieces_ne_nil _ cs)
      · next p ps hps =>
        rcases List.mem_cons.1 hc with rfl | hc
        · exact ⟨c :: p, List.mem_cons_self, List.mem_cons_self⟩
        · obtain ⟨piece, hpiece, hmem⟩ := ih hc
          rw [hps] at hpiece
          rcases List.mem_cons.1 hpiece with rfl | hpiece
          · exact ⟨d :: piece, List.mem_cons_self, List.mem_cons_of_mem _ hmem⟩
          · exact ⟨piece, List.mem_cons_of_mem _ hpiece, hmem⟩

namespace IsTriple

variable {hue saturation value : Binary64}

/-- Three numbers are made of their characters and of separators. -/
theorem isLiteralChar (h : IsTriple cs hue saturation value) :
    ∀ c ∈ cs, isNumberSeparator c = true ∨ isLiteralChar c = true := by
  intro c hc
  cases hsep : isNumberSeparator c with
  | true => exact Or.inl rfl
  | false =>
    obtain ⟨part, hpart, hmem⟩ := mem_pieces_of_mem hc hsep
    have hpart : part ∈ numbersIn cs :=
      List.mem_filter.2 ⟨hpart, by cases part <;> simp at hmem ⊢⟩
    have hread : Binary64.read? part ∈ [some hue, some saturation, some value] :=
      h.numbers ▸ List.mem_map_of_mem hpart
    obtain ⟨x, hx⟩ : ∃ x, Binary64.read? part = some x := by
      simp only [List.mem_cons, List.not_mem_nil, or_false] at hread
      rcases hread with hread | hread | hread <;> exact ⟨_, hread⟩
    exact Or.inr (Binary64.isLiteralChar_of_read? hx c hmem)

end IsTriple

/-! ## Names -/

/-- No separator may stand in a name. -/
theorem not_isNameChar_of_isNumberSeparator {c : Char} (h : isNumberSeparator c = true) :
    ¬ isNameChar c = true := by
  simp only [isNumberSeparator, Bool.or_eq_true, beq_iff_eq] at h
  rcases h with (rfl | rfl) | rfl <;> decide

theorem nameFault?_eq_none_iff : nameFault? offset cs = none ↔ ∀ c ∈ cs, isNameChar c = true := by
  unfold nameFault?
  split
  · next hnil => exact iff_of_true rfl (List.dropWhile_eq_nil_iff.1 hnil)
  · next hcons =>
    refine iff_of_false (Option.some_ne_none _) fun hall => ?_
    rw [List.dropWhile_eq_nil_iff.2 hall] at hcons
    cases hcons

theorem readName_eq_ok_iff {found : Option (List Char)} : readName found offset cs = .ok color ↔
    (∀ c ∈ cs, isNameChar c = true) ∧
      color = .named found ⟨cs, Span.ofSize offset (size cs)⟩ := by
  rw [readName, ← @nameFault?_eq_none_iff offset]
  cases nameFault? offset cs <;> simp [eq_comm]

/-! ## Colors -/

/-- A color as it is written at `offset`. -/
inductive IsWritten (offset : Nat) : List Char → Color → Prop
  | rgb {r r' g g' b b' : Char} (hdigits : ∀ c ∈ [r, r', g, g', b, b'], isHexDigit c = true) :
      IsWritten offset ('#' :: [r, r', g, g', b, b'])
        (.rgb (hexByte r r') (hexByte g g') (hexByte b b') none)
  | rgba {r r' g g' b b' a a' : Char}
      (hdigits : ∀ c ∈ [r, r', g, g', b, b', a, a'], isHexDigit c = true) :
      IsWritten offset ('#' :: [r, r', g, g', b, b', a, a'])
        (.rgb (hexByte r r') (hexByte g g') (hexByte b b') (some (hexByte a a')))
  | hsv {cs : List Char} {hue saturation value : Binary64}
      (htriple : IsTriple cs hue saturation value) :
      IsWritten offset cs (.hsv hue saturation value)
  | qualified {scheme name : List Char} (hscheme : ∀ c ∈ scheme, isNameChar c = true)
      (hne : name ≠ []) (hname : ∀ c ∈ name, isNameChar c = true) :
      IsWritten offset ('/' :: (scheme ++ '/' :: name))
        (.named (some scheme) ⟨name, Span.ofSize (offset + 1 + size scheme + 1) (size name)⟩)
  | plain {name : List Char} (hname : ∀ c ∈ name, isNameChar c = true) :
      IsWritten offset name (.named none ⟨name, Span.ofSize offset (size name)⟩)

theorem readHex_eq_ok_iff {digits : List Char} :
    readHex (offset + 1) digits = .ok color ↔
      IsWritten offset ('#' :: digits) color := by
  constructor
  · intro h
    unfold readHex at h
    split at h
    · next hall =>
      have hdigits := List.all_eq_true.1 hall
      split at h
      · cases h
        exact .rgb hdigits
      · cases h
        exact .rgba hdigits
      · cases h
    · cases h
  · intro h
    cases h with
    | rgb hdigits => rw [readHex, if_pos (List.all_eq_true.2 hdigits)]
    | rgba hdigits => rw [readHex, if_pos (List.all_eq_true.2 hdigits)]
    | hsv htriple => exact absurd htriple.startsNumeric Bool.false_ne_true
    | plain hname => exact absurd (hname '#' List.mem_cons_self) (by decide)

/-- A slash is no character of a name. -/
theorem not_mem_of_isNameChar (h : ∀ c ∈ name, isNameChar c = true) : '/' ∉ name :=
  fun hmem => absurd (h '/' hmem) (by decide)

theorem readQualified_eq_ok_iff {qualified : List Char} :
    readQualified (offset + 1) qualified = .ok color ↔
      IsWritten offset ('/' :: qualified) color := by
  constructor
  · intro h
    unfold readQualified at h
    split at h
    · cases h
    · next scheme name hsplit =>
      split at h
      · cases h
      · next hscheme =>
        simp only at h
        split at h
        · cases h
        · next hne =>
          obtain ⟨hname, rfl⟩ := readName_eq_ok_iff.1 h
          rw [← splitFirst?_append hsplit]
          exact .qualified (nameFault?_eq_none_iff.1 hscheme)
            (fun hnil => hne (List.isEmpty_iff.2 hnil)) hname
  · intro h
    cases h with
    | @qualified scheme name hscheme hne hname =>
      rw [readQualified, splitFirst?_append_cons (not_mem_of_isNameChar hscheme)]
      simp only [nameFault?_eq_none_iff.2 hscheme, List.isEmpty_iff, hne, if_false]
      exact readName_eq_ok_iff.2 ⟨hname, rfl⟩
    | hsv htriple => exact absurd htriple.startsNumeric Bool.false_ne_true
    | plain hname => exact absurd (hname '/' List.mem_cons_self) (by decide)

/-- **Colors.** Exactly what is written is read. -/
theorem readColor_eq_ok_iff : readColor offset cs = .ok color ↔ IsWritten offset cs color := by
  unfold readColor
  split
  · exact readHex_eq_ok_iff
  · exact readQualified_eq_ok_iff
  · next hhash hslash =>
    split
    · next hnumeric =>
      obtain ⟨hstart, hseparated⟩ := Bool.and_eq_true_iff.1 hnumeric
      rw [readHsv_eq_ok_iff]
      constructor
      · rintro ⟨hue, saturation, value, rfl, hnumbers⟩
        exact .hsv ⟨hstart, hseparated, hnumbers⟩
      · intro h
        cases h with
        | rgb => exact absurd rfl (hhash _)
        | rgba => exact absurd rfl (hhash _)
        | hsv htriple => exact ⟨_, _, _, rfl, htriple.numbers⟩
        | qualified => exact absurd rfl (hslash _)
        | plain hname =>
          obtain ⟨c, hc, hsep⟩ := List.any_eq_true.1 hseparated
          exact absurd (hname c hc) (not_isNameChar_of_isNumberSeparator hsep)
    · next hnumeric =>
      rw [readName_eq_ok_iff]
      constructor
      · rintro ⟨hname, rfl⟩
        exact .plain hname
      · intro h
        cases h with
        | rgb => exact absurd rfl (hhash _)
        | rgba => exact absurd rfl (hhash _)
        | hsv htriple =>
          exact absurd (Bool.and_eq_true_iff.2 ⟨htriple.startsNumeric, htriple.separated⟩) hnumeric
        | qualified => exact absurd rfl (hslash _)
        | plain hname => exact ⟨hname, rfl⟩

/-- Whether a character may stand in a color. -/
def isColorChar (c : Char) : Bool :=
  c == '#' || c == '/' || isHexDigit c || isNumberSeparator c || isLiteralChar c || isNameChar c

/-- Colors are made of few characters, whatever their form. -/
theorem IsWritten.isColorChar (h : IsWritten offset cs color) :
    ∀ c ∈ cs, isColorChar c = true := by
  intro c hc
  have hcases : c = '#' ∨ c = '/' ∨ isHexDigit c = true ∨
      (isNumberSeparator c = true ∨ isLiteralChar c = true) ∨ isNameChar c = true := by
    cases h with
    | rgb hdigits =>
      exact (List.mem_cons.1 hc).imp_right fun hc => .inr (.inl (hdigits c hc))
    | rgba hdigits =>
      exact (List.mem_cons.1 hc).imp_right fun hc => .inr (.inl (hdigits c hc))
    | hsv htriple => exact .inr (.inr (.inr (.inl (htriple.isLiteralChar c hc))))
    | qualified hscheme _ hname =>
      simp only [List.mem_cons, List.mem_append] at hc
      rcases hc with hslash | hc | hslash | hc
      · exact .inr (.inl hslash)
      · exact .inr (.inr (.inr (.inr (hscheme c hc))))
      · exact .inr (.inl hslash)
      · exact .inr (.inr (.inr (.inr (hname c hc))))
    | plain hname => exact .inr (.inr (.inr (.inr (hname c hc))))
  simpa only [Color.isColorChar, Bool.or_eq_true, beq_iff_eq, or_assoc] using hcases

/-- No color has a colon or a semicolon in it. -/
theorem IsWritten.not_mem (h : IsWritten offset cs color) : ':' ∉ cs ∧ ';' ∉ cs :=
  ⟨fun hmem => absurd (h.isColorChar ':' hmem) (by decide),
    fun hmem => absurd (h.isColorChar ';' hmem) (by decide)⟩

/-- A share cannot start within a color. -/
theorem IsWritten.bne_semicolon (h : IsWritten offset cs color) : ∀ c ∈ cs, (c != ';') = true := by
  intro c hc
  rw [bne_iff_ne]
  rintro rfl
  exact h.not_mem.2 hc

/-- What starts a text reaches as far as its size. -/
theorem ofSize_zero (n : Nat) : Span.ofSize 0 n = ⟨0, n⟩ := by
  rw [Span.ofSize, Nat.zero_add]

theorem read_eq_ok_iff {item : Item} : read cs = .ok item ↔
    ∃ color, IsWritten 0 cs color ∧ item = ⟨color, none, ⟨0, size cs⟩⟩ := by
  unfold read
  cases hcolor : readColor 0 cs with
  | error fault =>
    simp only [reduceCtorEq, false_iff, not_exists, not_and]
    intro color hwritten
    rw [← readColor_eq_ok_iff, hcolor] at hwritten
    cases hwritten
  | ok color =>
    simp only [← readColor_eq_ok_iff, hcolor, Except.ok.injEq, exists_eq_left', eq_comm]

/-! ## Color lists -/

/-- A color of a list as it is written at `offset`: some color, perhaps with a share behind a
semicolon. -/
inductive IsItem (offset : Nat) : List Char → Item → Prop
  | alone {cs : List Char} {color : Color} (hne : cs ≠ []) (hcolor : IsWritten offset cs color) :
      IsItem offset cs ⟨color, none, Span.ofSize offset (size cs)⟩
  | shared {cs share : List Char} {color : Color} {weight : Binary64} (hne : cs ≠ [])
      (hcolor : IsWritten offset cs color) (hread : Binary64.read? share = some weight)
      (hshare : weight.IsShare) :
      IsItem offset (cs ++ ';' :: share) ⟨color, some weight, Span.ofSize offset (size cs)⟩

/-- A color list as it is written at `offset`: colors with colons between them. -/
inductive IsList : Nat → List Char → List Item → Prop
  | last {offset : Nat} {cs : List Char} {item : Item} (hitem : IsItem offset cs item) :
      IsList offset cs [item]
  | cons {offset : Nat} {cs rest : List Char} {item : Item} {items : List Item}
      (hitem : IsItem offset cs item) (hrest : IsList (offset + size cs + 1) rest items) :
      IsList offset (cs ++ ':' :: rest) (item :: items)

theorem readWeight_eq_ok_iff {weight : Binary64} : readWeight offset cs = .ok weight ↔
    Binary64.read? cs = some weight ∧ weight.IsShare := by
  unfold readWeight
  cases Binary64.read? cs with
  | none => simp
  | some x =>
    simp only [Option.some.injEq]
    split
    · next hshare =>
      constructor
      · rintro ⟨⟩
        exact ⟨rfl, hshare⟩
      · rintro ⟨rfl, -⟩
        rfl
    · next hshare =>
      refine iff_of_false nofun ?_
      rintro ⟨rfl, hx⟩
      exact hshare hx

theorem readItem_eq_ok_iff {next : Option Char} {item : Item} :
    readItem offset next cs = .ok item ↔ IsItem offset cs item := by
  constructor
  · intro h
    have hcs := List.takeWhile_append_dropWhile (p := (· != ';')) (l := cs)
    obtain ⟨hne, hcolor⟩ := readColor_of_readItem h
    have hwritten := readColor_eq_ok_iff.1 hcolor
    unfold readItem at h
    simp only [hcolor, List.isEmpty_iff, hne, if_false] at h
    split at h
    · next hnil =>
      rw [hnil, List.append_nil] at hcs
      rw [← Except.ok.inj h]
      rw [hcs] at hne hwritten ⊢
      exact .alone hne hwritten
    · next mark share hmark =>
      have hsplit : splitFirst? ';' cs = some (cs.takeWhile (· != ';'), share) := by
        rw [splitFirst?, hmark]
      split at h
      · cases h
      · next weight hweight =>
        obtain ⟨hread, hshare⟩ := readWeight_eq_ok_iff.1 hweight
        have hitem := IsItem.shared hne hwritten hread hshare
        rw [← Except.ok.inj h]
        rwa [splitFirst?_append hsplit] at hitem
  · intro h
    cases h with
    | alone hne hcolor =>
      simp only [readItem, List.takeWhile_eq_self_iff.2 hcolor.bne_semicolon,
        List.dropWhile_eq_nil_iff.2 hcolor.bne_semicolon,
        List.isEmpty_iff, hne, if_false, readColor_eq_ok_iff.2 hcolor]
      rfl
    | @shared cs share color weight hne hcolor hread hshare =>
      have hmark : ∀ c ∈ (';' :: share).head?, (c != ';') = false := by simp
      simp only [readItem, takeWhile_append_of_all hcolor.bne_semicolon hmark,
        dropWhile_append_of_all hcolor.bne_semicolon hmark,
        List.isEmpty_iff, hne, if_false, readColor_eq_ok_iff.2 hcolor,
        readWeight_eq_ok_iff.2 ⟨hread, hshare⟩]
      rfl

/-- No color of a list has a colon in it, and neither has its share. -/
theorem IsItem.not_mem {item : Item} (h : IsItem offset cs item) : ':' ∉ cs := by
  cases h with
  | alone _ hcolor => exact hcolor.not_mem.1
  | shared _ hcolor hread _ =>
    simp only [List.mem_append, List.mem_cons, not_or]
    refine ⟨hcolor.not_mem.1, by decide, fun hmem => ?_⟩
    exact absurd (Binary64.isLiteralChar_of_read? hread ':' hmem) (by decide)

theorem readSegments_eq_ok_iff {items : List Item} :
    readSegments offset (pieces (· == ':') cs) = .ok items ↔ IsList offset cs items := by
  constructor
  · intro h
    generalize hpieces : pieces (· == ':') cs = segments at h
    induction segments generalizing offset cs items with
    | nil => exact absurd hpieces (pieces_ne_nil _ cs)
    | cons segment segments ih =>
      rw [readSegments] at h
      split at h
      · cases h
      · next item hread =>
        have hitem := readItem_eq_ok_iff.1 hread
        split at h
        · cases h
        · next items' hitems =>
          cases h
          rcases pieces_eq_cons hpieces with ⟨rfl, rfl⟩ | ⟨c, rest, hc, rfl, hrest⟩
          · cases hitems
            exact .last hitem
          · rw [eq_of_beq hc]
            exact .cons hitem (ih hrest hitems)
  · intro h
    rw [pieces_eq_splitOnP, ← List.splitOn_eq_splitOnP]
    induction h with
    | last hitem =>
      rw [List.splitOn_eq_singleton hitem.not_mem, readSegments, readItem_eq_ok_iff.2 hitem]
      rfl
    | cons hitem _ ih =>
      rw [List.splitOn_append_cons_self_of_not_mem hitem.not_mem, readSegments,
        readItem_eq_ok_iff.2 hitem, ih]

/-- **Color lists.** Exactly what is written is read. -/
theorem readList_eq_ok_iff {items : List Item} : readList cs = .ok items ↔ IsList 0 cs items :=
  readSegments_eq_ok_iff

/-! ## The text of a color of a list -/

/-- The text of a color of the list `cs`, without its share. -/
structure IsTextOf (offset : Nat) (cs text : List Char) (item : Item) : Prop where
  ne_nil : text ≠ []
  standsAt : StandsAt offset cs item.span text
  isWritten : IsWritten item.span.start text item.color
  isShare : ∀ weight ∈ item.weight, weight.IsShare

theorem IsItem.exists_isTextOf {item : Item} (h : IsItem offset cs item) :
    ∃ text, IsTextOf offset cs text item := by
  cases h with
  | alone hne hcolor => exact ⟨cs, hne, standsAt_self, hcolor, nofun⟩
  | @shared text share color weight hne hcolor hread hshare =>
    refine ⟨text, hne, standsAt_self.append_right, hcolor, ?_⟩
    rintro _ ⟨⟩
    exact hshare

/-- Every color of a list has its text in the list. -/
theorem IsList.exists_isTextOf {items : List Item} (h : IsList offset cs items) :
    ∀ item ∈ items, ∃ text, IsTextOf offset cs text item := by
  induction h with
  | last hitem => exact List.forall_mem_singleton.2 hitem.exists_isTextOf
  | @cons offset cs rest item items hitem _ ih =>
    refine List.forall_mem_cons.2 ⟨?_, fun other hother => ?_⟩
    · obtain ⟨text, htext⟩ := hitem.exists_isTextOf
      exact ⟨text, { htext with standsAt := htext.standsAt.append_right }⟩
    · obtain ⟨text, htext⟩ := ih other hother
      have hstands := htext.standsAt
      rw [add_size_add_one (c := ':') rfl] at hstands
      rw [List.append_cons]
      exact ⟨text, { htext with standsAt := hstands.append_left }⟩

end DotAttributes.Color
