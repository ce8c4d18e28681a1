import DotAttributes.Proofs.Color.Grammar

/-!
# One color and lists of one color

A text is read as one color exactly if it is read as a list of this color, without a share, since
no form of a color lets the separators of a list through (`read_eq_ok_iff_readList`). The empty
text is the exception. No list has an empty text among its colors, and nothing behind a scheme is
refused as well, but alone it is read as a color, which has the empty name (`not_hasName_iff`).
-/

namespace DotAttributes.Color

open Text

variable {offset : Nat} {cs : List Char} {color : Color} {item : Item}

/-! ## Lists of one color -/

theorem isList_singleton_iff : IsList offset cs [item] ↔ IsItem offset cs item := by
  constructor
  · intro h
    cases h with
    | last hitem => exact hitem
    | cons _ hrest => cases hrest
  · exact .last

/-- A color without a share is all that is written. -/
theorem isItem_alone_iff (hne : cs ≠ []) : IsItem offset cs item ∧ item.weight = none ↔
    ∃ color, IsWritten offset cs color ∧
      item = ⟨color, none, Span.ofSize offset (size cs)⟩ := by
  constructor
  · rintro ⟨h, hweight⟩
    cases h with
    | alone _ hcolor => exact ⟨_, hcolor, rfl⟩
    | shared => cases hweight
  · rintro ⟨color, hcolor, rfl⟩
    exact ⟨.alone hne hcolor, rfl⟩

/-- **One color.** A text that is not empty is read as one color exactly if it is read as a list of
this color, in the same place and without a share. A text with a colon or a semicolon in it is
never one color. -/
theorem read_eq_ok_iff_readList (hne : cs ≠ []) :
    (∀ item, read cs = .ok item ↔ readList cs = .ok [item] ∧ item.weight = none) ∧
      ((∃ item, read cs = .ok item) → ':' ∉ cs ∧ ';' ∉ cs) := by
  constructor
  · intro item
    rw [read_eq_ok_iff, readList_eq_ok_iff, isList_singleton_iff, isItem_alone_iff hne, ofSize_zero]
  · rintro ⟨item, hread⟩
    obtain ⟨color, hcolor, -⟩ := read_eq_ok_iff.1 hread
    exact hcolor.not_mem

/-- Three numbers between separators of each kind. -/
theorem read_eq_ok_iff_readList_triple : ∃ item, read "0.5 1,.25".toList = .ok item ∧
    readList "0.5 1,.25".toList = .ok [item] ∧ ':' ∉ "0.5 1,.25".toList := by
  obtain ⟨item, hread⟩ : ∃ item, read "0.5 1,.25".toList = .ok item := ⟨_, rfl⟩
  have hne : "0.5 1,.25".toList ≠ [] := by decide
  exact ⟨item, hread, ((read_eq_ok_iff_readList hne).1 item |>.1 hread).1,
    ((read_eq_ok_iff_readList hne).2 ⟨item, hread⟩).1⟩

/-! ## Names -/

/-- Neither the name of a color nor its place is empty, if it has a name. -/
def HasName : Color → Prop
  | named _ name => name.item ≠ [] ∧ name.span.start < name.span.stop
  | rgb .. | hsv .. => True

theorem IsWritten.hasName (h : IsWritten offset cs color) (hne : cs ≠ []) : color.HasName := by
  have hplace {name : List Char} (start : Nat) (hname : name ≠ []) :
      name ≠ [] ∧ start < start + size name := by
    have hsize : size name ≠ 0 := fun hzero => hname (size_eq_zero_iff.1 hzero)
    exact ⟨hname, by omega⟩
  cases h with
  | rgb | rgba | hsv => trivial
  | qualified _ hname _ => exact hplace _ hname
  | plain => exact hplace _ hne

/-- What starts with a color does not start with a semicolon. -/
theorem IsWritten.head?_ne {text : List Char} (hcolor : IsWritten offset text color)
    (hne : text ≠ []) (after : List Char) :
    text ++ after ≠ [] ∧ (text ++ after).head? ≠ some ';' := by
  obtain ⟨c, rest, rfl⟩ := List.exists_cons_of_ne_nil hne
  refine ⟨List.cons_ne_nil _ _, fun hmark => ?_⟩
  cases hmark
  exact hcolor.not_mem.2 List.mem_cons_self

/-- Neither nothing nor a share alone is a color of a list. -/
theorem IsItem.head?_ne (h : IsItem offset cs item) : cs ≠ [] ∧ cs.head? ≠ some ';' := by
  cases h with
  | alone hne hcolor =>
    have hhead := hcolor.head?_ne hne []
    rwa [List.append_nil] at hhead
  | shared hne hcolor => exact hcolor.head?_ne hne _

theorem IsList.exists_isItem_of_mem_splitOn {items : List Item} (h : IsList offset cs items) :
    ∀ segment ∈ cs.splitOn ':', ∃ start item, IsItem start segment item := by
  induction h with
  | last hitem =>
    rw [List.splitOn_eq_singleton hitem.not_mem]
    exact List.forall_mem_singleton.2 ⟨_, _, hitem⟩
  | cons hitem _ ih =>
    rw [List.splitOn_append_cons_self_of_not_mem hitem.not_mem]
    exact List.forall_mem_cons.2 ⟨⟨_, _, hitem⟩, ih⟩

/-- No color ends with the second of its slashes. -/
theorem not_isWritten_slash : ¬ IsWritten offset ('/' :: (cs ++ ['/'])) color := by
  intro h
  generalize htext : '/' :: (cs ++ ['/']) = text at h
  cases h with
  | rgb | rgba => cases htext
  | hsv htriple =>
    subst htext
    exact absurd htriple.startsNumeric Bool.false_ne_true
  | @qualified scheme name _ hne hname =>
    -- the name would end with the slash
    obtain ⟨before, last, rfl⟩ := (List.eq_nil_or_concat name).resolve_left hne
    have hlast : last = '/' := by
      have hreverse := congrArg List.reverse htext
      simp only [List.concat_eq_append, List.reverse_cons, List.reverse_append,
        List.reverse_nil, List.nil_append, List.cons_append, List.cons.injEq] at hreverse
      exact hreverse.1.symm
    exact absurd (hname '/' (by simp [hlast])) (by decide)
  | plain hname =>
    subst htext
    exact absurd (hname '/' List.mem_cons_self) (by decide)

/-- **Names.** The empty text is read as a color without a name, and no other text is. No color of
a list is without one: where nothing stands between two colons or in front of a share, no list is
read. Nor is a color read when nothing stands behind its last slash. -/
theorem not_hasName_iff (cs : List Char) :
    ((∃ item, read cs = .ok item ∧ ¬ item.color.HasName) ↔ cs = []) ∧
      (∀ items, readList cs = .ok items → ∀ item ∈ items, item.color.HasName) ∧
      ((∃ segment ∈ cs.splitOn ':', segment = [] ∨ segment.head? = some ';') →
        ∃ fault, readList cs = .error fault) ∧
      ∃ fault, read ('/' :: (cs ++ ['/'])) = .error fault := by
  refine ⟨⟨?_, ?_⟩, ?_, ?_, ?_⟩
  · rintro ⟨item, hread, hname⟩
    obtain ⟨color, hcolor, rfl⟩ := read_eq_ok_iff.1 hread
    by_contra hne
    exact hname (hcolor.hasName hne)
  · rintro rfl
    exact ⟨_, rfl, fun hname => hname.1 rfl⟩
  · intro items hread item hitem
    obtain ⟨text, htext⟩ := (readList_eq_ok_iff.1 hread).exists_isTextOf item hitem
    exact htext.isWritten.hasName htext.ne_nil
  · rintro ⟨segment, hsegment, hempty⟩
    cases hread : readList cs with
    | error fault => exact ⟨fault, rfl⟩
    | ok items =>
      obtain ⟨start, item, hitem⟩ :=
        (readList_eq_ok_iff.1 hread).exists_isItem_of_mem_splitOn segment hsegment
      rcases hempty with hnil | hmark
      · exact absurd hnil hitem.head?_ne.1
      · exact absurd hmark hitem.head?_ne.2
  · cases hread : read ('/' :: (cs ++ ['/'])) with
    | error fault => exact ⟨fault, rfl⟩
    | ok item =>
      obtain ⟨color, hcolor, -⟩ := read_eq_ok_iff.1 hread
      exact absurd hcolor not_isWritten_slash

/-- A list with a color behind each of its separators, and one with a share but no color. -/
theorem not_hasName_iff_lists :
    (∀ items, readList "red;.5:/svg/teal".toList = .ok items →
        ∀ item ∈ items, item.color.HasName) ∧
      (∃ items, readList "red;.5:/svg/teal".toList = .ok items) ∧
      ∃ fault, readList "red:;.5".toList = .error fault := by
  refine ⟨(not_hasName_iff _).2.1, ⟨_, rfl⟩, (not_hasName_iff "red:;.5".toList).2.2.1 ?_⟩
  exact ⟨";.5".toList, by decide, .inr rfl⟩

/-- The empty text is read as a color whose name is empty and stands nowhere. -/
theorem read_nil_not_hasName : read [] = .ok ⟨.named none ⟨[], ⟨0, 0⟩⟩, none, ⟨0, 0⟩⟩ ∧
    ¬ HasName (.named none ⟨[], ⟨0, 0⟩⟩) :=
  ⟨rfl, fun hname => hname.1 rfl⟩

end DotAttributes.Color
