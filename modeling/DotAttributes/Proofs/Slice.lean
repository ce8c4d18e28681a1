import DotAttributes.Source
import DotAttributes.Text.Blank
import Mathlib.Data.List.TakeWhile

/-!
# What stands at a span

A span of a text is good when both of its ends fall between characters and are in order.
`Text.StandsAt offset cs s t` says so and names the text it covers: `cs`, which starts at
`offset`, has `t` at `s`. Slicing finds exactly that text (`slice?_eq_some_iff`).

Readers take a text off piece by piece and compute offsets as they go. The relation follows
them: what stands in a part of a text stands in the text (`StandsAt.append_left`,
`StandsAt.append_right`, `StandsAt.trans`), and a value that moves takes what stands in it
along (`StandsAt.shift`).
-/

namespace DotAttributes.Text

/-- A text `cs` that starts at `offset` has the text `t` at the span `s`. -/
def StandsAt (offset : Nat) (cs : List Char) (s : Span) (t : List Char) : Prop :=
  ∃ before after, cs = before ++ t ++ after ∧ s = Span.ofSize (offset + size before) (size t)

/-- The span `s` covers some text of `cs`, which starts at `offset`. -/
def HasSpan (offset : Nat) (cs : List Char) (s : Span) : Prop := ∃ t, StandsAt offset cs s t

/-- The offset `n` falls between two characters of `cs`, or at one of its ends. -/
def HasBoundary (offset : Nat) (cs : List Char) (n : Nat) : Prop :=
  ∃ before after, cs = before ++ after ∧ n = offset + size before

variable {offset n : Nat} {cs ds t u : List Char} {s s' : Span}

/-! ## Slices -/

/-- A text can be cut after `n` bytes exactly where a beginning of it has `n` bytes. -/
theorem splitAt?_eq_some_iff {before after : List Char} :
    splitAt? n cs = some (before, after) ↔ cs = before ++ after ∧ n = size before := by
  induction cs generalizing n before with
  | nil =>
    cases n with
    | zero =>
      rw [splitAt?]
      constructor
      · intro h
        cases h
        exact ⟨rfl, rfl⟩
      · rintro ⟨h, -⟩
        obtain ⟨rfl, rfl⟩ := List.append_eq_nil_iff.1 h.symm
        rfl
    | succ n =>
      rw [splitAt?]
      constructor
      · intro h
        cases h
      · rintro ⟨h, hn⟩
        obtain ⟨rfl, rfl⟩ := List.append_eq_nil_iff.1 h.symm
        cases hn
  | cons c cs ih =>
    have hpos := Char.utf8Size_pos c
    cases n with
    | zero =>
      rw [splitAt?]
      constructor
      · intro h
        cases h
        exact ⟨rfl, rfl⟩
      · rintro ⟨h, hn⟩
        rw [size_eq_zero_iff.1 hn.symm, List.nil_append] at h
        rw [size_eq_zero_iff.1 hn.symm, h]
    | succ n =>
      rw [splitAt?]
      constructor
      · intro h
        split at h
        · obtain ⟨⟨b, a⟩, hsplit, heq⟩ := Option.map_eq_some_iff.1 h
          cases heq
          obtain ⟨hcs, hsize⟩ := ih.1 hsplit
          refine ⟨by rw [hcs, List.cons_append], ?_⟩
          rw [size_cons]
          omega
        · cases h
      · rintro ⟨h, hn⟩
        cases before with
        | nil => cases hn
        | cons b bs =>
          rw [List.cons_append, List.cons.injEq] at h
          obtain ⟨rfl, hcs⟩ := h
          rw [size_cons] at hn
          rw [if_pos (by omega), ih.2 ⟨hcs, by omega⟩]
          rfl

/-- **Slices.** A slice of a text is what stands at the span. -/
theorem slice?_eq_some_iff : slice? cs s = some t ↔ StandsAt 0 cs s t := by
  unfold slice?
  constructor
  · intro h
    split at h
    · next hle =>
      split at h
      · next before rest hsplit =>
        obtain ⟨⟨t', after⟩, hrest, rfl⟩ := Option.map_eq_some_iff.1 h
        obtain ⟨hcs, hstart⟩ := splitAt?_eq_some_iff.1 hsplit
        obtain ⟨hrest', hsize⟩ := splitAt?_eq_some_iff.1 hrest
        refine ⟨before, after, by rw [hcs, hrest', List.append_assoc], ?_⟩
        cases s
        simp only [Span.ofSize, Span.mk.injEq] at hstart hsize hle ⊢
        omega
      · cases h
    · cases h
  · rintro ⟨before, after, hcs, rfl⟩
    have hstart : splitAt? (0 + size before) cs = some (before, t ++ after) :=
      splitAt?_eq_some_iff.2 ⟨by rw [hcs, List.append_assoc], Nat.zero_add _⟩
    have hrest : splitAt? (size t) (t ++ after) = some (t, after) :=
      splitAt?_eq_some_iff.2 ⟨rfl, rfl⟩
    have hle : (Span.ofSize (0 + size before) (size t)).start ≤
        (Span.ofSize (0 + size before) (size t)).stop := Nat.le_add_right _ _
    rw [if_pos hle, Span.ofSize_start, hstart]
    simp only [Span.ofSize_stop, Nat.add_sub_cancel_left, hrest, Option.map_some]

/-! ## Parts of a text -/

theorem standsAt_self : StandsAt offset cs (Span.ofSize offset (size cs)) cs :=
  ⟨[], [], by simp, by simp⟩

theorem standsAt_whole (cs : List Char) : StandsAt 0 cs ⟨0, size cs⟩ cs :=
  ⟨[], [], by simp, by simp [Span.ofSize]⟩

/-- The text between a beginning and an end. -/
theorem standsAt_append (before after : List Char) :
    StandsAt offset (before ++ t ++ after) (Span.ofSize (offset + size before) (size t)) t :=
  ⟨before, after, rfl, rfl⟩

namespace StandsAt

theorem append_left (h : StandsAt (offset + size ds) cs s t) : StandsAt offset (ds ++ cs) s t := by
  obtain ⟨before, after, rfl, rfl⟩ := h
  refine ⟨ds ++ before, after, by simp, ?_⟩
  rw [size_append, Nat.add_assoc]

theorem append_right (h : StandsAt offset cs s t) : StandsAt offset (cs ++ ds) s t := by
  obtain ⟨before, after, rfl, rfl⟩ := h
  exact ⟨before, after ++ ds, by simp, rfl⟩

/-- What stands in a text that stands in another one stands in that one. -/
theorem trans (h : StandsAt offset cs s t) (h' : StandsAt s.start t s' u) :
    StandsAt offset cs s' u := by
  obtain ⟨before, after, rfl, rfl⟩ := h
  exact h'.append_left.append_right

theorem shift (base : Nat) (h : StandsAt offset cs s t) :
    StandsAt (offset + base) cs (s.shift base) t := by
  obtain ⟨before, after, rfl, rfl⟩ := h
  refine ⟨before, after, rfl, ?_⟩
  simp only [Span.shift, Span.ofSize, Span.mk.injEq]
  omega

theorem start_le_stop (h : StandsAt offset cs s t) : s.start ≤ s.stop := by
  obtain ⟨before, after, -, rfl⟩ := h
  exact Nat.le_add_right _ _

theorem stop_eq (h : StandsAt offset cs s t) : s.stop = s.start + size t := by
  obtain ⟨before, after, -, rfl⟩ := h
  rfl

theorem start_lt_stop (h : StandsAt offset cs s t) (hne : t ≠ []) : s.start < s.stop := by
  obtain ⟨before, after, -, rfl⟩ := h
  have hpos : size t ≠ 0 := fun hzero => hne (size_eq_zero_iff.1 hzero)
  simp only [Span.ofSize_start, Span.ofSize_stop]
  omega

theorem le_start (h : StandsAt offset cs s t) : offset ≤ s.start := by
  obtain ⟨before, after, -, rfl⟩ := h
  exact Nat.le_add_right _ _

theorem stop_le (h : StandsAt offset cs s t) : s.stop ≤ offset + size cs := by
  obtain ⟨before, after, rfl, rfl⟩ := h
  simp only [Span.ofSize, size_append]
  omega

theorem hasSpan (h : StandsAt offset cs s t) : HasSpan offset cs s := ⟨t, h⟩

end StandsAt

theorem HasSpan.append_left (h : HasSpan (offset + size ds) cs s) : HasSpan offset (ds ++ cs) s :=
  let ⟨t, ht⟩ := h
  ⟨t, ht.append_left⟩

theorem HasSpan.append_right (h : HasSpan offset cs s) : HasSpan offset (cs ++ ds) s :=
  let ⟨t, ht⟩ := h
  ⟨t, ht.append_right⟩

/-! ## Boundaries -/

theorem HasSpan.boundaries (h : HasSpan offset cs s) :
    HasBoundary offset cs s.start ∧ HasBoundary offset cs s.stop := by
  obtain ⟨t, before, after, rfl, rfl⟩ := h
  refine ⟨⟨before, t ++ after, by simp, rfl⟩, ⟨before ++ t, after, rfl, ?_⟩⟩
  simp only [Span.ofSize, size_append]
  omega

theorem HasSpan.start_le_stop (h : HasSpan offset cs s) : s.start ≤ s.stop :=
  let ⟨_, ht⟩ := h
  ht.start_le_stop

/-- Of two beginnings of a text, the one with fewer bytes is a beginning of the other. -/
theorem exists_append_of_size_le {before before' after after' : List Char}
    (h : before ++ after = before' ++ after') (hle : size before ≤ size before') :
    ∃ t, before' = before ++ t ∧ after = t ++ after' := by
  rcases List.append_eq_append_iff.1 h with ⟨t, hb, ha⟩ | ⟨t, hb, ha⟩
  · exact ⟨t, hb, ha⟩
  · have ht : t = [] := by
      rw [hb, size_append] at hle
      exact size_eq_zero_iff.1 (by omega)
    subst ht
    exact ⟨[], by simpa using hb.symm, by simpa using ha.symm⟩

/-- Two boundaries in order are the ends of a span. -/
theorem HasBoundary.hasSpan (h : HasBoundary offset cs s.start) (h' : HasBoundary offset cs s.stop)
    (hle : s.start ≤ s.stop) : HasSpan offset cs s := by
  obtain ⟨before, rest, rfl, hstart⟩ := h
  obtain ⟨before', after, heq, hstop⟩ := h'
  obtain ⟨t, rfl, rfl⟩ := exists_append_of_size_le heq (by omega)
  refine ⟨t, before, after, by simp, ?_⟩
  rw [size_append] at hstop
  cases s
  simp only [Span.ofSize, Span.mk.injEq] at hstart hstop ⊢
  omega

/-- Two texts of which one stands right behind the other stand there together. -/
theorem StandsAt.append (h : StandsAt offset cs s t) (h' : StandsAt offset cs s' u)
    (hnext : s.stop = s'.start) : StandsAt offset cs (s.through s') (t ++ u) := by
  obtain ⟨before, after, rfl, rfl⟩ := h
  obtain ⟨before', after', heq, rfl⟩ := h'
  simp only [Span.ofSize_start, Span.ofSize_stop] at hnext
  obtain ⟨gap, rfl, rfl⟩ : ∃ gap, before' = (before ++ t) ++ gap ∧ after = gap ++ (u ++ after') := by
    refine exists_append_of_size_le ?_ ?_
    · rw [heq, List.append_assoc]
    · rw [size_append]
      omega
  have hgap : gap = [] := by
    simp only [size_append] at hnext
    exact size_eq_zero_iff.1 (by omega)
  refine ⟨before, after', by simp [hgap], ?_⟩
  simp only [Span.through, Span.ofSize, size_append, hgap, size_nil, Span.mk.injEq, true_and]
  omega

/-- The span from the start of one to the end of another. -/
theorem HasSpan.through (h : HasSpan offset cs s) (h' : HasSpan offset cs s')
    (hle : s.start ≤ s'.stop) : HasSpan offset cs (s.through s') :=
  HasBoundary.hasSpan (s := s.through s') h.boundaries.1 h'.boundaries.2 hle

/-- Nothing stands at a boundary. -/
theorem standsAt_empty (h : HasBoundary offset cs n) : StandsAt offset cs (Span.empty n) [] := by
  obtain ⟨before, after, rfl, rfl⟩ := h
  exact ⟨before, after, by simp, rfl⟩

/-- The empty span at the end of a text. -/
theorem standsAt_end (offset : Nat) (cs : List Char) :
    StandsAt offset cs (Span.empty (offset + size cs)) [] :=
  ⟨cs, [], by simp, rfl⟩

theorem hasSpan_whole (cs : List Char) : HasSpan 0 cs ⟨0, size cs⟩ := ⟨cs, standsAt_whole cs⟩

/-- The character with which a text starts, or its end when it is empty. -/
theorem hasSpan_charSpan_head? (offset : Nat) (cs : List Char) :
    HasSpan offset cs (charSpan offset cs.head?) := by
  cases cs with
  | nil => exact ⟨[], standsAt_end offset []⟩
  | cons c cs => exact ⟨[c], [], cs, rfl, rfl⟩

/-- A text of characters of one byte has as many bytes as characters. -/
theorem size_eq_length (h : ∀ c ∈ cs, c.utf8Size = 1) : size cs = cs.length := by
  induction cs with
  | nil => rfl
  | cons c cs ih =>
    obtain ⟨hc, hcs⟩ := List.forall_mem_cons.1 h
    rw [size_cons, hc, ih hcs, List.length_cons, Nat.add_comm]

/-- What stands one byte behind a text stands behind the text with its separator. -/
theorem add_size_add_one {c : Char} (hc : c.utf8Size = 1) (offset : Nat) (cs : List Char) :
    offset + size cs + 1 = offset + size (cs ++ [c]) := by
  rw [size_append, size_cons, size_nil, hc, Nat.add_assoc]

/-- The character behind a beginning of a text. -/
theorem hasSpan_charSpan_append (before : List Char) (c : Char) (after : List Char) :
    HasSpan offset (before ++ c :: after) (charSpan (offset + size before) (some c)) :=
  (hasSpan_charSpan_head? _ (c :: after)).append_left

/-- What has a span in a text that stands in another one has it in that one. -/
theorem HasSpan.trans (h : StandsAt offset cs s t) (h' : HasSpan s.start t s') :
    HasSpan offset cs s' :=
  let ⟨u, hu⟩ := h'
  ⟨u, h.trans hu⟩

/-- The pieces between separators of one byte stand at their offsets. -/
theorem standsAt_of_mem_withOffsets {isSeparator : Char → Bool}
    (hone : ∀ c, isSeparator c = true → c.utf8Size = 1) {ps : List (List Char)} :
    ∀ {offset : Nat} {cs : List Char}, pieces isSeparator cs = ps →
      ∀ part ∈ withOffsets offset ps, StandsAt offset cs (Span.ofSize part.1 (size part.2)) part.2 := by
  induction ps with
  | nil => exact fun hpieces => absurd hpieces (pieces_ne_nil _ _)
  | cons p ps ih =>
    intro offset cs hpieces
    rw [withOffsets]
    rcases pieces_eq_cons hpieces with ⟨rfl, rfl⟩ | ⟨c, rest, hc, rfl, hrest⟩
    · exact List.forall_mem_singleton.2 standsAt_self
    · refine List.forall_mem_cons.2 ⟨standsAt_self.append_right, fun part hpart => ?_⟩
      rw [add_size_add_one (hone c hc)] at hpart
      rw [List.append_cons]
      exact (ih hrest part hpart).append_left

/-! ## Runs of characters -/

theorem dropWhile_of_head {p : Char → Bool} (h : ∀ c ∈ cs.head?, p c = false) :
    cs.dropWhile p = cs := by
  cases cs with
  | nil => rfl
  | cons c cs => simp [h c rfl]

/-- A run of characters stops in front of the first other one. -/
theorem takeWhile_append_of_all {p : Char → Bool} (hcs : ∀ c ∈ cs, p c = true)
    (hds : ∀ c ∈ ds.head?, p c = false) : (cs ++ ds).takeWhile p = cs := by
  rw [List.takeWhile_append_of_pos hcs]
  cases ds with
  | nil => simp
  | cons d ds => simp [hds d rfl]

theorem dropWhile_append_of_all {p : Char → Bool} (hcs : ∀ c ∈ cs, p c = true)
    (hds : ∀ c ∈ ds.head?, p c = false) : (cs ++ ds).dropWhile p = ds := by
  rw [List.dropWhile_append_of_pos hcs, dropWhile_of_head hds]

/-- Behind a run of characters stands another one. -/
theorem head?_dropWhile (p : Char → Bool) (cs : List Char) :
    ∀ c ∈ (cs.dropWhile p).head?, p c = false := by
  intro c hc
  obtain ⟨rest, hrest⟩ := List.head?_eq_some_iff.1 hc
  have hne : cs.dropWhile p ≠ [] := by
    rw [hrest]
    exact List.cons_ne_nil _ _
  have hhead := List.head_dropWhile_not p hne
  simpa only [hrest, List.head_cons] using hhead

/-- A text without the separator is what stands before its first occurrence. -/
theorem splitFirst?_append_cons {separator : Char} (h : separator ∉ cs) (ds : List Char) :
    splitFirst? separator (cs ++ separator :: ds) = some (cs, ds) := by
  have hcs : ∀ c ∈ cs, (c != separator) = true := fun c hc => bne_iff_ne.2 fun heq => h (heq ▸ hc)
  have hds : ∀ c ∈ (separator :: ds).head?, (c != separator) = false := by simp
  simp only [splitFirst?, dropWhile_append_of_all hcs hds, takeWhile_append_of_all hcs hds]

theorem not_mem_of_splitFirst? {separator : Char} (h : splitFirst? separator cs = some (t, u)) :
    separator ∉ t := by
  unfold splitFirst? at h
  split at h
  · cases h
  · cases h
    intro hmem
    simpa using List.mem_takeWhile_imp hmem

theorem not_mem_of_splitFirst?_eq_none {separator : Char} (h : splitFirst? separator cs = none) :
    separator ∉ cs := by
  unfold splitFirst? at h
  split at h
  · next hnil =>
    intro hmem
    simpa using List.dropWhile_eq_nil_iff.1 hnil separator hmem
  · cases h

/-- The pieces of a text are those of the library. -/
theorem pieces_eq_splitOnP (isSeparator : Char → Bool) (cs : List Char) :
    pieces isSeparator cs = cs.splitOnP isSeparator := by
  induction cs with
  | nil => rfl
  | cons c cs ih =>
    rw [List.splitOnP_cons_eq_if_modifyHead, pieces, ih]
    split
    · rfl
    · cases h : cs.splitOnP isSeparator with
      | nil => exact absurd h (List.splitOnP_ne_nil _ _)
      | cons p ps => rfl

/-! ## Trimming -/

theorem trimStart_eq (cs : List Char) : cs = cs.takeWhile isBlank ++ trimStart cs :=
  (List.takeWhile_append_dropWhile).symm

theorem exists_trimEnd_append (cs : List Char) : ∃ blanks, cs = trimEnd cs ++ blanks := by
  refine ⟨(cs.reverse.takeWhile isBlank).reverse, ?_⟩
  rw [trimEnd, ← List.reverse_append, List.takeWhile_append_dropWhile, List.reverse_reverse]

/-- A trimmed text stands where it is said to stand. -/
theorem standsAt_trimAt (offset : Nat) (cs : List Char) :
    StandsAt offset cs (trimAt offset cs).span (trimAt offset cs).item := by
  obtain ⟨blanks, hblanks⟩ := exists_trimEnd_append (trimStart cs)
  refine ⟨cs.takeWhile isBlank, blanks, ?_, rfl⟩
  rw [List.append_assoc]
  exact (trimStart_eq cs).trans (congrArg _ hblanks)

/-- The text that is left by trimming stands behind the blanks in front of it. -/
theorem standsAt_blanks_trim (offset : Nat) (cs : List Char) :
    StandsAt offset cs ⟨offset, (trimAt offset cs).span.stop⟩
      (cs.takeWhile isBlank ++ trim cs) := by
  obtain ⟨blanks, hblanks⟩ := exists_trimEnd_append (trimStart cs)
  refine ⟨[], blanks, ?_, ?_⟩
  · rw [List.nil_append, List.append_assoc]
    exact (trimStart_eq cs).trans (congrArg _ hblanks)
  · simp [trimAt, Span.ofSize, size_append, Nat.add_assoc]

/-- A text of which trimming leaves nothing is blank. -/
theorem isBlankText_of_trim_eq_nil (h : trim cs = []) : isBlankText cs = true := by
  have hreverse : (trimStart cs).reverse.dropWhile isBlank = [] := List.reverse_eq_nil_iff.1 h
  have hstart : ∀ c ∈ trimStart cs, isBlank c = true := by
    intro c hc
    exact List.dropWhile_eq_nil_iff.1 hreverse c (List.mem_reverse.2 hc)
  rw [isBlankText, List.all_eq_true]
  intro c hc
  rw [trimStart_eq cs] at hc
  rcases List.mem_append.1 hc with hc | hc
  · exact List.mem_takeWhile_imp hc
  · exact hstart c hc

/-- The place of a trimmed text stops behind the first character, also when only blanks are
trimmed. -/
theorem lt_stop_trimAt (offset : Nat) (hne : cs ≠ []) : offset < (trimAt offset cs).span.stop := by
  have hpos : size cs ≠ 0 := fun hzero => hne (size_eq_zero_iff.1 hzero)
  have hstop : (trimAt offset cs).span.stop =
      offset + size (cs.takeWhile isBlank) + size (trim cs) := rfl
  by_cases htrim : trim cs = []
  · have hblank : ∀ c ∈ cs, isBlank c = true :=
      List.all_eq_true.1 (isBlankText_of_trim_eq_nil htrim)
    rw [hstop, List.takeWhile_eq_self_iff.2 hblank]
    omega
  · have htrim : size (trim cs) ≠ 0 := fun hzero => htrim (size_eq_zero_iff.1 hzero)
    omega

/-- Text without blanks at its ends is not trimmed. -/
theorem trim_of_ends (hhead : ∀ c ∈ cs.head?, isBlank c = false)
    (hlast : ∀ c ∈ cs.getLast?, isBlank c = false) : trim cs = cs := by
  have hreverse : cs.reverse.dropWhile isBlank = cs.reverse := by
    refine dropWhile_of_head fun c hc => hlast c ?_
    rwa [List.head?_reverse] at hc
  rw [trim, trimStart, dropWhile_of_head hhead, trimEnd, hreverse, List.reverse_reverse]

/-- A trimmed text starts with another character than a blank. -/
theorem isBlank_head?_trim (cs : List Char) : ∀ c ∈ (trim cs).head?, isBlank c = false := by
  intro c hc
  obtain ⟨blanks, hblanks⟩ := exists_trimEnd_append (trimStart cs)
  have htrim : trimStart cs = trim cs ++ blanks := hblanks
  refine head?_dropWhile isBlank cs c ?_
  show c ∈ (trimStart cs).head?
  rw [htrim, List.head?_append, Option.mem_def.1 hc]
  rfl

/-- A trimmed text ends with another character than a blank. -/
theorem isBlank_getLast?_trim (cs : List Char) : ∀ c ∈ (trim cs).getLast?, isBlank c = false := by
  intro c hc
  rw [trim, trimEnd, List.getLast?_reverse] at hc
  exact head?_dropWhile isBlank (trimStart cs).reverse c hc

/-- A trimmed text is not trimmed further. -/
theorem trim_trim (cs : List Char) : trim (trim cs) = trim cs :=
  trim_of_ends (isBlank_head?_trim cs) (isBlank_getLast?_trim cs)

/-- Trimming adds nothing. -/
theorem trim_subset (cs : List Char) : trim cs ⊆ cs := by
  intro c hc
  obtain ⟨blanks, hblanks⟩ := exists_trimEnd_append (trimStart cs)
  rw [trimStart_eq cs, hblanks]
  exact List.mem_append_right _ (List.mem_append_left _ hc)

/-- A trimmed text is blank only if it is empty. -/
theorem isBlankText_trim (cs : List Char) : isBlankText (trim cs) = (trim cs).isEmpty := by
  cases h : trim cs with
  | nil => rfl
  | cons c rest =>
    have hc : isBlank c = false := isBlank_head?_trim cs c (by rw [h]; rfl)
    simp [isBlankText, hc]

/-! ## Places one after the other -/

/-- Each of the located things stops behind the one in front of it. -/
def Ascending {α : Type} (l : List (Located α)) : Prop :=
  l.Pairwise fun x y => x.span.stop < y.span.stop

theorem pairwise_of_length_le_one {α : Type} {R : α → α → Prop} {l : List α} (h : l.length ≤ 1) :
    l.Pairwise R := by
  match l, h with
  | [], _ => exact .nil
  | [x], _ => exact List.pairwise_singleton R x

theorem Ascending.nodup {α : Type} {l : List (Located α)} (h : Ascending l) :
    (l.map Located.span).Nodup := by
  refine List.pairwise_map.2 (h.imp fun hlt heq => ?_)
  rw [heq] at hlt
  exact Nat.lt_irrefl _ hlt

/-- The located things are not empty and follow each other from `offset` on: each of them stops
where the next one starts, or before. -/
structure Successive {α : Type} (offset : Nat) (l : List (Located α)) : Prop where
  solid : ∀ x ∈ l, offset ≤ x.span.start ∧ x.span.start < x.span.stop
  pairwise : l.Pairwise fun x y => x.span.stop ≤ y.span.start

namespace Successive

variable {α : Type} {l : List (Located α)}

theorem stop_pos (h : Successive offset l) : ∀ x ∈ l, offset < x.span.stop := by
  intro x hx
  obtain ⟨hle, hlt⟩ := h.solid x hx
  exact Nat.lt_of_le_of_lt hle hlt

theorem ascending (h : Successive offset l) : Ascending l := by
  refine h.pairwise.imp_of_mem ?_
  intro x y _ hy hle
  exact Nat.lt_of_le_of_lt hle (h.solid y hy).2

end Successive

end DotAttributes.Text
