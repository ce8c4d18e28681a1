import DotAttributes.Proofs.Markup.Cutting

/-!
# The regions of a markup label

Read character by character, a label is in a tag from `<` to `>`, in a value from a quote in a tag
to the next such quote, in a comment from `<!--` to the first `-->`, and elsewhere between the tags.
`regionBehind` says in which of these regions a text ends. It knows nothing of tokens, but the
scanner agrees with it: a piece that is closed leads from the region of its mode to that of the next
mode (`regionBehind_taken`), and one that is not leaves the label in a comment or in a value
(`regionBehind_unclosed`).
-/

namespace DotAttributes.Markup

open Text

/-- Where a character of a label stands. -/
inductive Region
  | content
  | comment
  | tag
  | value (quote : Char)
deriving DecidableEq, Repr

/-- The region behind a text that starts in a region. -/
def regionBehind : Region → List Char → Region
  | region, [] => region
  | .content, '<' :: '!' :: '-' :: '-' :: cs => regionBehind .comment cs
  | .content, '<' :: cs => regionBehind .tag cs
  | .content, _ :: cs => regionBehind .content cs
  | .comment, '-' :: '-' :: '>' :: cs => regionBehind .content cs
  | .comment, _ :: cs => regionBehind .comment cs
  | .tag, '>' :: cs => regionBehind .content cs
  | .tag, c :: cs => regionBehind (if isQuote c then .value c else .tag) cs
  | .value quote, c :: cs => regionBehind (if c = quote then .tag else .value quote) cs

/-- The region in which the scanner is in a mode. -/
def Mode.region : Mode → Region
  | content => .content
  | tag => .tag

/-- What a text that ends in a region does not close. -/
def Region.unclosed? : Region → Option Unclosed
  | comment => some .comment
  | value _ => some .value
  | content | tag => none

/-! ## Comments -/

/-- A whole comment, up to the first `-->`. -/
def IsComment (cs : List Char) : Prop :=
  ∃ body, cs = ['<', '!', '-', '-'] ++ body ++ ['-', '-', '>'] ∧
    ¬ ['-', '-', '>'] <:+: body ++ ['-', '-']

variable {cs closed rest u : List Char} {c quote : Char}

theorem closing_begins_iff : ['-', '-', '>'] <+: c :: cs ↔
    c = '-' ∧ ∃ rest, cs = '-' :: '>' :: rest := by
  rw [List.cons_prefix_cons]
  refine and_congr eq_comm ⟨?_, ?_⟩
  · rintro ⟨rest, rfl⟩
    exact ⟨rest, rfl⟩
  · rintro ⟨rest, rfl⟩
    exact ⟨rest, rfl⟩

/-- Where a text is not cut, no beginning of it starts with `-->`. -/
theorem not_closing_begins {t : List Char}
    (hne : ∀ after, c = '-' → cs = '-' :: '>' :: after → False) (ht : t <+: cs) :
    ¬ ['-', '-', '>'] <+: c :: t := by
  intro hbegins
  obtain ⟨rfl, after, rfl⟩ :=
    closing_begins_iff.1 (hbegins.trans ((List.prefix_cons_inj c).2 ht))
  exact hne after rfl rfl

/-- A text is cut where its first `-->` ends. -/
theorem splitComment?_eq_some (h : splitComment? cs = some (closed, rest)) :
    ∃ body, closed = body ++ ['-', '-', '>'] ∧ ¬ ['-', '-', '>'] <:+: body ++ ['-', '-'] := by
  fun_induction splitComment? cs generalizing closed with
  | case1 =>
    cases h
    exact ⟨[], rfl, by decide⟩
  | case2 => cases h
  | case3 c cs hne ih =>
    obtain ⟨⟨inner, after⟩, hinner, heq⟩ := Option.map_eq_some_iff.1 h
    cases heq
    obtain ⟨body, rfl, hbody⟩ := ih hinner
    refine ⟨c :: body, rfl, fun hinfix => ?_⟩
    rcases List.infix_cons_iff.1 hinfix with hbegins | hinfix
    · have hcs : body ++ ['-', '-'] <+: cs := by
        rw [← splitComment?_append hinner]
        exact ⟨'>' :: rest, by simp⟩
      exact not_closing_begins hne hcs hbegins
    · exact hbody hinfix

/-- A text that is not cut has no `-->`. -/
theorem splitComment?_eq_none (h : splitComment? cs = none) : ¬ ['-', '-', '>'] <:+: cs := by
  fun_induction splitComment? cs with
  | case1 => cases h
  | case2 => decide
  | case3 c cs hne ih =>
    intro hinfix
    rcases List.infix_cons_iff.1 hinfix with hbegins | hinfix
    · exact not_closing_begins hne (List.prefix_refl cs) hbegins
    · exact ih (Option.map_eq_none_iff.1 h) hinfix

theorem regionBehind_comment_cons (h : ¬ ['-', '-', '>'] <+: c :: cs) :
    regionBehind .comment (c :: cs) = regionBehind .comment cs := by
  rw [regionBehind]
  rintro rest rfl rfl
  exact h ⟨rest, rfl⟩

/-- A comment ends with the first `-->`. -/
theorem regionBehind_closed (h : splitComment? cs = some (closed, rest)) (hu : u <+: rest) :
    regionBehind .comment (closed ++ u) = regionBehind .content u := by
  fun_induction splitComment? cs generalizing closed with
  | case1 =>
    cases h
    rfl
  | case2 => cases h
  | case3 c cs hne ih =>
    obtain ⟨⟨inner, after⟩, hinner, heq⟩ := Option.map_eq_some_iff.1 h
    cases heq
    have hcs : inner ++ u <+: cs := by
      rw [← splitComment?_append hinner]
      exact (List.prefix_append_right_inj inner).2 hu
    rw [List.cons_append, regionBehind_comment_cons (not_closing_begins hne hcs)]
    exact ih hinner

/-- A comment without `-->` does not end. -/
theorem regionBehind_comment (h : ¬ ['-', '-', '>'] <:+: cs) :
    regionBehind .comment cs = .comment := by
  induction cs with
  | nil => rfl
  | cons c cs ih =>
    rw [List.infix_cons_iff, not_or] at h
    rw [regionBehind_comment_cons h.1, ih h.2]

/-! ## Runs of characters -/

theorem not_mem_takeWhile_text (hne : c ≠ '<') (cs : List Char) :
    '<' ∉ c :: cs.takeWhile (· != '<') := by
  intro hmem
  rcases List.mem_cons.1 hmem with hc | hmem
  · exact hne hc.symm
  · exact absurd (List.mem_takeWhile_imp hmem) (by decide)

/-- Text goes on up to the next `<`. -/
theorem regionBehind_text (h : '<' ∉ cs) (u : List Char) :
    regionBehind .content (cs ++ u) = regionBehind .content u := by
  induction cs with
  | nil => rfl
  | cons c cs ih =>
    rw [List.mem_cons, not_or] at h
    rw [List.cons_append, regionBehind, ih h.2]
    · exact fun _ hc => absurd hc.symm h.1
    · exact fun hc => absurd hc.symm h.1

/-- A tag goes on up to the next `>` or quote. -/
theorem regionBehind_tag (h : ∀ c ∈ cs, c ≠ '>' ∧ isQuote c = false) (u : List Char) :
    regionBehind .tag (cs ++ u) = regionBehind .tag u := by
  induction cs with
  | nil => rfl
  | cons c cs ih =>
    obtain ⟨⟨hne, hquote⟩, hcs⟩ := List.forall_mem_cons.1 h
    rw [List.cons_append, regionBehind, hquote]
    · exact ih hcs
    · exact hne

/-- Characters among which are no `>` and no quotes do not lead out of a tag. -/
theorem regionBehind_takeWhile {p : Char → Bool} (hclose : p '>' = false) (hdouble : p '"' = false)
    (hsingle : p '\'' = false) (hc : p c = true) (cs u : List Char) :
    regionBehind .tag (c :: cs.takeWhile p ++ u) = regionBehind .tag u := by
  refine regionBehind_tag (fun d hd => ?_) u
  have hd : p d = true := by
    rcases List.mem_cons.1 hd with rfl | hd
    · exact hc
    · exact List.mem_takeWhile_imp hd
  have hne {e : Char} (he : p e = false) : d ≠ e := by
    rintro rfl
    rw [he] at hd
    cases hd
  have hquote : isQuote d = false := by
    simp [isQuote, hne hdouble, hne hsingle]
  exact ⟨hne hclose, hquote⟩

/-- A value goes on up to the next quote of its kind. -/
theorem regionBehind_value (h : quote ∉ cs) (u : List Char) :
    regionBehind (.value quote) (cs ++ u) = regionBehind (.value quote) u := by
  induction cs with
  | nil => rfl
  | cons c cs ih =>
    rw [List.mem_cons, not_or] at h
    rw [List.cons_append, regionBehind, if_neg (Ne.symm h.1), ih h.2]

/-! ## Pieces -/

/-- A comment leads back to the content. -/
theorem regionBehind_commentPiece (hclosed : (commentPiece cs).unclosed = none)
    (hu : u <+: (commentPiece cs).rest) :
    regionBehind .content ((commentPiece cs).taken ++ u) =
      regionBehind (commentPiece cs).mode.region u := by
  revert hclosed hu
  fun_cases commentPiece cs with
  | case1 body rest hsplit => exact fun _ hu => regionBehind_closed hsplit hu
  | case2 => exact nofun

/-- A piece between tags leads to the region of its mode. -/
theorem regionBehind_contentPiece (hclosed : (contentPiece c cs).unclosed = none)
    (hu : u <+: (contentPiece c cs).rest) :
    regionBehind .content ((contentPiece c cs).taken ++ u) =
      regionBehind (contentPiece c cs).mode.region u := by
  generalize hpiece : contentPiece c cs = piece at *
  unfold contentPiece at hpiece
  split at hpiece
  · subst hpiece
    exact regionBehind_commentPiece hclosed hu
  · subst hpiece
    have hslash : ∀ c ∈ ['/'], c ≠ '>' ∧ isQuote c = false :=
      List.forall_mem_singleton.2 (by decide)
    exact regionBehind_tag hslash u
  · next hcomment _ =>
    subst hpiece
    rw [List.singleton_append, regionBehind]
    · rfl
    · rintro after rfl
      obtain ⟨rest, rfl⟩ := hu
      exact hcomment _ rfl
  · next hne _ _ =>
    subst hpiece
    exact regionBehind_text (not_mem_takeWhile_text hne cs) u

/-- A value leads back to the tag. -/
theorem regionBehind_valuePiece (hquote : isQuote c = true) (hne : c ≠ '>')
    (hclosed : (valuePiece c cs).unclosed = none) (u : List Char) :
    regionBehind .tag ((valuePiece c cs).taken ++ u) =
      regionBehind (valuePiece c cs).mode.region u := by
  revert hclosed
  fun_cases valuePiece c cs with
  | case1 body rest hsplit =>
    intro _
    have hopen : regionBehind .tag (c :: (body ++ c :: u)) =
        regionBehind (.value c) (body ++ c :: u) := by
      rw [regionBehind, if_pos hquote]
      exact hne
    have hclose : regionBehind (.value c) (c :: u) = regionBehind .tag u := by
      rw [regionBehind, if_pos rfl]
    rw [List.append_assoc, List.cons_append, List.singleton_append, hopen,
      regionBehind_value (not_mem_of_splitFirst? hsplit), hclose]
    rfl
  | case2 => exact nofun

/-- A piece of a tag leads to the region of its mode. -/
theorem regionBehind_tagPiece (hclosed : (tagPiece c cs).unclosed = none) (u : List Char) :
    regionBehind .tag ((tagPiece c cs).taken ++ u) =
      regionBehind (tagPiece c cs).mode.region u := by
  revert hclosed
  fun_cases tagPiece c cs with
  | case1 hblank => exact fun _ => regionBehind_takeWhile rfl rfl rfl hblank cs u
  | case2 | case3 | case4 => exact fun _ => rfl
  | case5 _ hne _ _ hquote => exact fun hclosed => regionBehind_valuePiece hquote hne hclosed u
  | case6 _ _ _ _ _ hname => exact fun _ => regionBehind_takeWhile rfl rfl rfl hname cs u
  | case7 _ hne _ _ hquote =>
    intro _
    have hplain : ∀ d ∈ [c], d ≠ '>' ∧ isQuote d = false :=
      List.forall_mem_singleton.2 ⟨hne, Bool.eq_false_iff.2 hquote⟩
    exact regionBehind_tag hplain u

/-- **Pieces.** A piece that is closed leads from the region of its mode to that of the next one,
however far the label is read behind it. -/
theorem regionBehind_taken {mode : Mode} (hclosed : (nextPiece mode c cs).unclosed = none)
    (hu : u <+: (nextPiece mode c cs).rest) :
    regionBehind mode.region ((nextPiece mode c cs).taken ++ u) =
      regionBehind (nextPiece mode c cs).mode.region u := by
  cases mode with
  | content => exact regionBehind_contentPiece hclosed hu
  | tag => exact regionBehind_tagPiece hclosed u

/-- Between tags, a piece that is not closed is a comment up to the end. -/
theorem contentPiece_unclosed {unclosed : Unclosed}
    (h : (contentPiece c cs).unclosed = some unclosed) :
    unclosed = .comment ∧ (contentPiece c cs).kind = none ∧ (contentPiece c cs).rest = [] ∧
      ∃ body, c :: cs = ['<', '!', '-', '-'] ++ body ∧ ¬ ['-', '-', '>'] <:+: body := by
  generalize hpiece : contentPiece c cs = piece at *
  unfold contentPiece at hpiece
  split at hpiece
  · next cs =>
    unfold commentPiece at hpiece
    split at hpiece
    · cases hpiece
      cases h
    · next hsplit =>
      cases hpiece
      cases h
      exact ⟨rfl, rfl, rfl, cs, rfl, splitComment?_eq_none hsplit⟩
  all_goals
    cases hpiece
    cases h

/-- In a tag, a piece that is not closed is a value up to the end. -/
theorem tagPiece_unclosed {unclosed : Unclosed} (h : (tagPiece c cs).unclosed = some unclosed) :
    unclosed = .value ∧ (tagPiece c cs).kind = some .value ∧ (tagPiece c cs).rest = [] ∧
      c ≠ '>' ∧ isQuote c = true ∧ c ∉ cs := by
  revert h
  fun_cases tagPiece c cs with
  | case1 | case2 | case3 | case4 | case6 | case7 => exact nofun
  | case5 _ hne _ _ hquote =>
    fun_cases valuePiece c cs with
    | case1 => exact nofun
    | case2 hsplit =>
      rintro ⟨⟩
      exact ⟨rfl, rfl, rfl, hne, hquote, not_mem_of_splitFirst?_eq_none hsplit⟩

/-- **Ends.** A piece that is not closed leads to the end of the label, in a comment or in a value
as it says. -/
theorem regionBehind_unclosed {mode : Mode} {unclosed : Unclosed}
    (h : (nextPiece mode c cs).unclosed = some unclosed) :
    (nextPiece mode c cs).rest = [] ∧
      (regionBehind mode.region (c :: cs)).unclosed? = some unclosed := by
  cases mode with
  | content =>
    obtain ⟨rfl, -, hrest, body, hbody, hinfix⟩ := contentPiece_unclosed h
    have hcomment : regionBehind .content (['<', '!', '-', '-'] ++ body) = .comment :=
      regionBehind_comment hinfix
    refine ⟨hrest, ?_⟩
    rw [hbody, Mode.region, hcomment]
    rfl
  | tag =>
    obtain ⟨rfl, -, hrest, hne, hquote, hmem⟩ := tagPiece_unclosed h
    have hvalue : regionBehind .tag (c :: cs) = .value c := by
      rw [regionBehind, if_pos hquote, ← List.append_nil cs, regionBehind_value hmem]
      · rfl
      · exact hne
    refine ⟨hrest, ?_⟩
    rw [Mode.region, hvalue]
    rfl

end DotAttributes.Markup
